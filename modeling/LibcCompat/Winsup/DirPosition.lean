/-
# `LibcCompat.Winsup.DirPosition` — the two positions of a stub directory

## What is proved

A stub directory has a position in its stream, which `telldir` gives, and the
offset of its descriptor.  Along a run in which `lseek` succeeds, no assert
fails and the two agree in every state exactly if no operation leaves the start:
every `_readdir_stub` finds the end of the stream, and every `_seekdir_stub`
goes to 0 (`inStep_iff`).

Elsewhere the two builds fail each in its own way.  With asserts,
`assert(!lseek(..))` takes the offset that `lseek` returns for an error; without
them, `lseek` is not called and the descriptor stays behind.

## How

As long as nothing went wrong, both positions are 0.  That is the invariant, and
an operation that moves the stream away from 0 shows at once.
-/
import LibcCompat.Lib.Run
import LibcCompat.Winsup.Dirent

namespace LibcCompat.Winsup

open LibcCompat.Lib

/-- A directory, open as a stream and by a descriptor: how many of its entries
the stream has consumed, and the offset of the descriptor. -/
structure OpenDir where
  entries : List Dirent
  pos : Nat
  off : Int
  errno : Errno

/-- The functions under a stub directory as POSIX describes them.  `stat` is what
`fstatat` answers; `lseek` fails for an offset below 0. -/
def posixDirs (stat : Answer) : Dirs OpenDir where
  malloc := pure true
  opendir _ := pure none
  readdir _ := fun s =>
    match s.entries[s.pos]? with
    | some d => .ok (some d) { s with pos := s.pos + 1 }
    | none => .ok none s
  rewinddir _ := modify fun s => { s with pos := 0 }
  telldir _ := fun s => .ok s.pos s
  seekdir _ loc := modify fun s => { s with pos := min loc.toNat s.entries.length }
  lseek _ offset whence := fun s =>
    let off := match whence with
      | .set => offset
      | .cur => s.off + offset
    if off < 0 then .ok (-1) s
    else .ok off { s with off }
  fstatat _ _ _ := pure stat
  setErrno e s := { s with errno := e }

/-! ## Runs -/

/-- A call on the stub directory, with what `fstatat` would answer and what the
two variables of `_readdir_stub` held before. -/
inductive DirOp where
  | readdir (stat : Answer) (res : DirentStub) (buf : Stat)
  | rewinddir
  | telldir
  | seekdir (loc : Int)

def DirOp.run (b : Build) (dirp : DirStub) : DirOp → Prog OpenDir PUnit
  | .readdir stat res buf => do
      let _entry ← readdirStub (posixDirs stat) b res buf (some dirp)
      return ⟨⟩
  | .rewinddir => rewinddirStub (posixDirs failed) b (some dirp)
  | .telldir => do
      let _loc ← telldirStub (posixDirs failed) (some dirp)
      return ⟨⟩
  | .seekdir loc => seekdirStub (posixDirs failed) b (some dirp) loc

structure DirRun where
  dir : OpenDir
  stopped : Option Stop

/-- The state a program leads to. -/
def DirRun.of : EStateM.Result Stop OpenDir PUnit → DirRun
  | .ok _ dir => ⟨dir, none⟩
  | .error why dir => ⟨dir, some why⟩

/-- A stopped program takes no further step. -/
def dirStep (b : Build) (dirp : DirStub) (c : DirRun) (op : DirOp) : DirRun :=
  match c.stopped with
  | some _ => c
  | none => .of (op.run b dirp c.dir)

/-- The directory as it is opened. -/
def DirRun.opened (entries : List Dirent) (errno : Errno) : DirRun := ⟨⟨entries, 0, 0, errno⟩, none⟩

/-- `lseek` succeeds: an offset is not negative. -/
def Seeks (_ : DirRun) : DirOp → Prop
  | .seekdir loc => 0 ≤ loc
  | _ => True

/-- No assert has failed, and `telldir` gives the offset of the descriptor. -/
def InStep (c : DirRun) : Prop := c.stopped = none ∧ c.dir.off = c.dir.pos

/-- The operation leaves the stream at its start; a directory without entries
has no other position. -/
def StaysPut (b : Build) (c : DirRun) (op : DirOp) : Prop :=
  c.stopped = none →
    match op with
    | .readdir _ _ _ => c.dir.entries.length ≤ c.dir.pos
    | .seekdir loc => loc = 0 ∨ (b = .ndebug ∧ c.dir.entries = [])
    | _ => True

/-! ## One call -/

section
variable {b : Build} {stream : DirPtr} {fd : Fd} {s : OpenDir}

theorem lseek_set (stat : Answer) {loc : Int} (hloc : 0 ≤ loc) :
    (posixDirs stat).lseek fd loc .set s = .ok loc { s with off := loc } := by
  simp only [posixDirs, if_neg (Int.not_lt.mpr hloc)]

theorem lseek_cur (stat : Answer) (fd : Fd) (hoff : 0 ≤ s.off) :
    (posixDirs stat).lseek fd 1 .cur s = .ok (s.off + 1) { s with off := s.off + 1 } := by
  have hpos : ¬ s.off + 1 < 0 := by omega
  simp only [posixDirs, if_neg hpos]

theorem rewinddir_run (hfd : 0 ≤ fd) (hoff : s.off = 0) :
    DirOp.rewinddir.run b ⟨some stream, fd⟩ s = .ok ⟨⟩ { s with pos := 0 } := by
  simp only [DirOp.run, rewinddirStub, moveBoth_open hfd]
  cases b with
  | debug =>
      show assertLseek (posixDirs failed) .debug fd 0 .set { s with pos := 0 } = _
      rw [assertLseek_debug (lseek_set failed (Int.le_refl 0)), if_pos rfl, ← hoff]
  | ndebug => rfl

theorem seekdir_run_debug (hfd : 0 ≤ fd) {loc : Int} (hloc : 0 ≤ loc) :
    (DirOp.seekdir loc).run .debug ⟨some stream, fd⟩ s =
      if loc = 0 then .ok ⟨⟩ { s with pos := min loc.toNat s.entries.length, off := loc }
      else .error .aborted { s with pos := min loc.toNat s.entries.length, off := loc } := by
  simp only [DirOp.run, seekdirStub, moveBoth_open hfd]
  show assertLseek (posixDirs failed) .debug fd loc .set
    { s with pos := min loc.toNat s.entries.length } = _
  rw [assertLseek_debug (lseek_set failed hloc)]

theorem seekdir_run_ndebug (hfd : 0 ≤ fd) (loc : Int) :
    (DirOp.seekdir loc).run .ndebug ⟨some stream, fd⟩ s =
      .ok ⟨⟩ { s with pos := min loc.toNat s.entries.length } := by
  simp only [DirOp.run, seekdirStub, moveBoth_open hfd]
  rfl

variable {stat : Answer} {res : DirentStub} {buf : Stat}

theorem readdir_run_end (hfd : 0 ≤ fd) (hend : s.entries.length ≤ s.pos) :
    (DirOp.readdir stat res buf).run b ⟨some stream, fd⟩ s = .ok ⟨⟩ s := by
  have hread : (posixDirs stat).readdir stream s = .ok none s := by
    simp only [posixDirs, List.getElem?_eq_none hend]
  simp only [DirOp.run, bind_apply, readdirStub_none hfd hread, pure_apply]

theorem readdir_some (stat : Answer) (hmore : s.pos < s.entries.length) :
    (posixDirs stat).readdir stream s =
      .ok (some s.entries[s.pos]) { s with pos := s.pos + 1 } := by
  simp only [posixDirs, List.getElem?_eq_getElem hmore]

/-- With asserts, an entry that is there fails one of them. -/
theorem readdir_run_debug (hfd : 0 ≤ fd) (hoff : 0 ≤ s.off) (hmore : s.pos < s.entries.length) :
    ∃ t, (DirOp.readdir stat res buf).run .debug ⟨some stream, fd⟩ s = .error .aborted t := by
  have hstat : assertStat (posixDirs stat) .debug fd s.entries[s.pos] buf
      { s with pos := s.pos + 1 } = if stat.ret < 0 then .error .aborted { s with pos := s.pos + 1 }
        else .ok stat.stat { s with pos := s.pos + 1 } :=
    assertStat_debug rfl
  simp only [DirOp.run, bind_apply, readdirStub_some hfd (readdir_some stat hmore), hstat]
  rcases Int.lt_or_le stat.ret 0 with hlt | hge
  · simp only [if_pos hlt]
    exact ⟨_, rfl⟩
  · obtain ⟨name, hclone, -⟩ := cloneEntry_eq res s.entries[s.pos] (typeOf stat.stat.mode)
    have hne : s.off + 1 ≠ 0 := by omega
    have hseek := assertLseek_debug (lseek_cur (s := { s with pos := s.pos + 1 }) stat fd hoff)
    simp only [if_neg (Int.not_lt.mpr hge), hclone, bind_apply, hseek, if_neg hne]
    exact ⟨_, rfl⟩

/-- Without them, the stream goes on and the descriptor does not. -/
theorem readdir_run_ndebug (hfd : 0 ≤ fd) (hmore : s.pos < s.entries.length) :
    (DirOp.readdir stat res buf).run .ndebug ⟨some stream, fd⟩ s =
      .ok ⟨⟩ { s with pos := s.pos + 1 } := by
  obtain ⟨name, hclone, -⟩ := cloneEntry_eq res s.entries[s.pos] (typeOf buf.mode)
  simp only [DirOp.run, bind_apply, readdirStub_some hfd (readdir_some stat hmore), assertStat,
    pure_apply, hclone, assertLseek]

end

/-! ## One step -/

/-- Both positions are 0. -/
structure AtStart (c : DirRun) : Prop where
  running : c.stopped = none
  pos : c.dir.pos = 0
  off : c.dir.off = 0

theorem AtStart.inStep {c : DirRun} (h : AtStart c) : InStep c :=
  ⟨h.running, by rw [h.pos, h.off]; rfl⟩

section
variable {b : Build} {stream : DirPtr} {fd : Fd} {c : DirRun} {op : DirOp}

theorem dirStep_running (dirp : DirStub) (h : c.stopped = none) :
    dirStep b dirp c op = .of (op.run b dirp c.dir) := by
  simp only [dirStep, h]

theorem AtStart.step (hfd : 0 ≤ fd) (h : AtStart c) (hok : Seeks c op) (hgood : StaysPut b c op) :
    AtStart (dirStep b ⟨some stream, fd⟩ c op) := by
  rw [dirStep_running _ h.running]
  have hgood := hgood h.running
  cases op with
  | readdir stat res buf =>
      rw [readdir_run_end hfd hgood]
      exact ⟨rfl, h.pos, h.off⟩
  | rewinddir =>
      rw [rewinddir_run hfd h.off]
      exact ⟨rfl, rfl, h.off⟩
  | telldir => exact ⟨rfl, h.pos, h.off⟩
  | seekdir loc =>
      cases b with
      | debug =>
          have hloc : loc = 0 := hgood.resolve_right fun hnd => nomatch hnd.1
          rw [seekdir_run_debug hfd hok, if_pos hloc, hloc]
          exact ⟨rfl, Nat.zero_min _, rfl⟩
      | ndebug =>
          rw [seekdir_run_ndebug hfd]
          refine ⟨rfl, ?_, h.off⟩
          show min loc.toNat c.dir.entries.length = 0
          rcases hgood with hloc | ⟨_, hentries⟩
          · rw [hloc]
            exact Nat.zero_min _
          · rw [hentries]
            exact Nat.min_zero _

/-- An operation that leaves the start fails an assert, or leaves the descriptor
behind. -/
theorem AtStart.breaks (hfd : 0 ≤ fd) (h : AtStart c) (hok : Seeks c op)
    (hbad : ¬ StaysPut b c op) : ¬ InStep (dirStep b ⟨some stream, fd⟩ c op) := by
  have hbad := (Classical.not_imp.mp hbad).2
  rw [dirStep_running _ h.running]
  cases op with
  | readdir stat res buf =>
      have hmore : c.dir.pos < c.dir.entries.length := Nat.not_le.mp hbad
      cases b with
      | debug =>
          have haborts : ∃ t, (DirOp.readdir stat res buf).run .debug ⟨some stream, fd⟩ c.dir =
              .error .aborted t :=
            readdir_run_debug hfd (Int.le_of_eq h.off.symm) hmore
          obtain ⟨t, hrun⟩ := haborts
          rw [hrun]
          rintro ⟨hs, -⟩
          cases hs
      | ndebug =>
          rw [readdir_run_ndebug hfd hmore]
          rintro ⟨-, hpos⟩
          have hpos : c.dir.off = (c.dir.pos + 1 : Nat) := hpos
          have := h.off
          omega
  | rewinddir => exact absurd trivial hbad
  | telldir => exact absurd trivial hbad
  | seekdir loc =>
      have hloc : loc ≠ 0 := fun heq => hbad (.inl heq)
      cases b with
      | debug =>
          rw [seekdir_run_debug hfd hok, if_neg hloc]
          rintro ⟨hs, -⟩
          cases hs
      | ndebug =>
          have hentries : c.dir.entries.length ≠ 0 := fun hlen =>
            hbad (.inr ⟨rfl, List.eq_nil_of_length_eq_zero hlen⟩)
          rw [seekdir_run_ndebug hfd]
          rintro ⟨-, hpos⟩
          have hpos : c.dir.off = (min loc.toNat c.dir.entries.length : Nat) := hpos
          have hoff := h.off
          have hloc' : 0 ≤ loc := hok
          omega

end

/-! ## Runs -/

/-- **The two positions.**  Along a run on an open stub directory in which `lseek`
succeeds, no assert fails and the offset of the descriptor is what `telldir`
gives, in every state, exactly if no operation leaves the start of the stream. -/
theorem inStep_iff {b : Build} {stream : DirPtr} {fd : Fd} (hfd : 0 ≤ fd)
    {entries : List Dirent} {errno : Errno} {ops : List DirOp} {c : DirRun}
    (h : Run Seeks (dirStep b ⟨some stream, fd⟩) (.opened entries errno) ops c) :
    (∀ pre, pre <+: ops →
        InStep (pre.foldl (dirStep b ⟨some stream, fd⟩) (.opened entries errno))) ↔
      Run (StaysPut b) (dirStep b ⟨some stream, fd⟩) (.opened entries errno) ops c :=
  h.always_iff (P := AtStart) (fun _ hc => hc.inStep)
    (fun _ _ hc hok hgood => hc.step hfd hok hgood)
    (fun _ _ hc hok hbad => hc.breaks hfd hok hbad) ⟨rfl, rfl, rfl⟩

/-- The variables of `_readdir_stub` as the program starts. -/
def zeroStub : DirentStub := ⟨0, 0, 0, 0, Vector.replicate FILENAME_MAX 0⟩

/-- The stub directory of descriptor 3. -/
def dirThree : DirStub := ⟨some 0x1000, 3⟩

/-- A directory without entries, read to its end and from there on. -/
def emptyDirOps : List DirOp :=
  [.readdir failed zeroStub {}, .telldir, .seekdir 0, .readdir failed zeroStub {}, .rewinddir]

/-- A directory with one entry. -/
def oneEntry : List Dirent := [.named [0x61] (by decide) (by decide)]

/-- A stream is told, and sought and rewound to its start. -/
def startOps : List DirOp := [.telldir, .seekdir 0, .rewinddir, .telldir]

theorem inStep_iff_atStart :
    (∀ pre, pre <+: startOps →
      InStep (pre.foldl (dirStep .debug dirThree) (.opened oneEntry .EBADF))) ∧
    ∀ pre, pre <+: emptyDirOps →
      InStep (pre.foldl (dirStep .debug dirThree) (.opened [] .EBADF)) := by
  constructor
  · have hok : Run Seeks (dirStep .debug dirThree) (.opened oneEntry .EBADF) startOps _ :=
      .cons trivial (.cons (Int.le_refl 0) (.cons trivial (.cons trivial (.nil _))))
    refine (inStep_iff (by decide) hok).mpr ?_
    exact .cons (fun _ => trivial) (.cons (fun _ => .inl rfl) (.cons (fun _ => trivial)
      (.cons (fun _ => trivial) (.nil _))))
  · have hok : Run Seeks (dirStep .debug dirThree) (.opened [] .EBADF) emptyDirOps _ :=
      .cons trivial (.cons trivial (.cons (Int.le_refl 0) (.cons trivial
        (.cons trivial (.nil _)))))
    refine (inStep_iff (by decide) hok).mpr ?_
    exact .cons (fun _ => Nat.le_refl 0) (.cons (fun _ => trivial) (.cons (fun _ => .inl rfl)
      (.cons (fun _ => Nat.le_refl 0) (.cons (fun _ => trivial) (.nil _)))))

/-- The first entry that is read, and the first seek away from the start, break the
agreement in both builds. -/
theorem firstEntry_breaks :
    (¬ InStep (dirStep .debug dirThree (.opened oneEntry .EBADF)
        (.readdir (.of 0) zeroStub {})) ∧
      ¬ InStep (dirStep .debug dirThree (.opened oneEntry .EBADF) (.seekdir 1))) ∧
    (¬ InStep (dirStep .ndebug dirThree (.opened oneEntry .EBADF)
        (.readdir (.of 0) zeroStub {})) ∧
      ¬ InStep (dirStep .ndebug dirThree (.opened oneEntry .EBADF) (.seekdir 1))) := by
  have hstart : AtStart (.opened oneEntry .EBADF) := ⟨rfl, rfl, rfl⟩
  have hread : ∀ b, ¬ StaysPut b (.opened oneEntry .EBADF) (.readdir (.of 0) zeroStub {}) := by
    intro b h
    exact Nat.not_succ_le_zero 0 (h rfl)
  have hseek : ∀ b, ¬ StaysPut b (.opened oneEntry .EBADF) (.seekdir 1) := by
    intro b h
    rcases h rfl with hloc | ⟨_, hentries⟩
    · cases hloc
    · cases hentries
  have hfd : (0 : Fd) ≤ 3 := by decide
  have hone : (0 : Int) ≤ 1 := by decide
  exact ⟨⟨hstart.breaks hfd trivial (hread _), hstart.breaks hfd hone (hseek _)⟩,
    hstart.breaks hfd trivial (hread _), hstart.breaks hfd hone (hseek _)⟩

end LibcCompat.Winsup
