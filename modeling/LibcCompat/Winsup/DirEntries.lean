/-
# `LibcCompat.Winsup.DirEntries` — the name and the type of an entry

## What is proved

*The name.*  `strlcpy` is told that the destination has room for `d_namlen`
bytes.  That is the length of the name without its terminator, and `strlcpy`
keeps one byte of the room for the terminator; so the last character of every
name is missing (`readdir_cutsName`).

*The type.*  It is read from what `fstatat` stored, and `fstatat` is called
inside `assert`.  Without asserts the type is whatever the stack holds; with
them it is right whenever an entry is returned, which takes an `lseek` that
answers 0 (`entryType_iff`).
-/
import LibcCompat.Lib.Frame
import LibcCompat.Lib.Keyed
import LibcCompat.Winsup.DirPosition

namespace LibcCompat.Winsup

open LibcCompat.Lib

variable {σ : Type} {D : Dirs σ} {b : Build} {stream : DirPtr} {fd : Fd} {res : DirentStub}
  {buf : Stat} {s t u : σ} {d : Dirent} {entry : DirentStub}

/-! ## What is returned -/

theorem readdirStub_clone (hfd : 0 ≤ fd) (hread : D.readdir stream s = .ok (some d) t)
    (hret : readdirStub D b res buf (some ⟨some stream, fd⟩) s = .ok (some entry) u) :
    ∃ type, cloneEntry res d type = some entry := by
  rw [readdirStub_some hfd hread] at hret
  obtain ⟨buf', t', -, hrest⟩ := bind_ok hret
  refine ⟨typeOf buf'.mode, ?_⟩
  obtain ⟨name, hclone, -⟩ := cloneEntry_eq res d (typeOf buf'.mode)
  rw [hclone] at hrest ⊢
  obtain ⟨-, _, -, hpure⟩ := bind_ok hrest
  cases hpure
  rfl

/-- Without asserts an entry is returned, with the type found on the stack. -/
theorem readdirStub_ndebug (res : DirentStub) (buf : Stat) (hfd : 0 ≤ fd)
    (hread : D.readdir stream s = .ok (some d) t) :
    ∃ entry, readdirStub D .ndebug res buf (some ⟨some stream, fd⟩) s = .ok (some entry) t ∧
      entry.type = typeOf buf.mode := by
  obtain ⟨name, hclone, -⟩ := cloneEntry_eq res d (typeOf buf.mode)
  rw [readdirStub_some hfd hread]
  simp only [assertStat, bind_apply, pure_apply, hclone, assertLseek]
  exact ⟨_, rfl, rfl⟩

/-- With asserts the type is that of the entry, and `lseek` decides whether an
entry is returned. -/
theorem readdirStub_debug (res : DirentStub) (buf : Stat) {stat : Answer} {t' : σ} (hfd : 0 ≤ fd)
    (hread : D.readdir stream s = .ok (some d) t)
    (hstat : D.fstatat fd d.text AT_SYMLINK_NOFOLLOW t = .ok stat t') (hret : 0 ≤ stat.ret) :
    ∃ entry, entry.type = typeOf stat.stat.mode ∧
      readdirStub D .debug res buf (some ⟨some stream, fd⟩) s = (do
        assertLseek D .debug fd 1 .cur
        return some entry : Prog σ (Option DirentStub)) t' := by
  obtain ⟨name, hclone, -⟩ := cloneEntry_eq res d (typeOf stat.stat.mode)
  rw [readdirStub_some hfd hread]
  simp only [bind_apply, assertStat_debug hstat, if_neg (Int.not_lt.mpr hret), hclone]
  exact ⟨_, rfl, rfl⟩

theorem assertLseek_ok_iff {loc : Int} {whence : Whence} :
    (∃ u, assertLseek D .debug fd loc whence s = .ok ⟨⟩ u) ↔
      ∃ u, D.lseek fd loc whence s = .ok 0 u := by
  constructor
  · rintro ⟨u, h⟩
    obtain ⟨off, t, hseek, hrest⟩ := bind_ok h
    split at hrest
    · next hzero => exact ⟨t, hzero ▸ hseek⟩
    · cases hrest
  · rintro ⟨u, h⟩
    exact ⟨u, by rw [assertLseek_debug h, if_pos rfl]⟩

/-! ## The name -/

/-- The name in full, and `d_namlen` its length. -/
structure SameName (name : Path) (entry : DirentStub) : Prop where
  holds : HoldsString entry.name.toList name
  namlen : strlen entry.name.toList = some entry.namlen.toNat

theorem Dirent.length_lt (d : Dirent) : d.text.length < FILENAME_MAX := by
  have h := d.holds.bytes.length_le
  rw [List.length_append, List.length_singleton, Vector.length_toList] at h
  exact h

/-- **Names are cut.**  Of an entry whose `d_namlen` is the length of its name,
`_readdir_stub` returns the name without its last character. -/
theorem readdir_cutsName (hfd : 0 ≤ fd) (hread : D.readdir stream s = .ok (some d) t)
    (hlen : 1 ≤ d.text.length) (hnamlen : d.namlen.toNat = d.text.length)
    (hret : readdirStub D b res buf (some ⟨some stream, fd⟩) s = .ok (some entry) u) :
    HoldsString entry.name.toList d.text.dropLast ∧ entry.namlen = d.namlen ∧
      ¬ SameName d.text entry := by
  obtain ⟨type, hclone⟩ := readdirStub_clone hfd hread hret
  obtain ⟨name, hname, hset⟩ := cloneEntry_eq res d type
  rw [hname] at hclone
  obtain rfl := Option.some.inj hclone
  have hne : d.namlen ≠ 0 := by
    intro hzero
    rw [hzero, UInt16.toNat_zero] at hnamlen
    omega
  have hroom : min FILENAME_MAX d.namlen.toNat - 1 = d.text.length - 1 := by
    rw [hnamlen, Nat.min_eq_right (Nat.le_of_lt d.length_lt)]
  have hcut := hset hne
  rw [hroom, ← List.dropLast_eq_take] at hcut
  refine ⟨hcut, ?_, ?_⟩
  · rw [← hnamlen]
    exact UInt16.ofNat_toNat
  · intro hsame
    have heq := hsame.holds.unique hcut
    have hlen' := congrArg List.length heq
    rw [List.length_dropLast] at hlen'
    omega

/-! ## The type -/

/-- The seven types with their constants. -/
def fileTypes : List (ModeT × UInt8) :=
  [(S_IFREG, DT_REG), (S_IFLNK, DT_LNK), (S_IFDIR, DT_DIR), (S_IFIFO, DT_FIFO),
   (S_IFSOCK, DT_SOCK), (S_IFBLK, DT_BLK), (S_IFCHR, DT_CHR)]

/-- The constant of the type a mode has; `DT_UNKNOWN` if it has none of the seven. -/
def IsType (mode : ModeT) (type : UInt8) : Prop :=
  (mode &&& S_IFMT, type) ∈ fileTypes ∨
    (type = DT_UNKNOWN ∧ ∀ p ∈ fileTypes, p.1 ≠ mode &&& S_IFMT)

theorem isType_typeOf (mode : ModeT) : IsType mode (typeOf mode) := by
  unfold typeOf
  split
  · next h => exact .inl (by rw [h]; decide)
  split
  · next h => exact .inl (by rw [beq_iff_eq.mp h]; decide)
  split
  · next h => exact .inl (by rw [beq_iff_eq.mp h]; decide)
  split
  · next h => exact .inl (by rw [h]; decide)
  split
  · next h => exact .inl (by rw [h]; decide)
  split
  · next h => exact .inl (by rw [h]; decide)
  split
  · next h => exact .inl (by rw [h]; decide)
  · next hreg hlnk hdir hifo hsock hblk hchr =>
      refine .inr ⟨rfl, ?_⟩
      simp only [fileTypes, List.forall_mem_cons]
      simp only [isLnk, isDir, beq_iff_eq] at hlnk hdir
      exact ⟨Ne.symm hreg, Ne.symm hlnk, Ne.symm hdir, Ne.symm hifo, Ne.symm hsock, Ne.symm hblk,
        Ne.symm hchr, nofun⟩

theorem IsType.unique {mode : ModeT} {x y : UInt8} (hx : IsType mode x) (hy : IsType mode y) :
    x = y := by
  have hkeys : (fileTypes.map Prod.fst).Nodup := by decide
  rcases hx with hx | ⟨rfl, hnone⟩
  · rcases hy with hy | ⟨rfl, hnone⟩
    · have hx' : fileTypes.find? (·.1 == mode &&& S_IFMT) = some (mode &&& S_IFMT, x) :=
        find?_eq_some_of_nodup hkeys hx
      have hy' : fileTypes.find? (·.1 == mode &&& S_IFMT) = some (mode &&& S_IFMT, y) :=
        find?_eq_some_of_nodup hkeys hy
      exact congrArg Prod.snd (Option.some.inj (hx'.symm.trans hy'))
    · exact absurd rfl (hnone _ hx)
  · rcases hy with hy | ⟨rfl, -⟩
    · exact absurd rfl (hnone _ hy)
    · rfl

theorem isType_iff {mode : ModeT} {type : UInt8} : IsType mode type ↔ type = typeOf mode := by
  constructor
  · intro h
    exact h.unique (isType_typeOf mode)
  · rintro rfl
    exact isType_typeOf mode

theorem exists_typeOf_ne (type : UInt8) : ∃ mode, typeOf mode ≠ type := by
  by_cases h : typeOf S_IFREG = type
  · exact ⟨S_IFDIR, by rw [← h]; decide⟩
  · exact ⟨S_IFREG, h⟩

/-- **The type of an entry.**  For an entry that `fstatat` can examine: one with
the type of its mode is returned, whatever is on the stack, exactly if asserts
are evaluated and `lseek` answers 0; and one that is returned has that type,
whatever is on the stack, exactly if asserts are evaluated. -/
theorem entryType_iff {stat : Answer} {t' : σ} (hfd : 0 ≤ fd)
    (hread : D.readdir stream s = .ok (some d) t)
    (hstat : D.fstatat fd d.text AT_SYMLINK_NOFOLLOW t = .ok stat t') (hret : 0 ≤ stat.ret) :
    ((∀ buf, ∃ entry u, readdirStub D b res buf (some ⟨some stream, fd⟩) s = .ok (some entry) u ∧
        IsType stat.stat.mode entry.type) ↔
      b = .debug ∧ ∃ u, D.lseek fd 1 .cur t' = .ok 0 u) ∧
    ((∀ buf entry u, readdirStub D b res buf (some ⟨some stream, fd⟩) s = .ok (some entry) u →
        IsType stat.stat.mode entry.type) ↔
      b = .debug) := by
  simp only [isType_iff]
  cases b with
  | debug =>
      refine ⟨?_, iff_of_true ?_ rfl⟩
      · simp only [true_and]
        constructor
        · intro hall
          obtain ⟨entry, u, hrun, -⟩ := hall {}
          obtain ⟨entry', -, heq⟩ := readdirStub_debug res {} hfd hread hstat hret
          rw [heq] at hrun
          obtain ⟨_, u', hseek, -⟩ := bind_ok hrun
          exact assertLseek_ok_iff.mp ⟨u', hseek⟩
        · intro hseek buf
          obtain ⟨entry, htype, heq⟩ := readdirStub_debug res buf hfd hread hstat hret
          obtain ⟨u, hok⟩ := assertLseek_ok_iff.mpr hseek
          exact ⟨entry, u, by rw [heq, bind_apply, hok]; rfl, htype⟩
      · intro buf entry u hrun
        obtain ⟨entry', htype, heq⟩ := readdirStub_debug res buf hfd hread hstat hret
        rw [heq] at hrun
        obtain ⟨_, u', -, hpure⟩ := bind_ok hrun
        cases hpure
        exact htype
  | ndebug =>
      obtain ⟨mode, hmode⟩ := exists_typeOf_ne (typeOf stat.stat.mode)
      obtain ⟨entry, hrun, htype⟩ := readdirStub_ndebug res { mode } hfd hread
      refine ⟨iff_of_false ?_ (by rintro ⟨h, -⟩; cases h), iff_of_false ?_ (by rintro ⟨⟩)⟩
      · intro hall
        obtain ⟨entry', u, hrun', htype'⟩ := hall { mode }
        rw [hrun] at hrun'
        cases hrun'
        exact hmode (htype.symm.trans htype')
      · intro hall
        exact hmode (htype.symm.trans (hall { mode } entry t hrun))

/-! ## A directory -/

/-- The entry every directory has, and two with names of one length. -/
def threeEntries : List Dirent :=
  [.named [0x2E] (by decide) (by decide), .named [0x61, 0x31] (by decide) (by decide),
   .named [0x61, 0x32] (by decide) (by decide)]

/-- The directory, with `pos` entries read. -/
def threeAt (pos : Nat) : OpenDir := ⟨threeEntries, pos, 0, .EBADF⟩

/-- `fstatat` reports a directory. -/
def statDir : Answer := { ret := 0, stat := { mode := S_IFDIR } }

/-- What is returned of the entry at `pos`, where the stack has the mode of a
regular file. -/
def entryAt (b : Build) (pos : Nat) : Option DirentStub :=
  match readdirStub (posixDirs statDir) b zeroStub { mode := S_IFREG } (some dirThree)
      (threeAt pos) with
  | .ok entry _ => entry
  | .error _ _ => none

theorem readdir_cutsName_second : ∃ entry u,
    readdirStub (posixDirs statDir) .ndebug zeroStub {} (some dirThree) (threeAt 1) =
        .ok (some entry) u ∧
      HoldsString entry.name.toList [0x61] ∧ ¬ SameName [0x61, 0x31] entry := by
  have hfd : (0 : Fd) ≤ 3 := by decide
  have hread : (posixDirs statDir).readdir 0x1000 (threeAt 1) =
      .ok (some (.named [0x61, 0x31] (by decide) (by decide))) (threeAt 2) := rfl
  obtain ⟨entry, hret, -⟩ := readdirStub_ndebug zeroStub {} hfd hread
  obtain ⟨hcut, -, hnot⟩ := readdir_cutsName hfd hread (by decide) (by decide) hret
  exact ⟨entry, _, hret, hcut, hnot⟩

/-- `.` comes out as the empty name, and `a1` and `a2` come out as the same. -/
theorem names_cut :
    (∃ entry, entryAt .ndebug 0 = some entry ∧ ¬ SameName [0x2E] entry ∧
      strlen entry.name.toList = some 0) ∧
    (entryAt .ndebug 1).map (·.name) = (entryAt .ndebug 2).map (·.name) := by
  have hnames : ((entryAt .ndebug 1).map (·.name)).map Vector.toList =
      ((entryAt .ndebug 2).map (·.name)).map Vector.toList := by decide +kernel
  refine ⟨?_, Option.map_injective (fun _ _ => Vector.toList_inj.mp) hnames⟩
  obtain ⟨entry, hentry, hlen⟩ := Option.map_eq_some_iff.mp
    (show (entryAt .ndebug 0).map (fun e => strlen e.name.toList) = some (some 0) by
      decide +kernel)
  refine ⟨entry, hentry, ?_, hlen⟩
  intro hsame
  have hone := hsame.holds.strlen_eq
  rw [hlen] at hone
  cases hone

theorem entryType_iff_second :
    (posixDirs statDir).fstatat 3 [0x61, 0x31] AT_SYMLINK_NOFOLLOW (threeAt 2) =
        .ok statDir (threeAt 2) ∧
      ∀ buf entry u,
        readdirStub (posixDirs statDir) .debug zeroStub buf (some dirThree) (threeAt 1) =
          .ok (some entry) u → IsType S_IFDIR entry.type := by
  have hfd : (0 : Fd) ≤ 3 := by decide
  have hread : (posixDirs statDir).readdir 0x1000 (threeAt 1) =
      .ok (some (.named [0x61, 0x31] (by decide) (by decide))) (threeAt 2) := rfl
  exact ⟨rfl, (entryType_iff hfd hread rfl (by decide)).2.mpr rfl⟩

/-- Without asserts a directory comes out as a regular file; with them it does not
come out. -/
theorem types_stale :
    (entryAt .ndebug 1).map (·.type) = some DT_REG ∧ ¬ IsType S_IFDIR DT_REG ∧
      (entryAt .debug 1).isNone = true := by
  refine ⟨by decide +kernel, ?_, by decide +kernel⟩
  rw [isType_iff]
  decide

end LibcCompat.Winsup
