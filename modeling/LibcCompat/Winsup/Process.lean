/-
# `LibcCompat.Winsup.Process` — who owns the descriptors of the process

## What is proved

A program opens and closes, in any order, through `open.c`, `file.c`, `dirent.c`
and `openat`; it closes only what it has, and does not touch the descriptor of a
stream or of a stub directory.  Along every such run (`owners_account`):

* each descriptor it has got is open and bound to an open handle that is no other
  descriptor's; it belongs to one party, to the program, to one open directory
  stream, or to one open stream, which has it as its descriptor; or it belongs to
  nobody, because the `fopen` that opened it failed and has lost it;
* all else in the tables of the process is as it was at the start.

So nothing of the process is closed behind its back, and when all that was got is
closed again, and none of it lost, the process is back where it started
(`owners_none`).  Nobody can close what `fopen` has lost; `noneLost_iff` says when
that is nothing.

## How

Three moves make up all the calls: a descriptor is acquired (`Acquires`), it
changes its owner, with or without a stream of its own, and it is released.
-/
import LibcCompat.Lib.Holdings
import LibcCompat.Winsup.FopenFails
import LibcCompat.Winsup.NoLeak

namespace LibcCompat.Winsup

open LibcCompat.Lib

/-! ## The calls -/

/-- What a descriptor belongs to; `lost` is what a failed `fopen` leaves. -/
inductive Owner where
  | client
  | dir (p : DirPtr)
  | stream (fp : FilePtr)
  | lost
deriving DecidableEq, Repr

abbrev Owners := Fd → Option Owner

structure Process where
  host : Host
  owner : Owners

inductive FdOp where
  | openFile (path : Path) (oflag : UInt32) (mode : Option ModeT)
  | creat (path : Path) (mode : ModeT)
  | openat (m : Heap) (dirfd : Fd) (path : Path) (flags mode : UInt32)
  | close (fd : Fd)
  | fopen (path : Path) (mode : CStr)
  | fdopen (fd : Fd) (mode : CStr)
  | opendir (path : Path)
  | fdopendir (fd : Fd)
  | closedir (stub : DirStub)
  | inspect (op : PathOp)

section
variable (O : Outside) (b : Build) (D : Dirs Host)

/-- The functions `openat` is built on: its `open` is that of the process. -/
def openSys : Sys Host :=
  { hostSys O b with
    call := fun
      | .open path oflag mode => do
          let fd ← wrapOpen O b path oflag mode
          return .of (fd.getD (-1))
      | c => (hostSys O b).call c }

/-- A result that is a descriptor, or a failure. -/
def Answer.fd (answer : Answer) : Option Fd := if answer.ret < 0 then none else some answer.ret

/-- `openat` in the process. -/
def openatFd (m : Heap) (dirfd : Fd) (path : Path) (flags mode : UInt32) :
    Prog Host (Option Fd) := do
  let answer ← openat (openSys O b) b m dirfd path flags mode
  return answer.fd

/-- The descriptor `fopen` opens on its way to a stream. -/
def fopenFd (path : Path) (mode : CStr) (s : Host) : Option Fd :=
  match fmodeflags mode with
  | none => none
  | some flags =>
      match wrapOpen O b path flags (createMode flags) s with
      | .ok r _ => r
      | .error _ _ => none

/-- The owners after a call that answers with a new descriptor. -/
def Owners.gain (owner : Owners) : Option Fd → Owners
  | some fd => Function.update owner fd (some .client)
  | none => owner

/-- The owners after a call that answers with a stub directory. -/
def Owners.gainDir (owner : Owners) : Option DirStub → Owners
  | some ⟨some p, fd⟩ => Function.update owner fd (some (.dir p))
  | _ => owner

/-- A call, which answers with the owners after it. -/
def FdOp.run (owner : Owners) : FdOp → Prog Host Owners
  | .openFile path oflag mode => do return owner.gain (← wrapOpen O b path oflag mode)
  | .creat path mode => do return owner.gain (← wrapCreat O b path mode)
  | .openat m dirfd path flags mode => do
      return owner.gain (← openatFd O b m dirfd path flags mode)
  | .close fd => do
      closeFd fd
      return Function.update owner fd none
  | .fopen path mode => do
      let s ← get
      let r ← wrapFopen O b path mode
      match fopenFd O b path mode s with
      | none => return owner
      | some fd => return Function.update owner fd (some (r.elim .lost .stream))
  | .fdopen fd mode => do
      match ← wrapFdopen O fd mode with
      | none => return owner
      | some fp => return Function.update owner fd (some (.stream fp))
  | .opendir path => do
      return owner.gainDir (← opendirStub (hostFds O b) (hostDirs O D) path)
  | .fdopendir fd => do
      return owner.gainDir (← Winsup.fdopendir (hostSys O b) (hostDirs O D) fd)
  | .closedir stub => do
      let _ ← closedirStub (hostFds O b) (hostDirs O D) (some stub)
      return Function.update owner stub.fd none
  | .inspect op => do
      let _ ← zoom Host.onWin (op.run O.toEnv b)
      return owner

def processStep (x : Process) (op : FdOp) : Process :=
  match op.run O b D x.owner x.host with
  | .ok owner host => ⟨host, owner⟩
  | .error _ host => ⟨host, x.owner⟩

/-- The program closes, and hands over, only what belongs to it. -/
def Process.Entitled (x : Process) : FdOp → Prop
  | .close fd => x.owner fd = some .client
  | .fdopen fd _ => x.owner fd = some .client
  | .fdopendir fd => x.owner fd = some .client
  | .closedir stub => ∃ p, stub.dirp = some p ∧ x.owner stub.fd = some (.dir p)
  | _ => True

/-- A `readlink` of the call gets past its open, and leaves a descriptor behind. -/
def FdOp.opensLink (s : Host) : FdOp → Bool
  | .openat m dirfd path _ _ => resolveOpens O.toEnv b m dirfd path (fun _ _ => false) s.win
  | .fdopendir fd => fstatOpens O.toEnv fd s.win
  | .inspect op => op.opensLink O.toEnv b s.win
  | _ => false

/-- The calls in question; none of them ends the process. -/
structure Process.Allows (x : Process) (op : FdOp) : Prop where
  entitled : x.Entitled op
  stays : op.opensLink O b x.host = false
  returns : after (op.run O b D x.owner) (fun _ _ => true) x.host = true

instance decEntitled (x : Process) : ∀ op : FdOp, Decidable (x.Entitled op)
  | .close _ => inferInstanceAs (Decidable (_ = _))
  | .fdopen _ _ => inferInstanceAs (Decidable (_ = _))
  | .fdopendir _ => inferInstanceAs (Decidable (_ = _))
  | .closedir ⟨some p, fd⟩ =>
      decidable_of_iff (x.owner fd = some (.dir p))
        ⟨fun h => ⟨p, rfl, h⟩, fun ⟨_, hp, h⟩ => Option.some.inj hp ▸ h⟩
  | .closedir ⟨none, _⟩ => .isFalse fun ⟨_, hp, _⟩ => nomatch hp
  | .openFile _ _ _ => .isTrue trivial
  | .creat _ _ => .isTrue trivial
  | .openat _ _ _ _ _ => .isTrue trivial
  | .fopen _ _ => .isTrue trivial
  | .opendir _ => .isTrue trivial
  | .inspect _ => .isTrue trivial

instance decAllows (x : Process) (op : FdOp) : Decidable (x.Allows O b D op) :=
  decidable_of_iff (x.Entitled op ∧ op.opensLink O b x.host = false ∧
      after (op.run O b D x.owner) (fun _ _ => true) x.host = true)
    ⟨fun h => ⟨h.1, h.2.1, h.2.2⟩, fun h => ⟨h.1, h.2, h.3⟩⟩

end

/-! ## The account -/

structure Accounted (base s : Host) (owner : Owners) : Prop where
  crt : Holds base.win.crt s.win.crt fun fd => (owner fd).isSome
  handles : Holds base.win.handles s.win.handles fun h =>
    ∃ fd, (owner fd).isSome ∧ s.win.crt fd = some h
  dirs : Holds base.dirs s.dirs fun p => ∃ fd, owner fd = some (.dir p)
  streams : Holds base.streams s.streams fun fp => ∃ fd, owner fd = some (.stream fp)
  nonneg : ∀ fd, (owner fd).isSome → 0 ≤ fd
  ownHandle : ∀ fd fd', (owner fd).isSome → (owner fd').isSome →
    s.win.crt fd = s.win.crt fd' → fd = fd'
  ownDir : ∀ fd fd' p, owner fd = some (.dir p) → owner fd' = some (.dir p) → fd = fd'
  fileno : ∀ fd fp, owner fd = some (.stream fp) → s.streams fp = some fd

namespace Accounted

variable {base s t : Host} {owner : Owners} {fd : Fd}

theorem start (base : Host) : Accounted base base fun _ => none where
  crt := (Holds.refl _).congr fun _ => by simp
  handles := (Holds.refl _).congr fun _ => by simp
  dirs := (Holds.refl _).congr fun _ => by simp
  streams := (Holds.refl _).congr fun _ => by simp
  nonneg := by simp
  ownHandle := by simp
  ownDir := by simp
  fileno := by simp

theorem of_eq (h : Accounted base s owner) (htables : t.win.tables = s.win.tables)
    (hdirs : t.dirs = s.dirs) (hstreams : t.streams = s.streams) : Accounted base t owner := by
  have hcrt : t.win.crt = s.win.crt := congrArg Tables.crt htables
  have hhandles : t.win.handles = s.win.handles := congrArg Tables.handles htables
  refine ⟨?_, ?_, ?_, ?_, h.nonneg, ?_, h.ownDir, ?_⟩
  · rw [hcrt]
    exact h.crt
  · rw [hcrt, hhandles]
    exact h.handles
  · rw [hdirs]
    exact h.dirs
  · rw [hstreams]
    exact h.streams
  · rw [hcrt]
    exact h.ownHandle
  · rw [hstreams]
    exact h.fileno

/-! ### The three moves -/

theorem no_owner (h : Accounted base s owner) (hfree : s.win.crt fd = none) : owner fd = none := by
  simpa using h.crt.not_mine hfree

theorem owns_update {o : Owner} {new : Option Owner} (hold : owner fd ≠ some o)
    (hnew : new ≠ some o) (x : Fd) :
    Function.update owner fd new x = some o ↔ owner x = some o := by
  by_cases hx : x = fd
  · rw [hx, Function.update_self]
    exact iff_of_false hnew hold
  · rw [Function.update_of_ne hx]

theorem owns_update_self {o o' : Owner} (hold : owner fd ≠ some o') :
    (∃ x, Function.update owner fd (some o) x = some o') ↔ o' = o ∨ ∃ x, owner x = some o' := by
  by_cases ho : o' = o
  · exact iff_of_true ⟨fd, by rw [Function.update_self, ho]⟩ (.inl ho)
  · simp only [owns_update hold fun h => ho (Option.some.inj h).symm, ho, false_or]

theorem isSome_update {o : Owner} (hfd : (owner fd).isSome) (x : Fd) :
    (Function.update owner fd (some o) x).isSome ↔ (owner x).isSome := by
  by_cases hx : x = fd
  · rw [hx, Function.update_self]
    exact iff_of_true rfl hfd
  · rw [Function.update_of_ne hx]

/-- A descriptor changes its owner: what is left to show is about the streams. -/
theorem relabel (h : Accounted base s owner) (hfd : (owner fd).isSome) (o : Owner)
    (htables : t.win.tables = s.win.tables)
    (hdirs : Holds base.dirs t.dirs fun p =>
      ∃ x, Function.update owner fd (some o) x = some (.dir p))
    (hstreams : Holds base.streams t.streams fun fp =>
      ∃ x, Function.update owner fd (some o) x = some (.stream fp))
    (hownDir : ∀ x y p, Function.update owner fd (some o) x = some (.dir p) →
      Function.update owner fd (some o) y = some (.dir p) → x = y)
    (hfileno : ∀ x fp, Function.update owner fd (some o) x = some (.stream fp) →
      t.streams fp = some x) : Accounted base t (Function.update owner fd (some o)) := by
  have hcrt : t.win.crt = s.win.crt := congrArg Tables.crt htables
  have hhandles : t.win.handles = s.win.handles := congrArg Tables.handles htables
  refine ⟨?_, ?_, hdirs, hstreams, ?_, ?_, hownDir, hfileno⟩
  · rw [hcrt]
    exact h.crt.congr (isSome_update hfd)
  · rw [hcrt, hhandles]
    exact h.handles.congr fun handle => by simp only [isSome_update hfd]
  · intro x hx
    exact h.nonneg x ((isSome_update hfd x).mp hx)
  · intro x y hx hy
    rw [hcrt]
    exact h.ownHandle x y ((isSome_update hfd x).mp hx) ((isSome_update hfd y).mp hy)

theorem giveDir (h : Accounted base s owner) (hfd : owner fd = some .client) {p : DirPtr}
    {path : Path} (hfree : s.dirs p = none) (htables : t.win.tables = s.win.tables)
    (hdirs : t.dirs = Function.update s.dirs p (some path)) (hstreams : t.streams = s.streams) :
    Accounted base t (Function.update owner fd (some (.dir p))) := by
  have hnew : ∀ x, owner x ≠ some (.dir p) := fun x hx => h.dirs.not_mine hfree ⟨x, hx⟩
  have hold : ∀ q, owner fd ≠ some (.dir q) := fun q hq => by simp [hfd] at hq
  have hstream : ∀ fp x, Function.update owner fd (some (.dir p)) x = some (.stream fp) ↔
      owner x = some (.stream fp) := fun fp x => owns_update (by simp [hfd]) (by simp) x
  refine h.relabel (by rw [hfd]; rfl) _ htables ?_ ?_ ?_ ?_
  · rw [hdirs]
    refine h.dirs.acquire hfree path fun q => ?_
    rw [owns_update_self (hold q), Owner.dir.injEq]
  · rw [hstreams]
    exact h.streams.congr fun fp => by simp only [hstream]
  · intro x y q hx hy
    by_cases hq : q = p
    · subst hq
      have hat : ∀ z, Function.update owner fd (some (.dir q)) z = some (.dir q) → z = fd := by
        intro z hz
        by_contra hne
        rw [Function.update_of_ne hne] at hz
        exact hnew z hz
      rw [hat x hx, hat y hy]
    · rw [owns_update (hold q) (by simpa using Ne.symm hq)] at hx hy
      exact h.ownDir x y q hx hy
  · intro x fp hx
    rw [hstreams]
    exact h.fileno x fp ((hstream fp x).mp hx)

theorem giveStream (h : Accounted base s owner) (hfd : owner fd = some .client) {fp : FilePtr}
    (hfree : s.streams fp = none) (htables : t.win.tables = s.win.tables)
    (hdirs : t.dirs = s.dirs) (hstreams : t.streams = Function.update s.streams fp (some fd)) :
    Accounted base t (Function.update owner fd (some (.stream fp))) := by
  have hold : ∀ fp', owner fd ≠ some (.stream fp') := fun fp' hfp => by simp [hfd] at hfp
  have hdir : ∀ p x, Function.update owner fd (some (.stream fp)) x = some (.dir p) ↔
      owner x = some (.dir p) := fun p x => owns_update (by simp [hfd]) (by simp) x
  refine h.relabel (by rw [hfd]; rfl) _ htables ?_ ?_ ?_ ?_
  · rw [hdirs]
    exact h.dirs.congr fun p => by simp only [hdir]
  · rw [hstreams]
    refine h.streams.acquire hfree fd fun fp' => ?_
    rw [owns_update_self (hold fp'), Owner.stream.injEq]
  · intro x y p hx hy
    exact h.ownDir x y p ((hdir p x).mp hx) ((hdir p y).mp hy)
  · intro x fp' hx
    rw [hstreams]
    by_cases hxfd : x = fd
    · subst hxfd
      rw [Function.update_self, Option.some.injEq, Owner.stream.injEq] at hx
      rw [hx, Function.update_self]
    · rw [Function.update_of_ne hxfd] at hx
      have hne : fp' ≠ fp := by
        rintro rfl
        exact h.streams.not_mine hfree ⟨x, hx⟩
      rw [Function.update_of_ne hne]
      exact h.fileno x fp' hx

theorem takeDir (h : Accounted base s owner) {p : DirPtr} (hfd : owner fd = some (.dir p))
    (htables : t.win.tables = s.win.tables) (hdirs : t.dirs = Function.update s.dirs p none)
    (hstreams : t.streams = s.streams) :
    Accounted base t (Function.update owner fd (some .client)) := by
  have hdir : ∀ q x, Function.update owner fd (some .client) x = some (.dir q) ↔
      q ≠ p ∧ owner x = some (.dir q) := by
    intro q x
    by_cases hx : x = fd
    · subst hx
      rw [Function.update_self, hfd]
      simp only [Option.some.injEq, Owner.dir.injEq, reduceCtorEq, false_iff, not_and]
      exact fun hq hp => hq hp.symm
    · rw [Function.update_of_ne hx]
      refine ⟨fun hq => ⟨?_, hq⟩, And.right⟩
      rintro rfl
      exact hx (h.ownDir x fd q hq hfd)
  have hstream : ∀ fp x, Function.update owner fd (some .client) x = some (.stream fp) ↔
      owner x = some (.stream fp) := fun fp x => owns_update (by simp [hfd]) (by simp) x
  refine h.relabel (by rw [hfd]; rfl) _ htables ?_ ?_ ?_ ?_
  · rw [hdirs]
    refine h.dirs.release ⟨fd, hfd⟩ fun q => ?_
    simp only [hdir, exists_and_left]
  · rw [hstreams]
    exact h.streams.congr fun fp => by simp only [hstream]
  · intro x y q hx hy
    exact h.ownDir x y q ((hdir q x).mp hx).2 ((hdir q y).mp hy).2
  · intro x fp hx
    rw [hstreams]
    exact h.fileno x fp ((hstream fp x).mp hx)

theorem acquire (h : Accounted base s owner) {o : Owner} (hdir : ∀ p, o ≠ .dir p)
    (hstream : ∀ fp, o ≠ .stream fp) (hacq : Acquires s.win t.win fd) (hdirs : t.dirs = s.dirs)
    (hstreams : t.streams = s.streams) :
    Accounted base t (Function.update owner fd (some o)) := by
  obtain ⟨handle, object, hfresh, htables⟩ := hacq.handle
  have hcrt : t.win.crt = Function.update s.win.crt fd (some handle) := congrArg Tables.crt htables
  have hhandles : t.win.handles = Function.update s.win.handles handle (some object) :=
    congrArg Tables.handles htables
  have hnone : owner fd = none := h.no_owner hacq.free
  have hsome : ∀ x, (Function.update owner fd (some o) x).isSome ↔ x = fd ∨ (owner x).isSome := by
    intro x
    by_cases hx : x = fd
    · simp only [hx, Function.update_self, Option.isSome_some, true_or]
    · simp only [Function.update_of_ne hx, hx, false_or]
  -- a descriptor from before has a handle from before
  have hbefore : ∀ x, (owner x).isSome → x ≠ fd ∧ s.win.crt x ≠ some handle := by
    intro x hx
    refine ⟨?_, fun hbound => h.handles.not_mine hfresh ⟨x, hx, hbound⟩⟩
    rintro rfl
    rw [hnone] at hx
    cases hx
  have hdir' : ∀ p x, Function.update owner fd (some o) x = some (.dir p) ↔
      owner x = some (.dir p) := fun p x =>
    owns_update (by simp [hnone]) (fun ho => hdir p (Option.some.inj ho)) x
  have hstream' : ∀ fp x, Function.update owner fd (some o) x = some (.stream fp) ↔
      owner x = some (.stream fp) := fun fp x =>
    owns_update (by simp [hnone]) (fun ho => hstream fp (Option.some.inj ho)) x
  refine ⟨?_, ?_, ?_, ?_, ?_, ?_, ?_, ?_⟩
  · rw [hcrt]
    exact h.crt.acquire hacq.free handle hsome
  · rw [hcrt, hhandles]
    refine h.handles.acquire hfresh object fun x => ?_
    constructor
    · rintro ⟨y, hy, hbound⟩
      rcases (hsome y).mp hy with rfl | hy
      · rw [Function.update_self, Option.some.injEq] at hbound
        exact .inl hbound.symm
      · rw [Function.update_of_ne (hbefore y hy).1] at hbound
        exact .inr ⟨y, hy, hbound⟩
    · rintro (rfl | ⟨y, hy, hbound⟩)
      · exact ⟨fd, (hsome fd).mpr (.inl rfl), Function.update_self _ _ _⟩
      · refine ⟨y, (hsome y).mpr (.inr hy), ?_⟩
        rw [Function.update_of_ne (hbefore y hy).1, hbound]
  · rw [hdirs]
    exact h.dirs.congr fun p => by simp only [hdir']
  · rw [hstreams]
    exact h.streams.congr fun fp => by simp only [hstream']
  · intro x hx
    rcases (hsome x).mp hx with rfl | hx
    · exact hacq.nonneg
    · exact h.nonneg x hx
  · intro x y hx hy hxy
    rw [hcrt] at hxy
    rcases (hsome x).mp hx with hxfd | hx' <;> rcases (hsome y).mp hy with hyfd | hy'
    · rw [hxfd, hyfd]
    · rw [hxfd, Function.update_self, Function.update_of_ne (hbefore y hy').1] at hxy
      exact absurd hxy.symm (hbefore y hy').2
    · rw [hyfd, Function.update_self, Function.update_of_ne (hbefore x hx').1] at hxy
      exact absurd hxy (hbefore x hx').2
    · rw [Function.update_of_ne (hbefore x hx').1, Function.update_of_ne (hbefore y hy').1] at hxy
      exact h.ownHandle x y hx' hy' hxy
  · intro x y p hx hy
    exact h.ownDir x y p ((hdir' p x).mp hx) ((hdir' p y).mp hy)
  · intro x fp hx
    rw [hstreams]
    exact h.fileno x fp ((hstream' fp x).mp hx)

theorem release (h : Accounted base s owner) (hfd : owner fd = some .client)
    (htables : t.win.tables = s.win.tables.without fd) (hdirs : t.dirs = s.dirs)
    (hstreams : t.streams = s.streams) :
    Accounted base t (Function.update owner fd none) := by
  have howned : (owner fd).isSome := by rw [hfd]; rfl
  obtain ⟨handle, hbound⟩ := Option.isSome_iff_exists.mp (h.crt.bound fd howned)
  have hwithout : s.win.tables.without fd = ⟨Function.update s.win.crt fd none,
      Function.update s.win.handles handle none⟩ := by
    simp only [Tables.without, Win.tables, hbound]
  rw [hwithout] at htables
  have hcrt : t.win.crt = Function.update s.win.crt fd none := congrArg Tables.crt htables
  have hhandles : t.win.handles = Function.update s.win.handles handle none :=
    congrArg Tables.handles htables
  have hsome : ∀ x, (Function.update owner fd none x).isSome ↔ x ≠ fd ∧ (owner x).isSome := by
    intro x
    by_cases hx : x = fd
    · simp [hx]
    · simp only [Function.update_of_ne hx, ne_eq, hx, not_false_eq_true, true_and]
  have hdir : ∀ p x, Function.update owner fd none x = some (.dir p) ↔
      owner x = some (.dir p) := fun p x => owns_update (by simp [hfd]) (by simp) x
  have hstream : ∀ fp x, Function.update owner fd none x = some (.stream fp) ↔
      owner x = some (.stream fp) := fun fp x => owns_update (by simp [hfd]) (by simp) x
  refine ⟨?_, ?_, ?_, ?_, ?_, ?_, ?_, ?_⟩
  · rw [hcrt]
    exact h.crt.release howned hsome
  · rw [hcrt, hhandles]
    refine h.handles.release ⟨fd, howned, hbound⟩ fun x => ?_
    constructor
    · rintro ⟨y, hy, hy'⟩
      obtain ⟨hne, hy⟩ := (hsome y).mp hy
      rw [Function.update_of_ne hne] at hy'
      refine ⟨?_, y, hy, hy'⟩
      rintro rfl
      exact hne (h.ownHandle y fd hy howned (hy'.trans hbound.symm))
    · rintro ⟨hne, y, hy, hy'⟩
      have hyfd : y ≠ fd := by
        rintro rfl
        exact hne (Option.some.inj (hy'.symm.trans hbound))
      refine ⟨y, (hsome y).mpr ⟨hyfd, hy⟩, ?_⟩
      rw [Function.update_of_ne hyfd, hy']
  · rw [hdirs]
    exact h.dirs.congr fun p => by simp only [hdir]
  · rw [hstreams]
    exact h.streams.congr fun fp => by simp only [hstream]
  · intro x hx
    exact h.nonneg x ((hsome x).mp hx).2
  · intro x y hx hy hxy
    obtain ⟨hxfd, hx⟩ := (hsome x).mp hx
    obtain ⟨hyfd, hy⟩ := (hsome y).mp hy
    rw [hcrt, Function.update_of_ne hxfd, Function.update_of_ne hyfd] at hxy
    exact h.ownHandle x y hx hy hxy
  · intro x y p hx hy
    exact h.ownDir x y p ((hdir p x).mp hx) ((hdir p y).mp hy)
  · intro x fp hx
    rw [hstreams]
    exact h.fileno x fp ((hstream fp x).mp hx)

end Accounted

/-! ## What each call does -/

section
variable {O : Outside} {b : Build} {D : Dirs Host} {base s t : Host} {owner : Owners} {fd : Fd}

theorem closeFd_run (fd : Fd) (s : Host) :
    ∃ win, closeFd fd s = .ok ⟨⟩ { s with win, released := s.released ++ [.close fd] } ∧
      win.tables = s.win.tables.without fd := by
  obtain ⟨win, hclose, htables⟩ := close_eq fd s.win
  refine ⟨win, ?_, htables⟩
  rw [closeFd, bind_apply]
  exact zoom_ok (l := Host.onWin) (s := { s with released := s.released ++ [.close fd] }) hclose

theorem OpensOrNot.spec {x : Prog Host (Option Fd)} (hx : OpensOrNot x s) {r : Option Fd}
    (hrun : x s = .ok r t) :
    t.dirs = s.dirs ∧ t.streams = s.streams ∧ (r = none → t.win.tables = s.win.tables) ∧
      ∀ fd, r = some fd → Acquires s.win t.win fd := by
  obtain ⟨r', t', hrun', hbeside, hr⟩ := hx
  rw [hrun] at hrun'
  cases hrun'
  refine ⟨congrArg (fun x => x.2.1) hbeside, congrArg (fun x => x.1) hbeside, ?_, ?_⟩
  · rintro rfl
    exact hr
  · rintro fd rfl
    exact hr

theorem wrapOpen_returned {path : Path} {oflag : UInt32} {mode : Option ModeT} {r : Option Fd}
    (hrun : wrapOpen O b path oflag mode s = .ok r t) :
    OpensOrNot (wrapOpen O b path oflag mode) s :=
  wrapOpen_opens (wrapOpen_inCache ⟨r, t, hrun⟩)

theorem wrapOpen_free {path : Path} {oflag : UInt32} {mode : Option ModeT}
    (hrun : wrapOpen O b path oflag mode s = .ok (some fd) t) : s.win.crt fd = none :=
  (((wrapOpen_returned hrun).spec hrun).2.2.2 fd rfl).free

theorem OpensOrNot.accounted {x : Prog Host (Option Fd)} (hx : OpensOrNot x s)
    (h : Accounted base s owner) {r : Option Fd} (hrun : x s = .ok r t) :
    Accounted base t (owner.gain r) := by
  obtain ⟨hdirs, hstreams, hfails, hgets⟩ := hx.spec hrun
  cases r with
  | none => exact h.of_eq (hfails rfl) hdirs hstreams
  | some fd => exact h.acquire (fun p => nofun) (fun fp => nofun) (hgets fd rfl) hdirs hstreams

/-- What comes before `open` in `openat` leaves the tables, the streams and the cache. -/
structure Resolves (s u : Host) : Prop where
  tables : u.win.tables = s.win.tables
  dirs : u.dirs = s.dirs
  streams : u.streams = s.streams
  cache : u.cache = s.cache

theorem dupFirst_state {m : Heap} {path : Path} {copy : Option Path}
    (hrun : dupFirst b m path s = .ok copy t) : t = s := by
  obtain ⟨malloc, strdup⟩ := m
  cases b with
  | debug =>
      rcases strdup with _ | _ | n
      · cases hrun
      · cases hrun
        rfl
      · cases hrun
  | ndebug =>
      rcases strdup with _ | _ | n
      · cases hrun
        rfl
      · cases hrun
        rfl
      · cases hrun
        rfl

/-- A descriptor is not negative, so the result tells it from a failure. -/
theorem wrapOpen_answer (path : Path) (oflag : UInt32) (mode : Option ModeT) :
    (do let fd ← wrapOpen O b path oflag mode
        return (Answer.of (fd.getD (-1))).fd : Prog Host (Option Fd)) =
      wrapOpen O b path oflag mode := by
  funext s
  rw [bind_apply]
  cases hopen : wrapOpen O b path oflag mode s with
  | error e t => rfl
  | ok r t =>
      cases r with
      | none => rfl
      | some fd =>
          have hgets := (wrapOpen_returned hopen).spec hopen
          have hnonneg : 0 ≤ fd := (hgets.2.2.2 fd rfl).nonneg
          have hfd : (Answer.of fd).fd = some fd := if_neg (Int.not_lt.mpr hnonneg)
          show EStateM.Result.ok (Answer.of fd).fd t = .ok (some fd) t
          rw [hfd]

/-- The mode `openat` hands on. -/
def openatMode (flags mode : UInt32) : Option ModeT :=
  if flags &&& O_CREAT != 0 then some mode.toUInt16 else none

/-- `openat` is an `open` after the name was looked at. -/
theorem openatFd_eq (m : Heap) (dirfd : Fd) (path : Path) (flags mode : UInt32) :
    openatFd O b m dirfd path flags mode =
      if O.pathIsRelative path then (do
        match ← zoom Host.onWin (getPathAt (winSys O.toEnv b) m.malloc dirfd path) with
        | none => return none
        | some _ => wrapOpen O b path flags (openatMode flags mode))
      else (do
        let _ ← dupFirst b m path
        wrapOpen O b path flags (openatMode flags mode)) := by
  have hopen : (do
      let answer ← (openSys O b).call (.open path flags (openatMode flags mode))
      return answer.fd : Prog Host (Option Fd)) =
        wrapOpen O b path flags (openatMode flags mode) := by
    rw [← wrapOpen_answer path flags (openatMode flags mode)]
    simp only [openSys, bind_assoc, pure_bind]
  have hsys : (openSys O b).pathIsRelative = O.pathIsRelative := rfl
  unfold openatFd openat
  rw [hsys]
  cases hrel : O.pathIsRelative path with
  | false =>
      simp only [Bool.false_eq_true, if_false, bind_assoc]
      exact congrArg _ (funext fun _ => hopen)
  | true =>
      have hresolve : getPathAt (openSys O b) m.malloc dirfd path =
          zoom Host.onWin (getPathAt (winSys O.toEnv b) m.malloc dirfd path) := by
        have hzoom := resolve_zoom (l := Host.onWin) (winSys O.toEnv b) m dirfd path
        have hrel' : (winSys O.toEnv b).pathIsRelative path = true := hrel
        have hrel'' : ((winSys O.toEnv b).zoom Host.onWin).pathIsRelative path = true := hrel
        simp only [resolve, hrel', hrel'', if_true, ← getPathAt_eq] at hzoom
        exact hzoom
      simp only [if_true, bind_assoc, hresolve]
      refine congrArg _ (funext fun real => ?_)
      cases real with
      | none => rfl
      | some real => exact hopen

/-- `openat` fails before `open`, or answers what `open` of its name answers. -/
theorem openatFd_run {m : Heap} {dirfd : Fd} {path : Path} {flags mode : UInt32} {r : Option Fd}
    (hstays : resolveOpens O.toEnv b m dirfd path (fun _ _ => false) s.win = false)
    (hrun : openatFd O b m dirfd path flags mode s = .ok r t) :
    ∃ u, Resolves s u ∧ (r = none ∧ t = u ∨
      wrapOpen O b path flags (openatMode flags mode) u = .ok r t) := by
  rw [openatFd_eq] at hrun
  split at hrun
  · next hrel =>
      obtain ⟨real, u, hpath, hrest⟩ := bind_ok hrun
      obtain ⟨win, hwin, rfl⟩ := zoom_eq_ok hpath
      have htables : win.tables = s.win.tables := by
        refine ((getPathAt_adds O.toEnv b m.malloc dirfd path).same_iff _ _ _ hwin).mpr ?_
        simp only [resolveOpens, hrel, if_true, Bool.or_eq_false_iff] at hstays
        exact hstays.1
      refine ⟨Host.onWin.set win s, ⟨htables, rfl, rfl, rfl⟩, ?_⟩
      cases real with
      | none =>
          cases hrest
          exact .inl ⟨rfl, rfl⟩
      | some real => exact .inr hrest
  · next hrel =>
      obtain ⟨copy, u, hdup, hrest⟩ := bind_ok hrun
      obtain rfl := dupFirst_state hdup
      exact ⟨u, ⟨rfl, rfl, rfl, rfl⟩, .inr hrest⟩

theorem openatFd_free {m : Heap} {dirfd : Fd} {path : Path} {flags mode : UInt32}
    (hstays : resolveOpens O.toEnv b m dirfd path (fun _ _ => false) s.win = false)
    (hrun : openatFd O b m dirfd path flags mode s = .ok (some fd) t) : s.win.crt fd = none := by
  obtain ⟨u, hu, ⟨hnone, -⟩ | hopen⟩ := openatFd_run hstays hrun
  · cases hnone
  · exact (congrFun (congrArg Tables.crt hu.tables) fd).symm.trans (wrapOpen_free hopen)

theorem openatFd_accounted (h : Accounted base s owner) {m : Heap} {dirfd : Fd} {path : Path}
    {flags mode : UInt32} {r : Option Fd}
    (hstays : resolveOpens O.toEnv b m dirfd path (fun _ _ => false) s.win = false)
    (hrun : openatFd O b m dirfd path flags mode s = .ok r t) :
    Accounted base t (owner.gain r) := by
  obtain ⟨u, hu, ⟨rfl, rfl⟩ | hopen⟩ := openatFd_run hstays hrun
  · exact h.of_eq hu.tables hu.dirs hu.streams
  · exact (wrapOpen_returned hopen).accounted
      (h.of_eq hu.tables hu.dirs hu.streams) hopen

/-- What `fdopen` leaves: a stream that was not open before, or nothing. -/
def GetsStream (s t : Host) (fd : Fd) : Option FilePtr → Prop
  | none => t.streams = s.streams
  | some fp => s.streams fp = none ∧ t.streams = Function.update s.streams fp (some fd)

theorem realFdopen_spec {mode : List UInt8} {r : Option FilePtr}
    (hrun : realFdopen O fd mode s = .ok r t) :
    t.win.tables = s.win.tables ∧ t.dirs = s.dirs ∧ t.cache = s.cache ∧ GetsStream s t fd r := by
  unfold realFdopen at hrun
  cases hanswer : O.realFdopen s.win.calls fd mode with
  | error e =>
      rw [hanswer] at hrun
      cases hrun
      exact ⟨rfl, rfl, rfl, rfl⟩
  | ok fp =>
      rw [hanswer] at hrun
      dsimp only at hrun
      cases hfree : s.streams fp with
      | some other =>
          rw [hfree] at hrun
          cases hrun
          exact ⟨rfl, rfl, rfl, rfl⟩
      | none =>
          rw [hfree] at hrun
          cases hrun
          exact ⟨rfl, rfl, rfl, hfree, rfl⟩

theorem wrapFdopen_spec {mode : CStr} {r : Option FilePtr}
    (hrun : wrapFdopen O fd mode s = .ok r t) :
    t.win.tables = s.win.tables ∧ t.dirs = s.dirs ∧ t.cache = s.cache ∧ GetsStream s t fd r := by
  unfold wrapFdopen at hrun
  cases hmode : fixupFmode mode with
  | none =>
      rw [hmode] at hrun
      cases hrun
      exact ⟨rfl, rfl, rfl, rfl⟩
  | some newMode =>
      rw [hmode] at hrun
      exact realFdopen_spec hrun

/-- What `opendir` leaves: a directory stream that was not open, or nothing. -/
theorem opendir_spec {path : Path} {r : Option DirPtr} (hrun : opendir O path s = .ok r t) :
    t.win.tables = s.win.tables ∧ t.streams = s.streams ∧ t.cache = s.cache ∧
      (r = none → t.dirs = s.dirs) ∧
      ∀ p, r = some p → s.dirs p = none ∧ t.dirs = Function.update s.dirs p (some path) := by
  unfold opendir at hrun
  cases hanswer : O.opendir s.win.calls path with
  | error e =>
      rw [hanswer] at hrun
      cases hrun
      exact ⟨rfl, rfl, rfl, fun _ => rfl, nofun⟩
  | ok p =>
      rw [hanswer] at hrun
      dsimp only at hrun
      cases hfree : s.dirs p with
      | some other =>
          rw [hfree] at hrun
          cases hrun
          exact ⟨rfl, rfl, rfl, fun _ => rfl, nofun⟩
      | none =>
          rw [hfree] at hrun
          cases hrun
          refine ⟨rfl, rfl, rfl, nofun, fun q hq => ?_⟩
          cases hq
          exact ⟨hfree, rfl⟩

theorem zoom_beside {α : Type} {x : Prog Win α} {a : α} (hx : Keeps Win.tables x)
    (hrun : zoom Host.onWin x s = .ok a t) :
    t.win.tables = s.win.tables ∧ t.dirs = s.dirs ∧ t.streams = s.streams := by
  obtain ⟨win, hwin, rfl⟩ := zoom_eq_ok hrun
  exact ⟨hx _ _ _ hwin, rfl, rfl⟩

theorem closeFd_accounted (h : Accounted base s owner) (hfd : owner fd = some .client)
    {u : PUnit} (hrun : closeFd fd s = .ok u t) :
    Accounted base t (Function.update owner fd none) := by
  obtain ⟨win, hclose, htables⟩ := closeFd_run fd s
  rw [hrun] at hclose
  cases hclose
  exact h.release hfd htables rfl rfl

/-- `_opendir_stub`: both a descriptor and a directory stream, or neither. -/
theorem opendirStub_accounted (h : Accounted base s owner) {path : Path} {r : Option DirStub}
    (hrun : opendirStub (hostFds O b) (hostDirs O D) path s = .ok r t) :
    Accounted base t (owner.gainDir r) := by
  obtain ⟨r', u, hopen, hrest⟩ := bind_ok hrun
  have hopens : OpensOrNot (wrapOpen O b path O_PATH none) s :=
    wrapOpen_returned hopen
  have hu : Accounted base u (owner.gain r') := hopens.accounted h hopen
  cases r' with
  | none =>
      cases hrest
      exact hu
  | some fd =>
      have hself : owner.gain (some fd) fd = some .client := Function.update_self _ _ _
      have hfree : s.win.crt fd = none := ((hopens.spec hopen).2.2.2 fd rfl).free
      -- the label `error`
      have hundo : ∀ {v w : Host} {x : PUnit}, Accounted base v (owner.gain (some fd)) →
          closeFd fd v = .ok x w → Accounted base w owner := by
        intro v w x hv hclose
        have hw := closeFd_accounted hv hself hclose
        rwa [Owners.gain, Function.update_idem, ← h.no_owner hfree,
          Function.update_eq_self] at hw
      obtain ⟨ok, v, hmalloc, hrest⟩ := bind_ok hrest
      obtain ⟨htables, hdirs, hstreams⟩ := zoom_beside malloc_keeps hmalloc
      have hv : Accounted base v (owner.gain (some fd)) := hu.of_eq htables hdirs hstreams
      cases ok with
      | false =>
          obtain ⟨_, w, hclose, hrest⟩ := bind_ok hrest
          cases hrest
          exact hundo hv hclose
      | true =>
          obtain ⟨r', w, hopendir, hrest⟩ := bind_ok hrest
          obtain ⟨htables, hstreams, -, hfails, hgets⟩ := opendir_spec hopendir
          cases r' with
          | none =>
              obtain ⟨_, w', hclose, hrest⟩ := bind_ok hrest
              cases hrest
              exact hundo (hv.of_eq htables (hfails rfl) hstreams) hclose
          | some p =>
              cases hrest
              obtain ⟨hfree, hdirs⟩ := hgets p rfl
              have hw := hv.giveDir hself hfree htables hdirs hstreams
              rwa [Owners.gain, Function.update_idem] at hw

/-- `fdopendir`: a directory stream for a descriptor of the program, or none. -/
theorem fdopendir_accounted (h : Accounted base s owner) (hfd : owner fd = some .client)
    (hstays : fstatOpens O.toEnv fd s.win = false) {r : Option DirStub}
    (hrun : fdopendir (hostSys O b) (hostDirs O D) fd s = .ok r t) :
    Accounted base t (owner.gainDir r) := by
  rw [fdopendir_run] at hrun
  obtain ⟨path, u, hzoom, hrest⟩ := bind_ok hrun
  obtain ⟨win, hpath, rfl⟩ := zoom_eq_ok hzoom
  have htables : win.tables = s.win.tables :=
    ((dirPath_adds O.toEnv b fd).same_iff _ _ _ hpath).mpr hstays
  have hu : Accounted base (Host.onWin.set win s) owner := h.of_eq htables rfl rfl
  cases path with
  | none =>
      cases hrest
      exact hu
  | some path =>
      obtain ⟨ok, v, hmalloc, hrest⟩ := bind_ok hrest
      obtain ⟨htables, hdirs, hstreams⟩ := zoom_beside malloc_keeps hmalloc
      have hv : Accounted base v owner := hu.of_eq htables hdirs hstreams
      cases ok with
      | false =>
          cases hrest
          exact hv
      | true =>
          obtain ⟨r', w, hopendir, hrest⟩ := bind_ok hrest
          obtain ⟨htables, hstreams, -, hfails, hgets⟩ := opendir_spec hopendir
          cases r' with
          | none =>
              cases hrest
              exact hv.of_eq htables (hfails rfl) hstreams
          | some p =>
              cases hrest
              obtain ⟨hfree, hdirs⟩ := hgets p rfl
              exact hv.giveDir hfd hfree htables hdirs hstreams

theorem opendirStub_gets {path : Path} {stub : DirStub}
    (hrun : opendirStub (hostFds O b) (hostDirs O D) path s = .ok (some stub) t) :
    (∃ p, stub.dirp = some p) ∧ ∃ u, wrapOpen O b path O_PATH none s = .ok (some stub.fd) u := by
  obtain ⟨r, u, hopen, hrest⟩ := bind_ok hrun
  have hopen : wrapOpen O b path O_PATH none s = .ok r u := hopen
  cases r with
  | none => cases hrest
  | some fd =>
      obtain ⟨ok, v, -, hrest⟩ := bind_ok hrest
      cases ok with
      | false =>
          obtain ⟨_, w, -, hrest⟩ := bind_ok hrest
          cases hrest
      | true =>
          obtain ⟨p, w, -, hrest⟩ := bind_ok hrest
          cases p with
          | none =>
              obtain ⟨_, w', -, hrest⟩ := bind_ok hrest
              cases hrest
          | some p =>
              cases hrest
              exact ⟨⟨p, rfl⟩, u, hopen⟩

theorem fdopendir_fd {stub : DirStub}
    (hrun : fdopendir (hostSys O b) (hostDirs O D) fd s = .ok (some stub) t) :
    ∃ p, stub = ⟨some p, fd⟩ := by
  rw [fdopendir_run] at hrun
  obtain ⟨path, u, -, hrest⟩ := bind_ok hrun
  cases path with
  | none => cases hrest
  | some path =>
      obtain ⟨r, v, hstream, -, hr⟩ := openStream_returns O fd path u
      have hrest : openStream O fd path u = .ok (some stub) t := hrest
      rw [hstream] at hrest
      cases hrest
      obtain ⟨p, hstub, -⟩ := hr
      exact ⟨p, hstub⟩

/-- `_closedir_stub`: the stream first, and then its descriptor. -/
theorem closedirStub_accounted (h : Accounted base s owner) {p : DirPtr}
    (hfd : owner fd = some (.dir p)) {r : Int}
    (hrun : closedirStub (hostFds O b) (hostDirs O D) (some ⟨some p, fd⟩) s = .ok r t) :
    Accounted base t (Function.update owner fd none) := by
  have hnonneg : 0 ≤ fd := h.nonneg fd (by rw [hfd]; rfl)
  obtain ⟨path, hopen⟩ := Option.isSome_iff_exists.mp (h.dirs.bound p ⟨fd, hfd⟩)
  obtain ⟨_, u, hclosedir, hrest⟩ := bind_ok hrun
  simp only [hostFds, closedir, hopen, EStateM.Result.ok.injEq, true_and] at hclosedir
  have hu : Accounted base u (Function.update owner fd (some .client)) := by
    subst hclosedir
    exact h.takeDir hfd rfl rfl rfl
  rw [if_neg (Int.not_lt.mpr hnonneg)] at hrest
  obtain ⟨_, v, hclose, hrest⟩ := bind_ok hrest
  cases hrest
  have hv := closeFd_accounted hu (Function.update_self _ _ _) hclose
  rwa [Function.update_idem] at hv

/-- `fopen`: the descriptor it opens is the stream's, or is lost. -/
theorem wrapFopen_accounted (h : Accounted base s owner) {path : Path} {mode : CStr}
    {r : Option FilePtr} (hrun : wrapFopen O b path mode s = .ok r t) :
    Accounted base t (match fopenFd O b path mode s with
      | none => owner
      | some fd => Function.update owner fd (some (r.elim .lost .stream))) := by
  unfold fopenFd
  cases hflags : fmodeflags mode with
  | none =>
      rw [wrapFopen_none hflags] at hrun
      cases hrun
      exact h.of_eq rfl rfl rfl
  | some flags =>
      rw [wrapFopen_some hflags] at hrun
      obtain ⟨r', u, hopen, hrest⟩ := bind_ok hrun
      have hopens := wrapOpen_returned hopen
      simp only [hopen]
      cases r' with
      | none =>
          cases hrest
          exact hopens.accounted h hopen
      | some fd =>
          obtain ⟨htables, hdirs, -, hstreams⟩ := wrapFdopen_spec hrest
          cases r with
          | none =>
              obtain ⟨hdirs', hstreams', -, hgets⟩ := hopens.spec hopen
              have hu := h.acquire (o := .lost) (fun p => nofun) (fun fp => nofun)
                (hgets fd rfl) hdirs' hstreams'
              exact hu.of_eq htables hdirs hstreams
          | some fp =>
              have hu := hopens.accounted h hopen
              have ht := hu.giveStream (Function.update_self _ _ _) hstreams.1 htables hdirs
                hstreams.2
              rwa [Owners.gain, Function.update_idem] at ht

/-! ## Runs -/

theorem FdOp.accounted {op : FdOp} (h : Accounted base s owner)
    (hentitled : Process.Entitled ⟨s, owner⟩ op) (hstays : op.opensLink O b s = false)
    {owner' : Owners} (hrun : op.run O b D owner s = .ok owner' t) :
    Accounted base t owner' := by
  cases op with
  | openFile path oflag mode =>
      obtain ⟨r, u, hopen, hrest⟩ := bind_ok hrun
      cases hrest
      exact (wrapOpen_returned hopen).accounted h hopen
  | creat path mode =>
      obtain ⟨r, u, hopen, hrest⟩ := bind_ok hrun
      cases hrest
      exact (wrapOpen_returned hopen).accounted h hopen
  | openat m dirfd path flags mode =>
      obtain ⟨r, u, hopen, hrest⟩ := bind_ok hrun
      cases hrest
      exact openatFd_accounted h hstays hopen
  | close fd =>
      obtain ⟨_, u, hclose, hrest⟩ := bind_ok hrun
      cases hrest
      exact closeFd_accounted h hentitled hclose
  | fopen path mode =>
      obtain ⟨s', u, hget, hrest⟩ := bind_ok hrun
      cases hget
      obtain ⟨r, u, hopen, hrest⟩ := bind_ok hrest
      have hu := wrapFopen_accounted h hopen
      cases hfd : fopenFd O b path mode s with
      | none =>
          rw [hfd] at hu hrest
          cases hrest
          exact hu
      | some fd =>
          rw [hfd] at hu hrest
          cases hrest
          exact hu
  | fdopen fd mode =>
      obtain ⟨r, u, hopen, hrest⟩ := bind_ok hrun
      obtain ⟨htables, hdirs, -, hstreams⟩ := wrapFdopen_spec hopen
      cases r with
      | none =>
          cases hrest
          exact h.of_eq htables hdirs hstreams
      | some fp =>
          cases hrest
          exact h.giveStream hentitled hstreams.1 htables hdirs hstreams.2
  | opendir path =>
      obtain ⟨r, u, hopen, hrest⟩ := bind_ok hrun
      cases hrest
      exact opendirStub_accounted h hopen
  | fdopendir fd =>
      obtain ⟨r, u, hopen, hrest⟩ := bind_ok hrun
      cases hrest
      exact fdopendir_accounted h hentitled hstays hopen
  | closedir stub =>
      obtain ⟨p, hp, hfd⟩ := hentitled
      obtain ⟨dirp, fd⟩ := stub
      cases hp
      obtain ⟨r, u, hclose, hrest⟩ := bind_ok hrun
      cases hrest
      exact closedirStub_accounted h hfd hclose
  | inspect op =>
      obtain ⟨answer, u, hzoom, hrest⟩ := bind_ok hrun
      cases hrest
      obtain ⟨win, hwin, rfl⟩ := zoom_eq_ok hzoom
      exact h.of_eq (((op.adds b).same_iff _ _ _ hwin).mpr hstays) rfl rfl

theorem processStep_accounted {x : Process} {op : FdOp} (h : Accounted base x.host x.owner)
    (hok : x.Allows O b D op) :
    Accounted base (processStep O b D x op).host (processStep O b D x op).owner := by
  obtain ⟨owner, t, hrun, -⟩ := after_iff.mp hok.returns
  simp only [processStep, hrun]
  exact FdOp.accounted h hok.entitled hok.stays hrun

theorem run_accounted {ops : List FdOp} {x : Process}
    (h : Run (Process.Allows O b D) (processStep O b D) ⟨base, fun _ => none⟩ ops x) :
    Accounted base x.host x.owner :=
  h.inv (P := fun x => Accounted base x.host x.owner)
    (fun _ _ hx hok => processStep_accounted hx hok) (.start base)

/-- **Nothing is left.**  In every run from `base`, what was open in `base` still
is; and where all that was got has been given back, and none of it lost, the tables
and the streams of the process are those of `base`. -/
theorem owners_none {ops : List FdOp} {x : Process}
    (h : Run (Process.Allows O b D) (processStep O b D) ⟨base, fun _ => none⟩ ops x) :
    (base.win.tables ≤ x.host.win.tables ∧ Extends base.dirs x.host.dirs ∧
      Extends base.streams x.host.streams) ∧
    ((∀ fd, x.owner fd = none) →
      x.host.tables = base.tables ∧ x.host.streams = base.streams) := by
  have hx := run_accounted h
  refine ⟨⟨⟨hx.crt.extends_base, hx.handles.extends_base⟩, hx.dirs.extends_base,
    hx.streams.extends_base⟩, fun hnone => ?_⟩
  have hcrt : x.host.win.crt = base.win.crt := hx.crt.eq_base fun fd => by simp [hnone]
  have hhandles : x.host.win.handles = base.win.handles :=
    hx.handles.eq_base fun handle => by simp [hnone]
  refine ⟨Prod.ext (congrArg₂ Tables.mk hcrt hhandles) ?_, ?_⟩
  · exact hx.dirs.eq_base fun p => by simp [hnone]
  · exact hx.streams.eq_base fun fp => by simp [hnone]

/-! ## What `fopen` loses -/

/-- The `fopen` that opens a descriptor has a stream for it. -/
def FopenKeeps (O : Outside) (b : Build) (x : Process) : FdOp → Prop
  | .fopen path mode =>
      (fopenFd O b path mode x.host).isSome → mode.bytes ≠ [] ∧ HasStream O b path mode x.host
  | _ => True

theorem fopenFd_eq_some {path : Path} {mode : CStr} (h : fopenFd O b path mode s = some fd) :
    ∃ flags t, fmodeflags mode = some flags ∧
      wrapOpen O b path flags (createMode flags) s = .ok (some fd) t := by
  unfold fopenFd at h
  cases hflags : fmodeflags mode with
  | none =>
      rw [hflags] at h
      cases h
  | some flags =>
      simp only [hflags] at h
      cases hopen : wrapOpen O b path flags (createMode flags) s with
      | error e t =>
          rw [hopen] at h
          cases h
      | ok r t =>
          rw [hopen] at h
          cases h
          exact ⟨flags, t, rfl, hopen⟩

theorem wrapFopen_no_stream {path : Path} {mode : CStr} {r : Option FilePtr}
    (hfd : fopenFd O b path mode s = none) (hrun : wrapFopen O b path mode s = .ok r t) :
    r = none := by
  unfold fopenFd at hfd
  cases hflags : fmodeflags mode with
  | none =>
      rw [wrapFopen_none hflags] at hrun
      cases hrun
      rfl
  | some flags =>
      rw [wrapFopen_some hflags] at hrun
      obtain ⟨r', u, hopen, hrest⟩ := bind_ok hrun
      simp only [hflags, hopen] at hfd
      cases hfd
      cases hrest
      rfl

/-- An `fopen` that has opened a descriptor fails exactly if it finds no stream. -/
theorem wrapFopen_stream_iff {path : Path} {mode : CStr} {r : Option FilePtr}
    (hfd : fopenFd O b path mode s = some fd) (hrun : wrapFopen O b path mode s = .ok r t) :
    r.isSome ↔ mode.bytes ≠ [] ∧ HasStream O b path mode s := by
  obtain ⟨flags, u, hflags, hopen⟩ := fopenFd_eq_some hfd
  rw [wrapFopen_some hflags, bind_apply, hopen] at hrun
  simp only [Option.elim_some, wrapFdopen] at hrun
  constructor
  · intro hr
    obtain ⟨fp, rfl⟩ := Option.isSome_iff_exists.mp hr
    cases hnew : fixupFmode mode with
    | none =>
        rw [hnew] at hrun
        cases hrun
    | some newMode =>
        rw [hnew] at hrun
        refine ⟨fun hempty => ?_, fun flags' newMode' fd' u' hflags' hnew' hopen' => ?_⟩
        · rw [fixupFmode_empty hempty] at hnew
          cases hnew
        · rw [hflags] at hflags'
          cases hflags'
          rw [hnew] at hnew'
          cases hnew'
          rw [hopen] at hopen'
          cases hopen'
          exact ⟨fp, t, hrun⟩
  · rintro ⟨hne, hstream⟩
    obtain ⟨newMode, hnew⟩ := fixupFmode_some hne hflags
    obtain ⟨fp, v, hreal⟩ := hstream flags newMode fd u hflags hnew hopen
    rw [hnew] at hrun
    cases hreal.symm.trans hrun
    rfl

/-- No descriptor is lost. -/
def Process.NoneLost (x : Process) : Prop := ∀ fd, x.owner fd ≠ some .lost

theorem Owners.update_noneLost (h : ∀ fd, owner fd ≠ some .lost) {new : Option Owner}
    (hnew : new ≠ some .lost) (x : Fd) : Function.update owner fd new x ≠ some .lost := by
  by_cases hx : x = fd
  · rw [hx, Function.update_self]
    exact hnew
  · rw [Function.update_of_ne hx]
    exact h x

theorem Owners.gain_noneLost (h : ∀ fd, owner fd ≠ some .lost) (r : Option Fd) :
    ∀ fd, owner.gain r fd ≠ some .lost := by
  cases r with
  | none => exact h
  | some fd => exact update_noneLost h (by simp)

theorem Owners.gainDir_noneLost (h : ∀ fd, owner fd ≠ some .lost) (r : Option DirStub) :
    ∀ fd, owner.gainDir r fd ≠ some .lost := by
  rcases r with _ | ⟨_ | p, fd⟩
  · exact h
  · exact h
  · exact update_noneLost h (by simp)

/-- A call that is no `fopen`, or one that keeps what it opens, loses nothing. -/
theorem FdOp.noneLost {op : FdOp} (h : ∀ fd, owner fd ≠ some .lost)
    (hkeeps : FopenKeeps O b ⟨s, owner⟩ op) {owner' : Owners}
    (hrun : op.run O b D owner s = .ok owner' t) : ∀ fd, owner' fd ≠ some .lost := by
  cases op with
  | openFile path oflag mode =>
      obtain ⟨r, u, -, hrest⟩ := bind_ok hrun
      cases hrest
      exact Owners.gain_noneLost h r
  | creat path mode =>
      obtain ⟨r, u, -, hrest⟩ := bind_ok hrun
      cases hrest
      exact Owners.gain_noneLost h r
  | openat m dirfd path flags mode =>
      obtain ⟨r, u, -, hrest⟩ := bind_ok hrun
      cases hrest
      exact Owners.gain_noneLost h r
  | close fd =>
      obtain ⟨_, u, -, hrest⟩ := bind_ok hrun
      cases hrest
      exact Owners.update_noneLost h (by simp)
  | fopen path mode =>
      obtain ⟨s', u, hget, hrest⟩ := bind_ok hrun
      cases hget
      obtain ⟨r, u, hopen, hrest⟩ := bind_ok hrest
      cases hfd : fopenFd O b path mode s with
      | none =>
          rw [hfd] at hrest
          cases hrest
          exact h
      | some fd =>
          have hgood : mode.bytes ≠ [] ∧ HasStream O b path mode s := hkeeps (by rw [hfd]; rfl)
          have hr := (wrapFopen_stream_iff hfd hopen).mpr hgood
          rw [hfd] at hrest
          cases hrest
          obtain ⟨fp, rfl⟩ := Option.isSome_iff_exists.mp hr
          exact Owners.update_noneLost h (by simp)
  | fdopen fd mode =>
      obtain ⟨r, u, -, hrest⟩ := bind_ok hrun
      cases r with
      | none =>
          cases hrest
          exact h
      | some fp =>
          cases hrest
          exact Owners.update_noneLost h (by simp)
  | opendir path =>
      obtain ⟨r, u, -, hrest⟩ := bind_ok hrun
      cases hrest
      exact Owners.gainDir_noneLost h r
  | fdopendir fd =>
      obtain ⟨r, u, -, hrest⟩ := bind_ok hrun
      cases hrest
      exact Owners.gainDir_noneLost h r
  | closedir stub =>
      obtain ⟨r, u, -, hrest⟩ := bind_ok hrun
      cases hrest
      exact Owners.update_noneLost h (by simp)
  | inspect op =>
      obtain ⟨answer, u, -, hrest⟩ := bind_ok hrun
      cases hrest
      exact h

theorem FdOp.loses {op : FdOp} (hloses : ¬ FopenKeeps O b ⟨s, owner⟩ op) {owner' : Owners}
    (hrun : op.run O b D owner s = .ok owner' t) : ∃ fd, owner' fd = some .lost := by
  cases op with
  | fopen path mode =>
      obtain ⟨hopens, hstream⟩ := Classical.not_imp.mp hloses
      obtain ⟨fd, hfd⟩ := Option.isSome_iff_exists.mp hopens
      obtain ⟨s', u, hget, hrest⟩ := bind_ok hrun
      cases hget
      obtain ⟨r, u, hopen, hrest⟩ := bind_ok hrest
      rw [hfd] at hrest
      cases hrest
      cases r with
      | none => exact ⟨fd, Function.update_self _ _ _⟩
      | some fp => exact absurd ((wrapFopen_stream_iff hfd hopen).mp rfl) hstream
  | _ => exact absurd trivial hloses

theorem fopenKeeps_of_stream {x : Process} {path : Path} {mode : CStr}
    (h : after (wrapFopen O b path mode) (fun r _ => r.isSome) x.host = true) :
    FopenKeeps O b x (.fopen path mode) := by
  intro hopens
  obtain ⟨fd, hfd⟩ := Option.isSome_iff_exists.mp hopens
  obtain ⟨r, t, hrun, hstream⟩ := after_iff.mp h
  exact (wrapFopen_stream_iff hfd hrun).mp hstream

/-- **What is lost.**  Along a run no descriptor is ever lost exactly if each
`fopen` of it that opens one has a mode that is not empty, and a stream. -/
theorem noneLost_iff {ops : List FdOp} {x : Process}
    (h : Run (Process.Allows O b D) (processStep O b D) ⟨base, fun _ => none⟩ ops x) :
    (∀ pre, pre <+: ops → Process.NoneLost (pre.foldl (processStep O b D) ⟨base, fun _ => none⟩)) ↔
      Run (FopenKeeps O b) (processStep O b D) ⟨base, fun _ => none⟩ ops x := by
  refine h.always_iff (P := Process.NoneLost) (fun _ => id) ?_ ?_ fun fd => nofun
  · intro x op hx hok hgood
    obtain ⟨owner, t, hrun, -⟩ := after_iff.mp hok.returns
    simp only [processStep, hrun]
    exact FdOp.noneLost hx hgood hrun
  · intro x op _ hok hbad hnone
    obtain ⟨owner, t, hrun, -⟩ := after_iff.mp hok.returns
    simp only [processStep, hrun] at hnone
    obtain ⟨fd, hfd⟩ := FdOp.loses hbad hrun
    exact hnone fd hfd

end

def inFolder (path : Path) : Option Object :=
  if path = [0x64] then some aDirectory else if path = [0x66] then some aFile else none

/-- A folder with the directory `d` and the file `f`, where nothing fails. -/
def aProgram : Outside where
  toEnv := { aFolder with
    object := fun _ => inFolder
    call := fun _ c => match c with
      | .stat path => match inFolder path with
        | some o => { ret := 0, stat := { mode := diskMode o (some path) } }
        | none => failed
      | _ => failed }
  runtime := .ucrt
  target _ := inFolder
  realOpen _ path _ _ := match inFolder path with
    | some o => if o.isDirectory then .error (.other 13) else .ok o
    | none => .error .ENOENT
  realFdopen n _ _ := .ok n
  opendir n path := match inFolder path with
    | some o => if o.isDirectory then .ok n else .error .ENOTDIR
    | none => .error .ENOENT

/-- Nothing is open yet. -/
def idle : Process := ⟨{ aLinkHost with win := aProcess }, fun _ => none⟩

/-- The directory is opened twice, once by a descriptor, and so is the file. -/
def openAll : List FdOp :=
  [.opendir [0x64], .openFile [0x64] 0 none, .fdopendir 1, .openFile [0x66] 0 none,
   .fopen [0x66] ⟨[0x72], by decide⟩, .inspect (.lstat [0x66]),
   .openat ⟨true, some 0⟩ 0 [0x66] 0 0]

/-- The only `fopen` of the run has a stream, so nothing is lost. -/
theorem noneLost_openAll :
    (∀ pre, pre <+: openAll →
      Process.NoneLost (pre.foldl (processStep aProgram .debug noEntries) idle)) ∧
    (openAll.foldl (processStep aProgram .debug noEntries) idle).owner 3 =
      some (.stream 20) := by
  refine ⟨(noneLost_iff (Run.of_allOk (by decide +kernel))).mpr ?_, by decide +kernel⟩
  simp only [openAll, List.foldl_cons, List.foldl_nil]
  refine .cons trivial (.cons trivial (.cons trivial (.cons trivial (.cons ?_
    (.cons trivial (.cons trivial (.nil _)))))))
  exact fopenKeeps_of_stream (by decide +kernel)

/-- Both directory streams are closed again. -/
def giveBack : List FdOp :=
  [.opendir [0x64], .openFile [0x64] 0 none, .fdopendir 1, .closedir ⟨some 4, 0⟩,
   .closedir ⟨some 15, 1⟩]

def gaveBack : Process := giveBack.foldl (processStep aProgram .debug noEntries) idle

set_option maxRecDepth 10000 in
theorem gaveBack_owner : gaveBack.owner =
    Function.update (Function.update (Function.update (Function.update (Function.update
      (fun _ => none) 0 (some (.dir 4))) 1 (some .client)) 1 (some (.dir 15))) 0 none) 1 none :=
  rfl

theorem owners_none_giveBack :
    gaveBack.host.tables = idle.host.tables ∧ gaveBack.host.streams = idle.host.streams := by
  have hrun : Run (Process.Allows aProgram .debug noEntries)
      (processStep aProgram .debug noEntries) idle giveBack gaveBack :=
    Run.of_allOk (by decide +kernel)
  have hnone : ∀ fd, gaveBack.owner fd = none := by
    intro fd
    rw [gaveBack_owner]
    by_cases h1 : fd = 1
    · rw [h1, Function.update_self]
    · by_cases h0 : fd = 0
      · rw [Function.update_of_ne h1, h0, Function.update_self]
      · simp only [Function.update_of_ne h1, Function.update_of_ne h0]
  exact (owners_none hrun).2 hnone

end LibcCompat.Winsup
