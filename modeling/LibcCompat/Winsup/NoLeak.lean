/-
# `LibcCompat.Winsup.NoLeak` — what the path functions leave of the tables

`__open_symlink_fd` hands the handle over to the descriptor.  `readlink` closes
the handle and not the descriptor, which stays in the table for good, bound to
nothing.  `lstat` and `fstat` reach `readlink` for the size of a reparse point,
and the functions of `at.c` reach `fstat` for the directory.

What is proved: along a run of such calls the tables are in every state as they
were at the start exactly if no `readlink` on the way gets past its open.
-/
import LibcCompat.Lib.Run
import LibcCompat.Winsup.Tables

namespace LibcCompat.Winsup

open LibcCompat.Lib

variable (E : Env)

/-! ## When a `readlink` gets past its open -/

/-- In `readlink` itself. -/
def readlinkOpens (path : Path) (len : Nat) (s : Win) : Bool := len != 0 && opens E path s

/-- For the size of a reparse point. -/
def sizeOpens (o : Object) (path : Option Path) (s : Win) : Bool :=
  o.isReparse && path.any (readlinkOpens E · PATH_MAX s)

/-- In `fstat`. -/
def fstatOpens (fd : Fd) : Win → Bool :=
  after (examine E fd) fun found s => found.any fun (o, _, path) => sizeOpens E o path s

/-- In `lstat`. -/
def lstatOpens (path : Path) : Win → Bool :=
  after (openSymlinkFd E path) fun fd s => fd.any (fstatOpens E · s)

/-- In a function of `at.c`, on the way to a path function or there. -/
def resolveOpens (b : Build) (m : Heap) (dirfd : Fd) (path : Path) (callee : Path → Win → Bool)
    (s : Win) : Bool :=
  if E.pathIsRelative path then
    fstatOpens E dirfd s ||
      after (getPathAt (winSys E b) m.malloc dirfd path) (fun r s => r.any (callee · s)) s
  else callee path s

variable {E}

/-! ## `readlink` -/

theorem leave_keeps (h : Handle) (answer : Answer) :
    Keeps (fun s => s.tables.but h) (leave h answer) := by
  refine Keeps.bind (Keeps.modify fun s => ?_) fun _ => Keeps.pure _
  simp only [Win.tables, Tables.but, Function.update_idem]

theorem readReparse_keeps (b : Build) (h : Handle) (len : Nat) :
    Keeps (fun s => s.tables.but h) (readReparse E b h len) := by
  refine (malloc_keeps.comp _).bind fun ok => ?_
  cases ok with
  | false => exact leave_keeps h _
  | true =>
      refine ((getReparsePoint_keeps h).comp _).bind fun r => ?_
      cases r with
      | none => exact (setErrnoViaWinerr_keeps.comp _).bind fun _ => leave_keeps h _
      | some r =>
          refine Keeps.ite ?_ (((setErrno_keeps _).comp _).bind fun _ => leave_keeps h _)
          refine ((convertName_keeps b r len).comp _).bind fun answer => ?_
          cases answer with
          | none => exact Keeps.pure _
          | some answer => exact leave_keeps h _

theorem Opened.leaks {path : Path} {s t u : Win} {fd : Fd} {o : Object}
    (h : Opened E path s fd o t)
    (hbut : u.tables.but (E.newHandle s.calls) = t.tables.but (E.newHandle s.calls)) :
    s.tables < u.tables := by
  rw [h.state] at hbut
  have hcrt : u.crt = Function.update s.crt fd (some (E.newHandle s.calls)) :=
    congrArg Tables.crt hbut
  have hhandles : Function.update u.handles (E.newHandle s.calls) none = s.handles :=
    (congrArg Tables.handles hbut).trans (update_remove h.fresh _)
  have hle : s.tables ≤ u.tables := by
    constructor
    · show Extends s.crt u.crt
      rw [hcrt]
      exact Extends.update h.free _
    · show Extends s.handles u.handles
      rw [← hhandles]
      exact Extends.of_remove _ _
  refine lt_of_le_of_ne hle fun heq => ?_
  have hfd : s.crt fd = u.crt fd := congrFun (congrArg Tables.crt heq) fd
  rw [hcrt, Function.update_self, h.free] at hfd
  cases hfd

/-- `readlink` leaks exactly if it gets past its open. -/
theorem readlink_adds (b : Build) (path : Path) (len : Nat) :
    Adds Win.tables (readlink E b path len) (readlinkOpens E path len) := by
  refine Adds.of_cases ?_ ?_
  · intro s a t hstays h
    by_cases hlen : len = 0
    · rw [readlink, if_pos hlen] at h
      exact (setErrno_keeps _).bind (fun _ => Keeps.pure _) s a t h
    · have hopens : opens E path s = false := by simpa [readlinkOpens, hlen] using hstays
      obtain ⟨u, hopen, htables⟩ := openSymlinkFd_fails hopens
      rw [readlink, if_neg hlen, bind_apply, hopen] at h
      exact (setErrnoViaWinerr_keeps.bind (fun _ => Keeps.pure _) u a t h).trans htables
  · intro s a t hgoes h
    rw [readlinkOpens, Bool.and_eq_true, bne_iff_ne] at hgoes
    obtain ⟨fd, o, u, hopen, hopened⟩ := openSymlinkFd_ok hgoes.2
    rw [readlink, if_neg hgoes.1, bind_apply, hopen] at h
    dsimp only at h
    rw [bind_apply, getOsfhandle_eq hopened.bound] at h
    exact hopened.leaks (readReparse_keeps b _ len u a t h)

/-! ## `fstat` and `lstat` -/

theorem sizeOf_adds (b : Build) (o : Object) (path : Option Path) :
    Adds Win.tables (sizeOf E b o path) (sizeOpens E o path) := by
  unfold Winsup.sizeOf sizeOpens
  cases o.isReparse with
  | false => exact Adds.of_keeps (Keeps.pure _)
  | true =>
      cases path with
      | none => exact Adds.of_keeps (Keeps.pure _)
      | some path => exact (readlink_adds b path PATH_MAX).bind_keeps fun _ => Keeps.pure _

theorem fstat64_adds (b : Build) (fd : Fd) :
    Adds Win.tables (fstat64 E b fd) (fstatOpens E fd) := by
  refine Adds.keeps_bind (examine_keeps fd) fun found => ?_
  cases found with
  | none => exact Adds.of_keeps (Keeps.pure _)
  | some found =>
      obtain ⟨o, type, path⟩ := found
      exact (sizeOf_adds b o path).bind_keeps fun _ => Keeps.pure _

/-- `close` undoes the open, and nothing that came between. -/
theorem Opened.closed {path : Path} {s t u v : Win} {fd : Fd} {o : Object}
    (h : Opened E path s fd o t) (hle : t.tables ≤ u.tables) (hclose : close fd u = .ok ⟨⟩ v) :
    s.tables ≤ v.tables ∧ (v.tables = s.tables ↔ u.tables = t.tables) := by
  have hfd : u.crt fd = some (E.newHandle s.calls) := hle.1 _ _ h.bound
  rw [close, hfd] at hclose
  cases hclose
  obtain ⟨-, hfresh, hfree, rfl⟩ := h
  have hhandle : u.handles (E.newHandle s.calls) = some o :=
    hle.2 _ _ (Function.update_self ..)
  constructor
  · constructor
    · exact ((Extends.update hfree _).trans hle.1).remove hfree
    · exact ((Extends.update hfresh _).trans hle.2).remove hfresh
  · simp only [Win.tables, Tables.mk.injEq, remove_eq_iff hfree hfd,
      remove_eq_iff hfresh hhandle]

theorem lstat_adds (b : Build) (path : Path) :
    Adds Win.tables (lstat E b path) (lstatOpens E path) := by
  have hrun : ∀ {s a v}, lstat E b path s = .ok a v →
      s.tables ≤ v.tables ∧ (v.tables = s.tables ↔ lstatOpens E path s = false) := by
    intro s a v h
    cases hopens : opens E path s with
    | false =>
        obtain ⟨t, hopen, htables⟩ := openSymlinkFd_fails hopens
        rw [lstat, bind_apply, hopen] at h
        have hsame := (setErrnoViaWinerr_keeps.bind (fun _ => Keeps.pure _) t a v h).trans htables
        refine ⟨le_of_eq hsame.symm, iff_of_true hsame ?_⟩
        rw [lstatOpens, after_of_ok hopen]
        rfl
    | true =>
        obtain ⟨fd, o, t, hopen, hopened⟩ := openSymlinkFd_ok hopens
        rw [lstat, bind_apply, hopen] at h
        obtain ⟨answer, u, hstat, hrest⟩ := bind_ok h
        obtain ⟨_, w, hclose, hpure⟩ := bind_ok hrest
        obtain ⟨rfl, rfl⟩ : answer = a ∧ w = v := by
          cases hpure
          exact ⟨rfl, rfl⟩
        have hinner := fstat64_adds (E := E) b fd
        obtain ⟨hle, hsame⟩ := hopened.closed (hinner.le t answer u hstat) hclose
        refine ⟨hle, hsame.trans ?_⟩
        rw [hinner.same_iff t answer u hstat, lstatOpens, after_of_ok hopen]
        rfl
  exact ⟨fun s a v h => (hrun h).1, fun s a v h => (hrun h).2⟩

/-! ## The functions of `at.c` -/

section
variable (E) (b : Build) {α : Type}

theorem winSys_setErrno_keeps (e : Errno) (a : α) : Keeps Win.tables (do
    modify ((winSys E b).setErrno e); return a : Prog Win α) :=
  keeps_modify_pure (by intro s; rfl) a

theorem winSys_setErrnoViaWinerr_keeps (a : α) : Keeps Win.tables (do
    modify (winSys E b).setErrnoViaWinerr; return a : Prog Win α) :=
  keeps_modify_pure (by intro s; rfl) a

theorem isDirfd_adds (dirfd : Fd) :
    Adds Win.tables (isDirfd (winSys E b) dirfd) (fstatOpens E dirfd) := by
  refine ((fstat64_adds b dirfd).bind_keeps fun _ => Keeps.pure _).bind_keeps fun buf => ?_
  cases buf with
  | none => exact winSys_setErrno_keeps E b _ _
  | some buf => exact (Keeps.pure _).ite (winSys_setErrno_keeps E b _ _)

theorem getPathAt_adds (mallocOk : Bool) (dirfd : Fd) (name : Path) :
    Adds Win.tables (getPathAt (winSys E b) mallocOk dirfd name) (fstatOpens E dirfd) := by
  refine (isDirfd_adds E b dirfd).bind_keeps fun ok => ?_
  cases ok with
  | false => exact Keeps.pure _
  | true =>
      refine (fdGetPath_keeps dirfd).bind fun parent => ?_
      cases parent with
      | none => exact winSys_setErrnoViaWinerr_keeps E b _
      | some parent =>
          refine (winSys_setErrno_keeps E b _ _).ite ?_
          exact (Keeps.pure _).ite (winSys_setErrno_keeps E b _ _)

end

theorem resolveThen_adds {b : Build} {callee : Path → PathCall} {more : Path → Win → Bool}
    (hcallee : ∀ path, Adds Win.tables (pathCall E b (callee path)) (more path)) (m : Heap)
    (dirfd : Fd) (path : Path) :
    Adds Win.tables (resolveThen (winSys E b) m dirfd path callee)
      (resolveOpens E b m dirfd path more) := by
  rw [resolveThen]
  unfold resolveOpens
  cases hrel : E.pathIsRelative path with
  | false =>
      simp only [winSys, hrel]
      exact hcallee path
  | true =>
      simp only [winSys, hrel]
      refine (getPathAt_adds E b m.malloc dirfd path).bind fun realPath => ?_
      cases realPath with
      | none => exact Adds.of_keeps (Keeps.pure _)
      | some realPath => exact hcallee realPath

/-! ## Runs -/

/-- A call of one of the path functions. -/
inductive PathOp where
  | readlink (path : Path) (len : Nat)
  | readlinkat (m : Heap) (dirfd : Fd) (path : Path) (len : Nat)
  | lstat (path : Path)
  | fstatat (m : Heap) (dirfd : Fd) (pathname : Path) (flags : UInt32)
  | fstat (fd : Fd)
deriving DecidableEq, Repr

def PathOp.run (E : Env) (b : Build) : PathOp → Prog Win Answer
  | .readlink path len => Winsup.readlink E b path len
  | .readlinkat m dirfd path len => Winsup.readlinkat (winSys E b) m dirfd path len
  | .lstat path => Winsup.lstat E b path
  | .fstatat m dirfd pathname flags => Winsup.fstatat (winSys E b) m dirfd pathname flags
  | .fstat fd => Winsup.fstat64 E b fd

/-- The call comes back, and does not end the program. -/
def PathOp.returns (E : Env) (b : Build) (op : PathOp) : Win → Bool :=
  after (op.run E b) fun _ _ => true

/-- A `readlink` of the call gets past its open. -/
def PathOp.opensLink (E : Env) (b : Build) : PathOp → Win → Bool
  | .readlink path len => readlinkOpens E path len
  | .readlinkat m dirfd path len => resolveOpens E b m dirfd path (readlinkOpens E · len)
  | .lstat path => lstatOpens E path
  | .fstatat m dirfd pathname flags =>
      if flags = AT_SYMLINK_NOFOLLOW then resolveOpens E b m dirfd pathname (lstatOpens E)
      else if flags = 0 then resolveOpens E b m dirfd pathname fun _ _ => false
      else fun _ => false
  | .fstat fd => fstatOpens E fd

theorem PathOp.adds (b : Build) (op : PathOp) :
    Adds Win.tables (op.run E b) (op.opensLink E b) := by
  cases op with
  | readlink path len => exact readlink_adds b path len
  | readlinkat m dirfd path len =>
      have hcallee : ∀ realPath, Adds Win.tables (pathCall E b (.readlink realPath len))
          (readlinkOpens E realPath len) := fun realPath => readlink_adds b realPath len
      exact resolveThen_adds hcallee m dirfd path
  | lstat path => exact lstat_adds b path
  | fstatat m dirfd pathname flags =>
      simp only [PathOp.run, PathOp.opensLink, Winsup.fstatat]
      split
      · have hcallee : ∀ realPath, Adds Win.tables (pathCall E b (.lstat realPath))
            (lstatOpens E realPath) := lstat_adds b
        exact resolveThen_adds hcallee m dirfd pathname
      · split
        · refine resolveThen_adds (fun path => Adds.of_keeps ?_) m dirfd pathname
          intro s a t h
          cases h
          rfl
        · exact Adds.of_keeps (winSys_setErrno_keeps E b _ _)
  | fstat fd => exact fstat64_adds b fd

/-- The state after a call. -/
def PathOp.step (E : Env) (b : Build) (s : Win) (op : PathOp) : Win := finalState (op.run E b s)

theorem PathOp.step_tables (b : Build) {s : Win} {op : PathOp} (h : op.returns E b s = true) :
    (PathOp.step E b s op).tables = s.tables ↔ op.opensLink E b s = false := by
  cases hrun : op.run E b s with
  | ok a t =>
      rw [PathOp.step, hrun]
      exact (op.adds b).same_iff s a t hrun
  | error e t =>
      rw [PathOp.returns, after, hrun] at h
      cases h

/-- No descriptor is bound to a closed handle. -/
def AllBound (s : Win) : Prop := ∀ fd h, s.crt fd = some h → s.handles h ≠ none

/-- What a later state should have kept: the tables, and with them a descriptor
for the next open, and the handles of the descriptors. -/
structure Kept (E : Env) (s t : Win) : Prop where
  tables : t.tables = s.tables
  descriptor : (freeFd E s).isSome → (freeFd E t).isSome
  bound : AllBound s → AllBound t

theorem kept_iff {s t : Win} : Kept E s t ↔ t.tables = s.tables := by
  constructor
  · exact Kept.tables
  · intro h
    have hcrt : t.crt = s.crt := congrArg Tables.crt h
    have hhandles : t.handles = s.handles := congrArg Tables.handles h
    refine ⟨h, ?_, ?_⟩
    · rw [freeFd, freeFd, hcrt]
      exact id
    · rw [AllBound, AllBound, hcrt, hhandles]
      exact id

/-- **No descriptor leak.**  Everything is kept along a run of calls exactly if no
`readlink` of it gets past its open. -/
theorem calls_keepTables (b : Build) {s t : Win} {ops : List PathOp}
    (h : Run (fun s op => op.returns E b s = true) (PathOp.step E b) s ops t) :
    (∀ pre, pre <+: ops → Kept E s (pre.foldl (PathOp.step E b) s)) ↔
      Run (fun s op => op.opensLink E b s = false) (PathOp.step E b) s ops t := by
  refine h.always_iff (P := fun u => u.tables = s.tables) ?_ ?_ ?_ rfl
  · exact fun u hu => kept_iff.mpr hu
  · intro u op hu hret hstays
    exact ((PathOp.step_tables b hret).mpr hstays).trans hu
  · intro u op hu hret hgoes hkept
    exact hgoes ((PathOp.step_tables b hret).mp (hkept.tables.trans hu.symm))

/-- A symbolic link to `a`. -/
def aLink : Object where
  attributes := FILE_ATTRIBUTE_REPARSE_POINT
  accessTime := 0
  writeTime := 0
  sizeHigh := 0
  sizeLow := 0
  links := 1
  type := .disk
  finalPath := [0x6C]
  reparse := some {
    tag := IO_REPARSE_TAG_SYMLINK
    pathBuffer := fun i => if i = 0 then 0x61 else 0
    substituteNameOffset := 0
    substituteNameLength := 2
    printNameOffset := 0
    printNameLength := 2 }
  reparse_iff := by decide
  reparse_disk := fun _ => rfl

/-- A file of three bytes. -/
def aFile : Object where
  attributes := 0x20
  accessTime := 0
  writeTime := 0
  sizeHigh := 0
  sizeLow := 3
  links := 1
  type := .disk
  finalPath := [0x66]
  reparse := none
  reparse_iff := by decide
  reparse_disk := fun h => Bool.noConfusion h

/-- A directory. -/
def aDirectory : Object :=
  { aFile with
    attributes := FILE_ATTRIBUTE_DIRECTORY
    sizeLow := 0
    finalPath := [0x64]
    reparse_iff := by decide }

/-- A link `l` and a file `f`; nothing fails, and a byte is a character. -/
def aFolder : Env where
  pathIsRelative _ := true
  object _ path := if path = [0x6C] then some aLink else if path = [0x66] then some aFile else none
  fails _ := none
  newHandle n := 4 * (n + 1)
  uninit _ := some []
  call _ _ := .of 0
  codePage := {
    conv := List.map UInt16.toUInt8
    grows := fun a b => by simp }
  errnoOf _ := .EINVAL
  descriptors := 2048

/-- No descriptor is open. -/
def aProcess : Win where
  crt _ := none
  handles _ := none
  errno := .other 0
  lastError := NO_ERROR
  calls := 0

/-- A `readlink` without room, and a file. -/
def harmless : List PathOp := [.readlink [0x6C] 0, .lstat [0x66]]

theorem calls_keepTables_harmless :
    (∀ pre, pre <+: harmless →
      Kept aFolder aProcess (pre.foldl (PathOp.step aFolder .debug) aProcess)) ∧
    freeFd aFolder (harmless.foldl (PathOp.step aFolder .debug) aProcess) =
      freeFd aFolder aProcess :=
  ⟨(calls_keepTables .debug (Run.of_allOk (by decide +kernel))).mpr
    (Run.of_allOk (by decide +kernel)), by decide +kernel⟩

/-- A link is read. -/
def readOnce : List PathOp := [.readlink [0x6C] PATH_MAX]

/-- Its descriptor stays. -/
theorem readOnce_leaks :
    Run (fun s op => op.returns aFolder .debug s = true) (PathOp.step aFolder .debug) aProcess
      readOnce (readOnce.foldl (PathOp.step aFolder .debug) aProcess) ∧
    ¬ Kept aFolder aProcess (readOnce.foldl (PathOp.step aFolder .debug) aProcess) := by
  refine ⟨Run.of_allOk (by decide +kernel), fun h => ?_⟩
  have hfd := congrFun (congrArg Tables.crt h.tables) 0
  revert hfd
  decide +kernel

end LibcCompat.Winsup
