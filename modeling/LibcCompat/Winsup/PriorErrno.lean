/-
# `LibcCompat.Winsup.PriorErrno` — no function reads the `errno` it finds

`errno` is written all over the path functions and read by none of them: two
calls that find different values in it end alike (`Blind`).  The functions that
report a failure through it also set it whenever they fail: `fstat`, `lstat`, the
examination of a directory descriptor, and `fstatat`.

`readlink` is blind as well, but does not set `errno` in every failure: a link
without a name is refused by an assert alone.
-/
import LibcCompat.Lib.Blind
import LibcCompat.Winsup.Stat

namespace LibcCompat.Winsup

open LibcCompat.Lib

/-- The process but for `errno`. -/
def Win.butErrno (s : Win) : Win := { s with errno := .other 0 }

theorem butErrno_eq {s t : Win} (h : s.butErrno = t.butErrno) :
    t = { s with errno := t.errno } := by
  cases s
  cases t
  simp only [Win.butErrno, Win.mk.injEq] at h ⊢
  exact ⟨h.1.symm, h.2.1.symm, trivial, h.2.2.2.1.symm, h.2.2.2.2.symm⟩

/-- It is enough to change `errno`. -/
theorem blind_of_errno {α : Type} {sets : α → Prop} {x : Prog Win α}
    (hx : ∀ s e, EndAlike Win.butErrno sets (x s) (x { s with errno := e })) :
    Blind Win.butErrno sets x := by
  intro s t h
  rw [butErrno_eq h]
  exact hx s t.errno

variable {E : Env}

/-! ## The platform -/

theorem setErrno_bind_blind {α : Type} {sets : α → Prop} (e : Errno) (x : PUnit → Prog Win α) :
    Blind Win.butErrno sets (setErrno e >>= x) :=
  overwrite_bind fun s t h => by
    rw [butErrno_eq h]

theorem setErrnoViaWinerr_bind_blind {α : Type} {sets : α → Prop} (x : PUnit → Prog Win α) :
    Blind Win.butErrno sets (setErrnoViaWinerr E >>= x) :=
  overwrite_bind fun s t h => by
    rw [butErrno_eq h]

theorem setLastError_blind (e : WinErr) : Blind Win.butErrno never (setLastError e) :=
  Blind.modify fun s t h => by
    rw [butErrno_eq h]
    rfl

theorem closeHandle_blind (h : Handle) : Blind Win.butErrno never (closeHandle h) :=
  Blind.modify fun s t h => by
    rw [butErrno_eq h]
    rfl

theorem failWith_blind {α : Type} (e : WinErr) :
    Blind Win.butErrno never (failWith e : Prog Win (Option α)) :=
  (setLastError_blind e).bind fun _ _ => Blind.pure id

theorem attempt_blind {α : Type} {sets : α → Prop} {failed : WinErr → Prog Win α}
    {go : Nat → Prog Win α} (hfailed : ∀ e, Blind Win.butErrno sets (failed e))
    (hgo : ∀ n, Blind Win.butErrno sets (go n)) :
    Blind Win.butErrno sets (attempt E failed go) := by
  refine blind_of_errno fun s e => ?_
  unfold attempt
  cases E.fails s.calls with
  | some err => exact hfailed err _ _ rfl
  | none => exact hgo s.calls _ _ rfl

theorem malloc_blind : Blind Win.butErrno (· = false) (malloc E) :=
  attempt_blind (fun _ => setErrno_bind_blind _ _) fun _ => Blind.pure Bool.noConfusion

theorem createFile_blind (path : Path) : Blind Win.butErrno never (createFile E path) := by
  refine attempt_blind failWith_blind fun n => blind_of_errno fun s e => ?_
  dsimp only
  cases E.object n path with
  | none => exact .ok rfl False.elim
  | some o =>
      cases s.handles (E.newHandle n) with
      | none => exact .ok rfl False.elim
      | some other => exact .ok rfl False.elim

theorem openOsfhandle_blind (h : Handle) : Blind Win.butErrno never (openOsfhandle E h) := by
  refine attempt_blind failWith_blind fun n => blind_of_errno fun s e => ?_
  have hfree : freeFd E { s with errno := e } = freeFd E s := rfl
  dsimp only
  rw [hfree]
  cases freeFd E s with
  | none => exact .ok rfl False.elim
  | some fd => exact .ok rfl False.elim

theorem getOsfhandle_blind (fd : Fd) : Blind Win.butErrno (· = none) (getOsfhandle fd) := by
  refine blind_of_errno fun s e => ?_
  unfold getOsfhandle
  cases s.crt fd with
  | some h => exact .ok rfl nofun
  | none => exact .ok rfl fun _ => rfl

theorem close_blind (fd : Fd) : Blind Win.butErrno never (close fd) := by
  refine blind_of_errno fun s e => ?_
  unfold close
  cases s.crt fd with
  | some h => exact .ok rfl False.elim
  | none => exact .ok rfl False.elim

theorem query_blind (h : Handle) : Blind Win.butErrno never (query E h) := by
  refine attempt_blind failWith_blind fun n => blind_of_errno fun s e => ?_
  dsimp only
  cases s.handles h with
  | some o => exact .ok rfl False.elim
  | none => exact .ok rfl False.elim

theorem getFileType_blind (h : Handle) : Blind Win.butErrno never (getFileType E h) := by
  refine (query_blind h).bind fun o _ => ?_
  cases o with
  | none => exact Blind.pure id
  | some o =>
      dsimp only
      cases o.type with
      | unknown => exact (setLastError_blind _).bind fun _ _ => Blind.pure id
      | char => exact Blind.pure id
      | pipe => exact Blind.pure id
      | disk => exact Blind.pure id

theorem readUninit_blind : Blind Win.butErrno never (readUninit E) := by
  refine blind_of_errno fun s e => ?_
  unfold readUninit
  dsimp only
  cases E.uninit s.calls with
  | some found => exact .ok rfl False.elim
  | none => exact .error

theorem getFinalPathNameByHandle_blind (h : Handle) :
    Blind Win.butErrno never (getFinalPathNameByHandle E h) := by
  refine (query_blind h).bind fun o _ => ?_
  cases o with
  | none => exact Blind.pure id
  | some o =>
      refine Blind.ite (failWith_blind _) (Blind.ite (Blind.pure id) ?_)
      exact readUninit_blind.bind fun _ _ => Blind.pure id

theorem getReparsePoint_blind (h : Handle) : Blind Win.butErrno never (getReparsePoint E h) := by
  refine (query_blind h).bind fun o _ => ?_
  cases o with
  | none => exact Blind.pure id
  | some o =>
      dsimp only
      cases o.reparse with
      | none => exact failWith_blind _
      | some r => exact Blind.pure id

theorem wideCharToMultiByte_blind (w : List UInt16) (len : Nat) :
    Blind Win.butErrno never (wideCharToMultiByte E w len) := by
  refine attempt_blind (fun e => (setLastError_blind e).bind fun _ _ => Blind.pure id) fun n => ?_
  exact Blind.ite (Blind.pure id) (Blind.ite (Blind.pure id) (Blind.pure id))

/-! ## `readlink` -/

theorem openSymlinkFd_blind (path : Path) : Blind Win.butErrno never (openSymlinkFd E path) := by
  refine (createFile_blind path).bind fun h _ => ?_
  cases h with
  | none => exact Blind.pure id
  | some h =>
      refine (openOsfhandle_blind h).bind fun fd _ => ?_
      cases fd with
      | none =>
          refine (setLastError_blind _).bind fun _ _ => ?_
          exact (closeHandle_blind h).bind fun _ _ => Blind.pure id
      | some fd => exact Blind.pure id

theorem fdGetPath_blind (fd : Fd) : Blind Win.butErrno never (fdGetPath E fd) := by
  refine (getOsfhandle_blind fd).bind fun h _ => ?_
  cases h with
  | none => exact (setLastError_blind _).bind fun _ _ => Blind.pure id
  | some h =>
      refine malloc_blind.bind fun ok _ => ?_
      cases ok with
      | false => exact Blind.pure id
      | true =>
          refine (getFinalPathNameByHandle_blind h).bind fun buf _ => ?_
          cases buf with
          | none => exact Blind.pure id
          | some buf => exact Blind.pure id

theorem convertName_blind (b : Build) (r : Reparse) (len : Nat) :
    Blind Win.butErrno never (convertName E b r len) := by
  unfold convertName
  cases r.name with
  | none =>
      cases b with
      | debug => exact Blind.throw _
      | ndebug => exact Blind.pure id
  | some name =>
      refine (wideCharToMultiByte_blind _ _).bind fun res _ => ?_
      exact Blind.ite (Blind.throw _) (Blind.pure id)

theorem leave_blind (h : Handle) (answer : Answer) : Blind Win.butErrno never (leave h answer) :=
  (closeHandle_blind h).bind fun _ _ => Blind.pure id

theorem readReparse_blind (b : Build) (h : Handle) (len : Nat) :
    Blind Win.butErrno never (readReparse E b h len) := by
  refine malloc_blind.bind fun ok _ => ?_
  cases ok with
  | false => exact leave_blind h _
  | true =>
      refine (getReparsePoint_blind h).bind fun r _ => ?_
      cases r with
      | none => exact setErrnoViaWinerr_bind_blind _
      | some r =>
          refine Blind.ite ?_ (setErrno_bind_blind _ _)
          refine (convertName_blind b r len).bind fun answer _ => ?_
          cases answer with
          | none => exact Blind.pure id
          | some answer => exact leave_blind h _

theorem readlink_blind (b : Build) (path : Path) (len : Nat) :
    Blind Win.butErrno never (readlink E b path len) := by
  refine Blind.ite (setErrno_bind_blind _ _) ?_
  refine (openSymlinkFd_blind path).bind fun fd _ => ?_
  cases fd with
  | none => exact setErrnoViaWinerr_bind_blind _
  | some fd =>
      refine (getOsfhandle_blind fd).bind fun h _ => ?_
      cases h with
      | none => exact (close_blind fd).bind fun _ _ => Blind.pure id
      | some h => exact readReparse_blind b h len

/-! ## `fstat` and `lstat` -/

theorem examine_blind (fd : Fd) : Blind Win.butErrno (· = none) (examine E fd) := by
  refine (getOsfhandle_blind fd).bind fun h hne => ?_
  cases h with
  | none => exact absurd rfl hne
  | some h =>
      refine (query_blind h).bind fun hfi _ => ?_
      cases hfi with
      | none => exact setErrnoViaWinerr_bind_blind _
      | some hfi =>
          refine (fdGetPath_blind fd).bind fun path _ => ?_
          refine (getFileType_blind h).bind fun type _ => ?_
          cases type with
          | unknown => exact overwrite_bind fun s t heq => by rw [butErrno_eq heq]
          | char => exact Blind.pure nofun
          | pipe => exact Blind.pure nofun
          | disk => exact Blind.pure nofun

theorem sizeOf_blind (b : Build) (o : Object) (path : Option Path) :
    Blind Win.butErrno never (Winsup.sizeOf E b o path) := by
  refine Blind.ite ?_ (Blind.pure id)
  cases path with
  | none => exact Blind.pure id
  | some path => exact (readlink_blind b path PATH_MAX).bind fun _ _ => Blind.pure id

theorem fstat64_blind (b : Build) (fd : Fd) :
    Blind Win.butErrno (·.ret < 0) (fstat64 E b fd) := by
  refine (examine_blind fd).bind fun found hne => ?_
  cases found with
  | none => exact absurd rfl hne
  | some found =>
      obtain ⟨o, type, path⟩ := found
      exact (sizeOf_blind b o path).bind fun _ _ => Blind.pure (Int.lt_irrefl 0)

theorem lstat_blind (b : Build) (path : Path) :
    Blind Win.butErrno (·.ret < 0) (lstat E b path) := by
  refine (openSymlinkFd_blind path).bind fun fd _ => ?_
  cases fd with
  | none => exact setErrnoViaWinerr_bind_blind _
  | some fd =>
      refine (fstat64_blind b fd).bind fun answer hret => ?_
      exact (close_blind fd).bind fun _ _ => Blind.pure hret

/-! ## The functions of `at.c` -/

theorem isDirfd_blind (b : Build) (fd : Fd) :
    Blind Win.butErrno (· = false) (isDirfd (winSys E b) fd) := by
  refine Blind.bind (P := never) ?_ fun found _ => ?_
  · refine ((fstat64_blind b fd).mono fun _ => False.elim).bind fun answer _ => ?_
    exact Blind.pure id
  · cases found with
    | none => exact setErrno_bind_blind .ENOTDIR _
    | some buf => exact Blind.ite (Blind.pure Bool.noConfusion) (setErrno_bind_blind .ENOTDIR _)

theorem getPathAt_blind (b : Build) (mallocOk : Bool) (dirfd : Fd) (name : Path) :
    Blind Win.butErrno (· = none) (getPathAt (winSys E b) mallocOk dirfd name) := by
  refine (isDirfd_blind b dirfd).bind fun ok hok => ?_
  cases ok with
  | false => exact absurd rfl hok
  | true =>
      refine (fdGetPath_blind dirfd).bind fun parent _ => ?_
      cases parent with
      | none => exact setErrnoViaWinerr_bind_blind _
      | some parent =>
          refine Blind.ite (setErrno_bind_blind .ENAMETOOLONG _) (Blind.ite ?_ ?_)
          · exact Blind.pure nofun
          · exact setErrno_bind_blind .ENOMEM _

theorem resolveThen_blind (b : Build) (m : Heap) (dirfd : Fd) (path : Path)
    {callee : Path → PathCall}
    (hcallee : ∀ path, Blind Win.butErrno (·.ret < 0) (pathCall E b (callee path))) :
    Blind Win.butErrno (·.ret < 0) (resolveThen (winSys E b) m dirfd path callee) := by
  refine Blind.ite ?_ (hcallee path)
  refine (getPathAt_blind b m.malloc dirfd path).bind fun realPath hne => ?_
  cases realPath with
  | none => exact absurd rfl hne
  | some realPath => exact hcallee realPath

theorem fstatat_blind (b : Build) (m : Heap) (dirfd : Fd) (pathname : Path) :
    Blind Win.butErrno (·.ret < 0)
      (fstatat (winSys E b) m dirfd pathname AT_SYMLINK_NOFOLLOW) :=
  resolveThen_blind b m dirfd pathname (lstat_blind b)

end LibcCompat.Winsup
