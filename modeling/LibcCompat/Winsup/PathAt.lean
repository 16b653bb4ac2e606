/-
# `LibcCompat.Winsup.PathAt` — a name relative to a directory descriptor

`__is_dirfd` and `__get_path_at` of `internal/fd.c`.  The name is joined to the
path of the descriptor by `snprintf` into a buffer of `PATH_MAX + 1` bytes; the
length is checked before, so nothing is cut off (`getPathAt_eq`).
-/
import LibcCompat.Winsup.Sys

namespace LibcCompat.Winsup

open LibcCompat.Lib

variable {σ : Type}

/-- `snprintf(buf, size, "%s/%s", parent, name)`: what `buf` holds afterwards. -/
def snprintfPath (size : Nat) (parent name : Path) : Path :=
  (parent ++ 0x2f :: name).take (size - 1)

/-- `__is_dirfd`. -/
def isDirfd (S : Sys σ) (fd : Fd) : Prog σ Bool := do
  match ← S.fstat fd with
  | some buf =>
      if isDir buf.mode then
        return true
      else
        modify (S.setErrno .ENOTDIR)
        return false
  | none =>
      modify (S.setErrno .ENOTDIR)
      return false

/-- `__get_path_at`; `mallocOk` says whether its own `malloc` succeeds, which
otherwise sets `ENOMEM`. -/
def getPathAt (S : Sys σ) (mallocOk : Bool) (dirfd : Fd) (name : Path) :
    Prog σ (Option Path) := do
  if ← isDirfd S dirfd then
    match ← S.fdGetPath dirfd with
    | none =>
        modify S.setErrnoViaWinerr
        return none
    | some parent =>
        if parent.length + 1 + name.length > PATH_MAX then
          modify (S.setErrno .ENAMETOOLONG)
          return none
        else if mallocOk then
          return some (snprintfPath (PATH_MAX + 1) parent name)
        else
          modify (S.setErrno .ENOMEM)
          return none
  else
    return none

theorem snprintfPath_eq {parent name : Path} (h : parent.length + 1 + name.length ≤ PATH_MAX) :
    snprintfPath (PATH_MAX + 1) parent name = parent ++ 0x2f :: name := by
  refine List.take_of_length_le ?_
  rw [List.length_append, List.length_cons]
  omega

/-! ## Recording -/

theorem isDirfd_recorded (S : Sys σ) (fd : Fd) :
    isDirfd S.recorded fd = onState (isDirfd S fd) := by
  simp only [isDirfd, onState_bind]
  refine congrArg (onState (S.fstat fd) >>= ·) (funext fun r => ?_)
  cases r with
  | none => rfl
  | some buf =>
      simp only [onState_ite]
      rfl

theorem getPathAt_recorded (S : Sys σ) (mallocOk : Bool) (dirfd : Fd) (name : Path) :
    getPathAt S.recorded mallocOk dirfd name = onState (getPathAt S mallocOk dirfd name) := by
  simp only [getPathAt, isDirfd_recorded, onState_bind]
  refine congrArg (onState (isDirfd S dirfd) >>= ·) (funext fun ok => ?_)
  cases ok with
  | false => rfl
  | true =>
      simp only [if_true, onState_bind]
      refine congrArg (onState (S.fdGetPath dirfd) >>= ·) (funext fun r => ?_)
      cases r with
      | none => rfl
      | some parent =>
          simp only [onState_ite]
          rfl

end LibcCompat.Winsup
