/-
# `LibcCompat.Winsup.Link` — `readlink` of `link.c`

With the two functions of `internal/fd.c` it and `stat.c` rest on:
`__open_symlink_fd` opens a path without following links and wraps the handle in
a descriptor, which then owns it; `__fd_get_path` asks for the path of a
descriptor and strips the prefix of an extended path.
-/
import LibcCompat.Winsup.Windows

namespace LibcCompat.Winsup

open LibcCompat.Lib

variable (E : Env)

/-- `__open_symlink_fd`; the access, the share mode and the flags are the same
in every call. -/
def openSymlinkFd (path : Path) : Prog Win (Option Fd) := do
  match ← createFile E path with
  | none => return none
  | some h =>
      match ← openOsfhandle E h with
      | none =>
          setLastError ERROR_INVALID_PARAMETER
          closeHandle h
          return none
      | some fd => return some fd

/-- `\\\\?\\UNC\\` -/
def uncPrefix : Path := [0x5C, 0x5C, 0x3F, 0x5C, 0x55, 0x4E, 0x43, 0x5C]

/-- `\\\\?\\` -/
def longPrefix : Path := [0x5C, 0x5C, 0x3F, 0x5C]

/-- What `__fd_get_path` leaves of the path Windows reports: the moves inside the
buffer keep its first two bytes, or none. -/
def stripPrefix (buf : Path) : Path :=
  if buf.take 8 = uncPrefix then buf.take 2 ++ buf.drop 8
  else if buf.take 4 = longPrefix then buf.drop 4
  else buf

/-- `__fd_get_path`. -/
def fdGetPath (fd : Fd) : Prog Win (Option Path) := do
  match ← getOsfhandle fd with
  | none =>
      setLastError ERROR_INVALID_HANDLE
      return none
  | some h =>
      if ← malloc E then
        match ← getFinalPathNameByHandle E h with
        | none => return none
        | some buf => return some (stripPrefix buf)
      else
        return none

/-- The name `readlink` converts: where it starts, and its length in bytes. -/
def Reparse.name (r : Reparse) : Option (Nat × Nat) :=
  if r.printNameLength ≠ 0 then some (r.printNameOffset, r.printNameLength)
  else if r.substituteNameLength ≠ 0 then some (r.substituteNameOffset, r.substituteNameLength)
  else none

/-- `n` characters of the buffer, from a byte offset on. -/
def Reparse.chars (r : Reparse) (offset n : Nat) : List UInt16 :=
  (List.range n).map fun i => r.pathBuffer (offset / 2 + i)

/-- `readlink`, from the reparse data on.  `WideCharToMultiByte` counts
characters, and is handed the length in bytes and one. -/
def convertName (b : Build) (r : Reparse) (len : Nat) : Prog Win (Option Answer) := do
  match r.name with
  | none =>
      match b with
      | .debug => throw .aborted
      | .ndebug => return none
  | some (wsPtr, wsLen) =>
      let (buf, chars) ← wideCharToMultiByte E (r.chars wsPtr (wsLen + 1)) len
      if chars = 0 then throw .aborted
      else return some { ret := chars - 1, buf }

/-- The label `error`: the handle is closed, and the descriptor that owns it is
not. -/
def leave (h : Handle) (answer : Answer) : Prog Win Answer := do
  closeHandle h
  return answer

/-- `readlink`, with the handle open. -/
def readReparse (b : Build) (h : Handle) (len : Nat) : Prog Win Answer := do
  if ← malloc E then
    match ← getReparsePoint E h with
    | none =>
        setErrnoViaWinerr E
        leave h failed
    | some r =>
        if r.tag = IO_REPARSE_TAG_SYMLINK then
          match ← convertName E b r len with
          | none => return failed
          | some answer => leave h answer
        else
          setErrno .EINVAL
          leave h failed
  else
    leave h failed

/-- `readlink`. -/
def readlink (b : Build) (path : Path) (len : Nat) : Prog Win Answer := do
  if len = 0 then
    setErrno .EINVAL
    return failed
  else
    match ← openSymlinkFd E path with
    | none =>
        setErrnoViaWinerr E
        return failed
    | some fd =>
        match ← getOsfhandle fd with
        | none =>
            close fd
            return failed
        | some h => readReparse E b h len

end LibcCompat.Winsup
