/-
# `LibcCompat.Winsup.Stat` — `stat.c`

`__wrap__fstat64` asks Windows about the handle of a descriptor and translates
the answer; the size of a reparse point is what `readlink` returns for its path.
`lstat` is `fstat` of a descriptor opened for the purpose.

With them the functions that `at.c` is built on are there for the process:
`winSys`.
-/
import LibcCompat.Winsup.Link
import LibcCompat.Winsup.At

namespace LibcCompat.Winsup

open LibcCompat.Lib

variable (E : Env)

/-- A `char` as an `int`. -/
def charToInt (c : UInt8) : UInt32 := c.toInt8.toInt32.toUInt32

/-- `tolower`. -/
def tolower (c : UInt32) : UInt32 := if 0x41 ≤ c ∧ c ≤ 0x5A then c + 0x20 else c

/-- The key of an extension. -/
def extKey (x y z : UInt32) : UInt32 := (x <<< 2) ||| (y <<< 1) ||| z

def EXE_SUFFIX : UInt32 := extKey 0x65 0x78 0x65
def BAT_SUFFIX : UInt32 := extKey 0x62 0x61 0x74
def CMD_SUFFIX : UInt32 := extKey 0x63 0x6D 0x64
def COM_SUFFIX : UInt32 := extKey 0x63 0x6F 0x6D

/-- Whether the name of a regular file makes it executable. -/
def isExecutable (path : Path) : Bool :=
  match path.reverse with
  | z :: y :: x :: dot :: _ =>
      let ext := extKey (tolower (charToInt x)) (tolower (charToInt y)) (tolower (charToInt z))
      dot == 0x2E &&
        (ext == EXE_SUFFIX || ext == BAT_SUFFIX || ext == CMD_SUFFIX || ext == COM_SUFFIX)
  | _ => false

/-- `RtlTimeToSecondsSince1970`; a time that does not fit leaves 0. -/
def secondsSince1970 (time : Nat) : Nat :=
  let seconds : Int := time / 10000000 - 11644473600
  if 0 ≤ seconds ∧ seconds < 2 ^ 32 then seconds.toNat else 0

/-- The kind of object and the permissions that go with it. -/
def diskMode (o : Object) (path : Option Path) : ModeT :=
  if o.isReparse then S_IFLNK
  else if o.attributes &&& FILE_ATTRIBUTE_DIRECTORY != 0 then
    S_IFDIR ||| S_IXUSR ||| S_IXGRP ||| S_IXOTH
  else if path.any isExecutable then S_IFREG ||| S_IXUSR ||| S_IXGRP ||| S_IXOTH
  else S_IFREG

def writable (o : Object) : ModeT :=
  if o.attributes &&& FILE_ATTRIBUTE_READONLY = 0 then S_IWUSR ||| S_IWGRP ||| S_IWOTH else 0

/-- `st_size`, where it is not that of a link. -/
def fileSize (o : Object) : Int :=
  ((o.sizeHigh.toNat * 2 ^ 32 + o.sizeLow.toNat : Nat) : Int).bmod (2 ^ 64)

/-- The `struct stat`, but for the size. -/
def statOf (fd : Fd) (o : Object) (type : FileType) (path : Option Path) : Stat :=
  let times : Stat :=
    { atime := secondsSince1970 o.accessTime
      mtime := secondsSince1970 o.writeTime
      ctime := secondsSince1970 o.writeTime }
  match type with
  | .unknown => times
  | .char => { times with mode := S_IFCHR ||| writable o, dev := fd, rdev := fd, nlink := 1 }
  | .pipe => { times with mode := S_IFIFO ||| writable o, dev := fd, rdev := fd, nlink := 1 }
  | .disk =>
      { times with
        mode := S_IRUSR ||| S_IRGRP ||| S_IROTH ||| diskMode o path ||| writable o
        nlink := o.links }

/-- `__wrap__fstat64`, up to the size: what the handle of the descriptor is. -/
def examine (fd : Fd) : Prog Win (Option (Object × FileType × Option Path)) := do
  match ← getOsfhandle fd with
  | none => return none
  | some h =>
      match ← getFileInformationByHandle E h with
      | none =>
          setErrnoViaWinerr E
          return none
      | some hfi =>
          let path ← fdGetPath E fd
          match ← getFileType E h with
          | .unknown =>
              modify fun s => { s with
                errno := if s.lastError = NO_ERROR then .ENOENT else E.errnoOf s.lastError }
              return none
          | type => return some (hfi, type, path)

/-- `st_size`. -/
def sizeOf (b : Build) (o : Object) (path : Option Path) : Prog Win Int := do
  if o.isReparse then
    match path with
    | none => return 0
    | some path =>
        let answer ← readlink E b path PATH_MAX
        return if 0 < answer.ret then answer.ret else 0
  else return fileSize o

/-- `__wrap__fstat64`, and `__wrap_fstat`, which only calls it. -/
def fstat64 (b : Build) (fd : Fd) : Prog Win Answer := do
  match ← examine E fd with
  | none => return failed
  | some (o, type, path) =>
      let size ← sizeOf E b o path
      return { ret := 0, stat := { statOf fd o type path with size } }

/-- `lstat`. -/
def lstat (b : Build) (path : Path) : Prog Win Answer := do
  match ← openSymlinkFd E path with
  | none =>
      setErrnoViaWinerr E
      return failed
  | some fd =>
      let answer ← fstat64 E b fd
      close fd
      return answer

/-- A call of a path function: the two that are modelled; the others are answered
from outside. -/
def pathCall (b : Build) : PathCall → Prog Win Answer
  | .readlink path len => readlink E b path len
  | .lstat path => lstat E b path
  | c => fun s => .ok (E.call s.calls c) { s with calls := s.calls + 1 }

/-- The functions `at.c` is built on, in the process. -/
def winSys (b : Build) : Sys Win where
  pathIsRelative := E.pathIsRelative
  call := pathCall E b
  fstat fd := do
    let answer ← fstat64 E b fd
    return if answer.ret < 0 then none else some answer.stat
  fdGetPath := fdGetPath E
  setErrno e s := { s with errno := e }
  setErrnoViaWinerr s := { s with errno := E.errnoOf s.lastError }

end LibcCompat.Winsup
