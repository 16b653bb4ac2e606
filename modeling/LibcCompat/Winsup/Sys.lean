/-
# `LibcCompat.Winsup.Sys` — what the Windows layer builds on

`at.c` and the path functions of `internal/fd.c` only compose other functions:
the path functions of the C runtime and of this library, `fstat`, and the two
allocators.  They are written here against a record of those functions, `Sys`,
over an arbitrary state, so that the same text runs over a model of the
platform and over one that records the calls.

A program returns a value or stops (`Prog`).  Paths are the bytes of a C
string, without the terminator.
-/
import LibcCompat.Base
import LibcCompat.Lib.Recorded

namespace LibcCompat.Winsup

open LibcCompat.Lib

abbrev Path := List UInt8

abbrev ModeT := UInt16

/-- A function of the library over the state `σ`. -/
abbrev Prog (σ : Type) := EStateM Stop σ

def PATH_MAX : Nat := 260

def S_IFMT : ModeT := 0xF000
def S_IFREG : ModeT := 0x8000
def S_IFLNK : ModeT := 0x6000
def S_IFDIR : ModeT := 0x4000
def S_IFCHR : ModeT := 0x2000
def S_IFIFO : ModeT := 0x1000
def S_IFBLK : ModeT := 0x3000
def S_IFSOCK : ModeT := 0xC000

def S_IRUSR : ModeT := 0x0100
def S_IWUSR : ModeT := 0x0080
def S_IXUSR : ModeT := 0x0040
def S_IRGRP : ModeT := 0x0020
def S_IWGRP : ModeT := 0x0010
def S_IXGRP : ModeT := 0x0008
def S_IROTH : ModeT := 0x0004
def S_IWOTH : ModeT := 0x0002
def S_IXOTH : ModeT := 0x0001

/-- `S_ISDIR`. -/
def isDir (mode : ModeT) : Bool := mode &&& S_IFMT == S_IFDIR

/-- `S_ISLNK`. -/
def isLnk (mode : ModeT) : Bool := mode &&& S_IFMT == S_IFLNK

/-- `struct stat`, the fields this library fills. -/
structure Stat where
  mode : ModeT := 0
  dev : Int := 0
  rdev : Int := 0
  nlink : Nat := 0
  size : Int := 0
  atime : Nat := 0
  mtime : Nat := 0
  ctime : Nat := 0
deriving DecidableEq, Repr

/-- A call of one of the path functions.  `link` and `rename` can be handed a
null first path. -/
inductive PathCall where
  | readlink (path : Path) (len : Nat)
  | symlink (name1 name2 : Path)
  | link (path1 : Option Path) (path2 : Path)
  | rmdir (path : Path)
  | unlink (path : Path)
  | open (path : Path) (oflag : UInt32) (mode : Option ModeT)
  | access (path : Path) (mode : UInt32)
  | stat (path : Path)
  | lstat (path : Path)
  | mkdirStub (path : Path) (mode : ModeT)
  | rename (oldpath : Option Path) (newpath : Path)
deriving DecidableEq, Repr

/-- What a path function gives back: its result, what it stored in a `struct
stat`, and what it stored in a buffer. -/
structure Answer where
  ret : Int
  stat : Stat := {}
  buf : List UInt8 := []
deriving DecidableEq, Repr

/-- A result alone. -/
def Answer.of (ret : Int) : Answer := { ret }

/-- The answer of a call that failed. -/
def failed : Answer := .of (-1)

/-- The functions `at.c` and the path functions of `internal/fd.c` are built on. -/
structure Sys (σ : Type) where
  pathIsRelative : Path → Bool
  call : PathCall → Prog σ Answer
  /-- `fstat`: the `struct stat`, or nothing when it failed. -/
  fstat : Fd → Prog σ (Option Stat)
  /-- `__fd_get_path`. -/
  fdGetPath : Fd → Prog σ (Option Path)
  setErrno : Errno → σ → σ
  /-- `__set_errno_via_winerr(GetLastError())`. -/
  setErrnoViaWinerr : σ → σ

/-- The same functions, with the calls of path functions recorded. -/
def Sys.recorded {σ : Type} (S : Sys σ) : Sys (σ × List PathCall) where
  pathIsRelative := S.pathIsRelative
  call := record S.call
  fstat fd := onState (S.fstat fd)
  fdGetPath fd := onState (S.fdGetPath fd)
  setErrno e s := (S.setErrno e s.1, s.2)
  setErrnoViaWinerr s := (S.setErrnoViaWinerr s.1, s.2)

end LibcCompat.Winsup
