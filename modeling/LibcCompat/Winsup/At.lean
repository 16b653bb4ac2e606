/-
# `LibcCompat.Winsup.At` — `at.c`

Each of the functions resolves its names against directory descriptors and
hands the outcome to a path function.  Six of the nine resolve one name
(`resolveThen`) and two resolve two (`resolveBothThen`); `openat` has a body of
its own.

An absolute name is copied with `strdup` where the function frees its copy
later.  `Heap` is what the allocator answers.  When the copy of the second name
fails, the function jumps back into the branch of the first and, without
asserts, from there tries the second again; so what matters is how often
`strdup` fails before it succeeds.
-/
import LibcCompat.Winsup.PathAt

namespace LibcCompat.Winsup

open LibcCompat.Lib

variable {σ : Type}

def AT_REMOVEDIR : UInt32 := 1
def AT_SYMLINK_NOFOLLOW : UInt32 := 2

def O_CREAT : UInt32 := 0x0100

def R_OK : UInt32 := 4
def W_OK : UInt32 := 2
def X_OK : UInt32 := 1

/-- The allocator while one name is resolved: whether `malloc` succeeds, and how
many calls of `strdup` fail before one succeeds (`none`: all of them). -/
structure Heap where
  malloc : Bool
  strdup : Option Nat
deriving DecidableEq, Repr

/-- Resolve the name if it is relative, and call the path function. -/
def resolveThen (S : Sys σ) (m : Heap) (dirfd : Fd) (path : Path) (callee : Path → PathCall) :
    Prog σ Answer := do
  if S.pathIsRelative path then
    match ← getPathAt S m.malloc dirfd path with
    | none => return failed
    | some realPath => S.call (callee realPath)
  else
    S.call (callee path)

/-- The copy of the first name; without asserts it can be null. -/
def dupFirst (b : Build) (m : Heap) (path : Path) : Prog σ (Option Path) :=
  match b, m.strdup with
  | _, some 0 => return some path
  | .debug, _ => throw .aborted
  | .ndebug, _ => return none

/-- The copy of the second name; without asserts it is tried until it succeeds. -/
def dupSecond (b : Build) (m : Heap) (path : Path) : Prog σ Path :=
  match b, m.strdup with
  | _, some 0 => return path
  | .debug, _ => throw .aborted
  | .ndebug, some _ => return path
  | .ndebug, none => throw .hung

/-- The second half of a function with two names. -/
def resolveSecondThen (S : Sys σ) (b : Build) (m : Heap) (dirfd : Fd) (path : Path)
    (callee : Path → PathCall) : Prog σ Answer := do
  if S.pathIsRelative path then
    match ← getPathAt S m.malloc dirfd path with
    | none => return failed
    | some realPath => S.call (callee realPath)
  else
    let realPath ← dupSecond b m path
    S.call (callee realPath)

/-- Resolve or copy both names, and call the path function. -/
def resolveBothThen (S : Sys σ) (b : Build) (m₁ m₂ : Heap) (dirfd1 : Fd) (path1 : Path)
    (dirfd2 : Fd) (path2 : Path) (callee : Option Path → Path → PathCall) : Prog σ Answer := do
  if S.pathIsRelative path1 then
    match ← getPathAt S m₁.malloc dirfd1 path1 with
    | none => return failed
    | some realPath1 => resolveSecondThen S b m₂ dirfd2 path2 (callee (some realPath1))
  else
    let realPath1 ← dupFirst b m₁ path1
    resolveSecondThen S b m₂ dirfd2 path2 (callee realPath1)

def readlinkat (S : Sys σ) (m : Heap) (dirfd : Fd) (path : Path) (len : Nat) : Prog σ Answer :=
  resolveThen S m dirfd path (.readlink · len)

def symlinkat (S : Sys σ) (m : Heap) (oldpath : Path) (newdirfd : Fd) (newpath : Path) :
    Prog σ Answer :=
  resolveThen S m newdirfd newpath (.symlink oldpath ·)

/-- `linkat`; the flags are ignored. -/
def linkat (S : Sys σ) (b : Build) (m₁ m₂ : Heap) (dirfd1 : Fd) (path1 : Path) (dirfd2 : Fd)
    (path2 : Path) (_flags : UInt32) : Prog σ Answer :=
  resolveBothThen S b m₁ m₂ dirfd1 path1 dirfd2 path2 .link

/-- Flags that are not known. -/
def rejectFlags (S : Sys σ) : Prog σ Answer := do
  modify (S.setErrno .EINVAL)
  return failed

def unlinkat (S : Sys σ) (m : Heap) (dirfd : Fd) (pathname : Path) (flags : UInt32) :
    Prog σ Answer :=
  if flags = AT_REMOVEDIR then resolveThen S m dirfd pathname .rmdir
  else if flags = 0 then resolveThen S m dirfd pathname .unlink
  else rejectFlags S

/-- `openat`.  The path opened is `pathname`, not the resolved one. -/
def openat (S : Sys σ) (b : Build) (m : Heap) (dirfd : Fd) (pathname : Path) (flags : UInt32)
    (mode : UInt32) : Prog σ Answer := do
  let opened : PathCall :=
    .open pathname flags (if flags &&& O_CREAT != 0 then some mode.toUInt16 else none)
  if S.pathIsRelative pathname then
    match ← getPathAt S m.malloc dirfd pathname with
    | none => return failed
    | some _realPathname => S.call opened
  else
    let _realPathname : Option Path ← dupFirst b m pathname
    S.call opened

def fstatat (S : Sys σ) (m : Heap) (dirfd : Fd) (pathname : Path) (flags : UInt32) :
    Prog σ Answer :=
  if flags = AT_SYMLINK_NOFOLLOW then resolveThen S m dirfd pathname .lstat
  else if flags = 0 then resolveThen S m dirfd pathname .stat
  else rejectFlags S

/-- Whether the mode grants everything asked for. -/
def grants (stMode : ModeT) (mode : UInt32) : Bool :=
  !(mode &&& R_OK != 0 && stMode &&& (S_IRUSR ||| S_IRGRP ||| S_IROTH) == 0) &&
  !(mode &&& W_OK != 0 && stMode &&& (S_IWUSR ||| S_IWGRP ||| S_IWOTH) == 0) &&
  !(mode &&& X_OK != 0 && stMode &&& (S_IXUSR ||| S_IXGRP ||| S_IXOTH) == 0)

/-- `faccessat` without following links, from what `fstatat` gives. -/
def accessOf (mode : UInt32) (buf : Answer) : Answer :=
  if buf.ret < 0 then failed
  else if grants buf.stat.mode mode then .of 0
  else failed

def faccessat (S : Sys σ) (m : Heap) (dirfd : Fd) (path : Path) (mode flags : UInt32) :
    Prog σ Answer := do
  if flags = AT_SYMLINK_NOFOLLOW then
    let buf ← fstatat S m dirfd path AT_SYMLINK_NOFOLLOW
    return accessOf mode buf
  else if flags = 0 then resolveThen S m dirfd path (.access · mode)
  else rejectFlags S

def mkdirat (S : Sys σ) (m : Heap) (dirfd : Fd) (pathname : Path) (mode : ModeT) :
    Prog σ Answer :=
  resolveThen S m dirfd pathname (.mkdirStub · mode)

def renameat (S : Sys σ) (b : Build) (m₁ m₂ : Heap) (olddirfd : Fd) (oldpath : Path)
    (newdirfd : Fd) (newpath : Path) : Prog σ Answer :=
  resolveBothThen S b m₁ m₂ olddirfd oldpath newdirfd newpath .rename

/-- A call of one of the nine functions. -/
inductive AtCall where
  | readlinkat (dirfd : Fd) (path : Path) (len : Nat)
  | symlinkat (oldpath : Path) (newdirfd : Fd) (newpath : Path)
  | linkat (dirfd1 : Fd) (path1 : Path) (dirfd2 : Fd) (path2 : Path) (flags : UInt32)
  | unlinkat (dirfd : Fd) (pathname : Path) (flags : UInt32)
  | openat (dirfd : Fd) (pathname : Path) (flags mode : UInt32)
  | faccessat (dirfd : Fd) (path : Path) (mode flags : UInt32)
  | fstatat (dirfd : Fd) (pathname : Path) (flags : UInt32)
  | mkdirat (dirfd : Fd) (pathname : Path) (mode : ModeT)
  | renameat (olddirfd : Fd) (oldpath : Path) (newdirfd : Fd) (newpath : Path)
deriving DecidableEq, Repr

/-- Make the call.  A function with one name uses the first `Heap`. -/
def AtCall.run (S : Sys σ) (b : Build) (m₁ m₂ : Heap) : AtCall → Prog σ Answer
  | .readlinkat dirfd path len => Winsup.readlinkat S m₁ dirfd path len
  | .symlinkat oldpath newdirfd newpath => Winsup.symlinkat S m₁ oldpath newdirfd newpath
  | .linkat dirfd1 path1 dirfd2 path2 flags =>
      Winsup.linkat S b m₁ m₂ dirfd1 path1 dirfd2 path2 flags
  | .unlinkat dirfd pathname flags => Winsup.unlinkat S m₁ dirfd pathname flags
  | .openat dirfd pathname flags mode => Winsup.openat S b m₁ dirfd pathname flags mode
  | .faccessat dirfd path mode flags => Winsup.faccessat S m₁ dirfd path mode flags
  | .fstatat dirfd pathname flags => Winsup.fstatat S m₁ dirfd pathname flags
  | .mkdirat dirfd pathname mode => Winsup.mkdirat S m₁ dirfd pathname mode
  | .renameat olddirfd oldpath newdirfd newpath =>
      Winsup.renameat S b m₁ m₂ olddirfd oldpath newdirfd newpath

end LibcCompat.Winsup
