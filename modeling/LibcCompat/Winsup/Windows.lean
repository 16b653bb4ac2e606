/-
# `LibcCompat.Winsup.Windows` — the platform under the path functions

A file-system object has what Windows reports about it; a reparse point has a
tag and, if it is a symbolic link, two names in one buffer.  The state of the
process (`Win`) has the descriptor table of the C runtime and the open handles,
each with its object.

What happens outside is in `Env`: which object a path leads to, which calls
fail, which handle values are handed out, and what uninitialised memory holds.
It may depend on when it is asked, by a count of the platform calls made so far.
-/
import LibcCompat.Winsup.Sys
import Mathlib.Algebra.Group.Int.Defs
import Mathlib.Algebra.Group.Nat.Defs
import Mathlib.Logic.Function.Basic

namespace LibcCompat.Winsup

open LibcCompat.Lib

abbrev Handle := Nat

/-- A Windows error code. -/
abbrev WinErr := Nat

def NO_ERROR : WinErr := 0
def ERROR_FILE_NOT_FOUND : WinErr := 2
def ERROR_PATH_NOT_FOUND : WinErr := 3
def ERROR_INVALID_HANDLE : WinErr := 6
def ERROR_INVALID_PARAMETER : WinErr := 87
def ERROR_NOT_A_REPARSE_POINT : WinErr := 4390

def FILE_ATTRIBUTE_READONLY : UInt32 := 0x1
def FILE_ATTRIBUTE_DIRECTORY : UInt32 := 0x10
def FILE_ATTRIBUTE_REPARSE_POINT : UInt32 := 0x400

def IO_REPARSE_TAG_SYMLINK : UInt32 := 0xA000000C

/-! ## Objects -/

/-- What `GetFileType` reports. -/
inductive FileType where
  | unknown
  | char
  | pipe
  | disk
deriving DecidableEq, Repr

/-- `REPARSE_DATA_BUFFER`, read as a symbolic link; offsets and lengths count
bytes.  What follows the names in memory is part of `pathBuffer`. -/
structure Reparse where
  tag : UInt32
  pathBuffer : Nat → UInt16
  substituteNameOffset : Nat
  substituteNameLength : Nat
  printNameOffset : Nat
  printNameLength : Nat

/-- A file-system object: what `BY_HANDLE_FILE_INFORMATION` has of it, its type,
its final path (empty if it has none), and its reparse data. -/
structure Object where
  attributes : UInt32
  accessTime : Nat
  writeTime : Nat
  sizeHigh : UInt32
  sizeLow : UInt32
  links : Nat
  type : FileType
  finalPath : Path
  reparse : Option Reparse
  reparse_iff : attributes &&& FILE_ATTRIBUTE_REPARSE_POINT ≠ 0 ↔ reparse.isSome
  reparse_disk : reparse.isSome → type = .disk

def Object.isReparse (o : Object) : Bool := o.attributes &&& FILE_ATTRIBUTE_REPARSE_POINT != 0

theorem Object.isReparse_eq (o : Object) : o.isReparse = o.reparse.isSome := by
  rw [Bool.eq_iff_iff, ← o.reparse_iff, Object.isReparse, bne_iff_ne]

/-- The conversion of `WideCharToMultiByte`: every further character adds at
least a byte. -/
structure CodePage where
  conv : List UInt16 → List UInt8
  grows : ∀ a b, (conv a).length + b.length ≤ (conv (a ++ b)).length

/-! ## The process and the outside -/

structure Win where
  crt : Fd → Option Handle
  handles : Handle → Option Object
  errno : Errno
  lastError : WinErr
  calls : Nat

structure Env where
  pathIsRelative : Path → Bool
  /-- The object a path leads to, if links are not followed. -/
  object : Nat → Path → Option Object
  /-- The calls that fail, and with which error. -/
  fails : Nat → Option WinErr
  newHandle : Nat → Handle
  /-- The string found in uninitialised memory, if it ends within the buffer. -/
  uninit : Nat → Option Path
  /-- The path functions that are not part of this development. -/
  call : Nat → PathCall → Answer
  codePage : CodePage
  /-- `__winerr_map`, with 0 for success and -1 where it has no entry. -/
  errnoOf : WinErr → Errno
  /-- How many descriptors the C runtime has. -/
  descriptors : Nat

variable (E : Env)

def setErrno (e : Errno) : Prog Win PUnit := modify fun s => { s with errno := e }

def setLastError (e : WinErr) : Prog Win PUnit := modify fun s => { s with lastError := e }

/-- `__set_errno_via_winerr(GetLastError())`. -/
def setErrnoViaWinerr : Prog Win PUnit := modify fun s => { s with errno := E.errnoOf s.lastError }

/-- A platform call is made: it fails here, or what it does comes next. -/
def attempt {α : Type} (failed : WinErr → Prog Win α) (go : Nat → Prog Win α) : Prog Win α :=
  fun s =>
    match E.fails s.calls with
    | some e => failed e { s with calls := s.calls + 1 }
    | none => go s.calls { s with calls := s.calls + 1 }

/-- A call of the Windows API that fails leaves its error. -/
def failWith {α : Type} (e : WinErr) : Prog Win (Option α) := do
  setLastError e
  return none

/-- `malloc`. -/
def malloc : Prog Win Bool :=
  attempt E (fun _ => do setErrno .ENOMEM; return false) fun _ => return true

/-- `CreateFile` of an existing object.  A value in use is not handed out. -/
def createFile (path : Path) : Prog Win (Option Handle) :=
  attempt E failWith fun n s =>
    match E.object n path, s.handles (E.newHandle n) with
    | some o, none =>
        .ok (some (E.newHandle n))
          { s with handles := Function.update s.handles (E.newHandle n) (some o) }
    | _, _ => failWith ERROR_FILE_NOT_FOUND s

def closeHandle (h : Handle) : Prog Win PUnit :=
  modify fun s => { s with handles := Function.update s.handles h none }

/-- The lowest free descriptor. -/
def freeFd (s : Win) : Option Nat := (List.range E.descriptors).find? fun fd => (s.crt fd).isNone

/-- `_open_osfhandle`. -/
def openOsfhandle (h : Handle) : Prog Win (Option Fd) :=
  attempt E failWith fun _ s =>
    match freeFd E s with
    | none => .ok none s
    | some fd => .ok (some fd) { s with crt := Function.update s.crt fd (some h) }

/-- `_get_osfhandle`; a descriptor that is not open sets `EBADF`. -/
def getOsfhandle (fd : Fd) : Prog Win (Option Handle) := fun s =>
  match s.crt fd with
  | some h => .ok (some h) s
  | none => .ok none { s with errno := .EBADF }

/-- `close` of the C runtime, which closes the handle as well. -/
def close (fd : Fd) : Prog Win PUnit := fun s =>
  match s.crt fd with
  | some h =>
      .ok ⟨⟩ { s with
        crt := Function.update s.crt fd none
        handles := Function.update s.handles h none }
  | none => .ok ⟨⟩ { s with errno := .EBADF }

/-- The object of a handle, for a call that asks about it. -/
def query (h : Handle) : Prog Win (Option Object) :=
  attempt E failWith fun _ s =>
    match s.handles h with
    | some o => .ok (some o) s
    | none => .ok none { s with lastError := ERROR_INVALID_HANDLE }

/-- `GetFileInformationByHandle`. -/
def getFileInformationByHandle (h : Handle) : Prog Win (Option Object) := query E h

/-- `GetFileType`; an unknown type that is no failure leaves `NO_ERROR`, and any
other the last error as it was. -/
def getFileType (h : Handle) : Prog Win FileType := do
  match ← query E h with
  | none => return .unknown
  | some o =>
      match o.type with
      | .unknown =>
          setLastError NO_ERROR
          return .unknown
      | type => return type

/-- A string is read from a buffer that nothing was stored in. -/
def readUninit : Prog Win Path := fun s =>
  match E.uninit s.calls with
  | some found => .ok found s
  | none => .error .undefined s

/-- `GetFinalPathNameByHandle` with a buffer of `PATH_MAX`: the path, or nothing
if it fails; where the path does not fit, the call reports success without
filling the buffer. -/
def getFinalPathNameByHandle (h : Handle) : Prog Win (Option Path) := do
  match ← query E h with
  | none => return none
  | some o =>
      if o.finalPath = [] then failWith ERROR_PATH_NOT_FOUND
      else if o.finalPath.length < PATH_MAX then return some o.finalPath
      else return some (← readUninit E)

/-- `DeviceIoControl` with `FSCTL_GET_REPARSE_POINT`. -/
def getReparsePoint (h : Handle) : Prog Win (Option Reparse) := do
  match ← query E h with
  | none => return none
  | some o =>
      match o.reparse with
      | some r => return some r
      | none => failWith ERROR_NOT_A_REPARSE_POINT

/-- `WideCharToMultiByte`: the bytes stored and the result.  It fails when the
bytes do not fit; a capacity of 0 only asks for their number. -/
def wideCharToMultiByte (w : List UInt16) (len : Nat) : Prog Win (List UInt8 × Nat) :=
  attempt E (fun e => do setLastError e; return ([], 0)) fun _ =>
    let bytes := E.codePage.conv w
    let cap := (len : Int).bmod (2 ^ 32)
    if cap = 0 then return ([], bytes.length)
    else if bytes.length ≤ cap then return (bytes, bytes.length)
    else return ([], 0)

end LibcCompat.Winsup
