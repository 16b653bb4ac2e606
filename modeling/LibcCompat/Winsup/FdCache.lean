/-
# `LibcCompat.Winsup.FdCache` — the append mode of handles, `internal/fd.c`

`__wrap_open` notes, by descriptor number, whether the file was opened with
`O_APPEND`; the Rust side asks by handle.  Nothing is told when a descriptor is
closed: a lookup that comes across an entry whose descriptor is not open drops
the entry, and goes on.

The state has the static variables of the file (`Cache`) and the platform: the
descriptor table of the C runtime, and the open handles with how each was
opened.  `Op` is what can happen: the functions here, and what the program does
with descriptors and handles past them.
-/
import LibcCompat.Base
import Mathlib.Logic.Function.Basic

namespace LibcCompat.Winsup.FdCache

/-- A handle value; `INVALID_HANDLE_VALUE` is `none` where one is expected. -/
abbrev Handle := Nat

def O_APPEND : UInt32 := 0x0008
def FILE_WRITE_DATA : UInt32 := 0x0002
def FILE_APPEND_DATA : UInt32 := 0x0004

/-- The C runtime the library is built for. -/
inductive Crt where
  | msvcrt
  | ucrt
deriving DecidableEq, Repr

def OPEN_MAX : Crt → Nat
  | .msvcrt => 8192
  | .ucrt => 2048

/-- `fd_cache` and `fd_cache_max_size`; an entry of -1 is `none`. -/
structure Cache where
  oflag : Nat → Option UInt32
  maxSize : Nat

/-- How an open handle was opened: the flags, if by `__wrap_open`, and the
access that was granted. -/
structure Opened where
  oflag : Option UInt32
  granted : UInt32
deriving DecidableEq, Repr

structure State where
  cache : Cache
  crt : Nat → Option Handle
  handles : Handle → Option Opened
  stopped : Option Stop

/-- `__init_oflag_cache`, before anything is open. -/
def init : State := ⟨⟨fun _ => none, 0⟩, fun _ => none, fun _ => none, none⟩

/-! ## The functions of the file -/

/-- The end of `__get_osfhandle_oflag_fallback`. -/
def accessOflag (granted : UInt32) : UInt32 :=
  if granted &&& FILE_WRITE_DATA != 0 then 0
  else if granted &&& FILE_APPEND_DATA != 0 then O_APPEND
  else 0

/-- `__get_osfhandle_oflag_fallback`: `NtQueryObject` fails for a handle that is
not open, and succeeds for one that is. -/
def getOsfhandleOflagFallback (s : State) (h : Handle) : UInt32 :=
  match s.handles h with
  | none => 0
  | some o => accessOflag o.granted

/-- Drop the entry of `fd`, and the bound with it if it was the last. -/
def evict (s : State) (fd : Nat) : State :=
  { s with cache :=
      { oflag := Function.update s.cache.oflag fd none
        maxSize := if fd = s.cache.maxSize - 1 then s.cache.maxSize - 1 else s.cache.maxSize } }

/-- The loop of `__get_osfhandle_oflag`, from `fd` on.  Each round consumes one
unit of `fuel`. -/
def scan (h : Handle) : Nat → State → Nat → UInt32 × State
  | 0, s, _ => (getOsfhandleOflagFallback s h, s)
  | fuel + 1, s, fd =>
      if fd < s.cache.maxSize then
        match s.cache.oflag fd with
        | none => scan h fuel s (fd + 1)
        | some oflag =>
            match s.crt fd with
            | none => scan h fuel (evict s fd) (fd + 1)
            | some other => if h = other then (oflag, s) else scan h fuel s (fd + 1)
      else (getOsfhandleOflagFallback s h, s)

/-- `__get_osfhandle_oflag`. -/
def getOsfhandleOflag (s : State) (h : Option Handle) : UInt32 × State :=
  match h with
  | none => (0, s)
  | some h => scan h s.cache.maxSize s 0

/-- `__fd_cache_oflag`; a descriptor past the end of the array fails the assert,
and without asserts the array is overrun. -/
def fdCacheOflag (b : Build) (c : Crt) (s : State) (fd : Nat) (oflag : UInt32) : State :=
  if fd < OPEN_MAX c then
    { s with cache :=
        { oflag := Function.update s.cache.oflag fd (some (oflag &&& O_APPEND))
          maxSize := if s.cache.maxSize ≤ fd then fd + 1 else s.cache.maxSize } }
  else
    match b with
    | .debug => { s with stopped := some .aborted }
    | .ndebug => { s with stopped := some .undefined }

/-! ## Runs -/

/-- What `open` got: a descriptor, a handle it owns, and the access granted. -/
structure Fresh where
  fd : Nat
  handle : Handle
  granted : UInt32
deriving DecidableEq, Repr

inductive Op where
  /-- `__wrap_open`; `none` when it fails. -/
  | wrapOpen (oflag : UInt32) (res : Option Fresh)
  /-- `_open_osfhandle` past `__wrap_open`. -/
  | openOsfhandle (h : Handle) (fd : Nat)
  /-- A handle is opened past the C runtime. -/
  | createHandle (h : Handle) (granted : UInt32)
  /-- `close` of a descriptor, which closes the handle it owns. -/
  | crtClose (fd : Nat)
  | closeHandle (h : Handle)
  /-- `__get_osfhandle_oflag`. -/
  | lookup (h : Option Handle)
deriving DecidableEq, Repr

/-- What an operation does while the program runs. -/
def Op.run (b : Build) (c : Crt) (s : State) : Op → State
  | .wrapOpen _ none => s
  | .wrapOpen oflag (some new) =>
      fdCacheOflag b c
        { s with
          crt := Function.update s.crt new.fd (some new.handle)
          handles := Function.update s.handles new.handle (some ⟨some oflag, new.granted⟩) }
        new.fd oflag
  | .openOsfhandle h fd => { s with crt := Function.update s.crt fd (some h) }
  | .createHandle h granted =>
      { s with handles := Function.update s.handles h (some ⟨none, granted⟩) }
  | .crtClose fd =>
      match s.crt fd with
      | none => s
      | some h =>
          { s with
            crt := Function.update s.crt fd none
            handles := Function.update s.handles h none }
  | .closeHandle h => { s with handles := Function.update s.handles h none }
  | .lookup h => (getOsfhandleOflag s h).2

/-- A stopped program takes no further step. -/
def step (b : Build) (c : Crt) (s : State) (op : Op) : State :=
  match s.stopped with
  | some _ => s
  | none => op.run b c s

/-- The platform hands out descriptors and handle values that are free at that
moment, and a descriptor is allocated for a handle that is open. -/
def Platform (s : State) : Op → Prop
  | .wrapOpen _ none => True
  | .wrapOpen _ (some new) => s.crt new.fd = none ∧ s.handles new.handle = none
  | .openOsfhandle h fd => s.crt fd = none ∧ (s.handles h).isSome
  | .createHandle h _ => s.handles h = none
  | .crtClose _ => True
  | .closeHandle _ => True
  | .lookup _ => True

instance decPlatform (s : State) : ∀ op : Op, Decidable (Platform s op)
  | .wrapOpen _ none => .isTrue trivial
  | .wrapOpen _ (some _) => instDecidableAnd
  | .openOsfhandle _ _ => instDecidableAnd
  | .createHandle h _ => inferInstanceAs (Decidable (s.handles h = none))
  | .crtClose _ => .isTrue trivial
  | .closeHandle _ => .isTrue trivial
  | .lookup _ => .isTrue trivial

end LibcCompat.Winsup.FdCache
