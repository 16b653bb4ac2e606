/-
# `LibcCompat.WinsupRs.Fd` — the descriptor traits of `winsup-rs/fd.rs`

On Windows a Rust file object has a handle, and the traits give it the shape of
a descriptor.  The state has the descriptor table of the C runtime, the open
handles and the live objects; `File` and `OwnedFd` close their handle when they
are dropped, `BorrowedFd` does not.

Three fields only keep track: `made` says which descriptors came out of
`into_raw_fd`, and from which handle; `dropped` which handle values were closed
by a drop and not opened since; `borrows` what `as_raw_fd` gave so far.

The flags a descriptor is opened with have no part here.
-/
import LibcCompat.Base
import Mathlib.Logic.Function.Basic

namespace LibcCompat.WinsupRs

abbrev Handle := Nat

/-- A live object.  An object made from a descriptor that is not open has no
valid handle. -/
structure Object where
  handle : Option Handle
  owned : Bool
deriving DecidableEq, Repr

structure State where
  crt : Nat → Option Handle
  opened : Handle → Bool
  objects : Nat → Option Object
  count : Nat
  made : Nat → Option Handle
  dropped : Handle → Bool
  borrows : List (Nat × Option Nat)

def init : State :=
  ⟨fun _ => none, fun _ => false, fun _ => none, 0, fun _ => none, fun _ => false, []⟩

/-- `open_osfhandle`: the handle gets the descriptor, if one is allocated. -/
def openOsfhandle (s : State) (h : Option Handle) (res : Option Nat) : State :=
  match res with
  | none => s
  | some fd => { s with crt := Function.update s.crt fd h }

/-- A new object. -/
def State.object (s : State) (x : Object) : State :=
  { s with objects := Function.update s.objects s.count (some x), count := s.count + 1 }

def State.forget (s : State) (x : Nat) : State :=
  { s with objects := Function.update s.objects x none }

/-- `CloseHandle`, from a drop. -/
def dropHandle (s : State) (h : Handle) : State :=
  if s.opened h then
    { s with
      opened := Function.update s.opened h false
      dropped := Function.update s.dropped h true }
  else s

/-! ## The traits -/

/-- `FromRawFd`, for `File` and `OwnedFd`. -/
def fromRawFd (s : State) (fd : Nat) : State :=
  s.object ⟨s.crt fd, true⟩

/-- `AsFd`, for anything that has a handle. -/
def asFd (s : State) (x : Object) : State :=
  s.object ⟨x.handle, false⟩

/-- `AsRawFd`, the same for the three types. -/
def asRawFd (s : State) (id : Nat) (x : Object) (res : Option Nat) : State :=
  { openOsfhandle s x.handle res with borrows := s.borrows ++ [(id, res)] }

/-- `IntoRawFd`, for `File` and `OwnedFd`. -/
def intoRawFd (s : State) (id : Nat) (x : Object) (res : Option Nat) : State :=
  let s := (openOsfhandle s x.handle res).forget id
  match res with
  | none => s
  | some fd => { s with made := Function.update s.made fd x.handle }

def drop (s : State) (id : Nat) (x : Object) : State :=
  let s := s.forget id
  match x.owned, x.handle with
  | true, some h => dropHandle s h
  | _, _ => s

/-! ## Runs -/

inductive Op where
  /-- The C runtime opens a file. -/
  | openFd (fd : Nat) (h : Handle)
  /-- `File::open`. -/
  | openFile (h : Handle)
  /-- The C runtime closes a descriptor, and the handle it owns. -/
  | closeFd (fd : Nat)
  | fromRawFd (fd : Nat)
  | asFd (id : Nat)
  | asRawFd (id : Nat) (res : Option Nat)
  | intoRawFd (id : Nat) (res : Option Nat)
  | drop (id : Nat)
deriving DecidableEq, Repr

/-- One operation; one on an object that is not live does nothing. -/
def step (s : State) : Op → State
  | .openFd fd h =>
      { s with
        crt := Function.update s.crt fd (some h)
        opened := Function.update s.opened h true
        made := Function.update s.made fd none
        dropped := Function.update s.dropped h false }
  | .openFile h =>
      State.object
        { s with
          opened := Function.update s.opened h true
          dropped := Function.update s.dropped h false }
        ⟨some h, true⟩
  | .closeFd fd =>
      match s.crt fd with
      | none => s
      | some h =>
          { s with
            crt := Function.update s.crt fd none
            opened := Function.update s.opened h false
            made := Function.update s.made fd none }
  | .fromRawFd fd => WinsupRs.fromRawFd s fd
  | .asFd id =>
      match s.objects id with
      | none => s
      | some x => WinsupRs.asFd s x
  | .asRawFd id res =>
      match s.objects id with
      | none => s
      | some x => WinsupRs.asRawFd s id x res
  | .intoRawFd id res =>
      match s.objects id with
      | none => s
      | some x => WinsupRs.intoRawFd s id x res
  | .drop id =>
      match s.objects id with
      | none => s
      | some x => WinsupRs.drop s id x

/-- A descriptor is allocated for a handle that is open. -/
def Allocates (s : State) (id : Nat) : Option Nat → Prop
  | none => True
  | some fd => s.crt fd = none ∧ ∃ h, (s.objects id).map Object.handle = some (some h) ∧
      s.opened h = true

/-- The platform hands out free descriptors and handle values; the objects used
are live, and `into_raw_fd` is called on an owner. -/
def Platform (s : State) : Op → Prop
  | .openFd fd h => s.crt fd = none ∧ s.opened h = false
  | .openFile h => s.opened h = false
  | .closeFd _ => True
  | .fromRawFd _ => True
  | .asFd id => (s.objects id).isSome
  | .asRawFd id res => (s.objects id).isSome ∧ Allocates s id res
  | .intoRawFd id res => (s.objects id).map Object.owned = some true ∧ Allocates s id res
  | .drop id => (s.objects id).isSome

end LibcCompat.WinsupRs
