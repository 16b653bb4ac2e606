/-
# `LibcCompat.Winsup.Uio` — `uio.c`

`readv` and `writev` make one `read` or `write` after the other.  They are
modelled as a machine that makes one such call a step, with an answer from
outside; `whileTest` is the loop test, and a state in which it failed, or the
loop was left, has `returned`.

`ret` and `off` have type `ssize_t`, and lengths have type `size_t`, of `w` bits;
`i` is an `unsigned`, and `iov_cnt` an `int` that is compared with it.  The
`read` and `write` of MinGW take an `unsigned int`, so that of the length of a
request 32 bits are left.  What a call moves is the range of addresses it was
given, as far as it got: between there and the descriptor the bytes keep their
order.  An answer may be any number of bytes up to the request, also one that
the `int` these functions return cannot be.
-/
import LibcCompat.Base
import LibcCompat.Lib.Run
import Mathlib.Algebra.Group.Int.Defs
import Mathlib.Algebra.Group.Nat.Defs

namespace LibcCompat.Winsup.Uio

open LibcCompat.Lib

/-- Conversion to `size_t`. -/
def toSize (w : Nat) (x : Int) : Nat := (x % (2 ^ w : Nat)).toNat

/-- Conversion to `ssize_t`. -/
def toSsize (w : Nat) (x : Int) : Int := x.bmod (2 ^ w)

/-- Conversion to `unsigned`. -/
def toUnsigned (x : Int) : Nat := (x % (2 ^ 32 : Nat)).toNat

/-- `struct iovec`. -/
structure Iovec where
  base : Nat
  len : Nat
deriving DecidableEq, Repr

/-- The addresses of a buffer. -/
def Iovec.addrs (v : Iovec) : List Nat := List.range' v.base v.len

/-- The answer to a system call: up to `k` bytes are moved, or it fails. -/
inductive Outcome where
  | done (k : Nat)
  | fail (e : Errno)
deriving DecidableEq, Repr

/-- `write(fd, addr, len)` or `read(fd, addr, len)`. -/
structure Request where
  doWrite : Bool
  addr : Nat
  len : Nat
deriving DecidableEq, Repr

/-- A system call that was made: how many bytes it moved, or how it failed. -/
structure Call where
  req : Request
  res : Outcome
deriving DecidableEq, Repr

structure State where
  i : Nat
  ret : Int
  off : Int
  errno : Option Errno
  returned : Bool
  stopped : Option Stop
  log : List Call
deriving DecidableEq, Repr

/-- The addresses of the bytes a call moved, in order. -/
def Call.moved (c : Call) : List Nat :=
  match c.res with
  | .done n => List.range' c.req.addr n
  | .fail _ => []

/-- The addresses of the bytes moved so far, in the order in which they were. -/
def State.moved (s : State) : List Nat := s.log.flatMap Call.moved

/-- The arguments of `__uio_impl`, but for the descriptor. -/
structure Args where
  iov : List Iovec
  iovCnt : Int
  doWrite : Bool

variable (w : Nat) (x : Args)

/-- `while (i < iov_cnt)`; an element past the end of the array is undefined. -/
def whileTest (s : State) : State :=
  if s.i < toUnsigned x.iovCnt then
    if s.i < x.iov.length then s else { s with stopped := some .undefined }
  else { s with returned := true }

/-- The body of the loop after a call on element `v` with result `r`. -/
def afterCall (v : Iovec) (s : State) (r : Int) : State :=
  if 0 < r then
    let s := { s with ret := toSsize w (s.ret + r), off := toSsize w (s.off + r) }
    if toSize w s.off < v.len then whileTest x s
    else whileTest x { s with off := 0, i := toUnsigned (s.i + 1) }
  else if r = 0 then { s with returned := true }
  else if s.errno = some .EINTR then whileTest x s
  else { s with ret := if s.ret = 0 then -1 else s.ret, returned := true }

/-- The element the next call is about. -/
def State.next (s : State) : Option Iovec :=
  if s.returned || s.stopped.isSome then none else x.iov[s.i]?

/-- `iov_base + off` and `iov_len - off`, the latter as an `unsigned int`. -/
def request (v : Iovec) (s : State) : Request :=
  ⟨x.doWrite, (v.base + s.off).toNat, toUnsigned (toSize w (v.len - s.off))⟩

/-- Make the next call. -/
def step (s : State) (answer : Outcome) : State :=
  match s.next x with
  | none => s
  | some v =>
      let req := request w x v s
      match answer with
      | .done k =>
          let n := min k req.len
          afterCall w x v { s with log := s.log ++ [⟨req, .done n⟩] } (toSsize w n)
      | .fail e => afterCall w x v { s with log := s.log ++ [⟨req, .fail e⟩], errno := some e } (-1)

/-- The call is made. -/
def start : State := whileTest x ⟨0, 0, 0, none, false, none, []⟩

/-- `__uio_impl`, after `n` system calls. -/
def uioImpl (answers : Nat → Outcome) (n : Nat) : State := states (step w x) (start x) answers n

/-- `readv`. -/
def readv (iov : List Iovec) (iovCnt : Int) (answers : Nat → Outcome) (n : Nat) : State :=
  uioImpl w ⟨iov, iovCnt, false⟩ answers n

/-- `writev`. -/
def writev (iov : List Iovec) (iovCnt : Int) (answers : Nat → Outcome) (n : Nat) : State :=
  uioImpl w ⟨iov, iovCnt, true⟩ answers n

end LibcCompat.Winsup.Uio
