/-
# `LibcCompat.NonLinux.Sendfile` — `non-linux/sendfile_fallback.c`

`__sendfile_stub` copies from one descriptor to another through a buffer.  It
is modelled as a machine that makes one system call a step: `Pc` says which call
comes next, and `step` makes it, with an answer from outside, and runs the code
up to the call after it.

`n_read`, `n_write` and `n_write_new` have type `size_t` and are natural numbers
below `2 ^ sizeBits` here; `n_left` has type `off_t`.  The widths differ between
the targets, so they are parameters (`Abi`).  A failed call returns -1, which
is the largest `size_t`.

Reading past the end of `sf_buf`, or into it past its end, is undefined.
-/
import LibcCompat.Base
import Mathlib.Algebra.Group.Int.Defs
import Mathlib.Algebra.Group.Nat.Defs
import LibcCompat.Lib.Run

namespace LibcCompat.NonLinux

open LibcCompat.Lib

/-- The widths of `size_t` and `off_t`. -/
structure Abi where
  sizeBits : Nat
  offBits : Nat
  size_ge : 16 ≤ sizeBits
  off_ge : 16 ≤ offBits

/-- `size_t` and `off_t` of 64 bits. -/
def lp64 : Abi := ⟨64, 64, by decide, by decide⟩

/-- Conversion to `size_t`. -/
def Abi.toSize (A : Abi) (x : Int) : Nat := (x % (2 ^ A.sizeBits : Nat)).toNat

/-- Conversion to `off_t`. -/
def Abi.toOff (A : Abi) (x : Int) : Int := x.bmod (2 ^ A.offBits)

def sf_buf_size : Nat := 8192

/-- The answer to a system call: about `k` bytes are transferred, or it fails. -/
inductive Outcome where
  | done (k : Nat)
  | fail (e : Errno)
deriving DecidableEq, Repr

/-- A system call: `read` into the start of `sf_buf`, or `write` from an offset
counted from there. -/
inductive Request where
  | read (len : Nat)
  | write (off len : Nat)
deriving DecidableEq, Repr

/-- A system call that was made: what it transferred, or how it failed. -/
structure Call where
  req : Request
  res : Outcome
deriving DecidableEq, Repr

/-- The call that comes next. -/
inductive Pc where
  | reading
  | writing
  | rewriting
  | returned
deriving DecidableEq, Repr

/-- `buf` is what the last `read` stored; `input` is what is still to be read
from `in_fd`, and `output` what was appended to `out_fd`. -/
structure State where
  pc : Pc
  nLeft : Int
  nRead : Nat
  nWrite : Nat
  buf : List UInt8
  input : List UInt8
  output : List UInt8
  errno : Option Errno
  log : List Call
  stopped : Option Stop
deriving DecidableEq, Repr

def State.stop (s : State) (why : Stop) : State := { s with stopped := some why }

def State.done (s : State) (req : Request) (res : Outcome) : State :=
  { s with log := s.log ++ [⟨req, res⟩] }

/-- The number of bytes a call transfers when it may transfer up to `len`. -/
def transferred (k len : Nat) : Nat := min (max k 1) len

/-- `while (n_left)`. -/
def outerTest (s : State) : State :=
  if s.nLeft = 0 then { s with pc := .returned } else { s with pc := .reading }

/-- `while (n_write < n_read)`, and the end of the outer loop's body. -/
def innerTest (A : Abi) (s : State) : State :=
  if s.nWrite < s.nRead then { s with pc := .rewriting }
  else outerTest { s with nLeft := A.toOff (s.nLeft - s.nWrite) }

/-- From the result of `read` to the next call.  The second test is never true:
`size_t` is unsigned. -/
def afterRead (s : State) (nRead : Nat) : State :=
  if nRead = 0 then { s with nRead, pc := .returned }
  else if nRead < 0 then
    if s.errno = some .EINTR then outerTest { s with nRead }
    else { s with nRead, pc := .returned }
  else { s with nRead, pc := .writing }

/-- From the result of the first `write` of a chunk to the next call. -/
def afterWrite (A : Abi) (b : Build) (s : State) (nWrite : Nat) : State :=
  if b = .debug ∧ nWrite = 0 then s.stop .aborted
  else if nWrite < 0 then
    if s.errno = some .EINTR then innerTest A { s with nWrite := 0 }
    else { s with nWrite, pc := .returned }
  else innerTest A { s with nWrite }

/-- From the result of a further `write` of a chunk to the next call. -/
def afterRewrite (A : Abi) (b : Build) (s : State) (nWriteNew : Nat) : State :=
  if b = .debug ∧ nWriteNew = 0 then s.stop .aborted
  else if nWriteNew < 0 then
    if s.errno = some .EINTR then { s with pc := .rewriting }
    else { s with pc := .returned }
  else innerTest A { s with nWrite := A.toSize (s.nWrite + nWriteNew) }

/-- `read(in_fd, &sf_buf, len)`. -/
def doRead (A : Abi) (s : State) (len : Nat) (o : Outcome) : State :=
  match o with
  | .done k =>
      let n := transferred k (min len s.input.length)
      let s := s.done (.read len) (.done n)
      if sf_buf_size < n then s.stop .undefined
      else afterRead { s with buf := s.input.take n, input := s.input.drop n } n
  | .fail e => afterRead { s.done (.read len) o with errno := some e } (A.toSize (-1))

/-- `write(out_fd, sf_buf + off, len)`, and what comes after it. -/
def doWrite (A : Abi) (s : State) (off len : Nat) (o : Outcome) (after : State → Nat → State) :
    State :=
  if sf_buf_size < off + len then s.stop .undefined
  else
    match o with
    | .done k =>
        let n := transferred k len
        after { s.done (.write off len) (.done n) with
          output := s.output ++ (s.buf.drop off).take n } n
    | .fail e => after { s.done (.write off len) o with errno := some e } (A.toSize (-1))

/-- The call that comes next.  `(&sf_buf) + n_write` counts in whole buffers. -/
def State.next (A : Abi) (s : State) : Option Request :=
  match s.stopped, s.pc with
  | some _, _ => none
  | none, .reading => some (.read (A.toSize (min s.nLeft sf_buf_size)))
  | none, .writing => some (.write 0 s.nRead)
  | none, .rewriting => some (.write (sf_buf_size * s.nWrite) (s.nRead - s.nWrite))
  | none, .returned => none

/-- Make the next call.  The two answers are those `read` and `write` would get. -/
def step (A : Abi) (b : Build) (s : State) (answers : Outcome × Outcome) : State :=
  match s.next A with
  | none => s
  | some (.read len) => doRead A s len answers.1
  | some (.write off len) =>
      doWrite A s off len answers.2 (if s.pc = .writing then afterWrite A b else afterRewrite A b)

/-- The call is made, and `in_fd` would deliver `input`. -/
def start (A : Abi) (input : List UInt8) (count : BitVec A.sizeBits) : State :=
  outerTest ⟨.reading, A.toOff count.toNat, 0, 0, [], input, [], none, [], none⟩

/-- `__sendfile_stub(out_fd, in_fd, count)`, after `n` system calls. -/
def sendfileStub (A : Abi) (b : Build) (input : List UInt8) (count : BitVec A.sizeBits)
    (answers : Nat → Outcome × Outcome) (n : Nat) : State :=
  states (step A b) (start A input count) answers n

end LibcCompat.NonLinux
