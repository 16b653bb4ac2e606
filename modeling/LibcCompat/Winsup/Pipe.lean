/-
# `LibcCompat.Winsup.Pipe` — `writev` at one end of a pipe, `readv` at the other

## What is proved

A process writes its buffers with `writev`, another one reads into its own with
`readv`, and a pipe is between them.  Their system calls are made in any order,
and each moves as few bytes as the pipe likes, or fails.

At every moment what the reader has in its buffers, followed by what is in the
pipe, is what the writer has written of its own, byte for byte, and nothing else
of the reader's memory has changed (`pipe_carries`).

Now let calls fail only when they are interrupted, only the end of the file be
read as nothing, and the pipe hold `cap` bytes and no more (`Piping.Answers`).
If no buffer has 2^32 bytes or more, and none that is not empty comes after an
empty one, both functions return with all that was written, as far as the reader
has room (`pipe_delivers`).  The calls that are carried out are bounded; and
neither function waits for ever, unless the writer waits for room in a full pipe
that nobody reads any more, and has more to write than the reader took and the
pipe holds (`pipe_ends`).

## How

Each end has the invariant of the loop it runs; the two are connected by the
equation between the bytes.  A pipe that is neither full nor empty lets both ends
go on, and one that is full, or empty, one of them.
-/
import LibcCompat.Lib.Overlay
import LibcCompat.Winsup.WritevComplete

namespace LibcCompat.Winsup.Uio

open LibcCompat.Lib

/-! ## The two ends -/

/-- The addresses of the bytes the next call moves. -/
def taken (w : Nat) (x : Args) (s : State) (answer : Outcome) : List Nat :=
  match s.next x, answer with
  | some v, .done k =>
      List.range' (request w x v s).addr (min k (request w x v s).len)
  | _, _ => []

/-- An answer, where no more than `n` bytes are there. -/
def Outcome.upTo (n : Nat) : Outcome → Outcome
  | .done k => .done (min k n)
  | .fail e => .fail e

/-- The two calls, the bytes in the pipe, and the memory of the reader. -/
structure Piping where
  writer : State
  reader : State
  pipe : List UInt8
  mem : Nat → UInt8

/-- A system call of either end. -/
inductive PipeAct where
  | write (answer : Outcome)
  | read (answer : Outcome)
deriving DecidableEq, Repr

def PipeAct.answer : PipeAct → Outcome
  | .write answer => answer
  | .read answer => answer

/-- The call is not interrupted. -/
def PipeAct.carriedOut (a : PipeAct) : Bool := a.answer != .fail .EINTR

/-- `writev` with arguments `x`, from the memory `src`, and `readv` with `y`. -/
structure Ends where
  x : Args
  y : Args
  src : Nat → UInt8

variable (w : Nat) (ends : Ends)

def Piping.start (mem : Nat → UInt8) : Piping :=
  ⟨Uio.start ends.x, Uio.start ends.y, [], mem⟩

def Piping.step (h : Piping) : PipeAct → Piping
  | .write answer =>
      { h with
        writer := Uio.step w ends.x h.writer answer
        pipe := h.pipe ++ (taken w ends.x h.writer answer).map ends.src }
  | .read answer =>
      let answer := answer.upTo h.pipe.length
      let places := taken w ends.y h.reader answer
      { h with
        reader := Uio.step w ends.y h.reader answer
        pipe := h.pipe.drop places.length
        mem := pour h.mem places (h.pipe.take places.length) }

/-- From memory `mem`, what was read and what is in the pipe is what was written. -/
structure Carried (mem : Nat → UInt8) (h : Piping) : Prop where
  sent : Transferred ends.x h.writer
  got : Transferred ends.y h.reader
  bytes : h.reader.moved.map h.mem ++ h.pipe = h.writer.moved.map ends.src
  untouched : ∀ a, a ∉ h.reader.moved → h.mem a = mem a

/-! ## A pipe that works -/

/-- A call moves bytes, or is interrupted. -/
def Outcome.Moves : Outcome → Prop
  | .done k => 0 < k
  | .fail e => e = .EINTR

/-- Nothing is there to be read, but there may be later. -/
def Piping.Dry (h : Piping) : Prop := h.pipe = [] ∧ h.writer.returned = false

/-- A function that has not returned makes its next call, which moves bytes or is
interrupted.  Nothing is written beyond the capacity `cap` of the pipe; to read
from an empty pipe is to wait, unless nothing is asked for. -/
def Piping.Answers (cap : Nat) (h : Piping) : PipeAct → Prop
  | .write answer =>
      h.writer.returned = false ∧ answer.Moves ∧
        h.pipe.length + (taken w ends.x h.writer answer).length ≤ cap
  | .read answer =>
      h.reader.returned = false ∧ answer.Moves ∧
        (h.Dry → answer = .fail .EINTR ∨
          ∀ v ∈ h.reader.next ends.y, (request w ends.y v h.reader).len = 0)

instance decMoves (answer : Outcome) : Decidable answer.Moves :=
  match answer with
  | .done k => inferInstanceAs (Decidable (0 < k))
  | .fail e => inferInstanceAs (Decidable (e = .EINTR))

instance decDry (h : Piping) : Decidable h.Dry := instDecidableAnd

instance decAnswers (cap : Nat) (h : Piping) (a : PipeAct) : Decidable (h.Answers w ends cap a) :=
  match a with
  | .write answer =>
      inferInstanceAs (Decidable (h.writer.returned = false ∧ answer.Moves ∧
        h.pipe.length + (taken w ends.x h.writer answer).length ≤ cap))
  | .read answer =>
      inferInstanceAs (Decidable (h.reader.returned = false ∧ answer.Moves ∧
        (h.Dry → answer = .fail .EINTR ∨
          ∀ v ∈ h.reader.next ends.y, (request w ends.y v h.reader).len = 0)))

/-- The writer waits for room in the pipe, and nobody reads any more. -/
structure Piping.Blocked (cap : Nat) (h : Piping) : Prop where
  reader : h.reader.returned = true
  writer : h.writer.returned = false
  full : h.pipe.length = cap
  wants : ∃ v ∈ h.writer.next ends.x, 0 < (request w ends.x v h.writer).len

/-- Everything was written, and read as far as there was room. -/
structure Delivered (h : Piping) : Prop where
  sent : h.writer.ret = ends.x.addrs.length
  got : h.reader.ret = (min ends.x.addrs.length ends.y.addrs.length : Nat)
  bytes : (ends.y.addrs.take (min ends.x.addrs.length ends.y.addrs.length)).map h.mem =
    (ends.x.addrs.take (min ends.x.addrs.length ends.y.addrs.length)).map ends.src

variable {w ends}

/-! ## Any order of calls -/

section
variable {x : Args} {s : State} {h : Piping} {mem : Nat → UInt8}

theorem step_moved (answer : Outcome) :
    (step w x s answer).moved = s.moved ++ taken w x s answer := by
  cases hnext : s.next x with
  | none => simp only [step, taken, hnext, List.append_nil]
  | some v =>
      simp only [step, taken, hnext]
      cases answer with
      | done k =>
          rw [afterCall_moved]
          exact moved_of_log (c := ⟨request w x v s, .done (min k (request w x v s).len)⟩) rfl
      | fail e =>
          rw [afterCall_moved, List.append_nil]
          exact moved_of_nothing rfl rfl

theorem length_taken_le (n : Nat) (answer : Outcome) :
    (taken w x s (answer.upTo n)).length ≤ n := by
  cases hnext : s.next x with
  | none => simp only [taken, hnext, List.length_nil, Nat.zero_le]
  | some v =>
      cases answer with
      | done k =>
          simp only [taken, hnext, Outcome.upTo, List.length_range']
          omega
      | fail e => simp only [taken, hnext, Outcome.upTo, List.length_nil, Nat.zero_le]

/-- What both ends keep. -/
structure Piped (ends : Ends) (mem : Nat → UInt8) (h : Piping) : Prop where
  writer : Inv ends.x h.writer
  reader : Inv ends.y h.reader
  bytes : h.reader.moved.map h.mem ++ h.pipe = h.writer.moved.map ends.src
  untouched : ∀ a, a ∉ h.reader.moved → h.mem a = mem a

theorem start_moved : (start x).moved = [] :=
  congrArg (List.flatMap Call.moved) whileTest_keeps.1

theorem Piped.start (hx : ends.x.Valid w) (hy : ends.y.Valid w) :
    Piped ends mem (Piping.start ends mem) where
  writer := start_inv hx
  reader := start_inv hy
  bytes := by
    simp only [Piping.start, start_moved]
    rfl
  untouched := fun _ _ => rfl

theorem Piped.write (hx : ends.x.Valid w) (h' : Piped ends mem h) (answer : Outcome) :
    Piped ends mem (h.step w ends (.write answer)) where
  writer := h'.writer.step hx answer
  reader := h'.reader
  bytes := by
    simp only [Piping.step, step_moved, List.map_append, ← h'.bytes, List.append_assoc]
  untouched := h'.untouched

theorem Piped.read (hy : ends.y.Valid w) (hnodup : ends.y.addrs.Nodup) (h' : Piped ends mem h)
    (answer : Outcome) : Piped ends mem (h.step w ends (.read answer)) := by
  have hreader := h'.reader.step hy (answer.upTo h.pipe.length)
  have hmoved := step_moved (w := w) (x := ends.y) (s := h.reader) (answer.upTo h.pipe.length)
  have hle := length_taken_le (w := w) (x := ends.y) (s := h.reader) h.pipe.length answer
  -- the addresses are among those of the buffers, so none comes twice
  have honce := hnodup.sublist hreader.transferred.bytes.sublist
  rw [hmoved] at honce
  obtain ⟨-, hplaces, hapart⟩ := List.nodup_append.mp honce
  refine ⟨h'.writer, hreader, ?_, ?_⟩
  · have hold : ∀ a ∈ h.reader.moved, a ∉ taken w ends.y h.reader (answer.upTo h.pipe.length) :=
      fun a ha hnew => hapart a ha a hnew rfl
    simp only [Piping.step, hmoved, List.map_append]
    rw [map_pour_outside hold, map_pour hplaces (by rw [List.length_take]; omega),
      List.append_assoc, List.take_append_drop]
    exact h'.bytes
  · intro a ha
    simp only [Piping.step, hmoved, List.mem_append, not_or] at ha
    exact (pour_outside ha.2).trans (h'.untouched a ha.1)

theorem Piped.step (hx : ends.x.Valid w) (hy : ends.y.Valid w) (hnodup : ends.y.addrs.Nodup)
    (h' : Piped ends mem h) (a : PipeAct) : Piped ends mem (h.step w ends a) := by
  cases a with
  | write answer => exact h'.write hx answer
  | read answer => exact h'.read hy hnodup answer

/-- **Carried.**  Whatever the order of the system calls and however they are answered,
what was read, followed by what is in the pipe, is what was written. -/
theorem pipe_carries (hx : ends.x.Valid w) (hy : ends.y.Valid w) (hnodup : ends.y.addrs.Nodup)
    (mem : Nat → UInt8) (as : List PipeAct) :
    Carried ends mem (as.foldl (Piping.step w ends) (Piping.start ends mem)) := by
  have hall : ∀ (as : List PipeAct) (h : Piping), Piped ends mem h →
      Piped ends mem (as.foldl (Piping.step w ends) h) := by
    intro as
    induction as with
    | nil => exact fun h h' => h'
    | cons a as ih => exact fun h h' => ih _ (h'.step hx hy hnodup a)
  have h' := hall as _ (.start hx hy)
  exact ⟨h'.writer.transferred, h'.reader.transferred, h'.bytes, h'.untouched⟩

end

/-! ## Everything is read -/

section
variable {x : Args} {s : State} {off cap : Nat} {h : Piping} {mem : Nat → UInt8}

theorem FillInv.interrupted (hx : x.Valid w) (h : FillInv x s) :
    FillInv x (Uio.step w x s (.fail .EINTR)) := by
  cases hret : s.returned with
  | true =>
      rw [step_returned hret]
      exact h
  | false =>
      simp only [FillInv, hret] at h
      obtain ⟨hi, off, hfilling⟩ := h
      have hneg : ¬ (0 : Int) < -1 := by decide
      have hne : ¬ (-1 : Int) = 0 := by decide
      simp only [Uio.step, hfilling.next_eq (List.getElem?_eq_getElem hi), afterCall, if_neg hneg,
        if_neg hne, if_true]
      refine Filling.whileTest hx (show Filling x off _ from ⟨⟨hfilling.defined, hfilling.active,
        hfilling.bound, hfilling.off_eq, hfilling.inside, hfilling.le, hfilling.ret, ?_⟩,
        hfilling.passed, hfilling.within⟩)
      rw [← hfilling.bytes]
      exact moved_of_nothing rfl rfl

theorem step_zero {v : Iovec} (hnext : s.next x = some v) :
    (Uio.step w x s (.done 0)).returned = true ∧ (Uio.step w x s (.done 0)).ret = s.ret := by
  simp only [Uio.step, hnext, Nat.zero_min, Int.ofNat_zero, toSsize_zero, afterCall,
    Int.lt_irrefl, if_false, if_true]
  exact ⟨trivial, trivial⟩

/-- The reader has come to the end of the file. -/
structure AtEnd (h : Piping) : Prop where
  reader : h.reader.returned = true
  result : h.reader.ret = h.reader.moved.length
  writer : h.writer.returned = true
  pipe : h.pipe = []

structure Delivering (ends : Ends) (mem : Nat → UInt8) (h : Piping) : Prop
    extends Piped ends mem h where
  filling : FillInv ends.x h.writer
  reading : FillInv ends.y h.reader ∨ AtEnd h

theorem Delivering.start (hx : ends.x.Valid w) (hy : ends.y.Valid w) :
    Delivering ends mem (Piping.start ends mem) :=
  ⟨.start hx hy, start_fillInv hx, .inl (start_fillInv hy)⟩

theorem FillInv.moves (hx : x.Valid w) (h : FillInv x s) {answer : Outcome}
    (hans : answer.Moves) : FillInv x (Uio.step w x s answer) := by
  cases answer with
  | done k => exact h.step hx fun v _ => ⟨k, rfl, fun _ => hans⟩
  | fail e =>
      obtain rfl : e = .EINTR := hans
      exact h.interrupted hx

theorem Delivering.write (hx : ends.x.Valid w) (h' : Delivering ends mem h) {answer : Outcome}
    (hans : h.Answers w ends cap (.write answer)) :
    Delivering ends mem (h.step w ends (.write answer)) := by
  refine ⟨h'.toPiped.write hx answer, h'.filling.moves hx hans.2.1, ?_⟩
  rcases h'.reading with hfill | hend
  · exact .inl hfill
  · exact absurd (hans.1.symm.trans hend.writer) Bool.false_ne_true

theorem FillInv.atEnd (h' : FillInv ends.y h.reader) (hactive : h.reader.returned = false)
    (hpipe : h.pipe = []) (hwriter : h.writer.returned = true) (k : Nat) :
    AtEnd (h.step w ends (.read (.done k))) := by
  simp only [FillInv, hactive] at h'
  obtain ⟨hi, off, hfilling⟩ := h'
  have hnext := hfilling.next_eq (List.getElem?_eq_getElem hi)
  have hzero : (Outcome.done k).upTo h.pipe.length = .done 0 := by
    rw [hpipe, List.length_nil, Outcome.upTo, Nat.min_zero]
  have htaken : taken w ends.y h.reader (.done 0) = [] := by
    simp only [taken, hnext, Nat.zero_min]
    rfl
  obtain ⟨hret, hres⟩ := step_zero (w := w) hnext
  refine ⟨?_, ?_, hwriter, ?_⟩
  · simp only [Piping.step, hzero, hret]
  · simp only [Piping.step, hzero, step_moved, htaken, List.append_nil, hres]
    exact hfilling.length_eq
  · simp only [Piping.step, hpipe, List.drop_nil]

/-- What a read does for the reader: it goes on, or finds the end of the file. -/
theorem Delivering.reads (hy : ends.y.Valid w) (h' : Delivering ends mem h) {answer : Outcome}
    (hans : h.Answers w ends cap (.read answer)) :
    FillInv ends.y (Uio.step w ends.y h.reader (answer.upTo h.pipe.length)) ∨
      AtEnd (h.step w ends (.read answer)) := by
  obtain ⟨hactive, hmoves, hdry⟩ := hans
  have hfill : FillInv ends.y h.reader := by
    rcases h'.reading with hfill | hend
    · exact hfill
    · exact absurd (hactive.symm.trans hend.reader) Bool.false_ne_true
  cases answer with
  | fail e => exact .inl (hfill.moves hy hmoves)
  | done k =>
      rcases Nat.eq_zero_or_pos h.pipe.length with hempty | hsome
      · have hpipe := List.eq_nil_of_length_eq_zero hempty
        cases hwriter : h.writer.returned with
        | true => exact .inr (hfill.atEnd hactive hpipe hwriter k)
        | false =>
            -- nothing is there, so nothing was asked for
            rw [hempty, Outcome.upTo, Nat.min_zero]
            refine .inl (hfill.step hy fun v hv => ⟨0, rfl, fun hpos => ?_⟩)
            rcases hdry ⟨hpipe, hwriter⟩ with hintr | hnone
            · cases hintr
            · exact absurd (hnone v hv) (Nat.ne_of_gt hpos)
      · have hpos : 0 < min k h.pipe.length := by
          have hk : 0 < k := hmoves
          omega
        exact .inl (hfill.moves hy hpos)

theorem Delivering.step (hx : ends.x.Valid w) (hy : ends.y.Valid w)
    (hnodup : ends.y.addrs.Nodup) (h' : Delivering ends mem h) {a : PipeAct}
    (hans : h.Answers w ends cap a) : Delivering ends mem (h.step w ends a) := by
  cases a with
  | write answer => exact h'.write hx hans
  | read answer => exact ⟨h'.toPiped.read hy hnodup answer, h'.filling, h'.reads hy hans⟩

theorem Delivering.delivered (h' : Delivering ends mem h)
    (hsent : h.writer.moved = ends.x.addrs) (hwritten : h.writer.ret = h.writer.moved.length)
    (hread : h.reader.ret = h.reader.moved.length)
    (hcount : h.reader.moved.length = min ends.x.addrs.length ends.y.addrs.length) :
    Delivered ends h := by
  have hbytes := h'.bytes
  rw [hsent] at hbytes
  refine ⟨hsent ▸ hwritten, hcount ▸ hread, ?_⟩
  have htake : ends.y.addrs.take h.reader.moved.length = h.reader.moved :=
    (List.prefix_iff_eq_take.mp h'.reader.transferred.bytes).symm
  rw [← hcount, htake, List.map_take, ← hbytes, List.take_left' (List.length_map _)]

theorem run_delivering (hx : ends.x.Valid w) (hy : ends.y.Valid w)
    (hnodup : ends.y.addrs.Nodup) {as : List PipeAct}
    (hrun : Run (Piping.Answers w ends cap) (Piping.step w ends) (Piping.start ends mem) as h) :
    Delivering ends mem h :=
  hrun.inv (P := Delivering ends mem) (fun _ _ hs hans => hs.step hx hy hnodup hans)
    (.start hx hy)

/-- **Delivered.**  When both functions have returned, everything was written, and read
as far as there was room for it. -/
theorem pipe_delivers (hx : ends.x.Valid w) (hy : ends.y.Valid w) (hnodup : ends.y.addrs.Nodup)
    (hlast : EmptyLast ends.x.iov) (hsmall : ∀ v ∈ ends.x.iov, v.len < 2 ^ 32)
    (hlast' : EmptyLast ends.y.iov) (hsmall' : ∀ v ∈ ends.y.iov, v.len < 2 ^ 32)
    {as : List PipeAct}
    (hrun : Run (Piping.Answers w ends cap) (Piping.step w ends) (Piping.start ends mem) as h)
    (hwriter : h.writer.returned = true) (hreader : h.reader.returned = true) :
    Delivered ends h := by
  have h' := run_delivering hx hy hnodup hrun
  have hfilled := h'.filling
  simp only [FillInv, hwriter, if_true] at hfilled
  have hsent : h.writer.moved = ends.x.addrs :=
    hfilled.bytes.trans ((passesAll_iff ends.x.iov).mpr ⟨hlast, hsmall⟩)
  have hlen := congrArg List.length h'.bytes
  rw [List.length_append, List.length_map, List.length_map, hsent] at hlen
  have hroom := h'.reader.transferred.bytes.length_le
  rcases h'.reading with hfill | hend
  · simp only [FillInv, hreader, if_true] at hfill
    have hfull : h.reader.moved = ends.y.addrs :=
      hfill.bytes.trans ((passesAll_iff ends.y.iov).mpr ⟨hlast', hsmall'⟩)
    refine h'.delivered hsent hfilled.result hfill.result ?_
    rw [hfull] at hlen ⊢
    omega
  · rw [hend.pipe, List.length_nil] at hlen
    exact h'.delivered hsent hfilled.result hend.result (by omega)

end

/-! ## It ends -/

section
variable {x : Args} {s : State} {cap : Nat} {h : Piping} {mem : Nat → UInt8}

/-- No call takes a function further from its end. -/
theorem Inv.left_le (hx : x.Valid w) (h : Inv x s) (answer : Outcome) :
    (Uio.step w x s answer).left x ≤ s.left x := by
  cases hret : s.returned with
  | true => exact Nat.le_of_eq (by rw [step_returned hret])
  | false =>
      have hlen := congrArg List.length (step_moved (w := w) (x := x) (s := s) answer)
      rw [List.length_append] at hlen
      have hbound := (h.step hx answer).transferred.bytes.length_le
      simp only [State.left, hret]
      split
      · exact Nat.zero_le _
      · simp only [Bool.false_eq_true, if_false]
        omega

def Piping.left (ends : Ends) (h : Piping) : Nat := h.writer.left ends.x + h.reader.left ends.y

theorem Piped.left_step_le (hx : ends.x.Valid w) (hy : ends.y.Valid w) (h' : Piped ends mem h)
    (a : PipeAct) : (h.step w ends a).left ends ≤ h.left ends := by
  cases a with
  | write answer => exact Nat.add_le_add_right (h'.writer.left_le hx answer) _
  | read answer => exact Nat.add_le_add_left (h'.reader.left_le hy _) _

/-- A call that is not interrupted takes the two nearer to their ends. -/
theorem Piped.left_step_lt (hx : ends.x.Valid w) (hy : ends.y.Valid w) (h' : Piped ends mem h)
    {a : PipeAct} (hans : h.Answers w ends cap a) (hintr : a.carriedOut = true) :
    (h.step w ends a).left ends < h.left ends := by
  have hne : a.answer ≠ .fail .EINTR := bne_iff_ne.mp hintr
  cases a with
  | write answer => exact Nat.add_lt_add_right (h'.writer.left_lt hx hans.1 hne) _
  | read answer =>
      refine Nat.add_lt_add_left (h'.reader.left_lt hy hans.1 ?_) _
      cases answer with
      | done k => rintro ⟨⟩
      | fail e => exact hne

theorem left_start (x : Args) : (Uio.start x).left x ≤ x.addrs.length + 1 := by
  rw [State.left]
  split
  · exact Nat.zero_le _
  · exact Nat.succ_le_succ (Nat.sub_le _ _)

/-- Each call that is carried out uses up one of those that are left. -/
theorem run_left_le (hx : ends.x.Valid w) (hy : ends.y.Valid w) (hnodup : ends.y.addrs.Nodup)
    {t : Piping} {as : List PipeAct}
    (hrun : Run (Piping.Answers w ends cap) (Piping.step w ends) h as t)
    (h' : Piped ends mem h) :
    as.countP PipeAct.carriedOut + t.left ends ≤ h.left ends := by
  induction hrun with
  | nil s => exact Nat.le_of_eq (Nat.zero_add _)
  | @cons s t a as hok _ ih =>
      have hrest := ih (h'.step hx hy hnodup a)
      by_cases hintr : a.carriedOut = true
      · have hlt := h'.left_step_lt hx hy hok hintr
        rw [List.countP_cons_of_pos hintr]
        omega
      · have hle := h'.left_step_le hx hy a
        rw [List.countP_cons_of_neg hintr]
        omega

theorem run_pipe_le {as : List PipeAct}
    (hrun : Run (Piping.Answers w ends cap) (Piping.step w ends) (Piping.start ends mem) as h) :
    h.pipe.length ≤ cap := by
  refine hrun.inv (P := fun h => h.pipe.length ≤ cap) (fun s a hle hans => ?_) (Nat.zero_le _)
  cases a with
  | write answer =>
      simpa only [Piping.step, List.length_append, List.length_map] using hans.2.2
  | read answer =>
      simp only [Piping.step, List.length_drop]
      omega

theorem length_taken_one_le : (taken w x s (.done 1)).length ≤ 1 := by
  have hle := length_taken_le (w := w) (x := x) (s := s) 1 (.done 1)
  exact hle

/-- Where there is room, or nothing to be written, a write is carried out. -/
theorem answers_write (hwriter : h.writer.returned = false)
    (hroom : h.pipe.length < cap ∨ h.pipe.length ≤ cap ∧
      ∀ v ∈ h.writer.next ends.x, (request w ends.x v h.writer).len = 0) :
    h.Answers w ends cap (.write (.done 1)) := by
  refine ⟨hwriter, Nat.one_pos, ?_⟩
  rcases hroom with hlt | ⟨hle, hnone⟩
  · have hone := length_taken_one_le (w := w) (x := ends.x) (s := h.writer)
    omega
  · have hnothing : (taken w ends.x h.writer (.done 1)).length = 0 := by
      cases hnext : h.writer.next ends.x with
      | none => simp only [taken, hnext, List.length_nil]
      | some v => simp only [taken, hnext, hnone v hnext, Nat.min_zero, List.length_range']
    omega

/-- A reader under way reads what is there, and comes to the end of the file when the
writer has returned. -/
theorem answers_read (hreader : h.reader.returned = false) (hwet : ¬ h.Dry) :
    h.Answers w ends cap (.read (.done 1)) :=
  ⟨hreader, Nat.one_pos, fun hdry => absurd hdry hwet⟩

theorem progress (hcap : 0 < cap) (hle : h.pipe.length ≤ cap) :
    h.writer.returned = true ∧ h.reader.returned = true ∨
      (∃ a : PipeAct, h.Answers w ends cap a ∧ a.carriedOut = true) ∨ h.Blocked w ends cap := by
  cases hwriter : h.writer.returned with
  | true =>
      cases hreader : h.reader.returned with
      | true => exact .inl ⟨rfl, rfl⟩
      | false =>
          refine .inr (.inl ⟨_, answers_read hreader fun hdry => ?_, rfl⟩)
          exact absurd (hwriter.symm.trans hdry.2) Bool.false_ne_true.symm
  | false =>
      by_cases hlt : h.pipe.length < cap
      · exact .inr (.inl ⟨_, answers_write hwriter (.inl hlt), rfl⟩)
      · have hfull : h.pipe.length = cap := Nat.le_antisymm hle (Nat.not_lt.mp hlt)
        by_cases hnone : ∀ v ∈ h.writer.next ends.x, (request w ends.x v h.writer).len = 0
        · exact .inr (.inl ⟨_, answers_write hwriter (.inr ⟨hle, hnone⟩), rfl⟩)
        · cases hreader : h.reader.returned with
          | true =>
              push Not at hnone
              obtain ⟨v, hv, hsome⟩ := hnone
              exact .inr (.inr ⟨hreader, hwriter, hfull, v, hv, Nat.pos_of_ne_zero hsome⟩)
          | false =>
              refine .inr (.inl ⟨_, answers_read hreader fun hdry => ?_, rfl⟩)
              -- a full pipe is not empty
              rw [hdry.1, List.length_nil] at hfull
              omega

/-- A request that asks for something is for bytes not yet written. -/
theorem FillInv.length_lt (hx : x.Valid w) (h : FillInv x s) (hactive : s.returned = false)
    {v : Iovec} (hv : v ∈ s.next x) (hsome : 0 < (request w x v s).len) :
    s.moved.length < x.addrs.length := by
  simp only [FillInv, hactive] at h
  obtain ⟨hi, off, hfilling⟩ := h
  have hv' : x.iov[s.i]? = some x.iov[s.i] := List.getElem?_eq_getElem hi
  obtain rfl : x.iov[s.i] = v := Option.some.inj ((hfilling.next_eq hv').symm.trans hv)
  rw [hfilling.request_eq hx hv'] at hsome
  have hcut := Nat.mod_le (x.iov[s.i].len - off) (2 ^ 32)
  have hroom : off + 1 ≤ x.iov[s.i].len := by dsimp only at hsome; omega
  obtain ⟨hle, -, -⟩ := position_small hx hv' hroom
  rw [position_add] at hle
  have hlen := hfilling.length_eq
  rw [hfilling.ret] at hlen
  omega

/-- A blocked writer has more than the reader took and the pipe holds. -/
theorem Delivering.blocked_lt (hx : ends.x.Valid w) (h' : Delivering ends mem h)
    (hblocked : h.Blocked w ends cap) :
    (reached Iovec.addrs Iovec.reach ends.y.iov).length + cap < ends.x.addrs.length := by
  obtain ⟨v, hv, hsome⟩ := hblocked.wants
  have hlt := h'.filling.length_lt hx hblocked.writer hv hsome
  have hlen := congrArg List.length h'.bytes
  rw [List.length_append, List.length_map, List.length_map, hblocked.full] at hlen
  rcases h'.reading with hfill | hend
  · simp only [FillInv, hblocked.reader, if_true] at hfill
    rw [← hfill.bytes]
    omega
  · exact absurd (hblocked.writer.symm.trans hend.writer) Bool.false_ne_true

/-- **It ends.**  No more calls are made, interrupted ones apart, than there are bytes at
both ends, and two.  As long as a function has not returned some call is
answered, unless the writer is blocked; and it has more to write then than the
reader gets to and the pipe holds. -/
theorem pipe_ends (hx : ends.x.Valid w) (hy : ends.y.Valid w) (hnodup : ends.y.addrs.Nodup)
    (hcap : 0 < cap) {as : List PipeAct}
    (hrun : Run (Piping.Answers w ends cap) (Piping.step w ends) (Piping.start ends mem) as h) :
    as.countP PipeAct.carriedOut ≤ ends.x.addrs.length + ends.y.addrs.length + 2 ∧
      (h.writer.returned = true ∧ h.reader.returned = true ∨
        (∃ a : PipeAct, h.Answers w ends cap a ∧ a.carriedOut = true) ∨
        h.Blocked w ends cap) ∧
      (h.Blocked w ends cap →
        (reached Iovec.addrs Iovec.reach ends.y.iov).length + cap < ends.x.addrs.length) := by
  refine ⟨?_, progress hcap (run_pipe_le hrun), (run_delivering hx hy hnodup hrun).blocked_lt hx⟩
  have hle := run_left_le hx hy hnodup hrun (.start hx hy)
  have hstart := Nat.add_le_add (left_start ends.x) (left_start ends.y)
  have hleft : (Piping.start ends mem).left ends ≤ _ := hstart
  omega

end

/-! ## A run -/

/-- Two buffers are written, and read into two of other lengths. -/
def twoByTwo : Ends where
  x := ⟨[⟨100, 3⟩, ⟨200, 2⟩], 2, true⟩
  y := ⟨[⟨10, 1⟩, ⟨20, 8⟩], 2, false⟩
  src := fun a => UInt8.ofNat a

/-- The reader is interrupted, and reads on while the writer is under way. -/
def inPieces : List PipeAct :=
  [.read (.fail .EINTR), .write (.done 2), .read (.done 9), .write (.done 9), .read (.done 1),
   .write (.done 9), .read (.done 9), .read (.done 9)]

theorem twoByTwo_valid : twoByTwo.x.Valid 64 ∧ twoByTwo.y.Valid 64 ∧ twoByTwo.y.addrs.Nodup :=
  ⟨⟨by decide, rfl, by decide, by decide⟩, ⟨by decide, rfl, by decide, by decide⟩, by decide⟩

theorem inPieces_run : Run (Piping.Answers 64 twoByTwo 3) (Piping.step 64 twoByTwo)
    (Piping.start twoByTwo fun _ => 0) inPieces
    (inPieces.foldl (Piping.step 64 twoByTwo) (Piping.start twoByTwo fun _ => 0)) :=
  Run.of_allOk (by decide +kernel)

theorem pipe_carries_inPieces : Carried twoByTwo (fun _ => 0)
    (inPieces.foldl (Piping.step 64 twoByTwo) (Piping.start twoByTwo fun _ => 0)) :=
  pipe_carries twoByTwo_valid.1 twoByTwo_valid.2.1 twoByTwo_valid.2.2 _ _

theorem pipe_delivers_inPieces : Delivered twoByTwo
    (inPieces.foldl (Piping.step 64 twoByTwo) (Piping.start twoByTwo fun _ => 0)) :=
  pipe_delivers twoByTwo_valid.1 twoByTwo_valid.2.1 twoByTwo_valid.2.2
    (by rw [EmptyLast]; decide) (by decide) (by rw [EmptyLast]; decide) (by decide) inPieces_run
    (by decide +kernel) (by decide +kernel)

/-- After three calls the pipe holds one byte, and someone goes on; eight calls in
all, of which one was interrupted, are within the bound. -/
theorem pipe_ends_inPieces :
    inPieces.countP PipeAct.carriedOut ≤ 5 + 9 + 2 ∧
      ∃ a : PipeAct, ((inPieces.take 3).foldl (Piping.step 64 twoByTwo)
        (Piping.start twoByTwo fun _ => 0)).Answers 64 twoByTwo 3 a ∧ a.carriedOut = true := by
  obtain ⟨hvalid, hvalid', hnodup⟩ := twoByTwo_valid
  refine ⟨(pipe_ends hvalid hvalid' hnodup (by decide) inPieces_run).1, ?_⟩
  obtain ⟨-, hboth | hnext | hblocked, -⟩ :=
    pipe_ends hvalid hvalid' hnodup (by decide) (inPieces_run.take 3)
  · exact absurd hboth.1 (by decide +kernel)
  · exact hnext
  · exact absurd hblocked.reader (by decide +kernel)

/-- Five bytes for a reader that takes one. -/
def fiveForOne : Ends := { twoByTwo with y := ⟨[⟨10, 1⟩], 1, false⟩ }

/-- With a pipe of one byte the writer ends up blocked. -/
example : ([.write (.done 1), .read (.done 1), .write (.done 1)].foldl (Piping.step 64 fiveForOne)
    (Piping.start fiveForOne fun _ => 0)).Blocked 64 fiveForOne 1 :=
  ⟨by decide +kernel, by decide +kernel, by decide +kernel, ⟨100, 3⟩, by decide +kernel,
    by decide +kernel⟩

end LibcCompat.Winsup.Uio
