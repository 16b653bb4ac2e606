/-
# `LibcCompat.Winsup.WritevComplete` — when `writev` writes everything

## What is proved

Every write moves at least one byte of a range that is not empty, and a write of
an empty range returns 0 (`Obliging`).  `writev` then writes all buffers and
returns their total length exactly if that is at most `SSIZE_MAX`, no buffer has
2^32 bytes or more, and none that is not empty comes after an empty one.  A
count below 0 is never rejected, by `readv` or by `writev`
(`writev_complete_iff`).

## How

A result of 0 ends the loop, also where it is what an empty buffer gives.  A
buffer of 2^32 bytes or more gives it as well: of the length 32 bits are left,
so that no call gets past the last multiple of 2^32 of what remains, and the one
that is made there asks for nothing.  So what is written is what is `reached` up
to the first such buffer (`Filling`, and `Filled` at the end).  The index is an
`unsigned`, so that the loop test takes a count below 0 for one of at least 2^31.
-/
import LibcCompat.Winsup.UioPrefix

namespace LibcCompat.Winsup.Uio

open LibcCompat.Lib

variable {w : Nat} {x : Args} {s : State} {off : Nat}

/-- The answer to the next call: at least one byte of a range that is not empty. -/
def Obliges (w : Nat) (x : Args) (s : State) (answer : Outcome) : Prop :=
  ∀ v, s.next x = some v → ∃ k, answer = .done k ∧ (0 < (request w x v s).len → 0 < k)

/-- All calls are answered so. -/
def Obliging (w : Nat) (x : Args) (answers : Nat → Outcome) : Prop :=
  ∀ n, Obliges w x (uioImpl w x answers n) (answers n)

/-- `writev` is called with as many buffers as there are. -/
def writing (iov : List Iovec) : Args := ⟨iov, iov.length, true⟩

/-- Everything is moved, and the result is the total length. -/
structure Complete (iov : List Iovec) (s : State) : Prop where
  defined : s.stopped = none
  returned : s.returned = true
  bytes : s.moved = iov.flatMap Iovec.addrs
  result : s.ret = (iov.flatMap Iovec.addrs).length

/-- No buffer that is not empty comes after an empty one. -/
def EmptyLast (iov : List Iovec) : Prop := iov.Pairwise fun v v' => v.len = 0 → v'.len = 0

/-- The function failed, and no element was used. -/
structure Rejected (s : State) : Prop where
  returned : s.returned = true
  result : s.ret = -1
  unread : s.log = []

/-! ## The invariant -/

/-- How much of a buffer calls get to: its length as an `unsigned int`. -/
def Iovec.reach (v : Iovec) : Nat := v.len % 2 ^ 32

/-- The calls got past the buffers before, and none but an empty one is at its end. -/
structure Filling (x : Args) (off : Nat) (s : State) : Prop extends Moving x off s where
  passed : ∀ v ∈ x.iov.take s.i, Passable Iovec.addrs Iovec.reach v
  within : ∀ v, x.iov[s.i]? = some v → (off = 0 ∨ off < v.len) ∧ off ≤ v.reach

/-- The function returned with what calls get to. -/
structure Filled (x : Args) (s : State) : Prop where
  defined : s.stopped = none
  bytes : s.moved = reached Iovec.addrs Iovec.reach x.iov
  result : s.ret = s.moved.length

def FillInv (x : Args) (s : State) : Prop :=
  if s.returned then Filled x s else s.i < x.iov.length ∧ ∃ off, Filling x off s

theorem Iovec.addrs_eq_nil {v : Iovec} : v.addrs = [] ↔ v.len = 0 := List.range'_eq_nil_iff

theorem Iovec.length_le_reach {v : Iovec} : v.addrs.length ≤ v.reach ↔ v.len < 2 ^ 32 := by
  rw [v.length_addrs, Iovec.reach]
  omega

theorem passable_iff {v : Iovec} :
    Passable Iovec.addrs Iovec.reach v ↔ v.len ≠ 0 ∧ v.len < 2 ^ 32 := by
  rw [Passable, ne_eq, Iovec.addrs_eq_nil, Iovec.length_le_reach]

theorem Iovec.reach_sub {v : Iovec} (h : off ≤ v.reach) :
    (v.len - off) % 2 ^ 32 = v.reach - off := by
  rw [Iovec.reach] at h ⊢
  omega

theorem Filling.whileTest (hx : x.Valid w) (h : Filling x off s) :
    FillInv x (Uio.whileTest x s) := by
  unfold Uio.whileTest
  rw [hx.count, toUnsigned_of_lt hx.int]
  split
  · next hlt =>
      simp only [FillInv, h.active]
      exact ⟨hlt, off, h⟩
  · next hge =>
      have hpassed := h.passed
      rw [List.take_of_length_le (by omega)] at hpassed
      have hend : x.addrs.length ≤ position Iovec.addrs x.iov s.i off := by
        rw [position, List.take_of_length_le (by omega)]
        exact Nat.le_add_right _ _
      simp only [FillInv, if_true]
      refine ⟨h.defined, ?_, h.length_eq⟩
      rw [reached_eq_flatMap hpassed]
      exact h.bytes.trans (List.take_of_length_le hend)

/-- A result of 0 is that of a buffer no call gets past. -/
theorem Filling.ends (h : Filling x off s) {v : Iovec} (hv : x.iov[s.i]? = some v)
    (hzero : (v.len - off) % 2 ^ 32 = 0) (req : Request) :
    FillInv x (afterCall w x v { s with log := s.log ++ [⟨req, .done 0⟩] } 0) := by
  have hmoved : State.moved { s with log := s.log ++ [⟨req, .done 0⟩] } = s.moved :=
    moved_of_nothing rfl rfl
  obtain ⟨hinside, hle⟩ := h.within v hv
  rw [Iovec.reach_sub hle] at hzero
  obtain rfl : off = v.reach := by omega
  have hreach : v.reach ≤ v.addrs.length := by
    rw [v.length_addrs]
    exact Nat.mod_le _ _
  have hstop : ¬ Passable Iovec.addrs Iovec.reach v := by
    rw [passable_iff]
    rintro ⟨hsome, hsmall⟩
    have hall : v.reach = v.len := Nat.mod_eq_of_lt hsmall
    omega
  have hbytes : s.moved = reached Iovec.addrs Iovec.reach x.iov :=
    h.bytes.trans (reached_eq_take h.passed hv hstop hreach).symm
  simp only [afterCall, Int.lt_irrefl, if_false, if_true, FillInv]
  exact ⟨h.defined, hmoved.trans hbytes, hmoved.symm ▸ h.length_eq⟩

theorem Filling.advance (hx : x.Valid w) (h : Filling x off s) {v : Iovec}
    (hv : x.iov[s.i]? = some v) (len : Nat) {n : Nat} (hpos : 0 < n) (hn : off + n ≤ v.reach) :
    FillInv x (afterCall w x v
      { s with log := s.log ++ [⟨⟨x.doWrite, v.base + off, len⟩, .done n⟩] } (toSsize w n)) := by
  have hreach : v.reach ≤ v.len := Nat.mod_le _ _
  obtain ⟨off', t, heq, hmoving, ⟨hi, rfl, hlt⟩ | ⟨hi, rfl, hend⟩⟩ :=
    h.advances hx hv len hpos (Nat.le_trans hn hreach)
  · rw [heq]
    refine Filling.whileTest hx (show Filling x (off + n) t from ⟨hmoving, ?_, ?_⟩)
    · exact hi ▸ h.passed
    · intro v' hv'
      rw [hi] at hv'
      obtain rfl := Option.some.inj (hv.symm.trans hv')
      exact ⟨.inr hlt, hn⟩
  · rw [heq]
    refine Filling.whileTest hx (show Filling x 0 t from ⟨hmoving, ?_,
      fun _ _ => ⟨.inl rfl, Nat.zero_le _⟩⟩)
    obtain ⟨hilt, rfl⟩ := List.getElem?_eq_some_iff.mp hv
    rw [hi, List.take_add_one, List.getElem?_eq_getElem hilt]
    intro v' hv'
    rcases List.mem_append.mp hv' with hbefore | hlast
    · exact h.passed v' hbefore
    · obtain rfl := List.mem_singleton.mp hlast
      refine passable_iff.mpr ⟨by omega, Iovec.length_le_reach.mp ?_⟩
      rw [Iovec.length_addrs]
      omega

theorem Filling.step (hx : x.Valid w) (h : Filling x off s) (hi : s.i < x.iov.length)
    {answer : Outcome} (hans : Obliges w x s answer) : FillInv x (Uio.step w x s answer) := by
  have hv : x.iov[s.i]? = some x.iov[s.i] := List.getElem?_eq_getElem hi
  have hasks := Iovec.reach_sub (h.within _ hv).2
  obtain ⟨k, rfl, hk⟩ := hans _ (h.next_eq hv)
  rw [h.request_eq hx hv] at hk
  simp only [Uio.step, h.next_eq hv, h.request_eq hx hv]
  rcases Nat.eq_zero_or_pos (min k ((x.iov[s.i].len - off) % 2 ^ 32)) with hzero | hpos
  · rw [hzero, Int.ofNat_zero, toSsize_zero]
    exact h.ends hv (by dsimp only at hk; omega) _
  · have hle := (h.within _ hv).2
    exact h.advance hx hv _ hpos (by omega)

theorem FillInv.step (hx : x.Valid w) (h : FillInv x s) {answer : Outcome}
    (hans : Obliges w x s answer) : FillInv x (Uio.step w x s answer) := by
  cases hret : s.returned with
  | true =>
      rw [step_returned hret]
      exact h
  | false =>
      simp only [FillInv, hret] at h
      obtain ⟨hi, off, hfilling⟩ := h
      exact hfilling.step hx hi hans

theorem start_fillInv (hx : x.Valid w) : FillInv x (start x) := by
  refine Filling.whileTest hx ⟨start_moving, fun v hv => ?_,
    fun _ _ => ⟨.inl rfl, Nat.zero_le _⟩⟩
  cases hv

theorem uioImpl_fillInv (hx : x.Valid w) {answers : Nat → Outcome}
    (hans : Obliging w x answers) (n : Nat) : FillInv x (uioImpl w x answers n) :=
  states_inv (P := FillInv x) (fun _ _ h hstep => h.step hx hstep) (start_fillInv hx) hans n

/-! ## The end -/

theorem uioImpl_obliged_returns (hx : x.Valid w) {answers : Nat → Outcome}
    (hans : Obliging w x answers) : ∃ n, (uioImpl w x answers n).returned = true := by
  refine states_halts (·.returned = true) (State.left x) fun n hactive => ?_
  have hactive' : (uioImpl w x answers n).returned = false := Bool.eq_false_iff.mpr hactive
  have hinv := uioImpl_inv hx answers n
  have hmoves := hinv
  simp only [Inv, hactive'] at hmoves
  obtain ⟨hi, off, hmoving⟩ := hmoves
  obtain ⟨k, hk, -⟩ := hans n _ (hmoving.next_eq (List.getElem?_eq_getElem hi))
  refine hinv.left_lt hx hactive' ?_
  rw [hk]
  rintro ⟨⟩

theorem uioImpl_after_return {answers : Nat → Outcome} {n : Nat}
    (h : (uioImpl w x answers n).returned = true) (m : Nat) :
    uioImpl w x answers (n + m) = uioImpl w x answers n := by
  induction m with
  | zero => rfl
  | succ m ih =>
      have hstep : uioImpl w x answers (n + m + 1) =
          step w x (uioImpl w x answers (n + m)) (answers (n + m)) := rfl
      rw [← Nat.add_assoc, hstep, ih, step_returned h]

theorem passesAll_iff (iov : List Iovec) :
    reached Iovec.addrs Iovec.reach iov = iov.flatMap Iovec.addrs ↔
      EmptyLast iov ∧ ∀ v ∈ iov, v.len < 2 ^ 32 := by
  simp only [reached_iff, Iovec.addrs_eq_nil, Iovec.length_le_reach, EmptyLast]

theorem writing_valid (hw : 0 < w) {iov : List Iovec} (hint : iov.length < 2 ^ 31)
    (htotal : (iov.flatMap Iovec.addrs).length < 2 ^ (w - 1)) : (writing iov).Valid w :=
  ⟨hw, rfl, hint, htotal⟩

/-! ## The range of the result -/

theorem toSsize_lt (hw : 0 < w) (r : Int) : toSsize w r < (2 ^ (w - 1) : Nat) := by
  have hdouble := two_pow_width hw
  have hlt : toSsize w r < ((2 ^ w : Nat) + 1) / 2 := Int.bmod_lt (Nat.two_pow_pos w)
  omega

theorem afterCall_ret_lt (hw : 0 < w) (h : s.ret < (2 ^ (w - 1) : Nat)) (v : Iovec) (r : Int) :
    (afterCall w x v s r).ret < (2 ^ (w - 1) : Nat) := by
  obtain ⟨t, htest, -, hret⟩ := afterCall_cases (w := w) (x := x) (s := s) v r
  have hsame : (afterCall w x v s r).ret = t.ret := by
    rcases htest with heq | heq
    · rw [heq, whileTest_keeps.2]
    · rw [heq]
  rw [hsame]
  rcases hret with hold | hfail | ⟨sum, hsum⟩
  · rw [hold]
    exact h
  · have hpos : 0 < 2 ^ (w - 1) := Nat.two_pow_pos (w - 1)
    omega
  · rw [hsum]
    exact toSsize_lt hw sum

theorem step_ret_lt (hw : 0 < w) (h : s.ret < (2 ^ (w - 1) : Nat)) (answer : Outcome) :
    (step w x s answer).ret < (2 ^ (w - 1) : Nat) := by
  cases hnext : s.next x with
  | none => simpa only [step, hnext] using h
  | some v =>
      simp only [step, hnext]
      cases answer with
      | done k =>
          refine afterCall_ret_lt hw ?_ v _
          exact h
      | fail e =>
          refine afterCall_ret_lt hw ?_ v _
          exact h

theorem uioImpl_ret_lt (hw : 0 < w) (answers : Nat → Outcome) (n : Nat) :
    (uioImpl w x answers n).ret < (2 ^ (w - 1) : Nat) := by
  refine states_inv (P := fun s : State => s.ret < (2 ^ (w - 1) : Nat))
    (fun _ answer h (_ : True) => step_ret_lt hw h answer) ?_ (fun _ => trivial) n
  rw [start, whileTest_keeps.2]
  exact Int.natCast_pos.mpr (Nat.two_pow_pos (w - 1))

/-! ## A count below 0 -/

theorem toUnsigned_pos_of_neg {cnt : Int} (hmin : -2 ^ 31 ≤ cnt) (hneg : cnt < 0) :
    0 < toUnsigned cnt := by
  rw [toUnsigned]
  omega

/-- Either a call was made, or the function goes on. -/
def Begun (s : State) : Prop := s.log ≠ [] ∨ s.returned = false

theorem Begun.step (h : Begun s) (answer : Outcome) : Begun (Uio.step w x s answer) := by
  cases hnext : s.next x with
  | none => simpa only [Uio.step, hnext] using h
  | some v =>
      refine .inl ?_
      simp only [Uio.step, hnext]
      cases answer with
      | done k =>
          rw [afterCall_log]
          exact List.append_ne_nil_of_right_ne_nil _ (List.cons_ne_nil _ _)
      | fail e =>
          rw [afterCall_log]
          exact List.append_ne_nil_of_right_ne_nil _ (List.cons_ne_nil _ _)

theorem Begun.not_rejected (h : Begun s) : ¬ Rejected s := by
  intro hrej
  rcases h with hlog | hactive
  · exact hlog hrej.unread
  · exact Bool.false_ne_true (hactive.symm.trans hrej.returned)

theorem start_begun (hcnt : 0 < toUnsigned x.iovCnt) : Begun (start x) := by
  refine .inr ?_
  unfold start whileTest
  rw [if_pos hcnt]
  split
  · rfl
  · rfl

theorem uioImpl_begun (hcnt : 0 < toUnsigned x.iovCnt) (answers : Nat → Outcome) (n : Nat) :
    Begun (uioImpl w x answers n) :=
  states_inv (P := Begun) (fun _ answer h (_ : True) => h.step answer) (start_begun hcnt)
    (fun _ => trivial) n

/-! ## Every list, every count -/

/-- What `writev` returns with is what calls get to, so it is everything exactly if
they get past each buffer that is not empty. -/
theorem writing_complete_iff (hw : 0 < w) {iov : List Iovec} {answers : Nat → Outcome}
    (hint : iov.length < 2 ^ 31) (hans : Obliging w (writing iov) answers) :
    (∃ n, Complete iov (uioImpl w (writing iov) answers n)) ↔
      (iov.flatMap Iovec.addrs).length < 2 ^ (w - 1) ∧ EmptyLast iov ∧
        ∀ v ∈ iov, v.len < 2 ^ 32 := by
  constructor
  · rintro ⟨n, hcomplete⟩
    have htotal : (iov.flatMap Iovec.addrs).length < 2 ^ (w - 1) := by
      have hlt := uioImpl_ret_lt (x := writing iov) hw answers n
      rw [hcomplete.result] at hlt
      exact Int.ofNat_lt.mp hlt
    have hinv := uioImpl_fillInv (writing_valid hw hint htotal) hans n
    simp only [FillInv, hcomplete.returned, if_true] at hinv
    exact ⟨htotal, (passesAll_iff iov).mp (hinv.bytes.symm.trans hcomplete.bytes)⟩
  · rintro ⟨htotal, hpasses⟩
    have hx := writing_valid hw hint htotal
    obtain ⟨n, hret⟩ := uioImpl_obliged_returns hx hans
    have hinv := uioImpl_fillInv hx hans n
    simp only [FillInv, hret, if_true] at hinv
    have hbytes := hinv.bytes.trans ((passesAll_iff iov).mpr hpasses)
    exact ⟨n, hinv.defined, hret, hbytes, hbytes ▸ hinv.result⟩

/-- **When `writev` is complete.**  If every write of a range that is not empty moves
at least one byte of it, all buffers are written exactly if their total length
is at most `SSIZE_MAX`, none that is not empty comes after an empty one, and none
has 2^32 bytes or more.  A count below 0 is never rejected. -/
theorem writev_complete_iff (hw : 0 < w) :
    (∀ (iov : List Iovec) (answers : Nat → Outcome), iov.length < 2 ^ 31 →
      Obliging w (writing iov) answers →
      ((∃ n, Complete iov (writev w iov iov.length answers n)) ↔
        (iov.flatMap Iovec.addrs).length < 2 ^ (w - 1) ∧ EmptyLast iov ∧
          ∀ v ∈ iov, v.len < 2 ^ 32)) ∧
      ∀ (iov : List Iovec) (cnt : Int) (answers : Nat → Outcome), -2 ^ 31 ≤ cnt → cnt < 0 →
        ∀ n, ¬ Rejected (readv w iov cnt answers n) ∧ ¬ Rejected (writev w iov cnt answers n) := by
  constructor
  · intro iov answers hint hans
    exact writing_complete_iff hw hint hans
  · intro iov cnt answers hmin hneg n
    have hcnt := toUnsigned_pos_of_neg hmin hneg
    exact ⟨(uioImpl_begun (x := ⟨iov, cnt, false⟩) hcnt answers n).not_rejected,
      (uioImpl_begun (x := ⟨iov, cnt, true⟩) hcnt answers n).not_rejected⟩

/-- Three buffers, the last of which is empty. -/
def emptyAtEnd : List Iovec := [⟨100, 3⟩, ⟨200, 2⟩, ⟨300, 0⟩]

theorem obliging_two (x : Args) : Obliging w x fun _ => .done 2 :=
  fun _ _ _ => ⟨2, rfl, fun _ => Nat.two_pos⟩

theorem writev_complete_iff_emptyAtEnd :
    (∃ n, Complete emptyAtEnd (writev 64 emptyAtEnd 3 (fun _ => .done 2) n)) ∧
      ∀ n, ¬ Rejected (writev 64 emptyAtEnd (-1) (fun _ => .done 2) n) := by
  obtain ⟨hlist, hcount⟩ := writev_complete_iff (w := 64) (by decide)
  have hlast : EmptyLast emptyAtEnd := by
    rw [EmptyLast]
    decide
  exact ⟨(hlist emptyAtEnd _ (by decide) (obliging_two _)).mpr ⟨by decide, hlast, by decide⟩,
    fun n => (hcount emptyAtEnd (-1) _ (by decide) (by decide) n).2⟩

/-- An empty buffer before one of two bytes. -/
def emptyFirst : List Iovec := [⟨100, 0⟩, ⟨200, 2⟩]

/-- The empty buffer ends `writev`, with nothing written; and the count -1 is not
rejected. -/
theorem writev_emptyFirst :
    Obliging 64 (writing emptyFirst) (fun _ => .done 2) ∧
      (∀ n, ¬ Complete emptyFirst (writev 64 emptyFirst 2 (fun _ => .done 2) n)) ∧
      ∀ n, ¬ Rejected (readv 64 emptyFirst (-1) (fun _ => .done 2) n) := by
  refine ⟨obliging_two _, fun n hcomplete => ?_, fun n hrej => ?_⟩
  · cases n with
    | zero => exact absurd hcomplete.result (by decide)
    | succ n =>
        have hend : writev 64 emptyFirst 2 (fun _ => .done 2) (1 + n) = _ :=
          uioImpl_after_return (by decide) n
        rw [Nat.add_comm, hend] at hcomplete
        exact absurd hcomplete.result (by decide)
  · cases n with
    | zero => exact absurd hrej.returned (by decide)
    | succ n =>
        have hend : readv 64 emptyFirst (-1) (fun _ => .done 2) (1 + n) = _ :=
          uioImpl_after_return (by decide) n
        rw [Nat.add_comm, hend] at hrej
        exact absurd hrej.unread (by decide)

end LibcCompat.Winsup.Uio
