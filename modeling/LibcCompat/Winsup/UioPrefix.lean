/-
# `LibcCompat.Winsup.UioPrefix` — what `readv` and `writev` transfer

## What is proved

For buffers whose total length is at most `SSIZE_MAX`, whatever the underlying
calls answer, the bytes moved so far are the first ones of the concatenation of
the buffers, each at its own address (`Transferred`); and if only finitely many
calls are interrupted the function returns (`uioImpl_transfers`).  The result is
the number of bytes moved, unless that is 0 and a call failed for another reason
than an interrupt.

## How

`i` and `off` are two cursors in the list of buffers, and `ret` is the position
they stand for (`Moving`).  A call moves that position within one buffer; at its
end the cursors go to the start of the next, which is the same position.
-/
import LibcCompat.Lib.Segments
import LibcCompat.Winsup.Uio

namespace LibcCompat.Winsup.Uio

open LibcCompat.Lib

variable {w : Nat} {x : Args} {s : State}

/-- The addresses of all buffers. -/
def Args.addrs (x : Args) : List Nat := x.iov.flatMap Iovec.addrs

/-- A call failed for another reason than an interrupt. -/
def State.failed (s : State) : Prop := ∃ c ∈ s.log, ∃ e, e ≠ .EINTR ∧ c.res = .fail e

/-- The bytes moved are the first of all, and the result is their number; it is
-1 only if there are none and a call failed. -/
structure Transferred (x : Args) (s : State) : Prop where
  defined : s.stopped = none
  bytes : s.moved <+: x.addrs
  result : s.ret = s.moved.length ∨ (s.ret = -1 ∧ s.moved = [] ∧ s.failed)

/-- The arguments: as many buffers as `iov_cnt` says, of at most `SSIZE_MAX` bytes. -/
structure Args.Valid (w : Nat) (x : Args) : Prop where
  width : 0 < w
  count : x.iovCnt = x.iov.length
  int : x.iov.length < 2 ^ 31
  total : x.addrs.length < 2 ^ (w - 1)

/-! ## The integers -/

theorem toUnsigned_natCast (n : Nat) : toUnsigned n = n % 2 ^ 32 := by
  rw [toUnsigned, ← Int.natCast_emod]
  exact Int.toNat_natCast _

theorem toUnsigned_of_lt {n : Nat} (h : n < 2 ^ 31) : toUnsigned n = n := by
  rw [toUnsigned_natCast]
  exact Nat.mod_eq_of_lt (by omega)

theorem two_pow_width (hw : 0 < w) : 2 ^ w = 2 * 2 ^ (w - 1) := by
  obtain ⟨v, rfl⟩ : ∃ v, w = v + 1 := ⟨w - 1, by omega⟩
  rw [Nat.add_sub_cancel, Nat.pow_succ']

theorem toSsize_of_lt (hw : 0 < w) {n : Nat} (h : n < 2 ^ (w - 1)) : toSsize w n = n := by
  have hdouble := two_pow_width hw
  rw [toSsize]
  exact Int.bmod_eq_of_le (by omega) (by omega)

theorem toSsize_zero : toSsize w 0 = 0 := Int.zero_bmod

theorem toSize_of_lt (hw : 0 < w) {n : Nat} (h : n < 2 ^ (w - 1)) : toSize w n = n := by
  have hdouble := two_pow_width hw
  have hmod : (n : Int) % (2 ^ w : Nat) = n := Int.emod_eq_of_lt (by omega) (by omega)
  rw [toSize, hmod]
  exact Int.toNat_natCast n

/-! ## The invariant -/

/-- Before the function returns: `i` and `off` stand for a position, and that many
bytes are moved. -/
structure Moving (x : Args) (off : Nat) (s : State) : Prop where
  defined : s.stopped = none
  active : s.returned = false
  bound : s.i ≤ x.iov.length
  off_eq : s.off = off
  inside : ∀ v, x.iov[s.i]? = some v → off ≤ v.len
  le : position Iovec.addrs x.iov s.i off ≤ x.addrs.length
  ret : s.ret = position Iovec.addrs x.iov s.i off
  bytes : s.moved = x.addrs.take (position Iovec.addrs x.iov s.i off)

/-- The state of a call: it has returned, or it is under way with a buffer to go on
with. -/
def Inv (x : Args) (s : State) : Prop :=
  if s.returned then Transferred x s else s.i < x.iov.length ∧ ∃ off, Moving x off s

section
variable {off : Nat}

theorem Moving.length_eq (h : Moving x off s) : s.ret = s.moved.length := by
  rw [h.ret, h.bytes, List.length_take, Nat.min_eq_left h.le]

theorem Moving.transferred (h : Moving x off s) : Transferred x s where
  defined := h.defined
  bytes := h.bytes ▸ List.take_prefix _ _
  result := .inl h.length_eq

theorem Inv.transferred (h : Inv x s) : Transferred x s := by
  unfold Inv at h
  split at h
  · exact h
  · obtain ⟨-, off, hmoving⟩ := h
    exact hmoving.transferred

theorem Moving.whileTest (hx : x.Valid w) (h : Moving x off s) : Inv x (whileTest x s) := by
  unfold Uio.whileTest
  rw [hx.count, toUnsigned_of_lt hx.int]
  split
  · next hlt =>
      simp only [Inv, h.active]
      exact ⟨hlt, off, h⟩
  · have ht := h.transferred
    simp only [Inv, if_true]
    exact ⟨ht.defined, ht.bytes, ht.result⟩

/-! ## One call -/

theorem Iovec.length_addrs (v : Iovec) : v.addrs.length = v.len := List.length_range'

theorem Iovec.addrs_take (v : Iovec) {n : Nat} (h : off + n ≤ v.len) :
    (v.addrs.drop off).take n = List.range' (v.base + off) n := by
  rw [Iovec.addrs, List.drop_range', Nat.mul_one, List.take_range'_of_length_ge (by omega)]

/-- A position in a buffer is a position in all of them, so it is no overflow. -/
theorem position_small (hx : x.Valid w) {v : Iovec} {i : Nat} (hv : x.iov[i]? = some v)
    (hoff : off ≤ v.len) : position Iovec.addrs x.iov i off ≤ x.addrs.length ∧
      position Iovec.addrs x.iov i off < 2 ^ (w - 1) ∧ off < 2 ^ (w - 1) := by
  have hle : position Iovec.addrs x.iov i off ≤ x.addrs.length :=
    position_le hv (by rw [v.length_addrs]; exact hoff)
  have htotal := hx.total
  have hpos : off ≤ position Iovec.addrs x.iov i off := Nat.le_add_left off _
  omega

theorem moved_of_log {s' : State} {c : Call} (h : s'.log = s.log ++ [c]) :
    s'.moved = s.moved ++ c.moved := by
  rw [State.moved, h, List.flatMap_append, List.flatMap_singleton]
  rfl

theorem moved_of_nothing {s' : State} {c : Call} (h : s'.log = s.log ++ [c])
    (hc : c.moved = []) : s'.moved = s.moved := by
  rw [moved_of_log h, hc, List.append_nil]

theorem Moving.request_eq (hx : x.Valid w) (h : Moving x off s) {v : Iovec}
    (hv : x.iov[s.i]? = some v) :
    request w x v s = ⟨x.doWrite, v.base + off, (v.len - off) % 2 ^ 32⟩ := by
  have hle := h.inside v hv
  have haddr : ((v.base : Int) + off).toNat = v.base + off := by omega
  have hsub : (v.len : Int) - off = (v.len - off : Nat) := by omega
  obtain ⟨-, -, hsmall⟩ := position_small hx hv (Nat.le_refl v.len)
  rw [request, h.off_eq, haddr, hsub, toSize_of_lt hx.width (by omega), toUnsigned_natCast]

/-- A call that moves bytes takes the position on by as many: within the buffer, or
from its end to the start of the next. -/
theorem Moving.advances (hx : x.Valid w) (h : Moving x off s) {v : Iovec}
    (hv : x.iov[s.i]? = some v) (len : Nat) {n : Nat} (hpos : 0 < n) (hn : off + n ≤ v.len) :
    ∃ off' t, afterCall w x v
        { s with log := s.log ++ [⟨⟨x.doWrite, v.base + off, len⟩, .done n⟩] } (toSsize w n) =
          Uio.whileTest x t ∧
      Moving x off' t ∧ (t.i = s.i ∧ off' = off + n ∧ off + n < v.len ∨
        t.i = s.i + 1 ∧ off' = 0 ∧ off + n = v.len) := by
  obtain ⟨hle, hlt, hsmall⟩ := position_small hx hv hn
  have hn' : toSsize w n = n := toSsize_of_lt hx.width (by omega)
  have hret : s.ret + n = (position Iovec.addrs x.iov s.i (off + n) : Nat) := by
    rw [h.ret, position_add]
    rfl
  have hoff : s.off + n = (off + n : Nat) := by rw [h.off_eq]; rfl
  have hmoved : s.moved ++ List.range' (v.base + off) n =
      x.addrs.take (position Iovec.addrs x.iov s.i (off + n)) := by
    rw [position_add, Args.addrs, take_position_add hv (by rw [v.length_addrs]; exact hn),
      v.addrs_take hn, h.bytes]
    rfl
  simp only [afterCall, hn', if_pos (Int.natCast_pos.mpr hpos), hoff, hret,
    toSsize_of_lt hx.width hsmall, toSize_of_lt hx.width hsmall, toSsize_of_lt hx.width hlt]
  split
  · next hlt =>
    refine ⟨off + n, _, rfl, ⟨h.defined, h.active, h.bound, rfl, ?_, hle, rfl, ?_⟩,
      .inl ⟨rfl, rfl, hlt⟩⟩
    · intro v' hv'
      obtain rfl := Option.some.inj (hv.symm.trans hv')
      exact hn
    · rw [moved_of_log rfl]
      exact hmoved
  · -- the end of this buffer is the start of the next
    have hend : off + n = v.len := by omega
    have hilt : s.i < x.iov.length := (List.getElem?_eq_some_iff.mp hv).1
    have hi : toUnsigned (s.i + 1) = s.i + 1 :=
      toUnsigned_of_lt (n := s.i + 1) (Nat.lt_of_le_of_lt hilt hx.int)
    have hnext : position Iovec.addrs x.iov s.i (off + n) =
        position Iovec.addrs x.iov (s.i + 1) 0 := by
      rw [hend, ← v.length_addrs]
      exact position_next hv
    rw [hnext] at hle hmoved ⊢
    rw [hi]
    refine ⟨0, _, rfl, ⟨h.defined, h.active, hilt, rfl, ?_, hle, rfl, ?_⟩,
      .inr ⟨rfl, rfl, hend⟩⟩
    · intro v' _
      exact Nat.zero_le _
    · rw [moved_of_log rfl]
      exact hmoved

theorem Moving.advance (hx : x.Valid w) (h : Moving x off s) {v : Iovec}
    (hv : x.iov[s.i]? = some v) {n len : Nat} (hpos : 0 < n) (hn : off + n ≤ v.len) :
    Inv x (afterCall w x v
      { s with log := s.log ++ [⟨⟨x.doWrite, v.base + off, len⟩, .done n⟩] } (toSsize w n)) := by
  obtain ⟨off', t, heq, hmoving, -⟩ := h.advances hx hv len hpos hn
  rw [heq]
  exact hmoving.whileTest hx

theorem Moving.next_eq (h : Moving x off s) {v : Iovec} (hv : x.iov[s.i]? = some v) :
    s.next x = some v := by
  simp only [State.next, h.active, h.defined, hv, Option.isSome_none, Bool.or_self,
    Bool.false_eq_true, if_false]

theorem Moving.ends (h : Moving x off s) (v : Iovec) (req : Request) :
    Inv x (afterCall w x v { s with log := s.log ++ [⟨req, .done 0⟩] } 0) := by
  have hmoved : State.moved { s with log := s.log ++ [⟨req, .done 0⟩] } = s.moved :=
    moved_of_nothing rfl rfl
  have ht := h.transferred
  simp only [afterCall, Int.lt_irrefl, if_false, if_true, Inv]
  refine ⟨ht.defined, ?_, .inl ?_⟩
  · exact hmoved.symm ▸ ht.bytes
  · exact hmoved.symm ▸ h.length_eq

/-- A call that fails is repeated if it was interrupted, and ends the loop if not. -/
theorem Moving.fails (hx : x.Valid w) (h : Moving x off s) (v : Iovec) (req : Request)
    (e : Errno) : Inv x (afterCall w x v
      { s with log := s.log ++ [⟨req, .fail e⟩], errno := some e } (-1)) := by
  have hmoved : State.moved { s with log := s.log ++ [⟨req, .fail e⟩], errno := some e } =
      s.moved :=
    moved_of_nothing rfl rfl
  have ht := h.transferred
  have hneg : ¬ (0 : Int) < -1 := by decide
  have hne : ¬ (-1 : Int) = 0 := by decide
  simp only [afterCall, if_neg hneg, if_neg hne, Option.some.injEq]
  split
  · exact Moving.whileTest hx ⟨h.defined, h.active, h.bound, h.off_eq, h.inside, h.le, h.ret,
      hmoved.trans h.bytes⟩
  · next hintr =>
      simp only [Inv, if_true]
      refine ⟨ht.defined, hmoved.symm ▸ ht.bytes, ?_⟩
      by_cases hzero : s.ret = 0
      · have hempty : s.moved = [] := by
          have hlen := h.length_eq
          exact List.eq_nil_of_length_eq_zero (by omega)
        refine .inr ⟨if_pos hzero, hmoved.trans hempty, ⟨req, .fail e⟩, ?_, e, hintr, rfl⟩
        exact List.mem_append_right _ List.mem_cons_self
      · refine .inl ?_
        rw [if_neg hzero]
        exact hmoved.symm ▸ h.length_eq

theorem Moving.step (hx : x.Valid w) (h : Moving x off s) (hi : s.i < x.iov.length)
    (answer : Outcome) : Inv x (Uio.step w x s answer) := by
  have hv : x.iov[s.i]? = some x.iov[s.i] := List.getElem?_eq_getElem hi
  have hle := h.inside _ hv
  simp only [Uio.step, h.next_eq hv]
  cases answer with
  | done k =>
      rw [h.request_eq hx hv]
      dsimp only
      have hcut := Nat.mod_le (x.iov[s.i].len - off) (2 ^ 32)
      rcases Nat.eq_zero_or_pos (min k ((x.iov[s.i].len - off) % 2 ^ 32)) with hzero | hpos
      · rw [hzero, Int.ofNat_zero, toSsize_zero]
        exact h.ends _ _
      · exact h.advance hx hv hpos (by omega)
  | fail e => exact h.fails hx _ _ e

end

theorem step_returned (h : s.returned = true) (answer : Outcome) : step w x s answer = s := by
  simp only [step, State.next, h, Bool.true_or, if_true]

theorem Inv.step (hx : x.Valid w) (h : Inv x s) (answer : Outcome) :
    Inv x (Uio.step w x s answer) := by
  cases hret : s.returned with
  | true =>
      rw [step_returned hret]
      exact h
  | false =>
      simp only [Inv, hret] at h
      obtain ⟨hi, off, hmoving⟩ := h
      exact hmoving.step hx hi answer

theorem start_moving : Moving x 0 ⟨0, 0, 0, none, false, none, []⟩ where
  defined := rfl
  active := rfl
  bound := Nat.zero_le _
  off_eq := rfl
  inside := fun v _ => Nat.zero_le v.len
  le := Nat.zero_le _
  ret := rfl
  bytes := rfl

theorem start_inv (hx : x.Valid w) : Inv x (start x) := start_moving.whileTest hx

/-! ## The end -/

theorem whileTest_keeps : (whileTest x s).log = s.log ∧ (whileTest x s).ret = s.ret := by
  unfold whileTest
  split
  · split
    · exact ⟨rfl, rfl⟩
    · exact ⟨rfl, rfl⟩
  · exact ⟨rfl, rfl⟩

/-- After a call the loop test is made, or the loop is left; the result is the sum, or
as it was, or -1. -/
theorem afterCall_cases (v : Iovec) (r : Int) :
    ∃ t, (afterCall w x v s r = whileTest x t ∨ afterCall w x v s r = { t with returned := true }) ∧
      t.log = s.log ∧ (t.ret = s.ret ∨ t.ret = -1 ∨ ∃ sum, t.ret = toSsize w sum) := by
  unfold afterCall
  split
  · dsimp only
    split
    · exact ⟨_, .inl rfl, rfl, .inr (.inr ⟨_, rfl⟩)⟩
    · exact ⟨_, .inl rfl, rfl, .inr (.inr ⟨_, rfl⟩)⟩
  · split
    · exact ⟨s, .inr rfl, rfl, .inl rfl⟩
    · split
      · exact ⟨s, .inl rfl, rfl, .inl rfl⟩
      · refine ⟨{ s with ret := if s.ret = 0 then -1 else s.ret }, .inr rfl, rfl, ?_⟩
        dsimp only
        split
        · exact .inr (.inl rfl)
        · exact .inl rfl

theorem afterCall_log (v : Iovec) (r : Int) : (afterCall w x v s r).log = s.log := by
  obtain ⟨t, heq | heq, hlog, -⟩ := afterCall_cases (w := w) (x := x) (s := s) v r
  · rw [heq, whileTest_keeps.1, hlog]
  · rw [heq]
    exact hlog

theorem afterCall_moved (v : Iovec) (r : Int) : (afterCall w x v s r).moved = s.moved :=
  congrArg (List.flatMap Call.moved) (afterCall_log v r)

/-- Every call but an interrupted one moves bytes or is the last. -/
theorem step_progress {v : Iovec} (hnext : s.next x = some v) {answer : Outcome}
    (hintr : answer ≠ .fail .EINTR) :
    (step w x s answer).returned = true ∨ s.moved.length < (step w x s answer).moved.length := by
  simp only [step, hnext]
  cases answer with
  | done k =>
      dsimp only
      rcases Nat.eq_zero_or_pos (min k (request w x v s).len) with hzero | hpos
      · refine .inl ?_
        rw [hzero, Int.ofNat_zero, toSsize_zero]
        rfl
      · refine .inr ?_
        have hmoved : State.moved { s with
            log := s.log ++ [⟨request w x v s, .done (min k (request w x v s).len)⟩] } = _ :=
          moved_of_log rfl
        rw [afterCall_moved, hmoved, List.length_append, Call.moved, List.length_range']
        exact Nat.lt_add_of_pos_right hpos
  | fail e =>
      have he : e ≠ .EINTR := fun heq => hintr (heq ▸ rfl)
      have hneg : ¬ (0 : Int) < -1 := by decide
      have hne : ¬ (-1 : Int) = 0 := by decide
      refine .inl ?_
      simp only [afterCall, if_neg hneg, if_neg hne, Option.some.injEq, if_neg he]

/-- How far the function is from its end. -/
def State.left (x : Args) (s : State) : Nat :=
  if s.returned then 0 else x.addrs.length - s.moved.length + 1

theorem Inv.left_lt (hx : x.Valid w) (h : Inv x s) (hactive : s.returned = false)
    {answer : Outcome} (hintr : answer ≠ .fail .EINTR) :
    (Uio.step w x s answer).left x < s.left x := by
  have hlen := (h.step hx answer).transferred.bytes.length_le
  simp only [Inv, hactive] at h
  obtain ⟨hi, off, hmoving⟩ := h
  have hleft : s.left x = x.addrs.length - s.moved.length + 1 := by
    rw [State.left, hactive]
    rfl
  have hnext := hmoving.next_eq (List.getElem?_eq_getElem hi)
  rw [hleft, State.left]
  rcases step_progress (w := w) hnext hintr with hret | hlt
  · rw [if_pos hret]
    exact Nat.succ_pos _
  · split
    · exact Nat.succ_pos _
    · omega

theorem uioImpl_inv (hx : x.Valid w) (answers : Nat → Outcome) (n : Nat) :
    Inv x (uioImpl w x answers n) :=
  states_inv (P := Inv x) (fun _ answer h (_ : True) => h.step hx answer) (start_inv hx)
    (fun _ => trivial) n

/-- After finitely many interrupts the function returns. -/
theorem uioImpl_returns (hx : x.Valid w) {answers : Nat → Outcome}
    (hintr : ∃ N, ∀ n, N ≤ n → answers n ≠ .fail .EINTR) :
    ∃ n, (uioImpl w x answers n).returned = true := by
  obtain ⟨N, hN⟩ := hintr
  have hshift : ∀ n, uioImpl w x answers (N + n) =
      states (step w x) (uioImpl w x answers N) (fun k => answers (N + k)) n :=
    fun n => states_add N n
  have hhalts : ∃ n, (states (step w x) (uioImpl w x answers N)
      (fun k => answers (N + k)) n).returned = true := by
    refine states_halts (·.returned = true) (State.left x) fun n hactive => ?_
    have hinv := uioImpl_inv hx answers (N + n)
    rw [hshift] at hinv
    exact hinv.left_lt hx (Bool.eq_false_iff.mpr hactive) (hN (N + n) (Nat.le_add_right N n))
  obtain ⟨n, hn⟩ := hhalts
  exact ⟨N + n, by rw [hshift]; exact hn⟩

/-- **A prefix is transferred.**  Whatever the calls answer, the bytes moved so far
are the first of the concatenation of the buffers, each at its address, and if
interrupts end the function returns their number; it returns -1 only if there
are none and a call failed. -/
theorem uioImpl_transfers (hx : x.Valid w) {answers : Nat → Outcome}
    (hintr : ∃ N, ∀ n, N ≤ n → answers n ≠ .fail .EINTR) :
    (∀ n, Transferred x (uioImpl w x answers n)) ∧
      ∃ n, (uioImpl w x answers n).returned = true :=
  ⟨fun n => (uioImpl_inv hx answers n).transferred, uioImpl_returns hx hintr⟩

/-- Two buffers, of three bytes and of two. -/
def twoBuffers : Args := ⟨[⟨100, 3⟩, ⟨200, 2⟩], 2, true⟩

/-- An interrupt, and then two bytes at a time. -/
def twoAtATime (n : Nat) : Outcome := if n = 0 then .fail .EINTR else .done 2

theorem uioImpl_transfers_twoBuffers :
    Transferred twoBuffers (uioImpl 64 twoBuffers twoAtATime 4) ∧
      (uioImpl 64 twoBuffers twoAtATime 4).moved = [100, 101, 102, 200, 201] ∧
      (uioImpl 64 twoBuffers twoAtATime 4).ret = 5 := by
  have hx : twoBuffers.Valid 64 := ⟨by decide, rfl, by decide, by decide⟩
  have hintr : ∃ N, ∀ n, N ≤ n → twoAtATime n ≠ .fail .EINTR := by
    refine ⟨1, fun n hn => ?_⟩
    rw [twoAtATime, if_neg (by omega)]
    rintro ⟨⟩
  exact ⟨(uioImpl_transfers hx hintr).1 4, by decide, by decide⟩

end LibcCompat.Winsup.Uio
