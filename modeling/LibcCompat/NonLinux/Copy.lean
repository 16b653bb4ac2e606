/-
# `LibcCompat.NonLinux.Copy` — what `__sendfile_stub` copies

The counter `n_left` is an `off_t`; `Copying` says what it and the buffer hold
between two system calls, as long as all went well: `n_left` is what is left of
`total` bytes, as an `off_t`.
-/
import LibcCompat.NonLinux.Sendfile

namespace LibcCompat.NonLinux

open LibcCompat.Lib

/-! ## Arithmetic of the two types -/

/-- Half the range of `off_t`. -/
def Abi.offHalf (A : Abi) : Nat := 2 ^ (A.offBits - 1)

/-- The number of values of `size_t`. -/
def Abi.sizes (A : Abi) : Nat := 2 ^ A.sizeBits

theorem Abi.offMod_eq (A : Abi) : 2 ^ A.offBits = 2 * A.offHalf := by
  have hpos := A.off_ge
  rw [Abi.offHalf, ← Nat.pow_succ']
  congr 1
  omega

theorem Abi.offHalf_ge (A : Abi) : 2 ^ 15 ≤ A.offHalf := by
  have hge := A.off_ge
  exact Nat.pow_le_pow_right (by decide) (by omega)

theorem Abi.sizes_ge (A : Abi) : 2 ^ 16 ≤ A.sizes :=
  Nat.pow_le_pow_right (by decide) A.size_ge

/-- `size_t` has as many values as `off_t`, or every `size_t` is an `off_t`. -/
theorem Abi.compare (A : Abi) : 2 * A.offHalf ≤ A.sizes ∨ A.sizes ≤ A.offHalf := by
  rcases Nat.lt_or_ge A.sizeBits A.offBits with h | h
  · exact Or.inr (Nat.pow_le_pow_right (by decide) (by omega))
  · rw [← A.offMod_eq]
    exact Or.inl (Nat.pow_le_pow_right (by decide) h)

theorem Abi.toOff_bounds (A : Abi) (x : Int) : -A.offHalf ≤ A.toOff x ∧ A.toOff x < A.offHalf := by
  have hpos : 0 < 2 ^ A.offBits := Nat.two_pow_pos _
  have hlo := Int.le_bmod (x := x) hpos
  have hhi := Int.bmod_lt (x := x) hpos
  rw [A.offMod_eq] at hlo hhi
  rw [Abi.toOff, A.offMod_eq]
  omega

theorem Abi.toOff_of_lt (A : Abi) {x : Int} (h0 : 0 ≤ x) (h : x < A.offHalf) : A.toOff x = x := by
  rw [Abi.toOff, A.offMod_eq]
  exact Int.bmod_eq_of_le (by omega) (by omega)

/-- A count loses whole multiples of the range, so it is not increased. -/
theorem Abi.toOff_le (A : Abi) {x : Int} (h0 : 0 ≤ x) : A.toOff x ≤ x := by
  rcases Int.lt_or_le x A.offHalf with h | h
  · exact Int.le_of_eq (A.toOff_of_lt h0 h)
  · have := (A.toOff_bounds x).2
    omega

theorem Abi.toOff_neg (A : Abi) {x : Int} (h0 : 0 ≤ x) (h : A.toOff x < 0) : A.offHalf ≤ x := by
  rcases Int.lt_or_le x A.offHalf with hlt | hge
  · rw [A.toOff_of_lt h0 hlt] at h
    omega
  · exact hge

theorem Abi.toOff_sub (A : Abi) (x y : Int) : A.toOff (A.toOff x - y) = A.toOff (x - y) :=
  Int.bmod_sub_bmod

theorem Abi.toSize_of_lt (A : Abi) {x : Int} (h0 : 0 ≤ x) (h : x < A.sizes) :
    (A.toSize x : Int) = x := by
  have hmod : x % (A.sizes : Int) = x := Int.emod_eq_of_lt h0 h
  rw [Abi.toSize]
  show ((x % (A.sizes : Int)).toNat : Int) = _
  rw [hmod]
  exact Int.toNat_of_nonneg h0

theorem Abi.toSize_neg (A : Abi) {x : Int} (h0 : x < 0) (h : -A.sizes ≤ x) :
    (A.toSize x : Int) = A.sizes + x := by
  have hmod : x % (A.sizes : Int) = A.sizes + x := by
    rw [← Int.add_emod_right, Int.emod_eq_of_lt (by omega) (by omega)]
    omega
  rw [Abi.toSize]
  show ((x % (A.sizes : Int)).toNat : Int) = _
  rw [hmod]
  omega

theorem request_pos (A : Abi) {nLeft : Int} (h : 0 < nLeft) :
    (A.toSize (min nLeft sf_buf_size) : Int) = min nLeft sf_buf_size := by
  have hsz := A.sizes_ge
  refine A.toSize_of_lt ?_ ?_
  · simp only [sf_buf_size]
    omega
  · simp only [sf_buf_size]
    omega

/-- A negative `n_left` asks for more than the buffer holds. -/
theorem request_neg (A : Abi) {x : Int} (h0 : 0 ≤ x) (hx : x < A.sizes) (h : A.toOff x < 0) :
    sf_buf_size < A.toSize (min (A.toOff x) sf_buf_size) := by
  have hle := A.toOff_neg h0 h
  have hlo := (A.toOff_bounds x).1
  have hhalf := A.offHalf_ge
  have hmin : min (A.toOff x) sf_buf_size = A.toOff x := by
    simp only [sf_buf_size]
    omega
  have hreq := A.toSize_neg h (by rcases A.compare with hc | hc <;> omega)
  rw [hmin]
  simp only [sf_buf_size]
  rcases A.compare with hc | hc <;> omega

theorem chunk_le (A : Abi) {x : Int} {n : Nat} (h0 : 0 ≤ x) (hne : A.toOff x ≠ 0)
    (hreq : n ≤ A.toSize (min (A.toOff x) sf_buf_size)) (hbuf : n ≤ sf_buf_size) : n ≤ x := by
  have hle := A.toOff_le h0
  have hhalf := A.offHalf_ge
  simp only [sf_buf_size] at hbuf
  rcases Int.lt_or_gt_of_ne hne with hneg | hpos
  · have := A.toOff_neg h0 hneg
    omega
  · have heq := request_pos A hpos
    simp only [sf_buf_size] at heq hreq
    omega

theorem request_ne (A : Abi) {x : Int} (h0 : 0 ≤ x) (hx : x < A.sizes) (hne : A.toOff x ≠ 0) :
    0 < A.toSize (min (A.toOff x) sf_buf_size) := by
  rcases Int.lt_or_gt_of_ne hne with hneg | hpos
  · exact Nat.lt_of_le_of_lt (Nat.zero_le _) (request_neg A h0 hx hneg)
  · have heq := request_pos A hpos
    simp only [sf_buf_size] at heq ⊢
    omega

/-! ## The invariant -/

/-- Every call so far went well, and `total` bytes are wanted in all. -/
structure Copying (A : Abi) (input : List UInt8) (total : Nat) (s : State) : Prop where
  running : s.stopped = none
  left : s.nLeft = A.toOff (total - s.output.length)
  le : s.output.length ≤ total
  here : match s.pc with
    | .reading => s.nLeft ≠ 0 ∧ s.output ++ s.input = input
    | .writing =>
        s.output ++ (s.buf ++ s.input) = input ∧ s.buf.length = s.nRead ∧
          1 ≤ s.nRead ∧ s.nRead ≤ sf_buf_size ∧ s.output.length + s.nRead ≤ total
    | .rewriting => False
    | .returned => s.output ++ s.input = input ∧ (s.nLeft = 0 ∨ s.input = [])

/-- The next call succeeds, reads no more than the buffer holds, and writes the
whole chunk. -/
def Smooth (A : Abi) (s : State) (answers : Outcome × Outcome) : Prop :=
  match s.pc with
  | .reading => ∃ k, answers.1 = .done k ∧
      transferred k (min (A.toSize (min s.nLeft sf_buf_size)) s.input.length) ≤ sf_buf_size
  | .writing => ∃ k, answers.2 = .done k ∧ transferred k s.nRead = s.nRead
  | .rewriting => True
  | .returned => True

section
variable {A : Abi} {b : Build} {input : List UInt8} {total : Nat} {s : State}
  {answers : Outcome × Outcome}

theorem next_reading (hrun : s.stopped = none) (hpc : s.pc = .reading) :
    s.next A = some (.read (A.toSize (min s.nLeft sf_buf_size))) := by
  simp only [State.next, hrun, hpc]

theorem next_writing (hrun : s.stopped = none) (hpc : s.pc = .writing) :
    s.next A = some (.write 0 s.nRead) := by
  simp only [State.next, hrun, hpc]

theorem next_returned (hpc : s.pc = .returned) : s.next A = none := by
  cases h : s.stopped with
  | none => simp only [State.next, h, hpc]
  | some why => simp only [State.next, h]

theorem outerTest_copying (hrun : s.stopped = none)
    (hleft : s.nLeft = A.toOff (total - s.output.length)) (hle : s.output.length ≤ total)
    (hall : s.output ++ s.input = input) : Copying A input total (outerTest s) := by
  unfold outerTest
  split
  · next hzero => exact ⟨hrun, hleft, hle, hall, Or.inl hzero⟩
  · next hne => exact ⟨hrun, hleft, hle, hne, hall⟩

/-- A `read` that goes well; it ends the loop when it delivers nothing. -/
theorem step_reading (hrun : s.stopped = none) (hpc : s.pc = .reading) {k n req : Nat}
    (hk : answers.1 = .done k) (hreq : A.toSize (min s.nLeft sf_buf_size) = req)
    (hn : transferred k (min req s.input.length) = n) (hbuf : n ≤ sf_buf_size) :
    step A b s answers =
      { s with
        log := s.log ++ [⟨.read req, .done n⟩]
        buf := s.input.take n
        input := s.input.drop n
        nRead := n
        pc := if n = 0 then .returned else .writing } := by
  simp only [step, next_reading hrun hpc, doRead, State.done, hk, hreq, hn,
    if_neg (Nat.not_lt.mpr hbuf), afterRead, Nat.not_lt_zero, if_false]
  split
  · rfl
  · rfl

theorem step_writing (hrun : s.stopped = none) (hpc : s.pc = .writing) {k : Nat}
    (hk : answers.2 = .done k) (hfull : transferred k s.nRead = s.nRead) (hpos : 1 ≤ s.nRead)
    (hbuf : s.nRead ≤ sf_buf_size) :
    step A b s answers =
      outerTest { s with
        log := s.log ++ [⟨.write 0 s.nRead, .done s.nRead⟩]
        output := s.output ++ s.buf.take s.nRead
        nWrite := s.nRead
        nLeft := A.toOff (s.nLeft - s.nRead) } := by
  have hfits : ¬ sf_buf_size < 0 + s.nRead := by omega
  have hne : s.nRead ≠ 0 := by omega
  simp only [step, next_writing hrun hpc, doWrite, State.done, if_neg hfits, hk, hfull, hpc,
    if_true, afterWrite, hne, and_false, if_false, Nat.not_lt_zero, innerTest, Nat.lt_irrefl,
    List.drop_zero]

theorem read_copying (h : Copying A input total s) (htotal : total < A.sizes)
    (hpc : s.pc = .reading) {k : Nat} (hk : answers.1 = .done k)
    (hbuf : transferred k (min (A.toSize (min s.nLeft sf_buf_size)) s.input.length)
      ≤ sf_buf_size) : Copying A input total (step A b s answers) := by
  have hhere := h.here
  simp only [hpc] at hhere
  obtain ⟨hne, hall⟩ := hhere
  have hleft := h.left
  have hle := h.le
  obtain ⟨req, hreq⟩ : ∃ req, A.toSize (min s.nLeft sf_buf_size) = req := ⟨_, rfl⟩
  obtain ⟨n, hn⟩ : ∃ n, transferred k (min req s.input.length) = n := ⟨_, rfl⟩
  rw [hreq, hn] at hbuf
  rw [step_reading h.running hpc hk hreq hn hbuf]
  have hpos : 0 < req := by
    rw [← hreq, hleft]
    exact request_ne A (by omega) (by omega) (hleft ▸ hne)
  rcases Nat.eq_zero_or_pos n with hzero | hsome
  · have hend : s.input = [] := by
      refine List.length_eq_zero_iff.mp ?_
      simp only [transferred] at hn
      omega
    simp only [hzero, if_true]
    refine ⟨h.running, hleft, hle, ?_, Or.inr ?_⟩
    · simpa only [List.drop_zero] using hall
    · simp only [hend, List.drop_nil]
  · have hchunk : (n : Int) ≤ total - s.output.length := by
      refine chunk_le A (by omega) (hleft ▸ hne) ?_ hbuf
      rw [← hleft, hreq, ← hn]
      simp only [transferred]
      omega
    simp only [if_neg (Nat.pos_iff_ne_zero.mp hsome)]
    refine ⟨h.running, hleft, hle, ?_, ?_, hsome, hbuf, ?_⟩
    · simpa only [List.take_append_drop] using hall
    · show (s.input.take n).length = n
      rw [List.length_take, ← hn, transferred]
      omega
    · show s.output.length + n ≤ total
      omega

theorem write_copying (h : Copying A input total s) (hpc : s.pc = .writing) {k : Nat}
    (hk : answers.2 = .done k) (hfull : transferred k s.nRead = s.nRead) :
    Copying A input total (step A b s answers) := by
  have hhere := h.here
  simp only [hpc] at hhere
  obtain ⟨hall, hlen, hpos, hbuf, hroom⟩ := hhere
  have htake : List.take s.nRead s.buf = s.buf := List.take_of_length_le (by omega)
  rw [step_writing h.running hpc hk hfull hpos hbuf, htake]
  refine outerTest_copying h.running ?_ ?_ ?_
  · show A.toOff (s.nLeft - s.nRead) = A.toOff (total - (s.output ++ s.buf).length)
    rw [h.left, Abi.toOff_sub, List.length_append, hlen]
    congr 1
    push_cast
    omega
  · show (s.output ++ s.buf).length ≤ total
    rw [List.length_append, hlen]
    exact hroom
  · show (s.output ++ s.buf) ++ s.input = input
    rw [List.append_assoc]
    exact hall

theorem step_copying (h : Copying A input total s) (htotal : total < A.sizes)
    (hok : Smooth A s answers) : Copying A input total (step A b s answers) := by
  unfold Smooth at hok
  cases hpc : s.pc with
  | reading =>
      simp only [hpc] at hok
      obtain ⟨k, hk, hbuf⟩ := hok
      exact read_copying h htotal hpc hk hbuf
  | writing =>
      simp only [hpc] at hok
      obtain ⟨k, hk, hfull⟩ := hok
      exact write_copying h hpc hk hfull
  | rewriting =>
      have hhere := h.here
      simp only [hpc] at hhere
  | returned =>
      simp only [step, next_returned hpc]
      exact h

/-- How much is still to be done: every byte is read and written. -/
def remaining (s : State) : Nat :=
  match s.pc with
  | .reading => 2 * s.input.length + 2
  | .writing => 2 * s.input.length + 3
  | .rewriting => 0
  | .returned => 0

theorem outerTest_remaining (s : State) : remaining (outerTest s) ≤ 2 * s.input.length + 2 := by
  unfold outerTest
  split
  · exact Nat.zero_le _
  · exact Nat.le_refl _

theorem step_remaining (h : Copying A input total s) (hok : Smooth A s answers)
    (hpc : ¬ s.pc = .returned) : remaining (step A b s answers) < remaining s := by
  have hhere := h.here
  unfold Smooth at hok
  cases hcase : s.pc with
  | reading =>
      simp only [hcase] at hok
      obtain ⟨k, hk, hbuf⟩ := hok
      rw [step_reading h.running hcase hk rfl rfl hbuf]
      simp only [remaining, hcase]
      split
      · next hret =>
          split at hret
          · cases hret
          · cases hret
      · next hwr =>
          split at hwr
          · cases hwr
          · next hsome =>
              simp only [List.length_drop]
              have : transferred k (min (A.toSize (min s.nLeft sf_buf_size)) s.input.length)
                  ≤ s.input.length := by
                simp only [transferred]
                omega
              omega
      · exact Nat.succ_pos _
      · exact Nat.succ_pos _
  | writing =>
      simp only [hcase] at hok hhere
      obtain ⟨k, hk, hfull⟩ := hok
      rw [step_writing h.running hcase hk hfull hhere.2.2.1 hhere.2.2.2.1]
      refine Nat.lt_of_le_of_lt (outerTest_remaining _) ?_
      simp only [remaining, hcase]
      omega
  | rewriting => simp only [hcase] at hhere
  | returned => exact absurd hcase hpc

theorem start_copying {count : BitVec A.sizeBits}
    (htotal : A.toOff total = A.toOff count.toNat) :
    Copying A input total (start A input count) :=
  outerTest_copying rfl (by simp [htotal]) (Nat.zero_le _) rfl

end

end LibcCompat.NonLinux
