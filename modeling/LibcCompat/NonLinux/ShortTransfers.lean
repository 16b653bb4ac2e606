/-
# `LibcCompat.NonLinux.ShortTransfers` — copying when every call succeeds

When a `write` takes only part of a chunk, the next one is issued from
`(&sf_buf) + n_write`, which is `n_write` whole buffers past the start: outside
the buffer (`short_outside`).  So the copy is exact, and within the buffer, if
every `write` takes its whole chunk, and only then; the count must also survive
its conversion to `off_t`.
-/
import LibcCompat.NonLinux.Copy

namespace LibcCompat.NonLinux

open LibcCompat.Lib

/-- The call stays inside `sf_buf`. -/
def Request.Inside : Request → Prop
  | .read len => len ≤ sf_buf_size
  | .write off len => off + len ≤ sf_buf_size

/-- Every call succeeds; `reads` and `writes` say how much it transfers. -/
def transfers (reads writes : Nat → Nat) (n : Nat) : Outcome × Outcome :=
  (.done (reads n), .done (writes n))

/-- The call returns, having copied the first `count` bytes or all there are,
and every system call stays inside the buffer. -/
def CopiesExactly (A : Abi) (b : Build) (input : List UInt8) (count : BitVec A.sizeBits)
    (answers : Nat → Outcome × Outcome) : Prop :=
  (∃ n, (sendfileStub A b input count answers n).pc = .returned ∧
    (sendfileStub A b input count answers n).output = input.take count.toNat) ∧
  ∀ n, (sendfileStub A b input count answers n).stopped = none ∧
    ∀ q, (sendfileStub A b input count answers n).next A = some q → q.Inside

section
variable {A : Abi} {b : Build} {input : List UInt8} {total : Nat} {s : State}
  {answers : Outcome × Outcome}

/-- A total that is an `off_t` is counted down exactly. -/
theorem Copying.left_eq (h : Copying A input total s) (htotal : total < A.offHalf) :
    s.nLeft = total - s.output.length := by
  have hle := h.le
  rw [h.left]
  exact A.toOff_of_lt (by omega) (by omega)

theorem Copying.inside (h : Copying A input total s) (htotal : total < A.offHalf) {q : Request}
    (hq : s.next A = some q) : q.Inside := by
  have hhere := h.here
  cases hpc : s.pc with
  | reading =>
      rw [next_reading h.running hpc] at hq
      cases hq
      simp only [hpc] at hhere
      have hle := h.le
      have hleft := h.left_eq htotal
      have hpos : 0 < s.nLeft := by omega
      have hreq := request_pos A hpos
      simp only [Request.Inside, sf_buf_size] at hreq ⊢
      omega
  | writing =>
      rw [next_writing h.running hpc] at hq
      cases hq
      simp only [hpc] at hhere
      simp only [Request.Inside]
      omega
  | rewriting => simp only [hpc] at hhere
  | returned =>
      rw [next_returned hpc] at hq
      cases hq

theorem Copying.output_eq (h : Copying A input total s) (htotal : total < A.offHalf)
    (hpc : s.pc = .returned) : s.output = input.take total := by
  have hhere := h.here
  simp only [hpc] at hhere
  obtain ⟨hall, hend⟩ := hhere
  have hle := h.le
  rcases hend with hzero | hempty
  · have hlen : s.output.length = total := by
      have := h.left_eq htotal
      omega
    rw [← hall, ← hlen, List.take_left]
  · rw [hempty, List.append_nil] at hall
    rw [← hall, List.take_of_length_le hle]

theorem short_outside (h : Copying A input total s) (hpc : s.pc = .writing) {k : Nat}
    (hk : answers.2 = .done k) (hshort : transferred k s.nRead ≠ s.nRead) :
    ∃ q, (step A b s answers).next A = some q ∧ ¬ q.Inside := by
  have hhere := h.here
  simp only [hpc] at hhere
  obtain ⟨-, -, hpos, hbuf, -⟩ := hhere
  have hfits : ¬ sf_buf_size < 0 + s.nRead := by omega
  have hlt : transferred k s.nRead < s.nRead := by
    simp only [transferred] at hshort ⊢
    omega
  have hsome : 0 < transferred k s.nRead := by
    simp only [transferred]
    omega
  have hne : transferred k s.nRead ≠ 0 := by omega
  simp only [step, next_writing h.running hpc, doWrite, State.done, if_neg hfits, hk, hpc,
    if_true, afterWrite, hne, and_false, if_false, Nat.not_lt_zero, innerTest, if_pos hlt]
  refine ⟨.write (sf_buf_size * transferred k s.nRead) (s.nRead - transferred k s.nRead), ?_, ?_⟩
  · simp only [State.next, h.running]
  · simp only [Request.Inside, sf_buf_size]
    omega

end

/-- The next `write` takes its whole chunk. -/
def Full (s : State) (answers : Outcome × Outcome) : Prop :=
  ∀ k, answers.2 = .done k → s.pc = .writing → transferred k s.nRead = s.nRead

/-- Both answers are successes. -/
def Succeeds (answers : Outcome × Outcome) : Prop :=
  ∃ r w, answers = (.done r, .done w)

theorem Copying.smooth {A : Abi} {input : List UInt8} {total : Nat} {s : State}
    {answers : Outcome × Outcome} (h : Copying A input total s) (htotal : total < A.offHalf)
    (hok : Succeeds answers) (hfull : Full s answers) : Smooth A s answers := by
  obtain ⟨r, w, rfl⟩ := hok
  unfold Smooth
  cases hpc : s.pc with
  | reading =>
      have hin : A.toSize (min s.nLeft sf_buf_size) ≤ sf_buf_size :=
        h.inside htotal (next_reading h.running hpc)
      refine ⟨r, rfl, ?_⟩
      simp only [transferred]
      omega
  | writing => exact ⟨w, rfl, hfull w rfl hpc⟩
  | rewriting => trivial
  | returned => trivial

section
variable (A : Abi) (b : Build) (input : List UInt8) (count : BitVec A.sizeBits)
  {answers : Nat → Outcome × Outcome}

theorem total_bounds (h0 : 0 ≤ A.toOff count.toNat) :
    (A.toOff count.toNat).toNat < A.offHalf ∧ (A.toOff count.toNat).toNat < A.sizes ∧
      A.toOff (A.toOff count.toNat).toNat = A.toOff count.toNat := by
  have hbound := (A.toOff_bounds count.toNat).2
  have hle := A.toOff_le (x := count.toNat) (by omega)
  have hsize : count.toNat < A.sizes := count.isLt
  refine ⟨by omega, by omega, ?_⟩
  rw [Int.toNat_of_nonneg h0]
  exact A.toOff_of_lt h0 hbound

/-- All system calls stay inside the buffer exactly if every `write` takes its
whole chunk. -/
theorem inside_iff (h0 : 0 ≤ A.toOff count.toNat) (hok : ∀ n, Succeeds (answers n)) :
    (∀ n, (sendfileStub A b input count answers n).stopped = none ∧
      ∀ q, (sendfileStub A b input count answers n).next A = some q → q.Inside) ↔
    ∀ n, Full (sendfileStub A b input count answers n) (answers n) := by
  obtain ⟨hhalf, hsize, htotal⟩ := total_bounds A count h0
  refine @states_always_iff _ _ (step A b) (start A input count) answers
    (Copying A input (A.toOff count.toNat).toNat)
    (fun s => s.stopped = none ∧ ∀ q, s.next A = some q → q.Inside) Full
    (fun _ a => Succeeds a) ?_ ?_ ?_ (start_copying htotal) hok
  · intro s h
    exact ⟨h.running, fun q hq => h.inside hhalf hq⟩
  · intro s a h ha hfull
    exact step_copying h hsize (h.smooth hhalf ha hfull)
  · intro s a h _ hshort hQ
    refine hshort fun k hk hpc => Classical.byContradiction fun hne => ?_
    obtain ⟨q, hq, hout⟩ := short_outside h hpc hk hne
    exact hout (hQ.2 q hq)

/-- With whole chunks the call returns, having copied what the count asks for as
an `off_t`. -/
theorem returns_of_full (h0 : 0 ≤ A.toOff count.toNat) (hok : ∀ n, Succeeds (answers n))
    (hfull : ∀ n, Full (sendfileStub A b input count answers n) (answers n)) :
    (∃ n, (sendfileStub A b input count answers n).pc = .returned) ∧
      ∀ n, (sendfileStub A b input count answers n).pc = .returned →
        (sendfileStub A b input count answers n).output =
          input.take (A.toOff count.toNat).toNat := by
  obtain ⟨hhalf, hsize, htotal⟩ := total_bounds A count h0
  have hkeep : ∀ s a, Copying A input (A.toOff count.toNat).toNat s →
      Succeeds a ∧ Full s a → Copying A input (A.toOff count.toNat).toNat (step A b s a) :=
    fun s a h ha => step_copying h hsize (h.smooth hhalf ha.1 ha.2)
  have hcopy : ∀ n, Copying A input (A.toOff count.toNat).toNat
      (sendfileStub A b input count answers n) :=
    states_inv hkeep (start_copying htotal) fun n => ⟨hok n, hfull n⟩
  constructor
  · have hdec : ∀ n, ¬ (sendfileStub A b input count answers n).pc = .returned →
        remaining (sendfileStub A b input count answers (n + 1)) <
          remaining (sendfileStub A b input count answers n) := fun n hpc =>
      step_remaining (hcopy n) ((hcopy n).smooth hhalf (hok n) (hfull n)) hpc
    exact states_halts (fun s => s.pc = .returned) remaining hdec
  · intro n hpc
    exact (hcopy n).output_eq hhalf hpc

theorem negative_outside (hneg : A.toOff count.toNat < 0) :
    ∃ q, (sendfileStub A b input count answers 0).next A = some q ∧ ¬ q.Inside := by
  have hreq := request_neg A (x := count.toNat) (by omega) (Int.ofNat_lt.mpr count.isLt) hneg
  refine ⟨.read (A.toSize (min (A.toOff count.toNat) sf_buf_size)), ?_, Nat.not_le.mpr hreq⟩
  simp only [sendfileStub, states, start, outerTest, if_neg (Int.ne_of_lt hneg), State.next]

end

/-- **`sendfile` under short transfers.**  The copy is exact and stays inside the
buffer exactly if the count, as an `off_t`, is not negative and wants as many of
the available bytes, and every `write` takes its whole chunk. -/
theorem sendfile_copiesExactly (A : Abi) (b : Build) (input : List UInt8)
    (count : BitVec A.sizeBits) (reads writes : Nat → Nat) :
    CopiesExactly A b input count (transfers reads writes) ↔
      0 ≤ A.toOff count.toNat ∧
      min (A.toOff count.toNat).toNat input.length = min count.toNat input.length ∧
      ∀ n, Full (sendfileStub A b input count (transfers reads writes) n)
        (transfers reads writes n) := by
  have hok : ∀ n, Succeeds (transfers reads writes n) := fun n => ⟨reads n, writes n, rfl⟩
  constructor
  · rintro ⟨⟨n, hpc, hout⟩, hinside⟩
    have h0 : 0 ≤ A.toOff count.toNat := by
      refine Int.not_lt.mp fun hneg => ?_
      obtain ⟨q, hq, hbad⟩ := negative_outside A b input count hneg
      exact hbad ((hinside 0).2 q hq)
    have hfull := (inside_iff A b input count h0 hok).mp hinside
    refine ⟨h0, ?_, hfull⟩
    have heq := (returns_of_full A b input count h0 hok hfull).2 n hpc
    rw [hout] at heq
    exact (List.take_eq_take_iff.mp heq).symm
  · rintro ⟨h0, hmin, hfull⟩
    obtain ⟨⟨n, hpc⟩, hout⟩ := returns_of_full A b input count h0 hok hfull
    refine ⟨⟨n, hpc, ?_⟩, (inside_iff A b input count h0 hok).mpr hfull⟩
    rw [hout n hpc]
    exact List.take_eq_take_iff.mpr hmin

/-- Two bytes are to be copied, and the first `write` takes one of them. -/
theorem short_write_outside :
    ¬ CopiesExactly lp64 .debug [0x61, 0x62] 2 (transfers (fun _ => 2) (fun _ => 1)) := by
  intro h
  have hnext : (sendfileStub lp64 .debug [0x61, 0x62] 2
      (transfers (fun _ => 2) (fun _ => 1)) 2).next lp64 = some (.write 8192 1) := by
    decide
  have hin : 8192 + 1 ≤ 8192 := (h.2 2).2 _ hnext
  exact absurd hin (by decide)

end LibcCompat.NonLinux
