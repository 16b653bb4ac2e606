/-
# `LibcCompat.NonLinux.Failures` — copying when calls fail

A failed call is noticed by a negative result, and the results are kept in
variables of type `size_t`.  So a failed `read` passes for one that delivered
the largest `size_t` of bytes, which `write` is then asked to write; and a
failed `write` passes for one that wrote as much, which is subtracted from
`n_left`.

What is proved: the copy goes on as it should at every moment exactly if no
`read` and no `write` it makes fails, no `read` overflows the buffer, and, as
the one exception, a failed `write` that subtracts just what is left happens to
end the loop.
-/
import LibcCompat.NonLinux.Copy

namespace LibcCompat.NonLinux

open LibcCompat.Lib

/-- The answers when a `read` may deliver less or fail, and a `write` may fail. -/
def outcomes (reads : Nat → Outcome) (fails : Nat → Option Errno) (n : Nat) :
    Outcome × Outcome :=
  (reads n, match fails n with
    | none => .done sf_buf_size
    | some e => .fail e)

/-- What is asked of the copy at every moment: the output is a prefix of what is
to be copied, `write` is handed a count that a `read` delivered, and a call that
failed is made again after `EINTR` and is the last one otherwise. -/
structure Sound (A : Abi) (input : List UInt8) (count : Nat) (s : State) : Prop where
  running : s.stopped = none
  copied : s.output <+: input.take count
  delivered : ∀ off len, s.next A = some (.write off len) →
    ∃ req, ⟨.read req, .done len⟩ ∈ s.log
  retried : ∀ c e, s.log.getLast? = some c → c.res = .fail e →
    s.next A = if e = .EINTR then some c.req else none

/-- The call returns, and all goes as it should at every moment. -/
def SurvivesFailures (A : Abi) (b : Build) (input : List UInt8) (count : BitVec A.sizeBits)
    (answers : Nat → Outcome × Outcome) : Prop :=
  (∃ n, (sendfileStub A b input count answers n).pc = .returned) ∧
    ∀ n, Sound A input count.toNat (sendfileStub A b input count answers n)

/-- The next call does not fail, nor overflow the buffer; or it is a `write` that
fails for good where the largest `size_t` is just what is left. -/
def Unfailing (A : Abi) (s : State) (answers : Outcome × Outcome) : Prop :=
  match s.pc with
  | .reading => ∃ k, answers.1 = .done k ∧
      transferred k (min (A.toSize (min s.nLeft sf_buf_size)) s.input.length) ≤ sf_buf_size
  | .writing => ∀ e, answers.2 = .fail e →
      e ≠ .EINTR ∧ A.toOff (s.nLeft - A.toSize (-1)) = 0
  | .rewriting => True
  | .returned => True

/-- No call has failed so far, and the chunk to be written was delivered. -/
structure Clean (s : State) : Prop where
  unfailed : ∀ c ∈ s.log, ∃ n, c.res = .done n
  fromRead : s.pc = .writing → ∃ req, ⟨.read req, .done s.nRead⟩ ∈ s.log

/-- The loop has ended with a failed `write`. -/
structure Ended (input : List UInt8) (total : Nat) (s : State) : Prop where
  running : s.stopped = none
  returned : s.pc = .returned
  copied : s.output <+: input.take total
  last : ∀ c, s.log.getLast? = some c → c.res ≠ .fail .EINTR

section
variable {A : Abi} {b : Build} {input : List UInt8} {total : Nat} {s : State}
  {answers : Outcome × Outcome}

theorem sizeMax_eq (A : Abi) : (A.toSize (-1) : Int) = A.sizes - 1 := by
  have := A.sizes_ge
  rw [A.toSize_neg (by decide) (by omega)]
  omega

/-- A failed `read` counts as one of the largest `size_t`. -/
theorem step_reading_fail (hrun : s.stopped = none) (hpc : s.pc = .reading) {e : Errno} {req : Nat}
    (he : answers.1 = .fail e) (hreq : A.toSize (min s.nLeft sf_buf_size) = req) :
    step A b s answers =
      { s with
        log := s.log ++ [⟨.read req, .fail e⟩]
        errno := some e
        nRead := A.toSize (-1)
        pc := .writing } := by
  have hmax := sizeMax_eq A
  have hsz := A.sizes_ge
  have hne : A.toSize (-1) ≠ 0 := by omega
  simp only [step, next_reading hrun hpc, doRead, State.done, he, hreq, afterRead, hne,
    Nat.not_lt_zero, if_false]

/-- A failed `write` counts as one of the largest `size_t`. -/
theorem step_writing_fail (hrun : s.stopped = none) (hpc : s.pc = .writing) {e : Errno}
    (he : answers.2 = .fail e) (hbuf : s.nRead ≤ sf_buf_size) :
    step A b s answers =
      outerTest { s with
        log := s.log ++ [⟨.write 0 s.nRead, .fail e⟩]
        errno := some e
        nWrite := A.toSize (-1)
        nLeft := A.toOff (s.nLeft - A.toSize (-1)) } := by
  have hmax := sizeMax_eq A
  have hsz := A.sizes_ge
  have hfits : ¬ sf_buf_size < 0 + s.nRead := by omega
  have hne : A.toSize (-1) ≠ 0 := by omega
  have hge : ¬ A.toSize (-1) < s.nRead := by
    simp only [sf_buf_size] at hbuf
    omega
  simp only [step, next_writing hrun hpc, doWrite, State.done, if_neg hfits, he, hpc, if_true,
    afterWrite, hne, and_false, if_false, Nat.not_lt_zero, innerTest, hge]

theorem step_reading_overflow (hrun : s.stopped = none) (hpc : s.pc = .reading) {k : Nat}
    (hk : answers.1 = .done k)
    (hbuf : sf_buf_size <
      transferred k (min (A.toSize (min s.nLeft sf_buf_size)) s.input.length)) :
    (step A b s answers).stopped = some .undefined := by
  simp only [step, next_reading hrun hpc, doRead, hk, if_pos hbuf, State.stop]

theorem Copying.copied (h : Copying A input total s) : s.output <+: input.take total := by
  have hpre : s.output <+: input := by
    have hhere := h.here
    cases hpc : s.pc with
    | reading =>
        simp only [hpc] at hhere
        exact ⟨s.input, hhere.2⟩
    | writing =>
        simp only [hpc] at hhere
        exact ⟨s.buf ++ s.input, hhere.1⟩
    | rewriting => simp only [hpc] at hhere
    | returned =>
        simp only [hpc] at hhere
        exact ⟨s.input, hhere.1⟩
  rw [List.prefix_take_iff]
  exact ⟨hpre, h.le⟩

theorem Copying.sound (h : Copying A input total s) (hclean : Clean s) :
    Sound A input total s where
  running := h.running
  copied := h.copied
  delivered := by
    intro off len hnext
    have hhere := h.here
    cases hpc : s.pc with
    | reading =>
        rw [next_reading h.running hpc] at hnext
        cases hnext
    | writing =>
        rw [next_writing h.running hpc] at hnext
        cases hnext
        exact hclean.fromRead hpc
    | rewriting => simp only [hpc] at hhere
    | returned =>
        rw [next_returned hpc] at hnext
        cases hnext
  retried := by
    intro c e hlast hfail
    obtain ⟨n, hn⟩ := hclean.unfailed c (List.mem_of_getLast? hlast)
    exact nomatch hn.symm.trans hfail

theorem Ended.sound (h : Ended input total s) : Sound A input total s where
  running := h.running
  copied := h.copied
  delivered := by
    intro off len hnext
    rw [next_returned h.returned] at hnext
    cases hnext
  retried := by
    intro c e hlast hfail
    have hne : e ≠ .EINTR := by
      rintro rfl
      exact h.last c hlast hfail
    rw [next_returned h.returned, if_neg hne]

theorem read_clean (h : Clean s) (hrun : s.stopped = none) (hpc : s.pc = .reading) {k : Nat}
    (hk : answers.1 = .done k)
    (hbuf : transferred k (min (A.toSize (min s.nLeft sf_buf_size)) s.input.length)
      ≤ sf_buf_size) : Clean (step A b s answers) := by
  rw [step_reading hrun hpc hk rfl rfl hbuf]
  constructor
  · intro c hc
    rcases List.mem_append.mp hc with hold | hnew
    · exact h.unfailed c hold
    · rw [List.mem_singleton.mp hnew]
      exact ⟨_, rfl⟩
  · intro _
    exact ⟨_, List.mem_append_right _ (List.mem_singleton_self _)⟩

theorem outerTest_pc (s : State) : (outerTest s).pc ≠ .writing := by
  unfold outerTest
  split
  · exact nofun
  · exact nofun

theorem outerTest_log (s : State) : (outerTest s).log = s.log := by
  unfold outerTest
  split
  · rfl
  · rfl

theorem write_clean (h : Clean s) (hcopy : Copying A input total s) (hpc : s.pc = .writing)
    {k : Nat} (hk : answers.2 = .done k) (hfull : transferred k s.nRead = s.nRead) :
    Clean (step A b s answers) := by
  have hhere := hcopy.here
  simp only [hpc] at hhere
  rw [step_writing hcopy.running hpc hk hfull hhere.2.2.1 hhere.2.2.2.1]
  constructor
  · intro c hc
    rw [outerTest_log] at hc
    rcases List.mem_append.mp hc with hold | hnew
    · exact h.unfailed c hold
    · rw [List.mem_singleton.mp hnew]
      exact ⟨_, rfl⟩
  · intro hwr
    exact absurd hwr (outerTest_pc _)

/-- What holds as long as the copy goes as it should. -/
def Going (A : Abi) (input : List UInt8) (total : Nat) (s : State) : Prop :=
  Copying A input total s ∧ Clean s ∨ Ended input total s

/-- A `write` that succeeds takes what it is given. -/
def TakesAll (answers : Outcome × Outcome) : Prop :=
  ∀ k, answers.2 = .done k → k = sf_buf_size

theorem TakesAll.full (h : TakesAll answers) (hcopy : Copying A input total s)
    (hpc : s.pc = .writing) {k : Nat} (hk : answers.2 = .done k) :
    transferred k s.nRead = s.nRead := by
  have hhere := hcopy.here
  simp only [hpc] at hhere
  obtain ⟨-, -, hpos, hbuf, -⟩ := hhere
  rw [h k hk]
  simp only [transferred]
  omega

theorem TakesAll.smooth_or_ends (h : TakesAll answers) (hcopy : Copying A input total s)
    (hok : Unfailing A s answers) :
    Smooth A s answers ∨ s.pc = .writing ∧ ∃ e, answers.2 = .fail e ∧ e ≠ .EINTR ∧
      A.toOff (s.nLeft - A.toSize (-1)) = 0 := by
  unfold Unfailing at hok
  unfold Smooth
  cases hpc : s.pc with
  | reading =>
      simp only [hpc] at hok
      exact Or.inl hok
  | writing =>
      simp only [hpc] at hok
      cases hw : answers.2 with
      | done k => exact Or.inl ⟨k, rfl, h.full hcopy hpc hw⟩
      | fail e => exact Or.inr ⟨rfl, e, rfl, hok e hw⟩
  | rewriting => exact Or.inl trivial
  | returned => exact Or.inl trivial

theorem write_ends (h : Copying A input total s) (hpc : s.pc = .writing) {e : Errno}
    (he : answers.2 = .fail e) (hne : e ≠ .EINTR)
    (hzero : A.toOff (s.nLeft - A.toSize (-1)) = 0) :
    Ended input total (step A b s answers) := by
  have hhere := h.here
  simp only [hpc] at hhere
  rw [step_writing_fail h.running hpc he hhere.2.2.2.1]
  simp only [outerTest, hzero, if_true]
  refine ⟨h.running, rfl, h.copied, ?_⟩
  intro c hc heintr
  rw [List.getLast?_concat] at hc
  cases hc
  cases heintr
  exact hne rfl

theorem step_going (h : Going A input total s) (htotal : total < A.sizes)
    (hall : TakesAll answers) (hok : Unfailing A s answers) :
    Going A input total (step A b s answers) := by
  rcases h with ⟨hcopy, hclean⟩ | hended
  · rcases hall.smooth_or_ends hcopy hok with hsmooth | ⟨hpc, e, he, hne, hzero⟩
    · refine Or.inl ⟨step_copying hcopy htotal hsmooth, ?_⟩
      unfold Smooth at hsmooth
      cases hpc : s.pc with
      | reading =>
          simp only [hpc] at hsmooth
          obtain ⟨k, hk, hbuf⟩ := hsmooth
          exact read_clean hclean hcopy.running hpc hk hbuf
      | writing =>
          simp only [hpc] at hsmooth
          obtain ⟨k, hk, hfull⟩ := hsmooth
          exact write_clean hclean hcopy hpc hk hfull
      | rewriting =>
          have hhere := hcopy.here
          simp only [hpc] at hhere
      | returned =>
          simp only [step, next_returned hpc]
          exact hclean
    · exact Or.inr (write_ends hcopy hpc he hne hzero)
  · refine Or.inr ?_
    simp only [step, next_returned hended.returned]
    exact hended

theorem going_remaining (h : Going A input total s) (hall : TakesAll answers)
    (hok : Unfailing A s answers) (hpc : ¬ s.pc = .returned) :
    remaining (step A b s answers) < remaining s := by
  rcases h with ⟨hcopy, -⟩ | hended
  · rcases hall.smooth_or_ends hcopy hok with hsmooth | ⟨hwr, e, he, hne, hzero⟩
    · exact step_remaining hcopy hsmooth hpc
    · have hend := (write_ends (b := b) hcopy hwr he hne hzero).returned
      simp only [remaining, hend, hwr]
      exact Nat.succ_pos _
  · exact absurd hended.returned hpc

/-- A failure that goes unnoticed is seen at once. -/
theorem step_unsound (h : Going A input total s) (hbad : ¬ Unfailing A s answers) :
    ¬ Sound A input total (step A b s answers) := by
  intro hsound
  rcases h with ⟨hcopy, -⟩ | hended
  · have hhere := hcopy.here
    unfold Unfailing at hbad
    cases hpc : s.pc with
    | reading =>
        simp only [hpc] at hbad
        cases hr : answers.1 with
        | done k =>
            have hover : sf_buf_size <
                transferred k (min (A.toSize (min s.nLeft sf_buf_size)) s.input.length) := by
              refine Nat.not_le.mp fun hle => hbad ⟨k, hr, hle⟩
            have hstop := step_reading_overflow (b := b) hcopy.running hpc hr hover
            have hrunning := hsound.running
            rw [hstop] at hrunning
            cases hrunning
        | fail e =>
            -- the next call is a `write`, neither the `read` again nor none
            have hret := hsound.retried
            rw [step_reading_fail hcopy.running hpc hr rfl] at hret
            have hnext := hret _ e List.getLast?_concat rfl
            simp only [State.next, hcopy.running] at hnext
            split at hnext
            · cases hnext
            · cases hnext
    | writing =>
        simp only [hpc] at hbad hhere
        obtain ⟨e, hbad⟩ := Classical.not_forall.mp hbad
        obtain ⟨he, hbad⟩ := Classical.not_imp.mp hbad
        have hret := hsound.retried
        rw [step_writing_fail hcopy.running hpc he hhere.2.2.2.1] at hret
        have hnext := hret ⟨.write 0 s.nRead, .fail e⟩ e
          (by rw [outerTest_log]; exact List.getLast?_concat) rfl
        unfold outerTest at hnext
        split at hnext
        · next hzero =>
            rw [next_returned rfl] at hnext
            split at hnext
            · cases hnext
            · next hne => exact hbad ⟨hne, hzero⟩
        · simp only [State.next, hcopy.running] at hnext
          split at hnext
          · cases hnext
          · cases hnext
    | rewriting => simp only [hpc] at hhere
    | returned => simp only [hpc, not_true_eq_false] at hbad
  · unfold Unfailing at hbad
    simp only [hended.returned, not_true_eq_false] at hbad

end

/-- **`sendfile` under failures.**  For every way the calls of `read` and `write`
may fail, the copy goes as it should exactly if all calls it makes are
`Unfailing`. -/
theorem sendfile_survivesFailures (A : Abi) (b : Build) (input : List UInt8)
    (count : BitVec A.sizeBits) (reads : Nat → Outcome) (fails : Nat → Option Errno) :
    SurvivesFailures A b input count (outcomes reads fails) ↔
      ∀ n, Unfailing A (sendfileStub A b input count (outcomes reads fails) n)
        (outcomes reads fails n) := by
  have hall : ∀ n, TakesAll (outcomes reads fails n) := by
    intro n k hk
    simp only [outcomes] at hk
    split at hk
    · cases hk
      rfl
    · cases hk
  have hstart : Going A input count.toNat (start A input count) := by
    refine Or.inl ⟨start_copying rfl, ?_⟩
    constructor
    · intro c hc
      rw [start, outerTest_log] at hc
      exact absurd hc List.not_mem_nil
    · intro hwr
      exact absurd hwr (outerTest_pc _)
  have hiff := @states_always_iff _ _ (step A b) (start A input count) (outcomes reads fails)
    (Going A input count.toNat) (Sound A input count.toNat) (Unfailing A)
    (fun _ a => TakesAll a)
    (fun s h => h.elim (fun h => h.1.sound h.2) Ended.sound)
    (fun s a h ha hok => step_going h count.isLt ha hok)
    (fun s a h _ hbad => step_unsound h hbad) hstart hall
  constructor
  · intro h
    exact hiff.mp h.2
  · intro hok
    refine ⟨?_, hiff.mpr hok⟩
    have hkeep : ∀ s a, Going A input count.toNat s → TakesAll a ∧ Unfailing A s a →
        Going A input count.toNat (step A b s a) :=
      fun s a h ha => step_going h count.isLt ha.1 ha.2
    have hgoing : ∀ n, Going A input count.toNat
        (sendfileStub A b input count (outcomes reads fails) n) :=
      states_inv hkeep hstart fun n => ⟨hall n, hok n⟩
    have hdec : ∀ n, ¬ (sendfileStub A b input count (outcomes reads fails) n).pc = .returned →
        remaining (sendfileStub A b input count (outcomes reads fails) (n + 1)) <
          remaining (sendfileStub A b input count (outcomes reads fails) n) :=
      fun n hpc => going_remaining (hgoing n) (hall n) (hok n) hpc
    exact states_halts (fun s => s.pc = .returned) remaining hdec

/-- The first `read` is interrupted. -/
theorem failed_read_unnoticed :
    ¬ SurvivesFailures lp64 .debug [0x61, 0x62] 2
      (outcomes (fun n => if n = 0 then .fail .EINTR else .done 2) fun _ => none) := by
  intro h
  have hnext : (sendfileStub lp64 .debug [0x61, 0x62] 2
      (outcomes (fun n => if n = 0 then .fail .EINTR else .done 2) fun _ => none) 1).next lp64 =
        some (.write 0 (2 ^ 64 - 1)) := by
    decide
  have hret := (h.2 1).retried ⟨.read 2, .fail .EINTR⟩ .EINTR (by decide) rfl
  rw [hnext] at hret
  cases hret

end LibcCompat.NonLinux
