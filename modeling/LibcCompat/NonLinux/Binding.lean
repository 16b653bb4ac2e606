/-
# `LibcCompat.NonLinux.Binding` — `sendfile` of `rs/common/stubs/sendfile.rs`

The `libc` crate gets a `sendfile` that calls `__sendfile_stub`.  The stub has no
result, and the binding returns 0 when it is back.

What is proved (`sendfile_reports_iff`): the result says what was done exactly
if there was nothing to do, because the count is 0 or because the first `read`
meets the end of the file.
-/
import LibcCompat.NonLinux.Failures

namespace LibcCompat.NonLinux

open LibcCompat.Lib

/-- `sendfile(out_fd, in_fd, offset, count)` of the binding, after `n` system
calls: how it has ended, if it has.  An offset panics. -/
def sendfile (A : Abi) (b : Build) (offset : Option Int) (input : List UInt8)
    (count : BitVec A.sizeBits) (answers : Nat → Outcome × Outcome) (n : Nat) :
    Option (Except Stop Int) :=
  match offset with
  | some _ => some (.error .aborted)
  | none =>
      let s := sendfileStub A b input count answers n
      match s.stopped, s.pc with
      | some why, _ => some (.error why)
      | none, .returned => some (.ok 0)
      | none, _ => none

/-- What the result says about a copy that ended in state `s`. -/
structure Reported (input : List UInt8) (count : Nat) (s : State) (r : Int) : Prop where
  written : s.output ≠ [] → r = s.output.length
  nothing : r = 0 → count = 0 ∨ input = []
  failed : s.output = [] → (∃ c ∈ s.log, ∃ e, c.res = .fail e) → r = -1

/-- The call returns, with a result that says what was done. -/
def ReportsCopy (A : Abi) (b : Build) (input : List UInt8) (count : BitVec A.sizeBits)
    (answers : Nat → Outcome × Outcome) : Prop :=
  ∃ n r, sendfile A b none input count answers n = some (.ok r) ∧
    Reported input count.toNat (sendfileStub A b input count answers n) r

section
variable {A : Abi} {b : Build} {input : List UInt8} {count : BitVec A.sizeBits} {s : State}
  {answers : Nat → Outcome × Outcome} {n : Nat} {r : Int}

theorem sendfile_ok : sendfile A b none input count answers n = some (.ok r) ↔
    r = 0 ∧ (sendfileStub A b input count answers n).stopped = none ∧
      (sendfileStub A b input count answers n).pc = .returned := by
  unfold sendfile
  dsimp only
  split
  · next why hstopped =>
      refine iff_of_false nofun fun h => ?_
      rw [h.2.1] at hstopped
      cases hstopped
  · next hstopped hpc =>
      constructor
      · intro h
        cases h
        exact ⟨rfl, hstopped, hpc⟩
      · rintro ⟨rfl, -, -⟩
        rfl
  · next hnot =>
      exact iff_of_false nofun fun h => hnot h.2.2

theorem step_stopped {a : Outcome × Outcome} (h : s.stopped ≠ none) : step A b s a = s := by
  obtain ⟨why, hwhy⟩ := Option.ne_none_iff_exists'.mp h
  simp only [step, State.next, hwhy]

/-- A failed `read` is followed by a `write` of more than the buffer holds. -/
theorem step_write_overflow {a : Outcome × Outcome} (hrun : s.stopped = none)
    (hpc : s.pc = .writing) (hover : sf_buf_size < s.nRead) :
    (step A b s a).stopped = some .undefined := by
  have hover' : sf_buf_size < 0 + s.nRead := by omega
  simp only [step, next_writing hrun hpc, doWrite, if_pos hover', State.stop]

theorem start_reading (hleft : A.toOff count.toNat ≠ 0) :
    start A input count = ⟨.reading, A.toOff count.toNat, 0, 0, [], input, [], none, [], none⟩ := by
  rw [start, outerTest, if_neg hleft]

theorem start_returned (hleft : A.toOff count.toNat = 0) :
    start A input count = ⟨.returned, 0, 0, 0, [], input, [], none, [], none⟩ := by
  rw [start, outerTest, hleft]
  rfl

/-- A loop that starts with a `read` that fails never returns. -/
theorem failed_read_stops (hleft : A.toOff count.toNat ≠ 0) {e : Errno}
    (hfail : (answers 0).1 = .fail e) :
    ∀ n, ¬ ((sendfileStub A b input count answers n).stopped = none ∧
      (sendfileStub A b input count answers n).pc = .returned) := by
  have hstart : start A input count = _ := start_reading hleft
  have hone : sendfileStub A b input count answers 1 =
      { start A input count with
        log := (start A input count).log ++
          [⟨.read (A.toSize (min (start A input count).nLeft sf_buf_size)), .fail e⟩]
        errno := some e
        nRead := A.toSize (-1)
        pc := .writing } :=
    step_reading_fail (s := start A input count) (by rw [hstart]) (by rw [hstart]) hfail rfl
  have htwo : ∀ n, (sendfileStub A b input count answers (n + 2)).stopped = some .undefined := by
    intro n
    induction n with
    | zero =>
        refine step_write_overflow (s := sendfileStub A b input count answers 1) ?_ ?_ ?_
        · rw [hone, hstart]
        · rw [hone]
        · have hmax := sizeMax_eq A
          have hsz := A.sizes_ge
          rw [hone, sf_buf_size]
          dsimp only
          omega
    | succ n ih =>
        have hstopped : (sendfileStub A b input count answers (n + 2)).stopped ≠ none := by
          rw [ih]
          exact Option.some_ne_none _
        exact (congrArg State.stopped (step_stopped hstopped)).trans ih
  rintro (_ | _ | n) ⟨hrun, hpc⟩
  · change (start A input count).pc = _ at hpc
    rw [hstart] at hpc
    cases hpc
  · rw [hone] at hpc
    cases hpc
  · rw [htwo n] at hrun
    cases hrun

/-- A call that ends without a byte written, and with no call failed, for the
reason that there was nothing to do. -/
theorem reports_nothing (hrun : (sendfileStub A b input count answers n).stopped = none)
    (hpc : (sendfileStub A b input count answers n).pc = .returned)
    (hempty : (sendfileStub A b input count answers n).output = [])
    (hclean : ∀ c ∈ (sendfileStub A b input count answers n).log, ∀ e, c.res ≠ .fail e)
    (hnothing : count.toNat = 0 ∨ input = []) : ReportsCopy A b input count answers := by
  refine ⟨n, 0, sendfile_ok.mpr ⟨rfl, hrun, hpc⟩, ?_, fun _ => hnothing, ?_⟩
  · intro hwritten
    exact absurd hempty hwritten
  · rintro - ⟨c, hc, e, hfail⟩
    exact absurd hfail (hclean c hc e)

theorem reports_noLoop (hleft : A.toOff count.toNat = 0)
    (hnothing : count.toNat = 0 ∨ input = []) : ReportsCopy A b input count answers := by
  have hzero : sendfileStub A b input count answers 0 =
      ⟨.returned, 0, 0, 0, [], input, [], none, [], none⟩ := start_returned hleft
  refine reports_nothing (n := 0) ?_ ?_ ?_ ?_ hnothing
  · rw [hzero]
  · rw [hzero]
  · rw [hzero]
  · rw [hzero]
    intro c hc
    exact absurd hc List.not_mem_nil

theorem reports_endOfFile (hleft : A.toOff count.toNat ≠ 0) {k : Nat}
    (hk : (answers 0).1 = .done k) : ReportsCopy A b [] count answers := by
  have hstart : start A [] count = _ := start_reading hleft
  have hone : sendfileStub A b [] count answers 1 = _ :=
    step_reading (A := A) (b := b) (s := start A [] count) (n := 0)
      (by rw [hstart]) (by rw [hstart]) hk rfl (by rw [hstart]; simp [transferred])
      (Nat.zero_le _)
  refine reports_nothing (n := 1) ?_ ?_ ?_ ?_ (.inr rfl)
  · rw [hone, hstart]
  · rw [hone]
    rfl
  · rw [hone, hstart]
  · rw [hone, hstart]
    intro c hc e hfail
    rw [List.mem_singleton.mp hc] at hfail
    cases hfail

end

/-- **The result of `sendfile`.**  Through the binding, for every behaviour of
`read` and `write`, the result says what was done exactly if the count is 0, or
there is nothing to read and the first `read`, where one is made, says so. -/
theorem sendfile_reports_iff (A : Abi) (b : Build) (input : List UInt8)
    (count : BitVec A.sizeBits) (answers : Nat → Outcome × Outcome) :
    ReportsCopy A b input count answers ↔
      count.toNat = 0 ∨
        input = [] ∧ (A.toOff count.toNat ≠ 0 → ∃ k, (answers 0).1 = .done k) := by
  constructor
  · rintro ⟨n, r, hreturns, hreport⟩
    obtain ⟨hzero, hend⟩ := sendfile_ok.mp hreturns
    refine (hreport.nothing hzero).imp_right fun hempty => ⟨hempty, fun hleft => ?_⟩
    cases hread : (answers 0).1 with
    | done k => exact ⟨k, rfl⟩
    | fail e => exact absurd hend (failed_read_stops hleft hread n)
  · intro h
    by_cases hleft : A.toOff count.toNat = 0
    · exact reports_noLoop hleft (h.imp_right And.left)
    · have hpos : count.toNat ≠ 0 := by
        intro hzero
        exact hleft (by rw [hzero]; exact Int.zero_bmod)
      obtain ⟨rfl, hdone⟩ := h.resolve_left hpos
      obtain ⟨k, hk⟩ := hdone hleft
      exact reports_endOfFile hleft hk

/-- A copy of two bytes, and one whose `write` fails, both return 0. -/
theorem copied_and_failed_alike :
    ¬ ReportsCopy lp64 .debug [0x61, 0x62] 2 (fun _ => (.done 2, .done 2)) ∧
      sendfile lp64 .debug none [0x61, 0x62] 2 (fun _ => (.done 2, .done 2)) 2 = some (.ok 0) ∧
      sendfile lp64 .debug none [0x61, 0x62] 2 (fun _ => (.done 2, .fail (.other 28))) 3 =
        some (.ok 0) := by
  refine ⟨?_, rfl, rfl⟩
  rintro ⟨n, r, hreturns, hreport⟩
  rcases hreport.nothing (sendfile_ok.mp hreturns).1 with hcount | hinput
  · exact absurd hcount (by decide)
  · cases hinput

end LibcCompat.NonLinux
