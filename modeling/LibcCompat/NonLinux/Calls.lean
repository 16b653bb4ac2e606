/-
# `LibcCompat.NonLinux.Calls` — one `sendfile` after the other

A program copies a file by calls of `sendfile` that follow each other: each goes
on reading where the one before has stopped, and appends to the same output.

What is proved (`sendfile_calls`): where the calls come back, whatever their
counts are and whatever `read` and `write` answered, the output has grown by the
first bytes of the input, as many as the counts add up to, and the rest is still
to be read, exactly if no `write` has failed.  So several calls copy as one, and
a failed `write` is the only thing that can go wrong unseen: a failed `read`, a
short `write` and a count that overflows the buffer end in undefined behaviour,
and the call does not come back.

A count is reduced to what an `off_t` can tell apart.
-/
import LibcCompat.NonLinux.Binding

namespace LibcCompat.NonLinux

open LibcCompat.Lib

def Call.failedWrite : Call → Bool
  | ⟨.write _ _, .fail _⟩ => true
  | _ => false

/-! ## What a call comes to -/

/-- A `write` has failed, and the bytes it had to write are gone. -/
structure Lossy (input : List UInt8) (s : State) : Prop where
  running : s.stopped = none
  failed : ∃ c ∈ s.log, c.failedWrite = true
  here : match s.pc with
    | .reading => s.output.length + s.input.length < input.length
    | .writing =>
        s.output.length + s.nRead + s.input.length < input.length ∧
          s.buf.length = s.nRead ∧ 1 ≤ s.nRead ∧ s.nRead ≤ sf_buf_size
    | .rewriting => False
    | .returned => s.output.length + s.input.length < input.length

/-- The next call lies outside the buffer, or one has. -/
inductive Astray (s : State) : Prop
  | stopped (h : s.stopped ≠ none)
  | overflow (hrun : s.stopped = none) (hpc : s.pc = .writing) (h : sf_buf_size < s.nRead)
  | outside (hrun : s.stopped = none) (hpc : s.pc = .rewriting) (hsome : 1 ≤ s.nWrite)
      (hshort : s.nWrite < s.nRead)

/-- Where a call can stand. -/
inductive Course (A : Abi) (input : List UInt8) (total : Nat) (s : State) : Prop
  | faithful (hcopy : Copying A input total s) (hnone : ∀ c ∈ s.log, c.failedWrite = false)
  | lossy (h : Lossy input s)
  | astray (h : Astray s)

section
variable {A : Abi} {b : Build} {input : List UInt8} {total : Nat} {s : State}
  {answers : Outcome × Outcome}

theorem none_failed_snoc {log : List Call} {c : Call} (h : ∀ c ∈ log, c.failedWrite = false)
    (hc : c.failedWrite = false) : ∀ c' ∈ log ++ [c], c'.failedWrite = false := by
  intro c' hmem
  rcases List.mem_append.mp hmem with hold | hnew
  · exact h c' hold
  · rw [List.mem_singleton.mp hnew]
    exact hc

theorem failed_snoc {log : List Call} (h : ∃ c ∈ log, c.failedWrite = true) (c : Call) :
    ∃ c' ∈ log ++ [c], c'.failedWrite = true := by
  obtain ⟨c', hmem, hc'⟩ := h
  exact ⟨c', List.mem_append_left _ hmem, hc'⟩

/-- A `write` that takes a part of the chunk is followed by one outside. -/
theorem write_short (hrun : s.stopped = none) (hpc : s.pc = .writing) {k : Nat}
    (hk : answers.2 = .done k) (hshort : transferred k s.nRead ≠ s.nRead) (hpos : 1 ≤ s.nRead)
    (hbuf : s.nRead ≤ sf_buf_size) : Astray (step A b s answers) := by
  have hfits : ¬ sf_buf_size < 0 + s.nRead := by omega
  have hlt : transferred k s.nRead < s.nRead := by
    simp only [transferred] at hshort ⊢
    omega
  have hsome : 1 ≤ transferred k s.nRead := by
    simp only [transferred]
    omega
  have hne : transferred k s.nRead ≠ 0 := by omega
  simp only [step, next_writing hrun hpc, doWrite, State.done, if_neg hfits, hk, hpc, if_true,
    afterWrite, hne, and_false, if_false, Nat.not_lt_zero, innerTest, if_pos hlt]
  exact .outside hrun rfl hsome hlt

/-- A `read` that stays inside the buffer delivers something, or the end. -/
theorem read_inside_or (hrun : s.stopped = none) (hpc : s.pc = .reading) :
    (∃ k, answers.1 = .done k ∧
      transferred k (min (A.toSize (min s.nLeft sf_buf_size)) s.input.length) ≤ sf_buf_size) ∨
    Astray (step A b s answers) := by
  cases hread : answers.1 with
  | done k =>
      rcases Nat.lt_or_ge sf_buf_size
        (transferred k (min (A.toSize (min s.nLeft sf_buf_size)) s.input.length)) with hgt | hle
      · refine .inr (.stopped ?_)
        rw [step_reading_overflow hrun hpc hread hgt]
        exact Option.some_ne_none _
      · exact .inl ⟨k, rfl, hle⟩
  | fail e =>
      -- it counts as one of the largest `size_t`, which `write` is handed
      have hmax := sizeMax_eq A
      have hsz := A.sizes_ge
      rw [step_reading_fail hrun hpc hread rfl]
      refine .inr (.overflow hrun rfl ?_)
      simp only [sf_buf_size]
      omega

/-- A `write` that stays inside the buffer takes the whole chunk, or fails. -/
theorem write_inside_or (hrun : s.stopped = none) (hpc : s.pc = .writing) (hpos : 1 ≤ s.nRead)
    (hbuf : s.nRead ≤ sf_buf_size) :
    (∃ k, answers.2 = .done k ∧ transferred k s.nRead = s.nRead) ∨
      (∃ e, answers.2 = .fail e) ∨ Astray (step A b s answers) := by
  cases hwrite : answers.2 with
  | done k =>
      by_cases hfull : transferred k s.nRead = s.nRead
      · exact .inl ⟨k, rfl, hfull⟩
      · exact .inr (.inr (write_short hrun hpc hwrite hfull hpos hbuf))
  | fail e => exact .inr (.inl ⟨e, rfl⟩)

theorem Astray.step (h : Astray s) : Astray (step A b s answers) := by
  cases h with
  | stopped h =>
      rw [step_stopped h]
      exact .stopped h
  | overflow hrun hpc h =>
      refine .stopped ?_
      rw [step_write_overflow hrun hpc h]
      exact Option.some_ne_none _
  | outside hrun hpc hsome hshort =>
      have hover : sf_buf_size < sf_buf_size * s.nWrite + (s.nRead - s.nWrite) := by
        have hmul : sf_buf_size * 1 ≤ sf_buf_size * s.nWrite := Nat.mul_le_mul_left _ hsome
        omega
      refine .stopped ?_
      simp only [NonLinux.step, State.next, hrun, hpc, doWrite, if_pos hover, State.stop]
      exact Option.some_ne_none _

theorem outerTest_lossy (hrun : s.stopped = none) (hfailed : ∃ c ∈ s.log, c.failedWrite = true)
    (hlost : s.output.length + s.input.length < input.length) : Lossy input (outerTest s) := by
  unfold outerTest
  split
  · exact ⟨hrun, hfailed, hlost⟩
  · exact ⟨hrun, hfailed, hlost⟩

/-- A failed `write` passes for one that wrote all. -/
theorem write_fails (hrun : s.stopped = none) (hpc : s.pc = .writing) {e : Errno}
    (he : answers.2 = .fail e) (hpos : 1 ≤ s.nRead) (hbuf : s.nRead ≤ sf_buf_size)
    (hlen : s.output.length + s.nRead + s.input.length ≤ input.length) :
    Lossy input (step A b s answers) := by
  rw [step_writing_fail hrun hpc he hbuf]
  refine outerTest_lossy hrun ⟨_, List.mem_append_right _ (List.mem_singleton_self _), rfl⟩ ?_
  show s.output.length + s.input.length < input.length
  omega

theorem Lossy.read (h : Lossy input s) (hpc : s.pc = .reading) {k : Nat}
    (hk : answers.1 = .done k)
    (hbuf : transferred k (min (A.toSize (min s.nLeft sf_buf_size)) s.input.length)
      ≤ sf_buf_size) : Lossy input (step A b s answers) := by
  have hlost := h.here
  simp only [hpc] at hlost
  obtain ⟨n, hn⟩ : ∃ n, transferred k (min (A.toSize (min s.nLeft sf_buf_size)) s.input.length) =
    n := ⟨_, rfl⟩
  have hle : n ≤ s.input.length := by
    rw [← hn, transferred]
    omega
  rw [hn] at hbuf
  rw [step_reading h.running hpc hk rfl hn hbuf]
  rcases Nat.eq_zero_or_pos n with hzero | hsome
  · simp only [hzero, if_true]
    exact ⟨h.running, failed_snoc h.failed _, hlost⟩
  · simp only [if_neg (Nat.pos_iff_ne_zero.mp hsome)]
    refine ⟨h.running, failed_snoc h.failed _, ?_, ?_, hsome, hbuf⟩
    · show s.output.length + n + (s.input.drop n).length < input.length
      rw [List.length_drop]
      omega
    · exact List.length_take_of_le hle

theorem Lossy.write (h : Lossy input s) (hpc : s.pc = .writing) {k : Nat}
    (hk : answers.2 = .done k) (hfull : transferred k s.nRead = s.nRead) :
    Lossy input (step A b s answers) := by
  have hlost := h.here
  simp only [hpc] at hlost
  obtain ⟨hlost, hlen, hpos, hbuf⟩ := hlost
  rw [step_writing h.running hpc hk hfull hpos hbuf]
  refine outerTest_lossy h.running (failed_snoc h.failed _) ?_
  show (s.output ++ s.buf.take s.nRead).length + s.input.length < input.length
  rw [List.length_append, List.length_take_of_le (Nat.le_of_eq hlen.symm)]
  exact hlost

theorem Lossy.step (h : Lossy input s) : Course A input total (step A b s answers) := by
  have hhere := h.here
  cases hpc : s.pc with
  | reading =>
      obtain ⟨k, hread, hle⟩ | hastray := read_inside_or h.running hpc
      · exact .lossy (h.read hpc hread hle)
      · exact .astray hastray
  | writing =>
      simp only [hpc] at hhere
      obtain ⟨hlost, -, hpos, hbuf⟩ := hhere
      obtain ⟨k, hwrite, hfull⟩ | ⟨e, hwrite⟩ | hastray := write_inside_or h.running hpc hpos hbuf
      · exact .lossy (h.write hpc hwrite hfull)
      · exact .lossy (write_fails h.running hpc hwrite hpos hbuf (Nat.le_of_lt hlost))
      · exact .astray hastray
  | rewriting => simp only [hpc] at hhere
  | returned =>
      simp only [NonLinux.step, next_returned hpc]
      exact .lossy h

theorem Copying.course (h : Copying A input total s) (hnone : ∀ c ∈ s.log, c.failedWrite = false)
    (htotal : total < A.sizes) : Course A input total (step A b s answers) := by
  have hhere := h.here
  cases hpc : s.pc with
  | reading =>
      obtain ⟨k, hread, hle⟩ | hastray := read_inside_or h.running hpc
      · refine .faithful (read_copying h htotal hpc hread hle) ?_
        rw [step_reading h.running hpc hread rfl rfl hle]
        exact none_failed_snoc hnone rfl
      · exact .astray hastray
  | writing =>
      simp only [hpc] at hhere
      obtain ⟨hall, hlen, hpos, hbuf, -⟩ := hhere
      obtain ⟨k, hwrite, hfull⟩ | ⟨e, hwrite⟩ | hastray := write_inside_or h.running hpc hpos hbuf
      · refine .faithful (write_copying h hpc hwrite hfull) ?_
        rw [step_writing h.running hpc hwrite hfull hpos hbuf, outerTest_log]
        exact none_failed_snoc hnone rfl
      · refine .lossy (write_fails h.running hpc hwrite hpos hbuf (Nat.le_of_eq ?_))
        rw [← hall, List.length_append, List.length_append, hlen, Nat.add_assoc]
      · exact .astray hastray
  | rewriting => simp only [hpc] at hhere
  | returned =>
      simp only [NonLinux.step, next_returned hpc]
      exact .faithful h hnone

/-- The invariant of a call, whatever is answered. -/
theorem Course.step (h : Course A input total s) (htotal : total < A.sizes) :
    Course A input total (step A b s answers) := by
  cases h with
  | faithful hcopy hnone => exact hcopy.course hnone htotal
  | lossy h => exact h.step
  | astray h => exact .astray h.step

/-- What an `off_t` can tell apart is counted down to the end. -/
theorem toOff_eq_zero {n : Nat} (hn : n < 2 ^ A.offBits) (h : A.toOff n = 0) : n = 0 :=
  Nat.eq_zero_of_dvd_of_lt (Int.natCast_dvd_natCast.mp (Int.dvd_of_bmod_eq_zero h)) hn

/-- A call that comes back has copied what was wanted, and left the rest. -/
theorem Copying.carried (h : Copying A input total s) (htotal : total < 2 ^ A.offBits)
    (hpc : s.pc = .returned) : s.output = input.take total ∧ s.input = input.drop total := by
  have hhere := h.here
  simp only [hpc] at hhere
  obtain ⟨hall, hend⟩ := hhere
  have hle := h.le
  rcases hend with hzero | hempty
  · have hlen : s.output.length = total := by
      have hleft := h.left
      rw [hzero, ← Int.ofNat_sub hle] at hleft
      have hnone := toOff_eq_zero (by omega) hleft.symm
      omega
    rw [← hall, ← hlen]
    exact ⟨List.take_left.symm, List.drop_left.symm⟩
  · rw [hempty, List.append_nil] at hall
    rw [hempty, ← hall, List.take_of_length_le hle, List.drop_eq_nil_of_le hle]
    exact ⟨rfl, rfl⟩

end

/-! ## The calls -/

/-- `in_fd` would deliver `input`; `output` was appended to `out_fd`, and `calls`
are the system calls that were made. -/
structure Files where
  input : List UInt8
  output : List UInt8
  calls : List Call
deriving DecidableEq, Repr

/-- A call of `sendfile`, with what its system calls are answered and how many it
makes. -/
structure Sendfile (A : Abi) where
  count : BitVec A.sizeBits
  answers : Nat → Outcome × Outcome
  steps : Nat

section
variable (A : Abi) (b : Build)

def Sendfile.end (c : Sendfile A) (s : Files) : State :=
  sendfileStub A b s.input c.count c.answers c.steps

/-- The call is back after its last system call. -/
def Files.Returns (s : Files) (c : Sendfile A) : Prop :=
  (c.end A b s).stopped = none ∧ (c.end A b s).pc = .returned

instance (s : Files) (c : Sendfile A) : Decidable (Files.Returns A b s c) :=
  inferInstanceAs (Decidable (_ ∧ _))

def Files.step (s : Files) (c : Sendfile A) : Files where
  input := (c.end A b s).input
  output := s.output ++ (c.end A b s).output
  calls := s.calls ++ (c.end A b s).log

/-- A count, as far as an `off_t` tells it. -/
def Sendfile.wanted (c : Sendfile A) : Nat := c.count.toNat % 2 ^ A.offBits

/-- What several calls ask for. -/
def wanted : List (Sendfile A) → Nat
  | [] => 0
  | c :: cs => c.wanted + wanted cs

end

/-- `n` bytes have gone from the input to the output, or all there were. -/
structure Carried (n : Nat) (s t : Files) : Prop where
  output : t.output = s.output ++ s.input.take n
  input : t.input = s.input.drop n

/-- Bytes are neither in the input nor in the output. -/
def Lost (s t : Files) : Prop :=
  t.output.length + t.input.length < s.output.length + s.input.length

section
variable {s t u : Files}

theorem Carried.refl (s : Files) : Carried 0 s s where
  output := (List.append_nil _).symm
  input := rfl

theorem Carried.trans {m n : Nat} (h : Carried m s t) (h' : Carried n t u) :
    Carried (m + n) s u where
  output := by rw [h'.output, h.output, h.input, List.append_assoc, ← List.take_add]
  input := by rw [h'.input, h.input, List.drop_drop]

theorem Carried.length_eq {n : Nat} (h : Carried n s t) :
    t.output.length + t.input.length = s.output.length + s.input.length := by
  rw [h.output, h.input, List.length_append, Nat.add_assoc, ← List.length_append,
    List.take_append_drop]

theorem Lost.not_carried {n : Nat} (h : Lost s t) : ¬ Carried n s t := by
  intro hcarried
  exact absurd hcarried.length_eq (Nat.ne_of_lt h)

end

/-- What calls that come back have come to: `new` are their system calls. -/
def Settles (n : Nat) (s t : Files) (new : List Call) : Prop :=
  Carried n s t ∧ (∀ c ∈ new, c.failedWrite = false) ∨
    Lost s t ∧ ∃ c ∈ new, c.failedWrite = true

section
variable {A : Abi} {b : Build} {s t u : Files}

theorem Settles.trans {m n : Nat} {new new' : List Call} (h : Settles m s t new)
    (h' : Settles n t u new') : Settles (m + n) s u (new ++ new') := by
  obtain ⟨hcarried, hnone⟩ | ⟨hlost, c, hc, hfailed⟩ := h
  · obtain ⟨hcarried', hnone'⟩ | ⟨hlost', c, hc, hfailed⟩ := h'
    · exact .inl ⟨hcarried.trans hcarried', List.forall_mem_append.mpr ⟨hnone, hnone'⟩⟩
    · refine .inr ⟨?_, c, List.mem_append_right _ hc, hfailed⟩
      exact Nat.lt_of_lt_of_eq hlost' hcarried.length_eq
  · refine .inr ⟨?_, c, List.mem_append_left _ hc, hfailed⟩
    obtain ⟨hcarried', -⟩ | ⟨hlost', -⟩ := h'
    · exact Nat.lt_of_le_of_lt (Nat.le_of_eq hcarried'.length_eq) hlost
    · exact Nat.lt_trans hlost' hlost

theorem Files.step_settles {c : Sendfile A} (h : Files.Returns A b s c) :
    Settles c.wanted s (Files.step A b s c) (c.end A b s).log := by
  obtain ⟨hrun, hpc⟩ := h
  have hcount : c.count.toNat < A.sizes := c.count.isLt
  have htotal : c.wanted < A.sizes := Nat.lt_of_le_of_lt (Nat.mod_le _ _) hcount
  have hfits : c.wanted < 2 ^ A.offBits := Nat.mod_lt _ (Nat.two_pow_pos _)
  have hsame : A.toOff c.wanted = A.toOff c.count.toNat := by
    rw [Sendfile.wanted, Int.natCast_emod]
    exact Int.emod_bmod _ _
  have hcourse : Course A s.input c.wanted (c.end A b s) := by
    refine states_inv (fun s a h (_ : True) => h.step htotal) ?_ (fun _ => trivial) c.steps
    refine .faithful (start_copying hsame) fun c' hc' => ?_
    rw [start, outerTest_log] at hc'
    exact absurd hc' List.not_mem_nil
  cases hcourse with
  | faithful hcopy hnone =>
      obtain ⟨houtput, hinput⟩ := hcopy.carried hfits hpc
      exact .inl ⟨⟨congrArg (s.output ++ ·) houtput, hinput⟩, hnone⟩
  | lossy h =>
      have hlost := h.here
      simp only [hpc] at hlost
      refine .inr ⟨?_, h.failed⟩
      show (s.output ++ (c.end A b s).output).length + (c.end A b s).input.length < _
      rw [List.length_append]
      omega
  | astray h =>
      cases h with
      | stopped h => exact absurd hrun h
      | overflow _ hpc' _ =>
          rw [hpc] at hpc'
          cases hpc'
      | outside _ hpc' _ _ =>
          rw [hpc] at hpc'
          cases hpc'

theorem run_settles {ops : List (Sendfile A)}
    (h : Run (Files.Returns A b) (Files.step A b) s ops t) :
    ∃ new, t.calls = s.calls ++ new ∧ Settles (wanted A ops) s t new := by
  induction h with
  | nil s =>
      refine ⟨[], (List.append_nil _).symm, .inl ⟨Carried.refl s, ?_⟩⟩
      intro c hc
      exact absurd hc List.not_mem_nil
  | @cons s t c ops hreturns _ ih =>
      obtain ⟨new, hnew, hsettles⟩ := ih
      refine ⟨(c.end A b s).log ++ new, ?_, ?_⟩
      · rw [hnew, ← List.append_assoc]
        rfl
      · exact (Files.step_settles hreturns).trans hsettles

end

/-- Three bytes, copied by two calls; each `read` delivers one. -/
def twoCalls : List (Sendfile lp64) :=
  [⟨2, fun _ => (.done 1, .done 8192), 4⟩, ⟨5, fun _ => (.done 1, .done 8192), 3⟩]

def threeBytes : Files := ⟨[0x61, 0x62, 0x63], [], []⟩

/-- After the two calls. -/
def copied : Files := twoCalls.foldl (Files.step lp64 .debug) threeBytes

end LibcCompat.NonLinux
