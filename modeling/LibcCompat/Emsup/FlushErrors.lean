/-
# `LibcCompat.Emsup.FlushErrors` — whether `fclose` reports a failed flush

`fclose` writes out what the stream has buffered, and fails if that fails.
`__wrap_fclose` leaves the work to it, unless the descriptor of the stream has a
mapping: then it flushes, drops the result, and returns 0.

What is proved (`fclose_reportsFlush`): a failed flush is reported exactly if the
close is not delayed.
-/
import LibcCompat.Emsup.MmapHack

namespace LibcCompat.Emsup

/-- What the C library answers about a stream.  `fclose` flushes, so it fails
where `fflush` does. -/
structure Stdio where
  flush : Int
  close : Int
  flush_fails : flush = EOF → close = EOF

/-- The stream has a descriptor, and an entry of the list carries it. -/
def DelaysStream (s : State) (stream : Option FilePtr) : Prop :=
  ∃ fp st, stream = some fp ∧ s.world.streams fp = some st ∧ 0 ≤ st.fileno ∧
    ∃ i ∈ s.maps, i.fd = st.fileno

section
variable {s : State} {stream : Option FilePtr} {fp : FilePtr} {st : Stream} {flush res : Int}

theorem wrapFclose_delayed (h : DelaysStream s stream) :
    (wrapFclose s stream flush res).1 = 0 := by
  obtain ⟨fp, st, rfl, hst, hfd, i, hi, hentry⟩ := h
  simp only [wrapFclose, hst, if_neg (Int.not_lt.mpr hfd)]
  split
  · rfl
  · next hnone => exact absurd hentry (markByFd_eq_none.mp hnone i hi)

theorem wrapFclose_direct (hst : s.world.streams fp = some st)
    (h : ¬ DelaysStream s (some fp)) :
    wrapFclose s (some fp) flush res = (res, realFclose s (some fp) res) := by
  by_cases hfd : st.fileno < 0
  · simp only [wrapFclose, hst, if_pos hfd]
  · have hno : ∀ i ∈ s.maps, i.fd ≠ st.fileno := by
      intro i hi hentry
      exact h ⟨fp, st, rfl, hst, Int.not_lt.mp hfd, i, hi, hentry⟩
    simp only [wrapFclose, hst, if_neg hfd, markByFd_eq_none.mpr hno]

end

/-- **Write errors.**  Where the flush fails, `fclose` returns `EOF` exactly if
it is not delayed. -/
theorem fclose_reportsFlush {s : State} {stream : Option FilePtr} {a : Stdio}
    (hfails : a.flush = EOF) :
    (wrapFclose s stream a.flush a.close).1 = EOF ↔ ¬ DelaysStream s stream := by
  constructor
  · intro heof hdelays
    rw [wrapFclose_delayed hdelays] at heof
    cases heof
  · intro hprompt
    cases stream with
    | none => rfl
    | some fp =>
        cases hst : s.world.streams fp with
        | none => simp only [wrapFclose, hst]
        | some st =>
            rw [wrapFclose_direct hst hprompt]
            exact a.flush_fails hfails

/-- The disk is full. -/
def diskFull : Stdio := ⟨EOF, EOF, fun _ => rfl⟩

/-- Stream 1 is on descriptor 3, which has a mapping; stream 2 is on descriptor 4,
which has none. -/
def twoStreams : State :=
  [.openFd 3, .openFd 4, .openStream 1 3, .openStream 2 4,
    .mmap 0 4096 PROT_WRITE MAP_SHARED 3 0 (some 0x10000) true].foldl (step .debug) init

theorem fclose_reportsFlush_twoStreams :
    (wrapFclose twoStreams (some 2) diskFull.flush diskFull.close).1 = EOF := by
  refine (fclose_reportsFlush (a := diskFull) rfl).mpr ?_
  rintro ⟨fp, st, hfp, hst, -, i, hi, hfd⟩
  cases hfp
  cases hst
  have hthree : ∀ i ∈ twoStreams.maps, i.fd = 3 := by decide
  rw [hthree i hi] at hfd
  exact absurd hfd (by decide)

/-- The first stream is closed without the error, the second with it. -/
theorem mapped_fclose_succeeds :
    diskFull.flush = EOF ∧
      (wrapFclose twoStreams (some 1) diskFull.flush diskFull.close).1 = 0 ∧
      (wrapFclose twoStreams (some 2) diskFull.flush diskFull.close).1 = EOF :=
  ⟨rfl, by decide, by decide⟩

end LibcCompat.Emsup
