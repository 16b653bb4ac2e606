/-
# `LibcCompat.Winsup.Str` — `memmem` of `winsup/str.c`

## The model

The lengths and the index are `int`; an expression of that type that overflows
is undefined, and so is a range handed to `memchr` or `memcmp` that leaves the
bytes there are.  The loop has no bound of its own, so it is given one, `fuel`;
when that runs out the call hangs.

## What is proved

For lengths from 1 to `INT_MAX` the call returns the first position at which the
needle occurs in the haystack, or nothing if there is none (`memmem_first`): so
the loop ends, nothing overflows and every range is inside.

The invariant is that the needle does not occur before `ndx`.  `memchr` jumps
over positions with another first byte, and `searchlen` is the number of
positions where the needle still fits, which is what keeps `memcmp` inside.
-/
import LibcCompat.Base
import LibcCompat.Lib.Occurrence
import Mathlib.Algebra.Group.Int.Defs
import Mathlib.Algebra.Group.Nat.Defs

namespace LibcCompat.Winsup

open LibcCompat.Lib

def INT_MAX : Nat := 2 ^ 31 - 1

/-- The value of an expression of type `int`. -/
def int (x : Int) : Except Stop Int :=
  if -INT_MAX - 1 ≤ x ∧ x ≤ INT_MAX then .ok x else .error .undefined

/-- `memchr(&mem[start], c, n)`: the index in `mem` of the byte found. -/
def memchr (mem : List UInt8) (start : Nat) (c : UInt8) (n : Int) :
    Except Stop (Option Nat) :=
  if 0 ≤ n ∧ start + n ≤ mem.length then
    .ok ((((mem.drop start).take n.toNat).findIdx? (· == c)).map (start + ·))
  else .error .undefined

/-- `memcmp(&mem[start], other, n) == 0`. -/
def memcmpEq (mem : List UInt8) (start : Nat) (other : List UInt8) (n : Int) :
    Except Stop Bool :=
  if 0 ≤ n ∧ start + n ≤ mem.length ∧ n ≤ other.length then
    .ok ((mem.drop start).take n.toNat == other.take n.toNat)
  else .error .undefined

/-- `*p`, for a pointer to the first of some bytes. -/
def deref (mem : List UInt8) : Except Stop UInt8 :=
  match mem[0]? with
  | some c => .ok c
  | none => .error .undefined

/-- The loop of `memmem`, with `ndx` at the start of its body. -/
def memmemLoop (csrc ctrg : List UInt8) (haystacklen needlelen : Int) :
    (fuel : Nat) → (ndx : Int) → Except Stop (Option Nat)
  | 0, _ => .error .hung
  | fuel + 1, ndx =>
      if ndx ≤ haystacklen then do
        let searchlen ← int (haystacklen - ndx)
        let searchlen ← int (searchlen - needlelen)
        let searchlen ← int (searchlen + 1)
        if searchlen ≤ 0 then return none
        else
          let c ← deref ctrg
          match ← memchr csrc ndx.toNat c searchlen with
          | none => return none
          | some tptr =>
              if ← memcmpEq csrc tptr ctrg needlelen then return some tptr
              else
                let ndx ← int (ndx + (tptr - ndx + 1))
                memmemLoop csrc ctrg haystacklen needlelen fuel ndx
      else return none

/-- `memmem`; a null pointer is `none`, and the result is an index in the haystack. -/
def memmem (fuel : Nat) (haystack : Option (List UInt8)) (haystacklen : Int)
    (needle : Option (List UInt8)) (needlelen : Int) : Except Stop (Option Nat) :=
  match haystack, needle with
  | some csrc, some ctrg =>
      if haystacklen = 0 ∨ needlelen = 0 then return none
      else memmemLoop csrc ctrg haystacklen needlelen fuel 0
  | _, _ => return none

/-! ## One round -/

theorem int_of_bounds {x : Int} (h : -INT_MAX - 1 ≤ x) (h' : x ≤ INT_MAX) : int x = .ok x :=
  if_pos ⟨h, h'⟩

theorem memchr_first {mem : List UInt8} {start n : Nat} (c : UInt8)
    (h : start + n ≤ mem.length) :
    ∃ r, memchr mem start c n = .ok r ∧ IsFirstElem mem start c n r := by
  refine ⟨_, if_pos ⟨Int.natCast_nonneg n, by omega⟩, ?_⟩
  rw [Int.toNat_natCast]
  exact isFirstElem_findIdx? c h

variable {hay needle : List UInt8}

theorem memcmpEq_eq {p : Nat} (h : p + needle.length ≤ hay.length) :
    ∃ r, memcmpEq hay p needle needle.length = .ok r ∧ (r = true ↔ OccursAt hay needle p) := by
  refine ⟨_, if_pos ⟨Int.natCast_nonneg _, by omega, Int.le_refl _⟩, ?_⟩
  rw [Int.toNat_natCast, List.take_length, beq_iff_eq]
  exact occursAt_iff.symm

theorem searchlen_eq {ndx : Nat} (hhay : hay.length ≤ INT_MAX) (hneedle : needle.length ≤ INT_MAX)
    (hpos : 1 ≤ needle.length) (hndx : ndx ≤ hay.length) :
    int (hay.length - ndx) = .ok (hay.length - ndx) ∧
    int ((hay.length : Int) - ndx - needle.length) = .ok (hay.length - ndx - needle.length) ∧
    int ((hay.length : Int) - ndx - needle.length + 1) =
      .ok (hay.length - ndx - needle.length + 1) :=
  ⟨int_of_bounds (by omega) (by omega), int_of_bounds (by omega) (by omega),
    int_of_bounds (by omega) (by omega)⟩

theorem memmemLoop_short (hhay : hay.length ≤ INT_MAX) (hneedle : needle.length ≤ INT_MAX)
    (hpos : 1 ≤ needle.length) {ndx : Nat} (hndx : ndx ≤ hay.length)
    (hshort : hay.length < ndx + needle.length) (fuel : Nat) :
    memmemLoop hay needle hay.length needle.length (fuel + 1) ndx = .ok none := by
  obtain ⟨h₁, h₂, h₃⟩ := searchlen_eq hhay hneedle hpos hndx
  have hle : (ndx : Int) ≤ hay.length := Int.ofNat_le.mpr hndx
  have hstop : (hay.length : Int) - ndx - needle.length + 1 ≤ 0 := by omega
  simp only [memmemLoop, if_pos hle, h₁, h₂, h₃, bind, Except.bind, if_pos hstop]
  rfl

theorem memmemLoop_fits (hhay : hay.length ≤ INT_MAX) (hneedle : needle.length ≤ INT_MAX)
    {c : UInt8} (hc : needle[0]? = some c) {ndx : Nat} (hfits : ndx + needle.length ≤ hay.length) :
    ∃ r, IsFirstElem hay ndx c (hay.length - ndx - needle.length + 1) r ∧ ∀ fuel,
      memmemLoop hay needle hay.length needle.length (fuel + 1) ndx = (do
        match r with
        | none => return none
        | some t =>
            if ← memcmpEq hay t needle needle.length then return some t
            else
              let ndx ← int (ndx + (t - ndx + 1))
              memmemLoop hay needle hay.length needle.length fuel ndx) := by
  have hpos : 1 ≤ needle.length := (List.getElem?_eq_some_iff.mp hc).1
  obtain ⟨h₁, h₂, h₃⟩ := searchlen_eq hhay hneedle hpos (by omega : ndx ≤ hay.length)
  have hle : (ndx : Int) ≤ hay.length := by omega
  have hderef : deref needle = .ok c := by rw [deref, hc]
  have hn : (hay.length : Int) - ndx - needle.length + 1 =
      (hay.length - ndx - needle.length + 1 : Nat) := by omega
  have hgo : ¬ ((hay.length - ndx - needle.length + 1 : Nat) : Int) ≤ 0 := by omega
  have hroom : ndx + (hay.length - ndx - needle.length + 1) ≤ hay.length := by omega
  obtain ⟨r, hr, hfirst⟩ := memchr_first c hroom
  refine ⟨r, hfirst, fun fuel => ?_⟩
  rw [hn] at h₃
  simp only [memmemLoop, if_pos hle, h₁, h₂, hn, h₃, bind, Except.bind, if_neg hgo, hderef,
    Int.toNat_natCast, hr]

/-- The loop, if the needle does not occur before `ndx`. -/
theorem memmemLoop_first (hhay : hay.length ≤ INT_MAX) (hneedle : needle.length ≤ INT_MAX)
    (hpos : 1 ≤ needle.length) {fuel ndx : Nat} (hndx : ndx ≤ hay.length)
    (hfuel : hay.length - ndx < fuel) (hbefore : ∀ q, q < ndx → ¬ OccursAt hay needle q) :
    ∃ r, memmemLoop hay needle hay.length needle.length fuel ndx = .ok r ∧
      IsFirst hay needle r := by
  have hne : needle ≠ [] := List.ne_nil_of_length_pos hpos
  have hc : needle[0]? = some needle[0] := List.getElem?_eq_getElem hpos
  induction fuel generalizing ndx with
  | zero => exact absurd hfuel (Nat.not_lt_zero _)
  | succ fuel ih =>
      rcases Nat.lt_or_ge hay.length (ndx + needle.length) with hshort | hfits
      · refine ⟨none, memmemLoop_short hhay hneedle hpos hndx hshort fuel, fun p hp => ?_⟩
        have := hp.fits hne
        exact hbefore p (by omega) hp
      · obtain ⟨r, hfirst, hloop⟩ := memmemLoop_fits hhay hneedle hc hfits
        rw [hloop]
        cases r with
        | none =>
            refine ⟨none, rfl, fun p hp => ?_⟩
            have := hp.fits hne
            rcases Nat.lt_or_ge p ndx with hlt | hge
            · exact hbefore p hlt hp
            · exact hfirst p hge (by omega) (hp.head hc)
        | some t =>
            obtain ⟨hge, hlt, hskip⟩ := hfirst
            have hinside : t + needle.length ≤ hay.length := by omega
            obtain ⟨eq, hcmp, hiff⟩ := memcmpEq_eq hinside
            have hbefore' : ∀ q, q < t → ¬ OccursAt hay needle q := by
              intro q hq hocc
              rcases Nat.lt_or_ge q ndx with hlt | hge
              · exact hbefore q hlt hocc
              · exact hskip q hge hq (hocc.head hc)
            simp only [hcmp, bind, Except.bind]
            cases eq with
            | true => exact ⟨some t, rfl, hiff.mp rfl, hbefore'⟩
            | false =>
                -- the next round starts after the position just refuted
                have hnext : (ndx : Int) + (t - ndx + 1) = (t + 1 : Nat) := by omega
                have hint : int ((t + 1 : Nat) : Int) = .ok (t + 1 : Nat) :=
                  int_of_bounds (by omega) (by omega)
                have hmiss : ∀ q, q < t + 1 → ¬ OccursAt hay needle q := by
                  intro q hq hocc
                  rcases Nat.lt_or_eq_of_le (Nat.le_of_lt_succ hq) with hlt | rfl
                  · exact hbefore' q hlt hocc
                  · exact Bool.noConfusion (hiff.mpr hocc)
                simp only [Bool.false_eq_true, if_false, hnext, hint]
                exact ih (by omega) (by omega) hmiss

/-- **`memmem` finds the first occurrence.**  It returns with the least position at
which the needle occurs, or with none if there is none, as soon as the loop may
go round once more than the haystack has bytes. -/
theorem memmem_first (hhay : 1 ≤ hay.length ∧ hay.length ≤ INT_MAX)
    (hneedle : 1 ≤ needle.length ∧ needle.length ≤ INT_MAX) :
    ∃ r, IsFirst hay needle r ∧ ∀ fuel, hay.length < fuel →
      memmem fuel (some hay) hay.length (some needle) needle.length = .ok r := by
  have hnone : ∀ q, q < 0 → ¬ OccursAt hay needle q := fun q hq => absurd hq (Nat.not_lt_zero q)
  have hlens : ¬ ((hay.length : Int) = 0 ∨ (needle.length : Int) = 0) := by omega
  have hloop : ∀ fuel, hay.length < fuel →
      ∃ r, memmem fuel (some hay) hay.length (some needle) needle.length = .ok r ∧
        IsFirst hay needle r := by
    intro fuel hfuel
    simp only [memmem, if_neg hlens]
    exact memmemLoop_first hhay.2 hneedle.2 hneedle.1 (Nat.zero_le _) (by omega) hnone
  obtain ⟨r, -, hfirst⟩ := hloop (hay.length + 1) (Nat.lt_succ_self _)
  refine ⟨r, hfirst, fun fuel hfuel => ?_⟩
  obtain ⟨r', hr', hfirst'⟩ := hloop fuel hfuel
  rw [hr', hfirst'.unique hfirst]

/-- A haystack with the first bytes of the needle twice before the needle. -/
def repeatedHay : List UInt8 := [1, 1, 2, 1, 1, 2, 3]
def repeatedNeedle : List UInt8 := [1, 1, 2, 3]

example : memmem 8 (some repeatedHay) 7 (some repeatedNeedle) 4 = .ok (some 3) := by decide

theorem memmem_first_repeated : ∃ r, IsFirst repeatedHay repeatedNeedle r ∧
    memmem 8 (some repeatedHay) 7 (some repeatedNeedle) 4 = .ok r := by
  have hfound : ∃ r, IsFirst repeatedHay repeatedNeedle r ∧ ∀ fuel, repeatedHay.length < fuel →
      memmem fuel (some repeatedHay) 7 (some repeatedNeedle) 4 = .ok r :=
    memmem_first (by decide) (by decide)
  obtain ⟨r, hfirst, hall⟩ := hfound
  exact ⟨r, hfirst, hall 8 (by decide)⟩

end LibcCompat.Winsup
