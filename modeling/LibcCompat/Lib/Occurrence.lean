/-
# `LibcCompat.Lib.Occurrence` — where one list occurs in another

`OccursAt l pat p`: the list `pat` stands in `l` at position `p`.  `IsFirst` is
the specification of a search for the first such position, and determines its
result.

A search skips positions whose element is not the first one of the pattern
(`OccursAt.head`), and stops where the pattern no longer fits (`OccursAt.fits`).
-/
import Mathlib.Data.List.Basic

namespace LibcCompat.Lib

variable {α : Type}

/-- `pat` occurs in `l` at position `p`. -/
def OccursAt (l pat : List α) (p : Nat) : Prop := pat <+: l.drop p

/-- The result of a search: the least position, or nothing if there is none. -/
def IsFirst (l pat : List α) : Option Nat → Prop
  | some p => OccursAt l pat p ∧ ∀ q, q < p → ¬ OccursAt l pat q
  | none => ∀ p, ¬ OccursAt l pat p

variable {l pat : List α} {p : Nat}

theorem IsFirst.unique {r r' : Option Nat} (h : IsFirst l pat r) (h' : IsFirst l pat r') :
    r = r' := by
  cases r with
  | none =>
      cases r' with
      | none => rfl
      | some p' => exact absurd h'.1 (h p')
  | some p =>
      cases r' with
      | none => exact absurd h.1 (h' p)
      | some p' =>
          rcases Nat.lt_trichotomy p p' with hlt | rfl | hgt
          · exact absurd h.1 (h'.2 p hlt)
          · rfl
          · exact absurd h'.1 (h.2 p' hgt)

theorem OccursAt.fits (h : OccursAt l pat p) (hpat : pat ≠ []) : p + pat.length ≤ l.length := by
  have hlen := h.length_le
  have hpos := List.length_pos_iff.mpr hpat
  rw [List.length_drop] at hlen
  omega

/-- A pattern occurs where what stands there is the pattern. -/
theorem occursAt_iff : OccursAt l pat p ↔ (l.drop p).take pat.length = pat := by
  rw [OccursAt, List.prefix_iff_eq_take]
  exact eq_comm

theorem OccursAt.head (h : OccursAt l pat p) {a : α} (ha : pat[0]? = some a) :
    l[p]? = some a := by
  obtain ⟨rest, hrest⟩ := h
  cases pat with
  | nil => cases ha
  | cons b pat =>
      obtain rfl := Option.some.inj ha
      rw [← List.head?_drop, ← hrest]
      rfl

/-! ## One element -/

/-- The result of a search for an element among the `n` from `start` on. -/
def IsFirstElem (l : List α) (start : Nat) (a : α) (n : Nat) : Option Nat → Prop
  | some t => start ≤ t ∧ t < start + n ∧ ∀ q, start ≤ q → q < t → l[q]? ≠ some a
  | none => ∀ q, start ≤ q → q < start + n → l[q]? ≠ some a

theorem isFirstElem_findIdx? [DecidableEq α] {l : List α} {start n : Nat} (a : α)
    (h : start + n ≤ l.length) : IsFirstElem l start a n
      ((((l.drop start).take n).findIdx? (· == a)).map (start + ·)) := by
  have hlen : ((l.drop start).take n).length = n := by
    rw [List.length_take, List.length_drop]
    omega
  have hget : ∀ i (hi : i < ((l.drop start).take n).length),
      l[start + i]? = some ((l.drop start).take n)[i] := by
    intro i hi
    rw [List.getElem_take, List.getElem_drop]
    exact List.getElem?_eq_getElem _
  cases hfind : ((l.drop start).take n).findIdx? (· == a) with
  | none =>
      intro q hq hqn hqa
      rw [List.findIdx?_eq_none_iff] at hfind
      have hi : q - start < ((l.drop start).take n).length := by omega
      have hne := hfind _ (List.getElem_mem hi)
      have hsome := hget (q - start) hi
      rw [Nat.add_sub_cancel' hq, hqa] at hsome
      exact (beq_eq_false_iff_ne.mp hne) (Option.some.inj hsome).symm
  | some i =>
      obtain ⟨hi, -, hbefore⟩ := List.findIdx?_eq_some_iff_getElem.mp hfind
      have hbound : start + i < start + n := by omega
      refine ⟨Nat.le_add_right start i, hbound, ?_⟩
      intro q hq hqi hqa
      have hqi : q < start + i := hqi
      have hlt : q - start < i := by omega
      have hne := hbefore (q - start) hlt
      have hsome := hget (q - start) (Nat.lt_trans hlt hi)
      rw [Nat.add_sub_cancel' hq, hqa] at hsome
      exact hne (beq_iff_eq.mpr (Option.some.inj hsome).symm)

end LibcCompat.Lib
