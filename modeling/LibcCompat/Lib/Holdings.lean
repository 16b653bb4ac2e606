/-
# `LibcCompat.Lib.Holdings` — what has been added to a table

A table that several parties use, as a function to `Option`.  `Holds base f mine`
says that `f` is `base` with an entry for each of the keys `mine`, which were
free in `base`.  Binding a free key adds to `mine`, unbinding one of `mine` takes
from it, and nothing else is touched; when all are unbound, the table is `base`
again.
-/
import LibcCompat.Lib.Frame

namespace LibcCompat.Lib

variable {κ ν : Type} {base f : κ → Option ν} {mine mine' : κ → Prop} {k : κ}

structure Holds (base f : κ → Option ν) (mine : κ → Prop) : Prop where
  free : ∀ k, mine k → base k = none
  bound : ∀ k, mine k → (f k).isSome
  rest : ∀ k, ¬ mine k → f k = base k

namespace Holds

theorem refl (f : κ → Option ν) : Holds f f fun _ => False :=
  ⟨fun _ h => h.elim, fun _ h => h.elim, fun _ _ => rfl⟩

theorem congr (h : Holds base f mine) (hiff : ∀ k, mine' k ↔ mine k) : Holds base f mine' :=
  ⟨fun k hk => h.free k ((hiff k).mp hk), fun k hk => h.bound k ((hiff k).mp hk),
    fun k hk => h.rest k fun hm => hk ((hiff k).mpr hm)⟩

theorem not_mine (h : Holds base f mine) (hfree : f k = none) : ¬ mine k := by
  intro hk
  have hbound := h.bound k hk
  rw [hfree] at hbound
  cases hbound

/-- When all is given back, the table is what it was. -/
theorem eq_base (h : Holds base f mine) (hnone : ∀ k, ¬ mine k) : f = base :=
  funext fun k => h.rest k (hnone k)

theorem extends_base (h : Holds base f mine) : Extends base f := by
  intro k v hk
  have hmine : ¬ mine k := by
    intro hm
    rw [h.free k hm] at hk
    cases hk
  rw [h.rest k hmine, hk]

variable [DecidableEq κ]

theorem acquire (h : Holds base f mine) (hfree : f k = none) (v : ν)
    (hiff : ∀ x, mine' x ↔ x = k ∨ mine x) : Holds base (Function.update f k (some v)) mine' where
  free x hx := by
    rcases (hiff x).mp hx with rfl | hx
    · exact (h.rest x (h.not_mine hfree)).symm.trans hfree
    · exact h.free x hx
  bound x hx := by
    by_cases hxk : x = k
    · rw [hxk, Function.update_self]
      rfl
    · rw [Function.update_of_ne hxk]
      exact h.bound x (((hiff x).mp hx).resolve_left hxk)
  rest x hx := by
    have hxk : x ≠ k := fun hxk => hx ((hiff x).mpr (.inl hxk))
    rw [Function.update_of_ne hxk]
    exact h.rest x fun hm => hx ((hiff x).mpr (.inr hm))

theorem release (h : Holds base f mine) (hk : mine k) (hiff : ∀ x, mine' x ↔ x ≠ k ∧ mine x) :
    Holds base (Function.update f k none) mine' where
  free x hx := h.free x ((hiff x).mp hx).2
  bound x hx := by
    rw [Function.update_of_ne ((hiff x).mp hx).1]
    exact h.bound x ((hiff x).mp hx).2
  rest x hx := by
    by_cases hxk : x = k
    · rw [hxk, Function.update_self, h.free k hk]
    · rw [Function.update_of_ne hxk]
      exact h.rest x fun hm => hx ((hiff x).mpr ⟨hxk, hm⟩)

end Holds

end LibcCompat.Lib
