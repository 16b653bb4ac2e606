/-
# `LibcCompat.Lib.Keyed` — lists whose entries have different keys

A table kept as a list, looked up by a key `f`.  While the keys differ, taking
out the first entry with a key takes out every entry with it, and an entry is
the one its key finds.
-/
import Mathlib.Data.List.Nodup

namespace LibcCompat.Lib

variable {α β : Type} [DecidableEq β] {f : α → β}

/-- With different keys, removing the first entry under `b` removes all of them. -/
theorem eraseP_eq_filter_of_nodup (b : β) : ∀ {l : List α}, (l.map f).Nodup →
    l.eraseP (f · == b) = l.filter (f · != b)
  | [], _ => rfl
  | a :: l, h => by
      rw [List.map_cons, List.nodup_cons] at h
      by_cases hab : f a = b
      · subst hab
        have hl : ∀ x ∈ l, (f x != f a) = true := by
          intro x hx
          simp only [bne_iff_ne, ne_eq]
          exact fun hxa => h.1 (hxa ▸ List.mem_map_of_mem hx)
        simp [List.filter_eq_self.mpr hl]
      · simp [hab, eraseP_eq_filter_of_nodup b h.2]

theorem find?_eq_some_of_nodup : ∀ {l : List α} {a : α}, (l.map f).Nodup → a ∈ l →
    l.find? (f · == f a) = some a
  | [], _, _, ha => absurd ha List.not_mem_nil
  | x :: l, a, h, ha => by
      rw [List.map_cons, List.nodup_cons] at h
      rcases List.mem_cons.mp ha with rfl | ha
      · simp
      · have hxa : f x ≠ f a := fun hxa => h.1 (hxa ▸ List.mem_map_of_mem ha)
        simp [hxa, find?_eq_some_of_nodup h.2 ha]

/-- Two lists that agree entry by entry under `f` and `g` still agree after
changes that respect the agreement. -/
theorem map_eq_map_of {α α' γ γ' : Type} {f : α → γ} {g : α' → γ} {f' : α → γ'} {g' : α' → γ'} :
    ∀ {l : List α} {l' : List α'}, l.map f = l'.map g →
      (∀ a ∈ l, ∀ b ∈ l', f a = g b → f' a = g' b) → l.map f' = l'.map g'
  | [], [], _, _ => rfl
  | [], _ :: _, h, _ => nomatch h
  | _ :: _, [], h, _ => nomatch h
  | a :: l, b :: l', h, hstep => by
      obtain ⟨hab, hl⟩ := List.cons.inj h
      exact congrArg₂ _ (hstep a List.mem_cons_self b List.mem_cons_self hab)
        (map_eq_map_of hl fun x hx y hy =>
          hstep x (List.mem_cons_of_mem _ hx) y (List.mem_cons_of_mem _ hy))

end LibcCompat.Lib
