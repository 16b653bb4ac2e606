/-
# `LibcCompat.Lib.Frame` — what a program leaves of a part of the state

A `view` is a part of the state.  A program `Keeps` it if the part is the same
whenever the program returns.  Where the parts are ordered, a program `Adds` to
it on a condition: what was there is still there, and the part is the same
exactly if the condition fails.  Both have rules for the ways to build a
program, so that the condition of a program comes out of those of its pieces
(`Adds.bind`).

The order in use is that of tables: one has all entries of the other
(`Extends`).
-/
import LibcCompat.Lib.Recorded
import Mathlib.Logic.Function.Basic
import Mathlib.Order.Defs.PartialOrder

namespace LibcCompat.Lib

variable {ε σ τ υ α β : Type}

/-- Whenever the program returns, it has left the view as it was. -/
def Keeps (view : σ → τ) (x : EStateM ε σ α) : Prop :=
  ∀ s a t, x s = .ok a t → view t = view s

/-- The program returns, and where it does the test succeeds. -/
def after (x : EStateM ε σ α) (test : α → σ → Bool) (s : σ) : Bool :=
  match x s with
  | .ok a t => test a t
  | .error _ _ => false

theorem bind_ok {x : EStateM ε σ α} {f : α → EStateM ε σ β} {s u : σ} {b : β}
    (h : (x >>= f) s = .ok b u) : ∃ a t, x s = .ok a t ∧ f a t = .ok b u := by
  rw [bind_apply] at h
  cases hx : x s with
  | ok a t =>
      rw [hx] at h
      exact ⟨a, t, rfl, h⟩
  | error e t =>
      rw [hx] at h
      cases h

theorem after_iff {x : EStateM ε σ α} {test : α → σ → Bool} {s : σ} :
    after x test s = true ↔ ∃ a t, x s = .ok a t ∧ test a t = true := by
  unfold after
  cases x s with
  | ok a t => exact ⟨fun h => ⟨a, t, rfl, h⟩, fun ⟨_, _, heq, h⟩ => by cases heq; exact h⟩
  | error e t => exact ⟨fun h => Bool.noConfusion h, fun ⟨_, _, heq, _⟩ => by cases heq⟩

theorem after_of_ok {x : EStateM ε σ α} {test : α → σ → Bool} {s t : σ} {a : α}
    (h : x s = .ok a t) : after x test s = test a t := by
  rw [after, h]

/-! ## Keeping a view -/

section
variable {view : σ → τ}

theorem Keeps.pure (a : α) : Keeps view (pure a : EStateM ε σ α) := by
  intro s a t h
  cases h
  rfl

theorem Keeps.throw (e : ε) : Keeps view (throw e : EStateM ε σ α) := by
  intro s a t h
  cases h

theorem Keeps.modify {f : σ → σ} (hf : ∀ s, view (f s) = view s) :
    Keeps view (modify f : EStateM ε σ PUnit) := by
  intro s a t h
  cases h
  exact hf s

theorem Keeps.bind {x : EStateM ε σ α} {f : α → EStateM ε σ β} (hx : Keeps view x)
    (hf : ∀ a, Keeps view (f a)) : Keeps view (x >>= f) := by
  intro s b u h
  obtain ⟨a, t, h₁, h₂⟩ := bind_ok h
  exact (hf a t b u h₂).trans (hx s a t h₁)

theorem keeps_modify_pure {f : σ → σ} (hf : ∀ s, view (f s) = view s) (a : α) :
    Keeps view (do modify f; return a : EStateM ε σ α) :=
  Keeps.bind (Keeps.modify hf) fun _ => Keeps.pure a

theorem Keeps.ite {c : Prop} [Decidable c] {x y : EStateM ε σ α} (hx : Keeps view x)
    (hy : Keeps view y) : Keeps view (if c then x else y) := by
  split
  · exact hx
  · exact hy

/-- What keeps a view keeps every part of it. -/
theorem Keeps.comp {x : EStateM ε σ α} (hx : Keeps view x) (g : τ → υ) :
    Keeps (fun s => g (view s)) x := by
  intro s a t h
  exact congrArg g (hx s a t h)

end

/-! ## Adding to a view -/

/-- The program leaves all that was there, and exactly if `more` fails, nothing
else. -/
structure Adds [PartialOrder τ] (view : σ → τ) (x : EStateM ε σ α) (more : σ → Bool) : Prop where
  le : ∀ s a t, x s = .ok a t → view s ≤ view t
  same_iff : ∀ s a t, x s = .ok a t → (view t = view s ↔ more s = false)

section
variable [PartialOrder τ] {view : σ → τ} {x : EStateM ε σ α} {f : α → EStateM ε σ β}
  {more : σ → Bool}

theorem Adds.of_cases (hkeep : ∀ s a t, more s = false → x s = .ok a t → view t = view s)
    (hadd : ∀ s a t, more s = true → x s = .ok a t → view s < view t) : Adds view x more where
  le := by
    intro s a t h
    cases hmore : more s with
    | false => exact le_of_eq (hkeep s a t hmore h).symm
    | true => exact le_of_lt (hadd s a t hmore h)
  same_iff := by
    intro s a t h
    cases hmore : more s with
    | false => exact iff_of_true (hkeep s a t hmore h) rfl
    | true => exact iff_of_false (ne_of_gt (hadd s a t hmore h)) Bool.noConfusion

theorem Adds.of_keeps (hx : Keeps view x) : Adds view x fun _ => false where
  le s a t h := le_of_eq (hx s a t h).symm
  same_iff s a t h := iff_of_true (hx s a t h) rfl

/-- One program after the other adds something if one of them does. -/
theorem Adds.bind {next : α → σ → Bool} (hx : Adds view x more)
    (hf : ∀ a, Adds view (f a) (next a)) :
    Adds view (x >>= f) fun s => more s || after x next s where
  le := by
    intro s b u h
    obtain ⟨a, t, h₁, h₂⟩ := bind_ok h
    exact le_trans (hx.le s a t h₁) ((hf a).le t b u h₂)
  same_iff := by
    intro s b u h
    obtain ⟨a, t, h₁, h₂⟩ := bind_ok h
    rw [Bool.or_eq_false_iff, after_of_ok h₁, ← hx.same_iff s a t h₁,
      ← (hf a).same_iff t b u h₂]
    constructor
    · intro hsame
      -- nothing that the first part added can have gone
      have hfirst : view t = view s :=
        le_antisymm (hsame ▸ (hf a).le t b u h₂) (hx.le s a t h₁)
      exact ⟨hfirst, hsame.trans hfirst.symm⟩
    · rintro ⟨hfirst, hsecond⟩
      exact hsecond.trans hfirst

theorem Adds.bind_keeps (hx : Adds view x more) (hf : ∀ a, Keeps view (f a)) :
    Adds view (x >>= f) more where
  le := by
    intro s b u h
    obtain ⟨a, t, h₁, h₂⟩ := bind_ok h
    exact le_trans (hx.le s a t h₁) (le_of_eq (hf a t b u h₂).symm)
  same_iff := by
    intro s b u h
    obtain ⟨a, t, h₁, h₂⟩ := bind_ok h
    rw [hf a t b u h₂]
    exact hx.same_iff s a t h₁

theorem Adds.keeps_bind {next : α → σ → Bool} (hx : Keeps view x)
    (hf : ∀ a, Adds view (f a) (next a)) : Adds view (x >>= f) (after x next) where
  le := by
    intro s b u h
    obtain ⟨a, t, h₁, h₂⟩ := bind_ok h
    exact le_trans (le_of_eq (hx s a t h₁).symm) ((hf a).le t b u h₂)
  same_iff := by
    intro s b u h
    obtain ⟨a, t, h₁, h₂⟩ := bind_ok h
    rw [← hx s a t h₁, after_of_ok h₁]
    exact (hf a).same_iff t b u h₂

end

/-! ## Tables -/

section
variable {κ ν : Type}

/-- The second table has all entries of the first. -/
def Extends (f g : κ → Option ν) : Prop := ∀ k v, f k = some v → g k = some v

theorem Extends.refl (f : κ → Option ν) : Extends f f := by
  intro k v h
  exact h

theorem Extends.trans {f g h : κ → Option ν} (hfg : Extends f g) (hgh : Extends g h) :
    Extends f h := by
  intro k v hk
  exact hgh k v (hfg k v hk)

theorem Extends.antisymm {f g : κ → Option ν} (hfg : Extends f g) (hgf : Extends g f) : f = g := by
  funext k
  cases hf : f k with
  | some v => exact (hfg k v hf).symm
  | none =>
      cases hg : g k with
      | some v => exact absurd (hgf k v hg) (by simp [hf])
      | none => rfl

variable [DecidableEq κ]

theorem Extends.update {f : κ → Option ν} {k : κ} (hfree : f k = none) (v : ν) :
    Extends f (Function.update f k (some v)) := by
  intro k' v' h
  have hne : k' ≠ k := by
    rintro rfl
    rw [hfree] at h
    cases h
  rw [Function.update_of_ne hne]
  exact h

theorem Extends.remove {f g : κ → Option ν} {k : κ} (hfg : Extends f g) (hfree : f k = none) :
    Extends f (Function.update g k none) := by
  intro k' v' h
  have hne : k' ≠ k := by
    rintro rfl
    rw [hfree] at h
    cases h
  rw [Function.update_of_ne hne]
  exact hfg k' v' h

theorem Extends.of_remove (g : κ → Option ν) (k : κ) : Extends (Function.update g k none) g := by
  intro k' v' h
  have hne : k' ≠ k := by
    rintro rfl
    rw [Function.update_self] at h
    cases h
  rwa [Function.update_of_ne hne] at h

/-- A table that loses an entry becomes the one the entry was new in. -/
theorem remove_eq_iff {f g : κ → Option ν} {k : κ} {v : ν} (hfree : f k = none)
    (hentry : g k = some v) :
    Function.update g k none = f ↔ g = Function.update f k (some v) := by
  constructor
  · rintro rfl
    rw [Function.update_idem, ← hentry, Function.update_eq_self]
  · rintro rfl
    rw [Function.update_idem, ← hfree, Function.update_eq_self]

theorem update_remove {f : κ → Option ν} {k : κ} (hfree : f k = none) (v : Option ν) :
    Function.update (Function.update f k v) k none = f := by
  rw [Function.update_idem, ← hfree, Function.update_eq_self]

end

end LibcCompat.Lib
