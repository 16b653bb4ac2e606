/-
# `LibcCompat.Lib.Zoom` — programs on a part of the state

A `Lens` is a part of a state that can be read and replaced.  A program on the
part is a program on the whole: it runs on the part and leaves the rest as it
was (`zoom`).  So a run of it is a run on the part (`zoom_ok`, `zoom_eq_ok`), and
what lies beside the part is kept whatever it does (`zoom_keeps_beside`).
-/
import LibcCompat.Lib.Frame

namespace LibcCompat.Lib

variable {ε σ τ υ α β : Type}

/-- A part of type `σ` of the states `τ`. -/
structure Lens (τ σ : Type) where
  get : τ → σ
  set : σ → τ → τ
  get_set : ∀ a s, get (set a s) = a
  set_get : ∀ s, set (get s) s = s
  set_set : ∀ a b s, set a (set b s) = set a s

/-- The program, on a part of the state. -/
def zoom (l : Lens τ σ) (x : EStateM ε σ α) : EStateM ε τ α := fun s =>
  match x (l.get s) with
  | .ok a t => .ok a (l.set t s)
  | .error e t => .error e (l.set t s)

section
variable {l : Lens τ σ} {x : EStateM ε σ α} {f : α → EStateM ε σ β} {s u : τ} {t : σ} {a : α}

theorem zoom_ok (h : x (l.get s) = .ok a t) : zoom l x s = .ok a (l.set t s) := by
  rw [zoom, h]

/-- A program that returns on the whole has returned on the part. -/
theorem zoom_eq_ok (h : zoom l x s = .ok a u) :
    ∃ t, x (l.get s) = .ok a t ∧ u = l.set t s := by
  rw [zoom] at h
  cases hx : x (l.get s) with
  | ok a' t =>
      rw [hx] at h
      cases h
      exact ⟨t, rfl, rfl⟩
  | error e t =>
      rw [hx] at h
      cases h

@[simp] theorem zoom_pure (a : α) : (zoom l (pure a) : EStateM ε τ α) = pure a := by
  funext s
  show EStateM.Result.ok a (l.set (l.get s) s) = .ok a s
  rw [l.set_get]

@[simp] theorem zoom_bind : zoom l (x >>= f) = zoom l x >>= fun a => zoom l (f a) := by
  funext s
  rw [bind_apply]
  simp only [zoom, bind_apply]
  cases x (l.get s) with
  | error e t => rfl
  | ok a t =>
      dsimp only
      rw [l.get_set]
      cases f a t with
      | ok b u => exact congrArg _ (l.set_set u t s).symm
      | error e u => exact congrArg _ (l.set_set u t s).symm

@[simp] theorem zoom_ite (c : Prop) [Decidable c] (y : EStateM ε σ α) :
    zoom l (if c then x else y) = if c then zoom l x else zoom l y := by
  split
  · rfl
  · rfl

theorem zoom_keeps_beside {view : τ → υ} (h : ∀ t s, view (l.set t s) = view s) :
    Keeps view (zoom l x) := by
  intro s a u hrun
  obtain ⟨t, -, rfl⟩ := zoom_eq_ok hrun
  exact h t s

end

end LibcCompat.Lib
