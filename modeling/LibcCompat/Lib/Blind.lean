/-
# `LibcCompat.Lib.Blind` — programs that do not read a part of the state

A `view` has the rest of the state.  A program is `Blind` if two runs from
states with the same view end alike: with the same value in states with the same
view, or with the same error.  For some of the values it returns it `sets` the
part it does not read: the two states it ends in are then equal, whatever the
part was before.

A bind needs to look at its second half only for the values of the first that do
not set the part (`Blind.bind`): from equal states all programs end alike.
-/
import LibcCompat.Lib.Recorded

namespace LibcCompat.Lib

variable {ε σ τ α β : Type}

/-- Two runs that end alike. -/
inductive EndAlike (view : σ → τ) (sets : α → Prop) :
    EStateM.Result ε σ α → EStateM.Result ε σ α → Prop
  | ok {a : α} {t u : σ} : view t = view u → (sets a → t = u) →
      EndAlike view sets (.ok a t) (.ok a u)
  | error {e : ε} {t u : σ} : EndAlike view sets (.error e t) (.error e u)

/-- Two runs from states with the same view end alike. -/
def Blind (view : σ → τ) (sets : α → Prop) (x : EStateM ε σ α) : Prop :=
  ∀ s t, view s = view t → EndAlike view sets (x s) (x t)

/-- No value. -/
abbrev never : α → Prop := fun _ => False

section
variable {view : σ → τ} {sets P : α → Prop} {Q : β → Prop}

theorem EndAlike.refl : ∀ r : EStateM.Result ε σ α, EndAlike view sets r r
  | .ok _ _ => .ok rfl fun _ => rfl
  | .error _ _ => .error

theorem EndAlike.mono {r r' : EStateM.Result ε σ α} (h : EndAlike view P r r')
    (hle : ∀ a, sets a → P a) : EndAlike view sets r r' := by
  cases h with
  | ok hview hset => exact .ok hview fun ha => hset (hle _ ha)
  | error => exact .error

theorem Blind.ok {x : EStateM ε σ α} (hx : Blind view sets x) {s t u : σ} {a : α}
    (hview : view s = view t) (h : x s = .ok a u) :
    ∃ v, x t = .ok a v ∧ view u = view v ∧ (sets a → u = v) := by
  have hend := hx s t hview
  rw [h] at hend
  cases hr : x t with
  | ok b v =>
      rw [hr] at hend
      cases hend with
      | ok hview hset => exact ⟨v, rfl, hview, hset⟩
  | error e v =>
      rw [hr] at hend
      cases hend

theorem Blind.mono {x : EStateM ε σ α} (hx : Blind view P x) (hle : ∀ a, sets a → P a) :
    Blind view sets x := by
  intro s t h
  exact (hx s t h).mono hle

theorem Blind.pure {a : α} (ha : ¬ sets a) : Blind view sets (pure a : EStateM ε σ α) := by
  intro s t h
  exact .ok h fun hset => absurd hset ha

theorem Blind.throw (e : ε) : Blind view sets (throw e : EStateM ε σ α) := by
  intro s t h
  exact .error

theorem Blind.overwrite {f : σ → σ} {sets : PUnit → Prop}
    (hf : ∀ s t, view s = view t → f s = f t) :
    Blind view sets (modify f : EStateM ε σ PUnit) := by
  intro s t h
  exact .ok (congrArg view (hf s t h)) fun _ => hf s t h

theorem Blind.modify {f : σ → σ} (hf : ∀ s t, view s = view t → view (f s) = view (f t)) :
    Blind view never (modify f : EStateM ε σ PUnit) := by
  intro s t h
  exact .ok (hf s t h) False.elim

theorem Blind.bind {x : EStateM ε σ α} {f : α → EStateM ε σ β} (hx : Blind view P x)
    (hf : ∀ a, ¬ P a → Blind view Q (f a)) : Blind view Q (x >>= f) := by
  intro s t h
  have hend := hx s t h
  rw [bind_apply, bind_apply]
  generalize x s = r at hend
  generalize x t = r' at hend
  cases hend with
  | @ok a u v hview hset =>
      by_cases ha : P a
      · obtain rfl := hset ha
        exact .refl _
      · exact hf a ha u v hview
  | error => exact .error

theorem overwrite_bind {f : σ → σ} {x : PUnit → EStateM ε σ α}
    (hf : ∀ s t, view s = view t → f s = f t) :
    Blind view sets (modify f >>= x) :=
  Blind.bind (P := fun _ => True) (Blind.overwrite hf) fun _ h => absurd trivial h

theorem Blind.ite {c : Prop} [Decidable c] {x y : EStateM ε σ α} (hx : Blind view sets x)
    (hy : Blind view sets y) : Blind view sets (if c then x else y) := by
  split
  · exact hx
  · exact hy

end

end LibcCompat.Lib
