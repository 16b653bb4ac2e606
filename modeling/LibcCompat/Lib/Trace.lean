/-
# `LibcCompat.Lib.Trace` — runs of a specification

A specification says of each action which steps it may take: a relation between
the states before and after, `R : α → τ → τ → Prop`.  `Trace R` is the relation
that the steps of a list of actions add up to.

A machine refines a specification through a view of its states when each step it
takes from the states of an invariant is one that the specification allows; then
its runs are traces (`Run.refines`).  What every step of a specification keeps
(`Trace.inv`) is so kept by the machine.
-/
import LibcCompat.Lib.Run

namespace LibcCompat.Lib

variable {σ τ α : Type} {R : α → τ → τ → Prop}

inductive Trace (R : α → τ → τ → Prop) : τ → List α → τ → Prop
  | nil (v : τ) : Trace R v [] v
  | cons {u v w : τ} {a : α} {as : List α} : R a u v → Trace R v as w → Trace R u (a :: as) w

/-- What every step on an action in question keeps. -/
theorem Trace.inv {P : τ → Prop} {Q : α → Prop} (hstep : ∀ a u v, Q a → R a u v → P u → P v)
    {v w : τ} {as : List α} (h : Trace R v as w) (hall : ∀ a ∈ as, Q a) : P v → P w := by
  induction h with
  | nil v => exact id
  | cons hr _ ih =>
      rw [List.forall_mem_cons] at hall
      intro hu
      exact ih hall.2 (hstep _ _ _ hall.1 hr hu)

/-- A machine that takes the steps of a specification has its runs. -/
theorem Run.refines {ok : σ → α → Prop} {step : σ → α → σ} {view : σ → τ} {P : σ → Prop}
    (hstep : ∀ s a, P s → ok s a → R a (view s) (view (step s a)))
    (hkeep : ∀ s a, P s → ok s a → P (step s a))
    {s t : σ} {as : List α} (h : Run ok step s as t) (hs : P s) :
    Trace R (view s) as (view t) := by
  induction h with
  | nil s => exact .nil _
  | cons hok _ ih => exact .cons (hstep _ _ hs hok) (ih (hkeep _ _ hs hok))

end LibcCompat.Lib
