/-
# `LibcCompat.Lib.Run` — finite runs of a machine

A machine is a step function `step : σ → α → σ` together with a guard
`ok : σ → α → Prop`, which says when an action may be taken in a state.  The
actions carry whatever the outside world answers, so that `step` is a function
and a list of actions determines the run.

What is proved: an invariant that one allowed step keeps is kept by every run
(`Run.inv`).  Where the guard is decidable, a concrete list of actions is
checked by evaluation (`Run.of_allOk`).

Two rules say exactly when a property of all states along a run holds, in terms
of its steps: `Run.always_iff`, for a step that keeps an invariant unless it
visibly breaks it, and `Run.agree_iff`, for two machines that part at a step
which shows.  `Run.congr_of_inv` changes the guard for one that is the same
where an invariant holds, `Run.step_congr_of_inv` the step function.

A program that asks the outside world for one answer at a time runs on an
endless supply of answers, as far as it goes (`states`); `states_always_iff` is
the rule for it, and `states_halts` is how it is shown to come to an end.
-/
import Mathlib.Logic.Basic

namespace LibcCompat.Lib

variable {σ α : Type}

/-- `Run ok step s as t`: the actions `as`, each allowed where it is taken,
lead from `s` to `t`. -/
inductive Run (ok : σ → α → Prop) (step : σ → α → σ) : σ → List α → σ → Prop
  | nil (s : σ) : Run ok step s [] s
  | cons {s t : σ} {a : α} {as : List α} :
      ok s a → Run ok step (step s a) as t → Run ok step s (a :: as) t

section
variable {ok : σ → α → Prop} {step : σ → α → σ}

/-- What every allowed step keeps, every run keeps. -/
theorem Run.inv {P : σ → Prop} (hstep : ∀ s a, P s → ok s a → P (step s a))
    {s t : σ} {as : List α} (h : Run ok step s as t) : P s → P t := by
  induction h with
  | nil s => exact id
  | cons hok _ ih => exact fun hs => ih (hstep _ _ hs hok)

/-- A condition on the actions alone is as good as a guard. -/
theorem Run.and_forall {P : α → Prop} {s t : σ} {as : List α} (h : Run ok step s as t)
    (hall : ∀ a ∈ as, P a) : Run (fun s a => ok s a ∧ P a) step s as t := by
  induction h with
  | nil s => exact .nil s
  | cons hok _ ih =>
      rw [List.forall_mem_cons] at hall
      exact .cons ⟨hok, hall.1⟩ (ih hall.2)

theorem Run.take {s t : σ} {as : List α} (h : Run ok step s as t) (n : Nat) :
    Run ok step s (as.take n) ((as.take n).foldl step s) := by
  induction h generalizing n with
  | nil s =>
      rw [List.take_nil]
      exact .nil s
  | @cons s t a as hok _ ih =>
      cases n with
      | zero => exact .nil s
      | succ n => exact .cons hok (ih n)

theorem Run.head {s t : σ} {a : α} {as : List α} (h : Run ok step s (a :: as) t) :
    ok s a ∧ Run ok step (step s a) as t := by
  cases h with
  | cons ha h => exact ⟨ha, h⟩

/-- Along a run whose steps keep `P` when they are `good` and visibly break it
when they are not, all states look right exactly if all steps are good. -/
theorem Run.always_iff {P Q : σ → Prop} {good : σ → α → Prop}
    (hlook : ∀ s, P s → Q s)
    (hkeep : ∀ s a, P s → ok s a → good s a → P (step s a))
    (hbreak : ∀ s a, P s → ok s a → ¬ good s a → ¬ Q (step s a))
    {s t : σ} {as : List α} (h : Run ok step s as t) (hs : P s) :
    (∀ pre, pre <+: as → Q (pre.foldl step s)) ↔ Run good step s as t := by
  induction h with
  | nil s =>
      constructor
      · intro _
        exact .nil s
      · intro _ pre hpre
        rw [List.prefix_nil.mp hpre]
        exact hlook s hs
  | @cons s t a as hok _ ih =>
      constructor
      · intro hall
        have hgood : good s a := Classical.byContradiction fun hbad =>
          hbreak s a hs hok hbad (hall [a] ⟨as, rfl⟩)
        refine .cons hgood ((ih (hkeep s a hs hok hgood)).mp fun pre hpre => ?_)
        exact hall (a :: pre) (List.cons_prefix_cons.mpr ⟨rfl, hpre⟩)
      · intro hrun pre hpre
        obtain ⟨hgood, hrest⟩ := hrun.head
        cases pre with
        | nil => exact hlook s hs
        | cons a' pre =>
            obtain ⟨rfl, htail⟩ := List.cons_prefix_cons.mp hpre
            exact (ih (hkeep s a' hs hok hgood)).mpr hrest pre htail

/-- Where two guards agree on the states of an invariant, and steps allowed by
the second keep it, they allow the same runs. -/
theorem Run.congr_of_inv {P : σ → Prop} {A B : σ → α → Prop}
    (hiff : ∀ s a, P s → ok s a → (A s a ↔ B s a))
    (hkeep : ∀ s a, P s → ok s a → B s a → P (step s a))
    {s t : σ} {as : List α} (h : Run ok step s as t) (hs : P s) :
    Run A step s as t ↔ Run B step s as t := by
  induction h with
  | nil s => exact ⟨fun _ => .nil s, fun _ => .nil s⟩
  | @cons s t a as hok _ ih =>
      constructor
      · intro hrun
        obtain ⟨ha, hrest⟩ := hrun.head
        have hb := (hiff s a hs hok).mp ha
        exact .cons hb ((ih (hkeep s a hs hok hb)).mp hrest)
      · intro hrun
        obtain ⟨hb, hrest⟩ := hrun.head
        exact .cons ((hiff s a hs hok).mpr hb) ((ih (hkeep s a hs hok hb)).mpr hrest)

/-- Two machines that take the same allowed steps from the states of an
invariant have the same runs. -/
theorem Run.step_congr_of_inv {P : σ → Prop} {step' : σ → α → σ}
    (hsame : ∀ s a, P s → ok s a → step s a = step' s a)
    (hkeep : ∀ s a, P s → ok s a → P (step s a)) {s t : σ} {as : List α} (hs : P s) :
    Run ok step s as t ↔ Run ok step' s as t := by
  induction as generalizing s with
  | nil =>
      constructor
      · intro hrun
        cases hrun
        exact .nil _
      · intro hrun
        cases hrun
        exact .nil _
  | cons a as ih =>
      constructor
      · intro hrun
        obtain ⟨hok, hrest⟩ := hrun.head
        refine .cons hok ?_
        rw [← hsame s a hs hok]
        exact (ih (hkeep s a hs hok)).mp hrest
      · intro hrun
        obtain ⟨hok, hrest⟩ := hrun.head
        rw [← hsame s a hs hok] at hrest
        exact .cons hok ((ih (hkeep s a hs hok)).mpr hrest)

/-- Two machines that take the same `good` steps, and whose other steps show a
difference, look alike along a run exactly if all its steps are good. -/
theorem Run.agree_iff {β : Type} {obs : σ → β} {step' : σ → α → σ} {good : σ → α → Prop}
    (hsame : ∀ s a, ok s a → good s a → step' s a = step s a)
    (hdiff : ∀ s a, ok s a → ¬ good s a → obs (step' s a) ≠ obs (step s a))
    {s t : σ} {as : List α} (h : Run ok step s as t) :
    (∀ pre, pre <+: as → obs (pre.foldl step' s) = obs (pre.foldl step s)) ↔
      Run good step s as t := by
  induction h with
  | nil s =>
      constructor
      · intro _
        exact .nil s
      · intro _ pre hpre
        rw [List.prefix_nil.mp hpre]
        rfl
  | @cons s t a as hok _ ih =>
      constructor
      · intro hall
        have hgood : good s a := Classical.byContradiction fun hbad =>
          hdiff s a hok hbad (hall [a] ⟨as, rfl⟩)
        refine .cons hgood (ih.mp fun pre hpre => ?_)
        have heq := hall (a :: pre) (List.cons_prefix_cons.mpr ⟨rfl, hpre⟩)
        simpa only [List.foldl_cons, hsame s a hok hgood] using heq
      · intro hrun pre hpre
        obtain ⟨hgood, hrest⟩ := hrun.head
        cases pre with
        | nil => rfl
        | cons a' pre =>
            obtain ⟨rfl, htail⟩ := List.cons_prefix_cons.mp hpre
            rw [List.foldl_cons, List.foldl_cons, hsame s a' hok hgood]
            exact ih.mpr hrest pre htail

/-- The guards of a list of actions, checked one after the other. -/
def allOk (ok : σ → α → Prop) [∀ s a, Decidable (ok s a)] (step : σ → α → σ) :
    σ → List α → Bool
  | _, [] => true
  | s, a :: as => decide (ok s a) && allOk ok step (step s a) as

theorem Run.of_allOk [∀ s a, Decidable (ok s a)] : ∀ {s : σ} {as : List α},
    allOk ok step s as = true → Run ok step s as (as.foldl step s)
  | s, [], _ => .nil s
  | s, a :: as, h => by
      rw [allOk, Bool.and_eq_true, decide_eq_true_eq] at h
      exact .cons h.1 (Run.of_allOk h.2)

end

/-! ## Endless runs -/

/-- The state after `n` answers. -/
def states (step : σ → α → σ) (s : σ) (as : Nat → α) : Nat → σ
  | 0 => s
  | n + 1 => step (states step s as n) (as n)

section
variable {step : σ → α → σ} {s : σ} {as : Nat → α} {P Q : σ → Prop} {good : σ → α → Prop}

theorem states_add (m n : Nat) :
    states step s as (m + n) = states step (states step s as m) (fun k => as (m + k)) n := by
  induction n with
  | zero => rfl
  | succ n ih => exact congrArg (step · (as (m + n))) ih

/-- What good steps keep holds as long as all steps are good. -/
theorem states_inv (hkeep : ∀ s a, P s → good s a → P (step s a)) (hs : P s)
    (hgood : ∀ n, good (states step s as n) (as n)) (n : Nat) : P (states step s as n) := by
  induction n with
  | zero => exact hs
  | succ n ih => exact hkeep _ _ ih (hgood n)

/-- If good steps keep `P`, and other steps from `P` visibly break it, then all
states look right exactly if all steps are good. -/
theorem states_always_iff {ok : σ → α → Prop} (hlook : ∀ s, P s → Q s)
    (hkeep : ∀ s a, P s → ok s a → good s a → P (step s a))
    (hbreak : ∀ s a, P s → ok s a → ¬ good s a → ¬ Q (step s a)) (hs : P s)
    (hok : ∀ n, ok (states step s as n) (as n)) :
    (∀ n, Q (states step s as n)) ↔ ∀ n, good (states step s as n) (as n) := by
  constructor
  · intro hall
    have hP : ∀ n, P (states step s as n) ∧ good (states step s as n) (as n) := by
      intro n
      induction n with
      | zero =>
          exact ⟨hs, Classical.byContradiction fun hbad => hbreak _ _ hs (hok 0) hbad (hall 1)⟩
      | succ n ih =>
          have hnext : P (states step s as (n + 1)) := hkeep _ _ ih.1 (hok n) ih.2
          exact ⟨hnext, Classical.byContradiction fun hbad =>
            hbreak _ _ hnext (hok (n + 1)) hbad (hall (n + 2))⟩
    exact fun n => (hP n).2
  · intro hgood n
    have hboth : ∀ s a, P s → ok s a ∧ good s a → P (step s a) :=
      fun s a hs h => hkeep s a hs h.1 h.2
    exact hlook _ (states_inv hboth hs (fun n => ⟨hok n, hgood n⟩) n)

/-- A measure that every step before the end decreases brings the run to an end. -/
theorem states_halts (halted : σ → Prop) (μ : σ → Nat)
    (hdec : ∀ n, ¬ halted (states step s as n) →
      μ (states step s as (n + 1)) < μ (states step s as n)) :
    ∃ n, halted (states step s as n) := by
  refine Classical.byContradiction fun hnever => ?_
  have hdown : ∀ n, μ (states step s as n) + n ≤ μ s := by
    intro n
    induction n with
    | zero => exact Nat.le_refl _
    | succ n ih =>
        have hlt := hdec n fun hh => hnever ⟨n, hh⟩
        omega
  have := hdown (μ s + 1)
  omega

end

end LibcCompat.Lib
