/-
# `LibcCompat.Lib.Recorded` — programs that can stop, with their calls recorded

A program over a state `σ` is an `EStateM`: it returns a value or stops for a
reason.  What is here: the equations that run such a program step by step, and
the same program over a state that also records requests.  A program that makes
requests is written against a function `call`; `record call` is the function
that notes each request before it answers, and `onState` is a program that
makes none.
-/

namespace LibcCompat.Lib

variable {ε σ κ α β : Type}

@[simp] theorem pure_apply (a : α) (s : σ) : (pure a : EStateM ε σ α) s = .ok a s := rfl

@[simp] theorem throw_apply (e : ε) (s : σ) : (throw e : EStateM ε σ α) s = .error e s := rfl

@[simp] theorem modify_apply (f : σ → σ) (s : σ) :
    (modify f : EStateM ε σ PUnit) s = .ok ⟨⟩ (f s) := rfl

theorem bind_apply (x : EStateM ε σ α) (f : α → EStateM ε σ β) (s : σ) :
    (x >>= f) s = match x s with
      | .ok a s => f a s
      | .error e s => .error e s := rfl

/-- The state in which a program returns or stops. -/
def finalState : EStateM.Result ε σ α → σ
  | .ok _ s => s
  | .error _ s => s

/-- The program, where requests are recorded and it makes none. -/
def onState (x : EStateM ε σ α) : EStateM ε (σ × List κ) α := fun s =>
  match x s.1 with
  | .ok a t => .ok a (t, s.2)
  | .error e t => .error e (t, s.2)

/-- Answer a request after noting it. -/
def record (call : κ → EStateM ε σ α) (k : κ) : EStateM ε (σ × List κ) α := fun s =>
  onState (call k) (s.1, s.2 ++ [k])

/-- The requests of a run that starts in state `s`. -/
def requests (x : EStateM ε (σ × List κ) α) (s : σ) : List κ := (finalState (x (s, []))).2

theorem onState_apply (x : EStateM ε σ α) (s : σ) (log : List κ) :
    onState x (s, log) = match x s with
      | .ok a t => .ok a (t, log)
      | .error e t => .error e (t, log) := rfl

@[simp] theorem onState_bind (x : EStateM ε σ α) (f : α → EStateM ε σ β) :
    (onState (x >>= f) : EStateM ε (σ × List κ) β) = onState x >>= fun a => onState (f a) := by
  funext s
  rw [bind_apply]
  simp only [onState, bind_apply]
  cases x s.1 with
  | ok a t => rfl
  | error e t => rfl

@[simp] theorem onState_ite (c : Prop) [Decidable c] (x y : EStateM ε σ α) :
    (onState (if c then x else y) : EStateM ε (σ × List κ) α) =
      if c then onState x else onState y := by
  split
  · rfl
  · rfl

/-- A program that makes no request leaves the record as it was. -/
@[simp] theorem onState_finalState (x : EStateM ε σ α) (s : σ) (log : List κ) :
    (finalState (onState x (s, log))).2 = log := by
  rw [onState_apply]
  cases x s with
  | ok a t => rfl
  | error e t => rfl

@[simp] theorem record_finalState (call : κ → EStateM ε σ α) (k : κ) (s : σ) (log : List κ) :
    (finalState (record call k (s, log))).2 = log ++ [k] :=
  onState_finalState _ _ _

end LibcCompat.Lib
