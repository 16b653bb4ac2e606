/-
# `LibcCompat.Lib.Deferred` — release deferred to the last user

A resource is acquired, used by any number of users, and at some moment asked
to be released, in a way `H` of the client's choosing.  It is released at that
moment if nobody uses it, and otherwise when its last user leaves.

The invariant is `Deferred.Exact`: the releases of a resource are none until it
is asked for and has no user, and then exactly the one asked for.  It fixes the
moment as well, since it holds before and after each action (`step_exact`).
-/
import LibcCompat.Lib.Keyed
import Mathlib.Logic.Function.Basic

namespace LibcCompat.Lib

/-- Who holds what, what was asked, who uses what, and what was released, oldest first. -/
structure Deferred (R U H : Type) where
  held : R → Bool
  asked : R → Option H
  users : List (U × R)
  released : List (R × H)

namespace Deferred

variable {R U H : Type} [DecidableEq R]

inductive Act (R U H : Type) where
  | acquire (r : R)
  | attach (u : U) (r : R)
  | request (r : R) (h : H)
  | detach (u : U)

def init : Deferred R U H := ⟨fun _ => false, fun _ => none, [], []⟩

/-- Nobody uses `r`. -/
def idle (users : List (U × R)) (r : R) : Bool := users.all (·.2 != r)

/-- The releases of `r` that are due. -/
def due (asked : R → Option H) (users : List (U × R)) (r : R) : List (R × H) :=
  match asked r with
  | some h => if idle users r then [(r, h)] else []
  | none => []

theorem due_of_none {asked : R → Option H} {users : List (U × R)} {r : R}
    (h : asked r = none) : due asked users r = [] := by
  simp only [due, h]

theorem due_of_busy {asked : R → Option H} {users : List (U × R)} {p : U × R}
    (hp : p ∈ users) : due asked users p.2 = [] := by
  have hbusy : idle users p.2 = false := by
    simp only [idle, List.all_eq_false, bne_iff_ne, ne_eq, not_not]
    exact ⟨p, hp, rfl⟩
  unfold due
  split
  · simp only [hbusy, Bool.false_eq_true, if_false]
  · rfl

/-- What is due for `r` depends on whether `r` was asked for and has users, and
on nothing else. -/
theorem due_congr {asked asked' : R → Option H} {users users' : List (U × R)} {r : R}
    (ha : asked r = asked' r) (hu : idle users r = idle users' r) :
    due asked users r = due asked' users' r := by
  simp only [due, ha, hu]

theorem fst_of_mem_due {asked : R → Option H} {users : List (U × R)} {r : R} {x : R × H}
    (hx : x ∈ due asked users r) : x.1 = r := by
  unfold due at hx
  split at hx
  · split at hx
    · rw [List.mem_singleton.mp hx]
    · exact absurd hx List.not_mem_nil
  · exact absurd hx List.not_mem_nil

theorem due_filter (asked : R → Option H) (users : List (U × R)) (r r' : R) :
    (due asked users r).filter (·.1 = r') = if r = r' then due asked users r else [] := by
  by_cases hr : r = r'
  · rw [if_pos hr, List.filter_eq_self]
    exact fun x hx => decide_eq_true ((fst_of_mem_due hx).trans hr)
  · rw [if_neg hr, List.filter_eq_nil_iff]
    exact fun x hx hx' => hr ((fst_of_mem_due hx).symm.trans (of_decide_eq_true hx'))

/-- The invariant: what was released is what is due. -/
structure Exact (d : Deferred R U H) : Prop where
  releases : ∀ r, d.released.filter (·.1 = r) = due d.asked d.users r
  holds : ∀ r, d.held r = true → d.asked r = none
  users : (d.users.map Prod.fst).Nodup

theorem init_exact : Exact (init : Deferred R U H) :=
  ⟨fun _ => rfl, fun _ _ => rfl, List.nodup_nil⟩

/-- Where nothing was due for `r`, what becomes due for it is released, and what
is due for the others stays. -/
theorem Exact.releases_append {d : Deferred R U H} (h : Exact d) {asked : R → Option H}
    {users : List (U × R)} {r : R} (hnone : due d.asked d.users r = [])
    (hothers : ∀ r', r' ≠ r → due asked users r' = due d.asked d.users r') (r' : R) :
    (d.released ++ due asked users r).filter (·.1 = r') = due asked users r' := by
  rw [List.filter_append, h.releases, due_filter]
  by_cases hrr : r = r'
  · subst hrr
    rw [hnone, if_pos rfl, List.nil_append]
  · rw [if_neg hrr, List.append_nil, hothers r' (Ne.symm hrr)]

variable [DecidableEq U]

def step (d : Deferred R U H) : Act R U H → Deferred R U H
  | .acquire r => { d with held := Function.update d.held r true }
  | .attach u r => { d with users := (u, r) :: d.users }
  | .request r h =>
      { d with
        held := Function.update d.held r false
        asked := Function.update d.asked r (some h)
        released := if idle d.users r then d.released ++ [(r, h)] else d.released }
  | .detach u =>
      match d.users.find? (·.1 == u) with
      | none => d
      | some (_, r) =>
          { d with
            users := d.users.eraseP (·.1 == u)
            released := d.released ++ due d.asked (d.users.eraseP (·.1 == u)) r }

/-- A resource is acquired while it was not asked for, used and asked for while
it is held; a user is attached once. -/
def Allowed (d : Deferred R U H) : Act R U H → Prop
  | .acquire r => d.asked r = none
  | .attach u r => d.held r = true ∧ ∀ p ∈ d.users, p.1 ≠ u
  | .request r _ => d.held r = true
  | .detach _ => True

theorem idle_erase_of_ne {users : List (U × R)} {u : U} {p : U × R}
    (hu : (users.map Prod.fst).Nodup) (hp : p ∈ users) (hpu : p.1 = u) {r : R} (hr : r ≠ p.2) :
    idle (users.eraseP (·.1 == u)) r = idle users r := by
  rw [eraseP_eq_filter_of_nodup u hu]
  have hall : (idle (users.filter (·.1 != u)) r = true) ↔ (idle users r = true) := by
    simp only [idle, List.all_eq_true, List.mem_filter, bne_iff_ne, and_imp]
    constructor
    · intro h q hq
      by_cases hqu : q.1 = u
      · -- the only user called `u` uses another resource
        have h₁ := find?_eq_some_of_nodup hu hp
        have h₂ := find?_eq_some_of_nodup hu hq
        rw [hpu, ← hqu] at h₁
        obtain rfl := Option.some.inj (h₁.symm.trans h₂)
        exact hr.symm
      · exact h q hq hqu
    · exact fun h q hq _ => h q hq
  exact Bool.eq_iff_iff.mpr hall

theorem step_request_released (d : Deferred R U H) (r : R) (h : H) :
    (d.step (.request r h)).released =
      d.released ++ due (Function.update d.asked r (some h)) d.users r := by
  simp only [step, due, Function.update_self]
  split
  · rfl
  · exact (List.append_nil _).symm

theorem held_acquire {d : Deferred R U H} {r r' : R} :
    (d.step (.acquire r)).held r' = true ↔ r' = r ∨ d.held r' = true := by
  by_cases hrr : r' = r
  · subst hrr
    simp [step]
  · simp only [step, Function.update_of_ne hrr, hrr, false_or]

theorem held_request {d : Deferred R U H} {r r' : R} {h : H} :
    (d.step (.request r h)).held r' = true ↔ r' ≠ r ∧ d.held r' = true := by
  by_cases hrr : r' = r
  · subst hrr
    simp [step]
  · simp only [step, Function.update_of_ne hrr, hrr, not_false_eq_true, true_and, ne_eq]

theorem asked_request_of_ne {d : Deferred R U H} {r r' : R} {h : H} (hrr : r' ≠ r) :
    (d.step (.request r h)).asked r' = d.asked r' :=
  Function.update_of_ne hrr _ _

theorem step_exact {d : Deferred R U H} {a : Act R U H} (h : Exact d) (hok : Allowed d a) :
    Exact (d.step a) := by
  cases a with
  | acquire r =>
      refine ⟨h.releases, ?_, h.users⟩
      intro r' hr'
      rcases held_acquire.mp hr' with rfl | hr'
      · exact hok
      · exact h.holds r' hr'
  | attach u r =>
      refine ⟨?_, h.holds, ?_⟩
      · intro r'
        by_cases hrr : r' = r
        · subst hrr
          show d.released.filter (·.1 = r') = _
          rw [h.releases, due_of_none (h.holds r' hok.1)]
          exact (due_of_none (h.holds r' hok.1)).symm
        · refine (h.releases r').trans (due_congr rfl ?_)
          simp [idle, step, Ne.symm hrr]
      · refine List.nodup_cons.mpr ⟨?_, h.users⟩
        intro hu
        obtain ⟨p, hp, hpu⟩ := List.mem_map.mp hu
        exact hok.2 p hp hpu
  | request r hw =>
      refine ⟨?_, ?_, h.users⟩
      · intro r'
        rw [step_request_released]
        refine h.releases_append (due_of_none (h.holds r hok)) (fun r' hrr => ?_) r'
        exact due_congr (Function.update_of_ne hrr _ _) rfl
      · intro r' hr'
        obtain ⟨hrr, hheld⟩ := held_request.mp hr'
        rw [asked_request_of_ne hrr]
        exact h.holds r' hheld
  | detach u =>
      simp only [step]
      split
      · exact h
      · next v r hfind =>
          have hp : (v, r) ∈ d.users := List.mem_of_find?_eq_some hfind
          have hpu : (v, r).1 = u := by simpa using List.find?_some hfind
          refine ⟨?_, h.holds, (List.eraseP_sublist.map _).nodup h.users⟩
          -- `u` was using `r`, so nothing was due before
          refine h.releases_append (due_of_busy hp) fun r' hrr => ?_
          exact due_congr rfl (idle_erase_of_ne h.users hp hpu hrr)

end Deferred

end LibcCompat.Lib
