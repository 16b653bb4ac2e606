/-
# `LibcCompat.WinsupRs.Ownership` — who owns a descriptor

`Keeps` says what is asked of one operation: `as_raw_fd` borrows, `from_raw_fd`
takes back what `into_raw_fd` gave away, and no descriptor is left on a handle
that a drop has closed.  What is proved: every operation of a run keeps to this
exactly if every one is `Harmless`, where no `as_raw_fd` gets a descriptor, no
descriptor from `into_raw_fd` is given to `from_raw_fd`, and no owner is dropped
while a descriptor is bound to its handle.
-/
import LibcCompat.WinsupRs.Fd
import LibcCompat.Lib.Run

namespace LibcCompat.WinsupRs

open LibcCompat.Lib

/-- No descriptor is bound to a handle that a drop has closed. -/
def NoneDangling (s : State) : Prop := ∀ fd h, s.crt fd = some h → s.dropped h = false

/-- What is asked of an operation. -/
structure Keeps (s : State) (op : Op) : Prop where
  borrow : ∀ id res, op = .asRawFd id res →
    (step s op).crt = s.crt ∧ ∀ res', (id, res') ∈ s.borrows → res' = res
  takeBack : ∀ fd h, op = .fromRawFd fd → s.made fd = some h →
    (step s op).crt = Function.update s.crt fd none ∧
      (step s op).objects s.count = some ⟨some h, true⟩
  dangling : NoneDangling (step s op)

/-- When an operation does it. -/
def Harmless (s : State) : Op → Prop
  | .asRawFd _ res => res = none
  | .fromRawFd fd => s.made fd = none
  | .drop id => ∀ h, s.objects id = some ⟨some h, true⟩ → s.opened h = true →
      ∀ fd, s.crt fd ≠ some h
  | _ => True

/-- What holds as long as all operations are harmless. -/
structure Inv (s : State) : Prop where
  made : ∀ fd h, s.made fd = some h → s.crt fd = some h
  dangling : NoneDangling s
  dropped : ∀ h, s.opened h = true → s.dropped h = false
  borrows : ∀ id res, (id, res) ∈ s.borrows → res = none

theorem init_inv : Inv init where
  made := nofun
  dangling := nofun
  dropped := fun _ _ => rfl
  borrows := fun _ _ h => absurd h List.not_mem_nil

section
variable {s : State}

theorem Inv.object (h : Inv s) (x : Object) : Inv (s.object x) :=
  ⟨h.made, h.dangling, h.dropped, h.borrows⟩

theorem Inv.forget (h : Inv s) (id : Nat) : Inv (s.forget id) :=
  ⟨h.made, h.dangling, h.dropped, h.borrows⟩

theorem Inv.opens (hs : Inv s) (h : Handle) :
    Inv { s with
      opened := Function.update s.opened h true
      dropped := Function.update s.dropped h false } := by
  refine ⟨hs.made, fun fd h' hcrt => ?_, fun h' hopen => ?_, hs.borrows⟩
  · by_cases hh : h' = h
    · subst hh
      exact Function.update_self ..
    · simpa only [Function.update_of_ne hh] using hs.dangling fd h' hcrt
  · by_cases hh : h' = h
    · subst hh
      exact Function.update_self ..
    · simp only [Function.update_of_ne hh] at hopen ⊢
      exact hs.dropped h' hopen

theorem Inv.binds (hs : Inv s) {fd : Nat} {h : Handle} (hfree : s.crt fd = none)
    (hopen : s.opened h = true) :
    Inv { s with crt := Function.update s.crt fd (some h) } := by
  have hne : ∀ fd' h', s.made fd' = some h' → fd' ≠ fd := by
    rintro fd' h' hmade rfl
    exact nomatch hfree.symm.trans (hs.made fd' h' hmade)
  refine ⟨fun fd' h' hmade => ?_, fun fd' h' hcrt => ?_, hs.dropped, hs.borrows⟩
  · simpa only [Function.update_of_ne (hne fd' h' hmade)] using hs.made fd' h' hmade
  · by_cases hfd : fd' = fd
    · subst hfd
      simp only [Function.update_self, Option.some.injEq] at hcrt
      exact hcrt ▸ hs.dropped h hopen
    · simp only [Function.update_of_ne hfd] at hcrt
      exact hs.dangling fd' h' hcrt

theorem Inv.marks (hs : Inv s) {fd : Nat} {h : Option Handle}
    (hmark : ∀ h', h = some h' → s.crt fd = some h') :
    Inv { s with made := Function.update s.made fd h } := by
  refine ⟨fun fd' h' hmade => ?_, hs.dangling, hs.dropped, hs.borrows⟩
  by_cases hfd : fd' = fd
  · subst hfd
    simp only [Function.update_self] at hmade
    exact hmark h' hmade
  · simp only [Function.update_of_ne hfd] at hmade
    exact hs.made fd' h' hmade

theorem Inv.closes (hs : Inv s) (fd : Nat) (h : Handle) :
    Inv { s with
      crt := Function.update s.crt fd none
      opened := Function.update s.opened h false
      made := Function.update s.made fd none } := by
  refine ⟨fun fd' h' hmade => ?_, fun fd' h' hcrt => ?_, fun h' hopen => ?_, hs.borrows⟩
  · by_cases hfd : fd' = fd
    · subst hfd
      simp only [Function.update_self] at hmade
      cases hmade
    · simp only [Function.update_of_ne hfd] at hmade ⊢
      exact hs.made fd' h' hmade
  · by_cases hfd : fd' = fd
    · subst hfd
      simp only [Function.update_self] at hcrt
      cases hcrt
    · simp only [Function.update_of_ne hfd] at hcrt
      exact hs.dangling fd' h' hcrt
  · by_cases hh : h' = h
    · subst hh
      simp only [Function.update_self] at hopen
      cases hopen
    · simp only [Function.update_of_ne hh] at hopen
      exact hs.dropped h' hopen

theorem Inv.drops (hs : Inv s) {h : Handle}
    (hunbound : s.opened h = true → ∀ fd, s.crt fd ≠ some h) : Inv (dropHandle s h) := by
  unfold dropHandle
  split
  · next hopen =>
      refine ⟨hs.made, fun fd h' hcrt => ?_, fun h' hopen' => ?_, hs.borrows⟩
      · have hh : h' ≠ h := by
          rintro rfl
          exact hunbound hopen fd hcrt
        simpa only [Function.update_of_ne hh] using hs.dangling fd h' hcrt
      · have hh : h' ≠ h := by
          rintro rfl
          simp only [Function.update_self] at hopen'
          cases hopen'
        simp only [Function.update_of_ne hh] at hopen' ⊢
        exact hs.dropped h' hopen'
  · exact hs

theorem step_inv (hs : Inv s) {op : Op} (hok : Platform s op) (hgood : Harmless s op) :
    Inv (step s op) := by
  cases op with
  | openFd fd h =>
      exact ((hs.opens h).binds hok.1 (Function.update_self ..)).marks nofun
  | openFile h => exact (hs.opens h).object _
  | closeFd fd =>
      simp only [step]
      split
      · exact hs
      · exact hs.closes fd _
  | fromRawFd fd => exact hs.object _
  | asFd id =>
      simp only [step]
      split
      · exact hs
      · exact hs.object _
  | asRawFd id res =>
      cases hgood
      simp only [step]
      split
      · exact hs
      · refine ⟨hs.made, hs.dangling, hs.dropped, fun id' res' hmem => ?_⟩
        rcases List.mem_append.mp hmem with hold | hnew
        · exact hs.borrows id' res' hold
        · cases List.mem_singleton.mp hnew
          rfl
  | intoRawFd id res =>
      simp only [step]
      split
      · exact hs
      · next x hx =>
          cases res with
          | none => exact hs.forget id
          | some fd =>
              obtain ⟨-, hfree, h, hobj, hopen⟩ := hok
              rw [hx] at hobj
              have hh : x.handle = some h := Option.some.inj hobj
              simp only [intoRawFd, openOsfhandle, hh]
              refine ((hs.binds hfree hopen).forget id).marks fun h' he => ?_
              exact (Function.update_self ..).trans he
  | drop id =>
      simp only [step]
      split
      · exact hs
      · next x hx =>
          unfold drop
          split
          · next h howned hh =>
              refine (hs.forget id).drops (hgood h ?_)
              rw [hx, ← hh, ← howned]
          · exact hs.forget id

/-- An operation does what is asked of it exactly if it is harmless. -/
theorem keeps_iff (hs : Inv s) {op : Op} (hok : Platform s op) :
    Keeps s op ↔ Harmless s op := by
  constructor
  · intro hkeeps
    cases op with
    | asRawFd id res =>
        cases res with
        | none => rfl
        | some fd =>
            obtain ⟨-, hfree, h, hobj, -⟩ := hok
            obtain ⟨x, hx, hh⟩ := Option.map_eq_some_iff.mp hobj
            have hcrt := congrFun (hkeeps.borrow id (some fd) rfl).1 fd
            simp only [step, hx, asRawFd, openOsfhandle, Function.update_self, hh, hfree] at hcrt
            cases hcrt
    | fromRawFd fd =>
        cases hmade : s.made fd with
        | none => exact hmade
        | some h =>
            have hcrt := congrFun (hkeeps.takeBack fd h rfl hmade).1 fd
            rw [Function.update_self] at hcrt
            exact nomatch hcrt.symm.trans (hs.made fd h hmade)
    | drop id =>
        intro h hobj hopen fd hbound
        have hdangling := hkeeps.dangling fd h
        simp only [step, hobj, drop, State.forget, dropHandle, hopen, if_true,
          Function.update_self] at hdangling
        exact nomatch hdangling hbound
    | openFd fd h => trivial
    | openFile h => trivial
    | closeFd fd => trivial
    | asFd id => trivial
    | intoRawFd id res => trivial
  · intro hgood
    refine ⟨?_, ?_, (step_inv hs hok hgood).dangling⟩
    · rintro id res rfl
      cases hgood
      constructor
      · simp only [step]
        split
        · rfl
        · rfl
      · exact hs.borrows id
    · rintro fd h rfl hmade
      exact nomatch hmade.symm.trans hgood

end

/-! ## Runs -/

/-- **Ownership of descriptors.**  Along a run, every operation does what is
asked of it exactly if every one is harmless. -/
theorem ownership_kept {ops : List Op} {s : State} (h : Run Platform step init ops s) :
    Run Keeps step init ops s ↔ Run Harmless step init ops s :=
  h.congr_of_inv (fun _ _ hs hok => keeps_iff hs hok)
    (fun _ _ hs hok hgood => step_inv hs hok hgood) init_inv

/-- A file is given away as descriptor 3; another one has no descriptor to be
borrowed, and is dropped. -/
def givenAway : List Op :=
  [.openFile 100, .intoRawFd 0 (some 3), .openFile 200, .asRawFd 1 none, .drop 1]

theorem ownership_kept_givenAway :
    Run Keeps step init givenAway (givenAway.foldl step init) := by
  have hrun : Run Platform step init givenAway (givenAway.foldl step init) :=
    .cons rfl (.cons ⟨rfl, rfl, 100, rfl, rfl⟩ (.cons rfl (.cons ⟨rfl, trivial⟩
      (.cons rfl (.nil _)))))
  -- the handle of the second file has no descriptor
  have hdrop : Harmless ((givenAway.take 4).foldl step init) (.drop 1) := by
    intro h hobject _ fd hcrt
    obtain rfl : 200 = h := by
      cases hobject
      rfl
    by_cases hfd : fd = 3
    · subst hfd
      cases hcrt
    · have hnone : ((givenAway.take 4).foldl step init).crt fd = none :=
        Function.update_of_ne hfd _ _
      exact nomatch hnone.symm.trans hcrt
  exact (ownership_kept hrun).mpr
    (.cons trivial (.cons trivial (.cons trivial (.cons rfl (.cons hdrop (.nil _))))))

/-- A file is asked for its descriptor, and dropped. -/
def borrowedFile : List Op := [.openFile 100, .asRawFd 0 (some 3), .drop 0]

theorem borrowedFile_run :
    Run Platform step init borrowedFile (borrowedFile.foldl step init) :=
  .cons rfl (.cons ⟨rfl, rfl, 100, rfl, rfl⟩ (.cons rfl (.nil _)))

/-- The borrow allocates descriptor 3, and the drop leaves it on a closed handle. -/
theorem borrowedFile_dangles :
    Run Platform step init borrowedFile (borrowedFile.foldl step init) ∧
    ¬ Run Keeps step init borrowedFile (borrowedFile.foldl step init) ∧
    (borrowedFile.foldl step init).crt 3 = some 100 ∧
    (borrowedFile.foldl step init).dropped 100 = true := by
  refine ⟨borrowedFile_run, fun h => ?_, rfl, rfl⟩
  have hborrow := (h.head.2.head.1.borrow 0 (some 3) rfl).1
  exact nomatch congrFun hborrow 3

end LibcCompat.WinsupRs
