/-
# `LibcCompat.Winsup.Append` — when the cached append mode is right

A cached entry counts for a handle when its descriptor is bound to that handle
(`Hits`), and a lookup answers with the first hit.  `Hits` does not know *which*
file the entry was made for: the descriptor may have been closed and handed out
again past `__wrap_open`, or its handle closed behind its back and the value
handed out again.

What is proved: the lookups are right in all states of a run exactly if every
operation is `Agrees`, that is, whenever a descriptor or a handle value is
handed out anew, the entry found first for the handle agrees with its mode.
-/
import LibcCompat.Winsup.FdCache
import LibcCompat.Lib.Run

namespace LibcCompat.Winsup.FdCache

open LibcCompat.Lib

/-- What a lookup of the handle should answer. -/
def Opened.mode (o : Opened) : UInt32 :=
  match o.oflag with
  | some oflag => oflag &&& O_APPEND
  | none => accessOflag o.granted

/-- A cached entry whose descriptor is bound to the handle. -/
def Hits (s : State) (h : Handle) (fd : Nat) (oflag : UInt32) : Prop :=
  s.cache.oflag fd = some oflag ∧ s.crt fd = some h

/-- The hit that a scan comes across first. -/
def FirstHit (s : State) (h : Handle) (fd : Nat) (oflag : UInt32) : Prop :=
  Hits s h fd oflag ∧ ∀ fd' < fd, ∀ e, ¬ Hits s h fd' e

/-- No entry lies at or past the bound. -/
def Bounded (s : State) : Prop := ∀ fd, s.cache.maxSize ≤ fd → s.cache.oflag fd = none

/-! ## The scan -/

/-- Nothing is changed but entries of closed descriptors. -/
structure Evicts (s t : State) : Prop where
  crt : t.crt = s.crt
  handles : t.handles = s.handles
  stopped : t.stopped = s.stopped
  hits : ∀ h fd e, Hits t h fd e ↔ Hits s h fd e
  bounded : Bounded s → Bounded t

theorem Evicts.refl (s : State) : Evicts s s :=
  ⟨rfl, rfl, rfl, fun _ _ _ => Iff.rfl, id⟩

theorem Evicts.trans {s t u : State} (h : Evicts s t) (h' : Evicts t u) : Evicts s u :=
  ⟨h'.crt.trans h.crt, h'.handles.trans h.handles, h'.stopped.trans h.stopped,
    fun x fd e => (h'.hits x fd e).trans (h.hits x fd e), fun hs => h'.bounded (h.bounded hs)⟩

theorem evict_evicts {s : State} {fd : Nat} (hclosed : s.crt fd = none) :
    Evicts s (evict s fd) where
  crt := rfl
  handles := rfl
  stopped := rfl
  hits := by
    intro h fd' e
    by_cases hfd : fd' = fd
    · subst hfd
      simp [Hits, evict, hclosed]
    · simp [Hits, evict, Function.update_of_ne hfd]
  bounded := by
    intro hs fd' hle
    by_cases hfd : fd' = fd
    · subst hfd
      exact Function.update_self ..
    · simp only [evict, Function.update_of_ne hfd] at hle ⊢
      refine hs fd' ?_
      split at hle
      · omega
      · exact hle

theorem scan_evicts (h : Handle) (fuel : Nat) (s : State) (fd : Nat) :
    Evicts s (scan h fuel s fd).2 := by
  induction fuel generalizing s fd with
  | zero => exact Evicts.refl s
  | succ fuel ih =>
      unfold scan
      split
      · split
        · exact ih s (fd + 1)
        · split
          · next hclosed => exact (evict_evicts hclosed).trans (ih _ (fd + 1))
          · split
            · exact Evicts.refl s
            · exact ih s (fd + 1)
      · exact Evicts.refl s

theorem evict_maxSize_le (s : State) (fd : Nat) :
    (evict s fd).cache.maxSize ≤ s.cache.maxSize := by
  simp only [evict]
  split
  · omega
  · exact Nat.le_refl _

/-- From `fd` on, with enough fuel to reach the bound, the scan answers with the
first hit. -/
theorem scan_hit {h : Handle} {e : UInt32} {first : Nat} (fuel : Nat) (s : State) (fd : Nat)
    (hbound : Bounded s) (hfuel : s.cache.maxSize ≤ fd + fuel) (hle : fd ≤ first)
    (hfirst : FirstHit s h first e) : (scan h fuel s fd).1 = e := by
  induction fuel generalizing s fd with
  | zero =>
      have hnone := hbound first (by omega)
      exact nomatch hnone.symm.trans hfirst.1.1
  | succ fuel ih =>
      have hlt : first < s.cache.maxSize := by
        refine Nat.not_le.mp fun hge => ?_
        exact nomatch (hbound first hge).symm.trans hfirst.1.1
      have hin : fd < s.cache.maxSize := by omega
      rcases Nat.eq_or_lt_of_le hle with rfl | hbefore
      · simp only [scan, if_pos hin, hfirst.1.1, hfirst.1.2, if_true]
      · simp only [scan, if_pos hin]
        split
        · exact ih s (fd + 1) hbound (by omega) hbefore hfirst
        · next oflag hcached =>
            split
            · next hclosed =>
                have hev := evict_evicts hclosed
                refine ih _ (fd + 1) (hev.bounded hbound) ?_ hbefore ?_
                · have := evict_maxSize_le s fd
                  omega
                · exact ⟨(hev.hits h first e).mpr hfirst.1,
                    fun fd' hfd' e' hhit => hfirst.2 fd' hfd' e' ((hev.hits h fd' e').mp hhit)⟩
            · next other hopen =>
                have hne : h ≠ other := by
                  rintro rfl
                  exact hfirst.2 fd hbefore oflag ⟨hcached, hopen⟩
                rw [if_neg hne]
                exact ih s (fd + 1) hbound (by omega) hbefore hfirst

theorem fallback_evicts {s t : State} (hev : Evicts s t) (h : Handle) :
    getOsfhandleOflagFallback t h = getOsfhandleOflagFallback s h := by
  simp only [getOsfhandleOflagFallback, hev.handles]

theorem scan_miss {h : Handle} (fuel : Nat) (s : State) (fd : Nat)
    (hnone : ∀ fd e, ¬ Hits s h fd e) :
    (scan h fuel s fd).1 = getOsfhandleOflagFallback s h := by
  induction fuel generalizing s fd with
  | zero => rfl
  | succ fuel ih =>
      unfold scan
      split
      · split
        · exact ih s (fd + 1) hnone
        · next oflag hcached =>
            split
            · next hclosed =>
                have hev := evict_evicts hclosed
                rw [← fallback_evicts hev h]
                exact ih _ (fd + 1) fun fd' e' hhit => hnone fd' e' ((hev.hits h fd' e').mp hhit)
            · next other hopen =>
                have hne : h ≠ other := by
                  rintro rfl
                  exact hnone fd oflag ⟨hcached, hopen⟩
                rw [if_neg hne]
                exact ih s (fd + 1) hnone
      · rfl

theorem exists_firstHit {s : State} {h : Handle} {fd : Nat} {e : UInt32} (hhit : Hits s h fd e) :
    ∃ fd' e', FirstHit s h fd' e' := by
  induction fd using Nat.strongRecOn generalizing e with
  | ind fd ih =>
      rcases Classical.em (∃ fd' < fd, ∃ e', Hits s h fd' e') with ⟨fd', hlt, e', hhit'⟩ | hnone
      · exact ih fd' hlt hhit'
      · exact ⟨fd, e, hhit, fun fd' hlt e' hhit' => hnone ⟨fd', hlt, e', hhit'⟩⟩

theorem lookup_firstHit {s : State} {h : Handle} {fd : Nat} {e : UInt32} (hbound : Bounded s)
    (hfirst : FirstHit s h fd e) : (getOsfhandleOflag s (some h)).1 = e :=
  scan_hit s.cache.maxSize s 0 hbound (by omega) (Nat.zero_le _) hfirst

/-! ## The invariant -/

/-- The program runs, and a lookup of any open handle gives its mode. -/
def LookupsRight (s : State) : Prop :=
  s.stopped = none ∧
    ∀ h o, s.handles h = some o → (getOsfhandleOflag s (some h)).1 = o.mode

/-- What makes the lookup of one handle right. -/
def RightAt (s : State) (h : Handle) : Prop :=
  ∀ o, s.handles h = some o →
    (∀ fd e, FirstHit s h fd e → e = o.mode) ∧ (o.oflag.isSome → ∃ fd e, Hits s h fd e)

structure Right (s : State) : Prop where
  running : s.stopped = none
  bounded : Bounded s
  right : ∀ h, RightAt s h

theorem Right.lookups {s : State} (hs : Right s) : LookupsRight s := by
  refine ⟨hs.running, fun h o ho => ?_⟩
  obtain ⟨hagree, hcached⟩ := hs.right h o ho
  rcases Classical.em (∃ fd e, Hits s h fd e) with ⟨fd, e, hhit⟩ | hnone
  · obtain ⟨first, e', hfirst⟩ := exists_firstHit hhit
    rw [lookup_firstHit hs.bounded hfirst]
    exact hagree first e' hfirst
  · have hmiss : (getOsfhandleOflag s (some h)).1 = getOsfhandleOflagFallback s h :=
      scan_miss _ s 0 fun fd e hhit => hnone ⟨fd, e, hhit⟩
    rw [hmiss, getOsfhandleOflagFallback, ho, Opened.mode]
    cases hof : o.oflag with
    | none => rfl
    | some oflag => exact absurd (hcached (by rw [hof]; rfl)) hnone

theorem not_lookupsRight {s : State} {h : Handle} {o : Opened} {fd : Nat} {e : UInt32}
    (hbound : Bounded s) (ho : s.handles h = some o) (hfirst : FirstHit s h fd e)
    (hne : e ≠ o.mode) : ¬ LookupsRight s := by
  intro hright
  have heq := hright.2 h o ho
  rw [lookup_firstHit hbound hfirst] at heq
  exact hne heq

theorem firstHit_congr {s t : State} {h : Handle}
    (hhits : ∀ fd e, Hits t h fd e ↔ Hits s h fd e) (fd : Nat) (e : UInt32) :
    FirstHit t h fd e ↔ FirstHit s h fd e := by
  simp only [FirstHit, hhits]

theorem RightAt.congr {s t : State} {h : Handle} (hh : t.handles h = s.handles h)
    (hhits : ∀ fd e, Hits t h fd e ↔ Hits s h fd e) (hs : RightAt s h) : RightAt t h := by
  intro o ho
  obtain ⟨hagree, hcached⟩ := hs o (hh ▸ ho)
  refine ⟨fun fd e hfirst => hagree fd e ((firstHit_congr hhits fd e).mp hfirst), fun hof => ?_⟩
  obtain ⟨fd, e, hhit⟩ := hcached hof
  exact ⟨fd, e, (hhits fd e).mpr hhit⟩

theorem RightAt.of_closed {s : State} {h : Handle} (hclosed : s.handles h = none) :
    RightAt s h := by
  intro o ho
  exact nomatch hclosed.symm.trans ho

/-! ## One operation -/

/-- Where a descriptor or a handle value is handed out anew, the entry that is
found first for the handle agrees with its mode.  A descriptor that is cached
has a place in the array. -/
def Agrees (c : Crt) (s : State) : Op → Prop
  | .wrapOpen oflag (some new) =>
      new.fd < OPEN_MAX c ∧
        ∀ fd e, FirstHit s new.handle fd e → fd < new.fd → e = oflag &&& O_APPEND
  | .openOsfhandle h fd =>
      ∀ e o, s.cache.oflag fd = some e → s.handles h = some o →
        (∀ fd' < fd, ∀ e', ¬ Hits s h fd' e') → e = o.mode
  | .createHandle h granted => ∀ fd e, FirstHit s h fd e → e = accessOflag granted
  | _ => True

/-- The state after a successful `__wrap_open`. -/
def opened (s : State) (oflag : UInt32) (new : Fresh) : State :=
  { s with
    cache :=
      { oflag := Function.update s.cache.oflag new.fd (some (oflag &&& O_APPEND))
        maxSize := if s.cache.maxSize ≤ new.fd then new.fd + 1 else s.cache.maxSize }
    crt := Function.update s.crt new.fd (some new.handle)
    handles := Function.update s.handles new.handle (some ⟨some oflag, new.granted⟩) }

section
variable {b : Build} {c : Crt} {s : State}

theorem wrapOpen_run {oflag : UInt32} {new : Fresh} (hfd : new.fd < OPEN_MAX c) :
    (Op.wrapOpen oflag (some new)).run b c s = opened s oflag new := by
  simp only [Op.run, fdCacheOflag, if_pos hfd]
  rfl

theorem opened_bounded (hbound : Bounded s) (oflag : UInt32) (new : Fresh) :
    Bounded (opened s oflag new) := by
  intro fd hle
  simp only [opened] at hle ⊢
  have hne : fd ≠ new.fd := by
    rintro rfl
    split at hle
    · omega
    · next hin => exact hin hle
  rw [Function.update_of_ne hne]
  refine hbound fd ?_
  split at hle
  · omega
  · exact hle

/-- The new handle is hit by the new descriptor, and by what was bound to its
value before. -/
theorem opened_hits {oflag : UInt32} {new : Fresh} (hfree : s.crt new.fd = none) (h : Handle)
    (fd : Nat) (e : UInt32) :
    Hits (opened s oflag new) h fd e ↔
      (h = new.handle ∧ fd = new.fd ∧ e = oflag &&& O_APPEND) ∨ Hits s h fd e := by
  by_cases hfd : fd = new.fd
  · subst hfd
    simp only [Hits, opened, Function.update_self, hfree, Option.some.injEq, reduceCtorEq,
      and_false, or_false, true_and]
    exact ⟨fun hh => ⟨hh.2.symm, hh.1.symm⟩, fun hh => ⟨hh.2.symm, hh.1.symm⟩⟩
  · simp [Hits, opened, hfd]

theorem openOsfhandle_hits {h : Handle} {fd : Nat} (hfree : s.crt fd = none) (h' : Handle)
    (fd' : Nat) (e : UInt32) :
    Hits ((Op.openOsfhandle h fd).run b c s) h' fd' e ↔
      (h' = h ∧ fd' = fd ∧ s.cache.oflag fd = some e) ∨ Hits s h' fd' e := by
  by_cases hfd : fd' = fd
  · subst hfd
    simp only [Hits, Op.run, Function.update_self, hfree, Option.some.injEq, reduceCtorEq,
      and_false, or_false, true_and]
    exact ⟨fun hh => ⟨hh.2.symm, hh.1⟩, fun hh => ⟨hh.2, hh.1.symm⟩⟩
  · simp [Hits, Op.run, hfd]

theorem wrapOpen_right (hs : Right s) {oflag : UInt32} {new : Fresh}
    (hok : Platform s (.wrapOpen oflag (some new)))
    (hagree : Agrees c s (.wrapOpen oflag (some new))) : Right (opened s oflag new) := by
  obtain ⟨hfree, hnew⟩ := hok
  refine ⟨hs.running, opened_bounded hs.bounded oflag new, fun h => ?_⟩
  by_cases hh : h = new.handle
  · subst hh
    have hself : Hits (opened s oflag new) new.handle new.fd (oflag &&& O_APPEND) :=
      (opened_hits hfree ..).mpr (Or.inl ⟨rfl, rfl, rfl⟩)
    intro o ho
    simp only [opened, Function.update_self, Option.some.injEq] at ho
    subst ho
    refine ⟨fun fd e hfirst => ?_, fun _ => ⟨new.fd, _, hself⟩⟩
    rcases (opened_hits hfree ..).mp hfirst.1 with ⟨-, -, he⟩ | hold
    · exact he
    · have hlt : fd < new.fd := by
        rcases Nat.lt_trichotomy fd new.fd with hlt | heq | hgt
        · exact hlt
        · subst heq
          exact nomatch hfree.symm.trans hold.2
        · exact absurd hself (hfirst.2 new.fd hgt _)
      refine hagree.2 fd e ⟨hold, fun fd' hfd' e' hhit => ?_⟩ hlt
      exact hfirst.2 fd' hfd' e' ((opened_hits hfree ..).mpr (Or.inr hhit))
  · refine (hs.right h).congr (Function.update_of_ne hh _ _) fun fd e => ?_
    rw [opened_hits hfree]
    exact or_iff_right fun h' => hh h'.1

theorem wrapOpen_wrong (hs : Right s) {oflag : UInt32} {new : Fresh}
    (hok : Platform s (.wrapOpen oflag (some new)))
    (hbad : ¬ Agrees c s (.wrapOpen oflag (some new))) :
    ¬ LookupsRight ((Op.wrapOpen oflag (some new)).run b c s) := by
  obtain ⟨hfree, hnew⟩ := hok
  by_cases hfd : new.fd < OPEN_MAX c
  · rw [wrapOpen_run hfd]
    have hstale : ¬ ∀ fd e, FirstHit s new.handle fd e → fd < new.fd → e = oflag &&& O_APPEND :=
      fun hall => hbad ⟨hfd, hall⟩
    simp only [not_forall] at hstale
    obtain ⟨fd, e, hfirst, hlt, hne⟩ := hstale
    have hstill : FirstHit (opened s oflag new) new.handle fd e := by
      refine ⟨(opened_hits hfree ..).mpr (Or.inr hfirst.1), fun fd' hfd' e' hhit => ?_⟩
      rcases (opened_hits hfree ..).mp hhit with ⟨-, heq, -⟩ | hold
      · omega
      · exact hfirst.2 fd' hfd' e' hold
    exact not_lookupsRight (opened_bounded hs.bounded oflag new) (Function.update_self ..)
      hstill hne
  · intro hright
    have hrun := hright.1
    simp only [Op.run, fdCacheOflag, if_neg hfd] at hrun
    cases b with
    | debug => cases hrun
    | ndebug => cases hrun

theorem openOsfhandle_right (hs : Right s) {h : Handle} {fd : Nat}
    (hok : Platform s (.openOsfhandle h fd)) (hagree : Agrees c s (.openOsfhandle h fd)) :
    Right ((Op.openOsfhandle h fd).run b c s) := by
  obtain ⟨hfree, -⟩ := hok
  refine ⟨hs.running, hs.bounded, fun h' o ho => ?_⟩
  obtain ⟨hagree', hcached⟩ := hs.right h' o ho
  constructor
  · intro fd' e hfirst
    have hbelow : ∀ x < fd', ∀ e', ¬ Hits s h' x e' := fun x hx e' hhit =>
      hfirst.2 x hx e' ((openOsfhandle_hits hfree ..).mpr (Or.inr hhit))
    rcases (openOsfhandle_hits hfree ..).mp hfirst.1 with ⟨rfl, rfl, hstale⟩ | hold
    · exact hagree e o hstale ho hbelow
    · exact hagree' fd' e ⟨hold, hbelow⟩
  · intro hof
    obtain ⟨fd', e, hhit⟩ := hcached hof
    exact ⟨fd', e, (openOsfhandle_hits hfree ..).mpr (Or.inr hhit)⟩

theorem openOsfhandle_wrong (hs : Right s) {h : Handle} {fd : Nat}
    (hok : Platform s (.openOsfhandle h fd)) (hbad : ¬ Agrees c s (.openOsfhandle h fd)) :
    ¬ LookupsRight ((Op.openOsfhandle h fd).run b c s) := by
  obtain ⟨hfree, -⟩ := hok
  simp only [Agrees, not_forall] at hbad
  obtain ⟨e, o, hstale, ho, hbelow, hne⟩ := hbad
  have hfirst : FirstHit ((Op.openOsfhandle h fd).run b c s) h fd e := by
    refine ⟨(openOsfhandle_hits hfree ..).mpr (Or.inl ⟨rfl, rfl, hstale⟩), ?_⟩
    intro fd' hfd' e' hhit
    rcases (openOsfhandle_hits hfree ..).mp hhit with ⟨-, heq, -⟩ | hold
    · omega
    · exact hbelow fd' hfd' e' hold
  exact not_lookupsRight hs.bounded ho hfirst hne

theorem createHandle_right (hs : Right s) {h : Handle} {granted : UInt32}
    (hagree : Agrees c s (.createHandle h granted)) :
    Right ((Op.createHandle h granted).run b c s) := by
  refine ⟨hs.running, hs.bounded, fun h' => ?_⟩
  by_cases hh : h' = h
  · subst hh
    intro o ho
    simp only [Op.run, Function.update_self, Option.some.injEq] at ho
    subst ho
    exact ⟨hagree, fun hof => nomatch hof⟩
  · exact (hs.right h').congr (Function.update_of_ne hh _ _) fun _ _ => Iff.rfl

theorem createHandle_wrong (hs : Right s) {h : Handle} {granted : UInt32}
    (hbad : ¬ Agrees c s (.createHandle h granted)) :
    ¬ LookupsRight ((Op.createHandle h granted).run b c s) := by
  simp only [Agrees, not_forall] at hbad
  obtain ⟨fd, e, hfirst, hne⟩ := hbad
  have hstill : FirstHit ((Op.createHandle h granted).run b c s) h fd e := hfirst
  exact not_lookupsRight hs.bounded (Function.update_self ..) hstill hne

theorem crtClose_right (hs : Right s) (fd : Nat) : Right ((Op.crtClose fd).run b c s) := by
  simp only [Op.run]
  split
  · exact hs
  · next h hopen =>
      refine ⟨hs.running, hs.bounded, fun h' => ?_⟩
      by_cases hh : h' = h
      · subst hh
        exact RightAt.of_closed (Function.update_self ..)
      · refine (hs.right h').congr (Function.update_of_ne hh _ _) fun fd' e => ?_
        -- `fd` was not bound to this handle
        by_cases hfd : fd' = fd
        · subst hfd
          simp [Hits, hopen, Ne.symm hh]
        · simp [Hits, Function.update_of_ne hfd]

theorem closeHandle_right (hs : Right s) (h : Handle) :
    Right ((Op.closeHandle h).run b c s) := by
  refine ⟨hs.running, hs.bounded, fun h' => ?_⟩
  by_cases hh : h' = h
  · subst hh
    exact RightAt.of_closed (Function.update_self ..)
  · exact (hs.right h').congr (Function.update_of_ne hh _ _) fun _ _ => Iff.rfl

theorem Evicts.right {t : State} (hev : Evicts s t) (hs : Right s) : Right t :=
  ⟨hev.stopped.trans hs.running, hev.bounded hs.bounded,
    fun h => (hs.right h).congr (congrFun hev.handles h) (hev.hits h)⟩

theorem lookup_right (hs : Right s) (h : Option Handle) : Right ((Op.lookup h).run b c s) := by
  cases h with
  | none => exact hs
  | some h => exact (scan_evicts h _ s 0).right hs

theorem step_running {op : Op} (hrun : s.stopped = none) : step b c s op = op.run b c s := by
  simp only [step, hrun]

/-- An operation that agrees keeps the lookups right. -/
theorem step_right (hs : Right s) {op : Op} (hok : Platform s op) (hagree : Agrees c s op) :
    Right (step b c s op) := by
  rw [step_running hs.running]
  cases op with
  | wrapOpen oflag res =>
      cases res with
      | none => exact hs
      | some new =>
          rw [wrapOpen_run hagree.1]
          exact wrapOpen_right hs hok hagree
  | openOsfhandle h fd => exact openOsfhandle_right hs hok hagree
  | createHandle h granted => exact createHandle_right hs hagree
  | crtClose fd => exact crtClose_right hs fd
  | closeHandle h => exact closeHandle_right hs h
  | lookup h => exact lookup_right hs h

/-- One that does not makes a lookup wrong, or stops the program. -/
theorem step_wrong (hs : Right s) {op : Op} (hok : Platform s op) (hbad : ¬ Agrees c s op) :
    ¬ LookupsRight (step b c s op) := by
  rw [step_running hs.running]
  cases op with
  | wrapOpen oflag res =>
      cases res with
      | none => exact absurd trivial hbad
      | some new => exact wrapOpen_wrong hs hok hbad
  | openOsfhandle h fd => exact openOsfhandle_wrong hs hok hbad
  | createHandle h granted => exact createHandle_wrong hs hbad
  | crtClose fd => exact absurd trivial hbad
  | closeHandle h => exact absurd trivial hbad
  | lookup h => exact absurd trivial hbad

end

theorem init_right : Right init :=
  ⟨rfl, fun _ _ => rfl, fun _ => RightAt.of_closed rfl⟩

/-! ## Runs -/

/-- **The append mode of handles.**  Along a run, a lookup of any open handle is
right in every state exactly if every operation of the run agrees. -/
theorem lookups_right {b : Build} {c : Crt} {ops : List Op} {s : State}
    (h : Run Platform (step b c) init ops s) :
    (∀ pre, pre <+: ops → LookupsRight (pre.foldl (step b c) init)) ↔
      Run (Agrees c) (step b c) init ops s :=
  Run.always_iff (fun _ hs => hs.lookups) (fun _ _ hs hok hagree => step_right hs hok hagree)
    (fun _ _ hs hok hbad => step_wrong hs hok hbad) h init_right

/-- A file opened for appending is closed, and one opened for writing gets the same
descriptor and handle. -/
def reopened : List Op :=
  [.wrapOpen (O_APPEND ||| 1) (some ⟨3, 100, FILE_WRITE_DATA ||| FILE_APPEND_DATA⟩),
   .crtClose 3,
   .wrapOpen 1 (some ⟨3, 100, FILE_WRITE_DATA ||| FILE_APPEND_DATA⟩)]

theorem lookups_right_reopened :
    (∀ pre, pre <+: reopened → LookupsRight (pre.foldl (step .debug .msvcrt) init)) ∧
    (getOsfhandleOflag (reopened.foldl (step .debug .msvcrt) init) (some 100)).1 = 0 := by
  have hlone : ∀ (s : State) (oflag : UInt32), (∀ fd < 3, s.crt fd = none) →
      Agrees .msvcrt s
        (.wrapOpen oflag (some ⟨3, 100, FILE_WRITE_DATA ||| FILE_APPEND_DATA⟩)) := by
    refine fun s oflag hfree => ⟨show 3 < 8192 by decide, fun fd e hfirst hlt => ?_⟩
    exact nomatch (hfree fd hlt).symm.trans hfirst.1.2
  have hgood : Run (Agrees .msvcrt) (step .debug .msvcrt) init reopened _ :=
    .cons (hlone _ _ (by decide)) (.cons trivial (.cons (hlone _ _ (by decide)) (.nil _)))
  exact ⟨(lookups_right (Run.of_allOk (by decide))).mpr hgood, by decide⟩

/-- A file opened for appending is closed.  A symbolic link is opened past
`__wrap_open` and gets the same descriptor and handle; its handle is closed, and
the value goes to a file opened for writing. -/
def staleEntry : List Op :=
  [.wrapOpen (O_APPEND ||| 1) (some ⟨3, 100, FILE_WRITE_DATA ||| FILE_APPEND_DATA⟩),
   .crtClose 3,
   .createHandle 100 1,
   .openOsfhandle 100 3,
   .closeHandle 100,
   .createHandle 100 (FILE_WRITE_DATA ||| FILE_APPEND_DATA)]

/-- The file opened for writing passes for one opened for appending. -/
theorem staleEntry_appends :
    Run Platform (step .debug .msvcrt) init staleEntry
      (staleEntry.foldl (step .debug .msvcrt) init) ∧
    ((staleEntry.foldl (step .debug .msvcrt) init).handles 100).map Opened.mode = some 0 ∧
    (getOsfhandleOflag (staleEntry.foldl (step .debug .msvcrt) init) (some 100)).1 = O_APPEND :=
  ⟨Run.of_allOk (by decide), by decide, by decide⟩

end LibcCompat.Winsup.FdCache
