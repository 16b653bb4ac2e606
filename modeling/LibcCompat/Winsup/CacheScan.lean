/-
# `LibcCompat.Winsup.CacheScan` — the bounded scan of the cache

`__get_osfhandle_oflag` does not look at all of `fd_cache`, but at the entries
below `fd_cache_max_size`, and takes that bound back where the last entry turns
out to be outdated.  What it passes over is no entry (`HighWater`).

What is proved (`scan_eq_scanAll`): in every run of the functions of the file,
whatever happens to descriptors and handles in between, a lookup answers what a
scan of all `OPEN_MAX` entries would, drops entries of closed descriptors only,
and answers the same again.
-/
import LibcCompat.Winsup.CacheBound

namespace LibcCompat.Winsup.FdCache

open LibcCompat.Lib

/-! ## The calls -/

/-- A call of a function of the file, or what happens between two of them: a
descriptor is closed, or descriptors and handles are opened and closed in any
other way. -/
inductive Call where
  | fdCacheOflag (fd : Nat) (oflag : UInt32)
  | getOsfhandleOflag (h : Option Handle)
  | close (fd : Nat)
  | outside (crt : Nat → Option Handle) (handles : Handle → Option Opened)

/-- What a call does while the program runs. -/
def Call.run (b : Build) (c : Crt) (s : State) : Call → State
  | .fdCacheOflag fd oflag => FdCache.fdCacheOflag b c s fd oflag
  | .getOsfhandleOflag h => (FdCache.getOsfhandleOflag s h).2
  | .close fd => (Op.crtClose fd).run b c s
  | .outside crt handles => { s with crt, handles }

/-- A stopped program makes no further call. -/
def call (b : Build) (c : Crt) (s : State) (a : Call) : State :=
  match s.stopped with
  | some _ => s
  | none => a.run b c s

/-- The descriptor is an index of the array. -/
def InRange (c : Crt) : Call → Prop
  | .fdCacheOflag fd _ => fd < OPEN_MAX c
  | _ => True

instance decInRange (c : Crt) : ∀ a : Call, Decidable (InRange c a)
  | .fdCacheOflag fd _ => inferInstanceAs (Decidable (fd < OPEN_MAX c))
  | .getOsfhandleOflag _ => .isTrue trivial
  | .close _ => .isTrue trivial
  | .outside _ _ => .isTrue trivial

/-- A scan of `n` entries from `fd` on, without a bound and without a change. -/
def scanFrom (h : Handle) (s : State) : Nat → Nat → UInt32
  | 0, _ => getOsfhandleOflagFallback s h
  | n + 1, fd =>
      match s.cache.oflag fd with
      | none => scanFrom h s n (fd + 1)
      | some oflag =>
          match s.crt fd with
          | none => scanFrom h s n (fd + 1)
          | some other => if h = other then oflag else scanFrom h s n (fd + 1)

/-- The same with all entries of the array. -/
def scanAll (c : Crt) (s : State) : Option Handle → UInt32
  | none => 0
  | some h => scanFrom h s (OPEN_MAX c) 0

/-- No entry lies past the bound, and the bound not past the array. -/
structure HighWater (c : Crt) (s : State) : Prop extends Small c s where
  bounded : Bounded s

/-- A lookup finds what a scan of all entries would, drops the entries of closed
descriptors only, and finds the same again after any lookups. -/
structure LooksUpAll (c : Crt) (s : State) (h : Option Handle) : Prop where
  all : (getOsfhandleOflag s h).1 = scanAll c s h
  drops : ∀ fd, (getOsfhandleOflag s h).2.cache.oflag fd = s.cache.oflag fd ∨
    s.crt fd = none ∧ (getOsfhandleOflag s h).2.cache.oflag fd = none
  again : ∀ hs : List (Option Handle),
    (getOsfhandleOflag (hs.foldl (fun s h => (getOsfhandleOflag s h).2) s) h).1 =
      (getOsfhandleOflag s h).1

/-! ## The two scans -/

section
variable {b : Build} {c : Crt} {s t : State}

theorem scanFrom_none (h : Handle) (n fd : Nat) (hnone : ∀ i, fd ≤ i → s.cache.oflag i = none) :
    scanFrom h s n fd = getOsfhandleOflagFallback s h := by
  induction n generalizing fd with
  | zero => rfl
  | succ n ih =>
      rw [scanFrom, hnone fd (Nat.le_refl fd)]
      exact ih (fd + 1) fun i hi => hnone i (Nat.le_of_succ_le hi)

/-- An entry that is passed does not matter any more. -/
theorem scanFrom_evict (h : Handle) (s : State) (n : Nat) {fd fd' : Nat} (hlt : fd' < fd) :
    scanFrom h (evict s fd') n fd = scanFrom h s n fd := by
  induction n generalizing fd with
  | zero => rfl
  | succ n ih =>
      have hentry : (evict s fd').cache.oflag fd = s.cache.oflag fd :=
        Function.update_of_ne (Nat.ne_of_gt hlt) _ _
      have hcrt : (evict s fd').crt fd = s.crt fd := rfl
      have hrest := ih (Nat.lt_succ_of_lt hlt)
      simp only [scanFrom, hentry, hcrt, hrest]

/-- The bounded scan answers what the other does. -/
theorem scan_eq_scanFrom (h : Handle) (fuel n : Nat) (s : State) (fd : Nat)
    (hbound : Bounded s) (hfuel : s.cache.maxSize ≤ fd + fuel) (hn : s.cache.maxSize ≤ fd + n) :
    (scan h fuel s fd).1 = scanFrom h s n fd := by
  induction fuel generalizing s fd n with
  | zero => exact (scanFrom_none h n fd fun i hi => hbound i (by omega)).symm
  | succ fuel ih =>
      unfold scan
      by_cases hlt : fd < s.cache.maxSize
      · obtain ⟨m, rfl⟩ : ∃ m, n = m + 1 := ⟨n - 1, by omega⟩
        rw [if_pos hlt, scanFrom]
        cases s.cache.oflag fd with
        | none => exact ih m s (fd + 1) hbound (by omega) (by omega)
        | some oflag =>
            dsimp only
            cases hcrt : s.crt fd with
            | none =>
                have hev := evict_evicts hcrt
                have hle := evict_maxSize_le s fd
                dsimp only
                rw [ih m (evict s fd) (fd + 1) (hev.bounded hbound) (by omega) (by omega)]
                exact scanFrom_evict h s m (Nat.lt_succ_self fd)
            | some other =>
                dsimp only
                by_cases hother : h = other
                · rw [if_pos hother, if_pos hother]
                · rw [if_neg hother, if_neg hother]
                  exact ih m s (fd + 1) hbound (by omega) (by omega)
      · rw [if_neg hlt]
        exact (scanFrom_none h n fd fun i hi => hbound i (by omega)).symm

theorem scan_drops (h : Handle) (fuel : Nat) (s : State) (fd i : Nat) :
    (scan h fuel s fd).2.cache.oflag i = s.cache.oflag i ∨
      s.crt i = none ∧ (scan h fuel s fd).2.cache.oflag i = none := by
  induction fuel generalizing s fd with
  | zero => exact .inl rfl
  | succ fuel ih =>
      unfold scan
      split
      · split
        · exact ih s (fd + 1)
        · split
          · next hclosed =>
              rcases ih (evict s fd) (fd + 1) with hsame | hdropped
              · rw [hsame]
                by_cases hi : i = fd
                · subst hi
                  exact .inr ⟨hclosed, Function.update_self ..⟩
                · exact .inl (Function.update_of_ne hi _ _)
              · exact .inr hdropped
          · split
            · exact .inl rfl
            · exact ih s (fd + 1)
      · exact .inl rfl

theorem getOsfhandleOflag_evicts (s : State) (h : Option Handle) :
    Evicts s (getOsfhandleOflag s h).2 := by
  cases h with
  | none => exact Evicts.refl s
  | some h => exact scan_evicts h _ s 0

theorem getOsfhandleOflag_maxSize_le (s : State) (h : Option Handle) :
    (getOsfhandleOflag s h).2.cache.maxSize ≤ s.cache.maxSize := by
  cases h with
  | none => exact Nat.le_refl _
  | some h => exact scan_maxSize_le h _ s 0

/-- Where only entries of closed descriptors are dropped, a lookup of a handle
finds the same. -/
theorem Evicts.lookup_eq (hev : Evicts s t) (hs : Bounded s) (h : Option Handle) :
    (getOsfhandleOflag t h).1 = (getOsfhandleOflag s h).1 := by
  cases h with
  | none => rfl
  | some h =>
      rcases Classical.em (∃ fd e, Hits s h fd e) with ⟨fd, e, hhit⟩ | hnone
      · obtain ⟨first, e', hfirst⟩ := exists_firstHit hhit
        have hfirst' := (firstHit_congr (hev.hits h) first e').mpr hfirst
        rw [lookup_firstHit hs hfirst, lookup_firstHit (hev.bounded hs) hfirst']
      · have hmiss : (getOsfhandleOflag s (some h)).1 = getOsfhandleOflagFallback s h :=
          scan_miss _ s 0 fun fd e hhit => hnone ⟨fd, e, hhit⟩
        have hmiss' : (getOsfhandleOflag t (some h)).1 = getOsfhandleOflagFallback t h :=
          scan_miss _ t 0 fun fd e hhit => hnone ⟨fd, e, (hev.hits h fd e).mp hhit⟩
        rw [hmiss, hmiss', fallback_evicts hev]

theorem lookups_evict (hs : List (Option Handle)) (s : State) :
    Evicts s (hs.foldl (fun s h => (getOsfhandleOflag s h).2) s) := by
  induction hs generalizing s with
  | nil => exact Evicts.refl s
  | cons h hs ih => exact (getOsfhandleOflag_evicts s h).trans (ih _)

theorem HighWater.looksUpAll (hs : HighWater c s) (h : Option Handle) : LooksUpAll c s h where
  all := by
    cases h with
    | none => rfl
    | some h =>
        have hbound := hs.bound
        exact scan_eq_scanFrom h _ _ s 0 hs.bounded (by omega) (by omega)
  drops := by
    intro fd
    cases h with
    | none => exact .inl rfl
    | some h => exact scan_drops h _ s 0 fd
  again hs' := (lookups_evict hs' s).lookup_eq hs.bounded h

/-! ## The calls keep the bound -/

theorem fdCacheOflag_highWater (hs : HighWater c s) {fd : Nat} (hfd : fd < OPEN_MAX c)
    (oflag : UInt32) : HighWater c (fdCacheOflag b c s fd oflag) := by
  have hbound := hs.bound
  have hopened : Bounded (opened s oflag ⟨fd, 0, 0⟩) := opened_bounded hs.bounded oflag _
  unfold fdCacheOflag
  rw [if_pos hfd]
  refine ⟨⟨hs.running, ?_⟩, hopened⟩
  dsimp only
  split
  · exact hfd
  · exact hbound

theorem crtClose_cache (b : Build) (c : Crt) (s : State) (fd : Nat) :
    ((Op.crtClose fd).run b c s).cache = s.cache ∧
      ((Op.crtClose fd).run b c s).stopped = s.stopped := by
  unfold Op.run
  dsimp only
  split
  · exact ⟨rfl, rfl⟩
  · exact ⟨rfl, rfl⟩

theorem HighWater.of_cache (hs : HighWater c s) (hcache : t.cache = s.cache)
    (hstopped : t.stopped = s.stopped) : HighWater c t := by
  refine ⟨⟨hstopped.trans hs.running, hcache ▸ hs.bound⟩, fun fd hfd => ?_⟩
  rw [hcache] at hfd ⊢
  exact hs.bounded fd hfd

theorem call_running (hrun : s.stopped = none) (a : Call) : call b c s a = a.run b c s := by
  simp only [call, hrun]

theorem call_highWater (hs : HighWater c s) {a : Call} (ha : InRange c a) :
    HighWater c (call b c s a) := by
  rw [call_running hs.running]
  cases a with
  | fdCacheOflag fd oflag => exact fdCacheOflag_highWater hs ha oflag
  | getOsfhandleOflag h =>
      have hev := getOsfhandleOflag_evicts s h
      refine ⟨⟨hev.stopped.trans hs.running, ?_⟩, hev.bounded hs.bounded⟩
      exact Nat.le_trans (getOsfhandleOflag_maxSize_le s h) hs.bound
  | close fd =>
      obtain ⟨hcache, hstopped⟩ := crtClose_cache b c s fd
      exact hs.of_cache hcache hstopped
  | outside crt handles => exact hs.of_cache rfl rfl

theorem init_highWater (c : Crt) : HighWater c init := ⟨init_small c, fun _ _ => rfl⟩

end

/-! ## Runs -/

/-- **The bounded scan.**  After any calls with descriptors that are indices of the
array, no entry lies past the bound and the bound not past the array, and every
lookup finds what a scan of all entries would, drops the entries of closed
descriptors only, and finds the same again. -/
theorem scan_eq_scanAll {b : Build} {c : Crt} {calls : List Call} {t : State}
    (h : Run (fun _ => InRange c) (call b c) init calls t) :
    HighWater c t ∧ ∀ handle, LooksUpAll c t handle := by
  have ht : HighWater c t :=
    h.inv (P := HighWater c) (fun _ _ hs ha => call_highWater hs ha) (init_highWater c)
  exact ⟨ht, ht.looksUpAll⟩

theorem run_call {b : Build} {c : Crt} {s t : State} {calls : List Call} {a : Call}
    (hrun : s.stopped = none) (ha : InRange c a)
    (h : Run (fun _ => InRange c) (call b c) (a.run b c s) calls t) :
    Run (fun _ => InRange c) (call b c) s (a :: calls) t :=
  .cons ha ((call_running hrun a).symm ▸ h)

/-- What `FdCache` has for one operation is some of these calls. -/
theorem step_calls {b : Build} {c : Crt} {s : State} (hrun : s.stopped = none) (op : Op)
    (hin : ∀ i ∈ indices s op, i < OPEN_MAX c) :
    ∃ calls, Run (fun _ => InRange c) (call b c) s calls (step b c s op) := by
  rw [step_running hrun]
  cases op with
  | wrapOpen oflag res =>
      cases res with
      | none => exact ⟨[], .nil s⟩
      | some new =>
          -- the descriptor is there, and then its entry is made
          refine ⟨[.outside (Function.update s.crt new.fd (some new.handle))
            (Function.update s.handles new.handle (some ⟨some oflag, new.granted⟩)),
            .fdCacheOflag new.fd oflag], ?_⟩
          refine run_call hrun trivial (run_call hrun ?_ (.nil _))
          exact hin new.fd (List.mem_singleton_self _)
  | openOsfhandle h fd => exact ⟨[.outside _ _], run_call hrun trivial (.nil _)⟩
  | createHandle h granted => exact ⟨[.outside _ _], run_call hrun trivial (.nil _)⟩
  | crtClose fd => exact ⟨[.close fd], run_call hrun trivial (.nil _)⟩
  | closeHandle h => exact ⟨[.outside _ _], run_call hrun trivial (.nil _)⟩
  | lookup h => exact ⟨[.getOsfhandleOflag h], run_call hrun trivial (.nil _)⟩

theorem highWater_of_inBounds {b : Build} {c : Crt} {ops : List Op} {t : State}
    (h : Run (InBounds b c) (step b c) init ops t) : HighWater c t := by
  refine h.inv (P := HighWater c) (fun s op hs hin => ?_) (init_highWater c)
  obtain ⟨calls, hcalls⟩ := step_calls (b := b) hs.running op hin.1
  exact hcalls.inv (P := HighWater c) (fun _ _ hs ha => call_highWater hs ha) hs

/-- Entries 3 and 7 are made, 7 is closed, and a lookup drops it. -/
def dropLast : List Call :=
  [.fdCacheOflag 3 O_APPEND, .fdCacheOflag 7 0,
    .outside (fun fd => if fd = 3 then some 100 else none) fun _ => none,
    .getOsfhandleOflag (some 200)]

theorem scan_eq_scanAll_dropLast :
    HighWater .ucrt (dropLast.foldl (call .debug .ucrt) init) ∧
      ∀ handle, LooksUpAll .ucrt (dropLast.foldl (call .debug .ucrt) init) handle :=
  scan_eq_scanAll (Run.of_allOk (by decide))

/-- The bound comes back to 7, over the hole, and the first entry is found. -/
example : (dropLast.foldl (call .debug .ucrt) init).cache.maxSize = 7 ∧
    (getOsfhandleOflag (dropLast.foldl (call .debug .ucrt) init) (some 100)).1 = O_APPEND := by
  decide

end LibcCompat.Winsup.FdCache
