/-
# `LibcCompat.Winsup.CacheBound` — the indices into `fd_cache`

The array has `OPEN_MAX` entries, one for each descriptor the C runtime hands
out.  The two values are there, but the test for the runtime is the wrong way
round: with UCRT, which has 8192 descriptors, the array has 2048 entries.

What is proved (`indices_inBounds`): all indices of a run lie in the array
exactly if each successful open finds a descriptor free that has an entry.  With
msvcrt that is always so (`inBounds_msvcrt`).
-/
import LibcCompat.Winsup.Append

namespace LibcCompat.Winsup.FdCache

open LibcCompat.Lib

/-- How many descriptors the C runtime has. -/
def descriptors : Crt → Nat
  | .msvcrt => 2048
  | .ucrt => 8192

/-- The entries that the loop of `__get_osfhandle_oflag` looks at, from `fd` on. -/
def scanReads (h : Handle) : Nat → State → Nat → List Nat
  | 0, _, _ => []
  | fuel + 1, s, fd =>
      if fd < s.cache.maxSize then
        fd :: match s.cache.oflag fd with
          | none => scanReads h fuel s (fd + 1)
          | some _ =>
              match s.crt fd with
              | none => scanReads h fuel (evict s fd) (fd + 1)
              | some other => if h = other then [] else scanReads h fuel s (fd + 1)
      else []

/-- The indices of the array that an operation writes or reads. -/
def indices (s : State) : Op → List Nat
  | .wrapOpen _ (some new) => [new.fd]
  | .lookup (some h) => scanReads h s.cache.maxSize s 0
  | _ => []

/-- The descriptor that is handed out. -/
def Op.handedOut : Op → Option Nat
  | .wrapOpen _ (some new) => some new.fd
  | .openOsfhandle _ fd => some fd
  | _ => none

/-- The C runtime hands out its smallest free descriptor. -/
def HandsOut (c : Crt) (s : State) (op : Op) : Prop :=
  Platform s op ∧ ∀ fd ∈ op.handedOut, fd < descriptors c ∧ ∀ fd' < fd, s.crt fd' ≠ none

/-- All indices lie in the array, and the program goes on. -/
def InBounds (b : Build) (c : Crt) (s : State) (op : Op) : Prop :=
  (∀ i ∈ indices s op, i < OPEN_MAX c) ∧ (step b c s op).stopped = none

/-- If a file is opened, a descriptor is free that has an entry. -/
def Fits (c : Crt) (s : State) : Op → Prop
  | .wrapOpen _ (some _) => ∃ fd < OPEN_MAX c, s.crt fd = none
  | _ => True

/-! ## The steps -/

/-- The loops end inside the array. -/
structure Small (c : Crt) (s : State) : Prop where
  running : s.stopped = none
  bound : s.cache.maxSize ≤ OPEN_MAX c

section
variable {b : Build} {c : Crt} {s : State}

theorem scan_maxSize_le (h : Handle) (fuel : Nat) (s : State) (fd : Nat) :
    (scan h fuel s fd).2.cache.maxSize ≤ s.cache.maxSize := by
  induction fuel generalizing s fd with
  | zero => exact Nat.le_refl _
  | succ fuel ih =>
      unfold scan
      split
      · split
        · exact ih s (fd + 1)
        · split
          · exact Nat.le_trans (ih _ (fd + 1)) (evict_maxSize_le s fd)
          · split
            · exact Nat.le_refl _
            · exact ih s (fd + 1)
      · exact Nat.le_refl _

theorem scanReads_lt (h : Handle) (fuel : Nat) (s : State) (fd : Nat) :
    ∀ i ∈ scanReads h fuel s fd, i < s.cache.maxSize := by
  induction fuel generalizing s fd with
  | zero => exact nofun
  | succ fuel ih =>
      unfold scanReads
      split
      · next hlt =>
          refine List.forall_mem_cons.mpr ⟨hlt, ?_⟩
          split
          · exact ih s (fd + 1)
          · split
            · exact fun i hi => Nat.lt_of_lt_of_le (ih _ (fd + 1) i hi) (evict_maxSize_le s fd)
            · split
              · exact nofun
              · exact ih s (fd + 1)
      · exact nofun

/-- The loop reads no other entry: with other values there it finds the same. -/
theorem scan_congr_reads (h : Handle) (fuel : Nat) (s : State) (fd : Nat)
    (oflag : Nat → Option UInt32)
    (hsame : ∀ i ∈ scanReads h fuel s fd, oflag i = s.cache.oflag i) :
    (scan h fuel { s with cache := { s.cache with oflag } } fd).1 = (scan h fuel s fd).1 := by
  induction fuel generalizing s fd oflag with
  | zero => rfl
  | succ fuel ih =>
      unfold scanReads at hsame
      unfold scan
      by_cases hlt : fd < s.cache.maxSize
      · rw [if_pos hlt] at hsame
        obtain ⟨hfd, hrest⟩ := List.forall_mem_cons.mp hsame
        simp only [if_pos hlt, hfd]
        cases hentry : s.cache.oflag fd with
        | none =>
            rw [hentry] at hrest
            exact ih s (fd + 1) oflag hrest
        | some flag =>
            rw [hentry] at hrest
            dsimp only at hrest ⊢
            cases hcrt : s.crt fd with
            | none =>
                rw [hcrt] at hrest
                -- the dropped entry is the same in both
                refine ih (evict s fd) (fd + 1) (Function.update oflag fd none) fun i hi => ?_
                by_cases hi' : i = fd
                · subst hi'
                  simp only [evict, Function.update_self]
                · simp only [evict, Function.update_of_ne hi']
                  exact hrest i hi
            | some other =>
                rw [hcrt] at hrest
                dsimp only at hrest ⊢
                by_cases hother : h = other
                · simp only [if_pos hother]
                · rw [if_neg hother] at hrest
                  simp only [if_neg hother]
                  exact ih s (fd + 1) oflag hrest
      · simp only [if_neg hlt]
        rfl

/-- The descriptor handed out has an entry if any free one has. -/
theorem fits_iff {oflag : UInt32} {new : Fresh}
    (h : HandsOut c s (.wrapOpen oflag (some new))) :
    Fits c s (.wrapOpen oflag (some new)) ↔ new.fd < OPEN_MAX c := by
  obtain ⟨⟨hfree, -⟩, hleast⟩ := h
  constructor
  · rintro ⟨fd, hlt, hfd⟩
    refine Nat.lt_of_le_of_lt (Nat.not_lt.mp fun hless => ?_) hlt
    exact (hleast new.fd rfl).2 fd hless hfd
  · exact fun hlt => ⟨new.fd, hlt, hfree⟩

theorem opens_or_fits (op : Op) :
    (∃ oflag new, op = .wrapOpen oflag (some new)) ∨ ∀ c s, Fits c s op := by
  cases op with
  | wrapOpen oflag res =>
      cases res with
      | none => exact .inr fun _ _ => trivial
      | some new => exact .inl ⟨oflag, new, rfl⟩
  | openOsfhandle h fd => exact .inr fun _ _ => trivial
  | createHandle h granted => exact .inr fun _ _ => trivial
  | crtClose fd => exact .inr fun _ _ => trivial
  | closeHandle h => exact .inr fun _ _ => trivial
  | lookup h => exact .inr fun _ _ => trivial

theorem step_small (hs : Small c s) {op : Op} (hok : HandsOut c s op) (hfits : Fits c s op) :
    Small c (step b c s op) := by
  rw [step_running hs.running]
  cases op with
  | wrapOpen oflag res =>
      cases res with
      | none => exact hs
      | some new =>
          have hlt := (fits_iff hok).mp hfits
          have hbound := hs.bound
          rw [wrapOpen_run hlt]
          refine ⟨hs.running, ?_⟩
          simp only [opened]
          split
          · omega
          · exact hbound
  | openOsfhandle h fd => exact ⟨hs.running, hs.bound⟩
  | createHandle h granted => exact ⟨hs.running, hs.bound⟩
  | crtClose fd =>
      unfold Op.run
      dsimp only
      split
      · exact hs
      · exact ⟨hs.running, hs.bound⟩
  | closeHandle h => exact ⟨hs.running, hs.bound⟩
  | lookup h =>
      cases h with
      | none => exact hs
      | some h =>
          have hev := scan_evicts h s.cache.maxSize s 0
          exact ⟨hev.stopped.trans hs.running,
            Nat.le_trans (scan_maxSize_le h _ s 0) hs.bound⟩

theorem inBounds_iff (hs : Small c s) {op : Op} (hok : HandsOut c s op) :
    InBounds b c s op ↔ Fits c s op := by
  constructor
  · rintro ⟨hindices, -⟩
    rcases opens_or_fits op with ⟨oflag, new, rfl⟩ | hfits
    · exact (fits_iff hok).mpr (hindices new.fd (List.mem_singleton_self _))
    · exact hfits c s
  · intro hfits
    refine ⟨?_, (step_small hs hok hfits).running⟩
    cases op with
    | wrapOpen oflag res =>
        cases res with
        | none => exact nofun
        | some new =>
            intro i hi
            rw [List.mem_singleton.mp hi]
            exact (fits_iff hok).mp hfits
    | openOsfhandle h fd => exact nofun
    | createHandle h granted => exact nofun
    | crtClose fd => exact nofun
    | closeHandle h => exact nofun
    | lookup h =>
        cases h with
        | none => exact nofun
        | some h => exact fun i hi => Nat.lt_of_lt_of_le (scanReads_lt h _ s 0 i hi) hs.bound

theorem init_small (c : Crt) : Small c init := ⟨rfl, Nat.zero_le _⟩

end

/-! ## Runs -/

/-- **The indices.**  Along a run all indices lie in the array, and the program
goes on, exactly if each operation of the run fits. -/
theorem indices_inBounds {b : Build} {c : Crt} {ops : List Op} {t : State}
    (h : Run (HandsOut c) (step b c) init ops t) :
    Run (InBounds b c) (step b c) init ops t ↔ Run (Fits c) (step b c) init ops t :=
  Run.congr_of_inv (fun _ _ hs hok => inBounds_iff hs hok)
    (fun _ _ hs hok hfits => step_small hs hok hfits) h (init_small c)

theorem fits_msvcrt {s : State} {op : Op} (h : HandsOut .msvcrt s op) : Fits .msvcrt s op := by
  rcases opens_or_fits op with ⟨oflag, new, rfl⟩ | hfits
  · have hlt : new.fd < 2048 := (h.2 new.fd rfl).1
    have hmax : OPEN_MAX .msvcrt = 8192 := rfl
    exact (fits_iff h).mpr (by omega)
  · exact hfits .msvcrt s

theorem inBounds_msvcrt {b : Build} {ops : List Op} {t : State}
    (h : Run (HandsOut .msvcrt) (step b .msvcrt) init ops t) :
    Run (InBounds b .msvcrt) (step b .msvcrt) init ops t := by
  have hin : ∀ s op, Small .msvcrt s → HandsOut .msvcrt s op →
      (InBounds b .msvcrt s op ↔ HandsOut .msvcrt s op) :=
    fun s op hs hok => iff_of_true ((inBounds_iff hs hok).mpr (fits_msvcrt hok)) hok
  exact (Run.congr_of_inv hin (fun s op hs hok _ => step_small hs hok (fits_msvcrt hok)) h
    (init_small .msvcrt)).mpr h

/-- A file is opened and closed again. -/
def openClose : List Op :=
  [.wrapOpen 0 (some ⟨0, 4, FILE_WRITE_DATA⟩), .lookup (some 4), .crtClose 0]

instance decHandsOut (c : Crt) (s : State) (op : Op) : Decidable (HandsOut c s op) :=
  instDecidableAnd

theorem indices_inBounds_openClose :
    Run (InBounds .debug .ucrt) (step .debug .ucrt) init openClose
      (openClose.foldl (step .debug .ucrt) init) :=
  (indices_inBounds (Run.of_allOk (by decide))).mpr
    (.cons ⟨0, by decide, rfl⟩ (.cons trivial (.cons trivial (.nil _))))

/-! ## Too many files -/

/-- A file is opened, with descriptor and handle `n`. -/
def openNth (n : Nat) : Op := .wrapOpen 0 (some ⟨n, n, FILE_WRITE_DATA⟩)

/-- `n` files are open. -/
def manyOpen (n : Nat) : State where
  cache := ⟨fun i => if i < n then some 0 else none, n⟩
  crt i := if i < n then some i else none
  handles i := if i < n then some ⟨some 0, FILE_WRITE_DATA⟩ else none
  stopped := none

theorem manyOpen_handsOut {n : Nat} (hn : n < 8192) : HandsOut .ucrt (manyOpen n) (openNth n) := by
  refine ⟨⟨if_neg (Nat.lt_irrefl n), if_neg (Nat.lt_irrefl n)⟩, ?_⟩
  intro fd hfd
  cases hfd
  refine ⟨hn, fun fd' hlt => ?_⟩
  simp only [manyOpen]
  rw [if_pos hlt]
  exact nofun

theorem update_below {α : Type} (n : Nat) (a : Nat → α) :
    Function.update (fun i => if i < n then some (a i) else none) n (some (a n)) =
      fun i => if i < n + 1 then some (a i) else none := by
  funext i
  by_cases hi : i = n
  · subst hi
    rw [Function.update_self, if_pos (Nat.lt_succ_self i)]
  · rw [Function.update_of_ne hi]
    have hiff : i < n ↔ i < n + 1 := by omega
    simp only [hiff]

theorem manyOpen_step (b : Build) {n : Nat} (hn : n < 2048) :
    step b .ucrt (manyOpen n) (openNth n) = manyOpen (n + 1) := by
  have hlt : n < OPEN_MAX .ucrt := hn
  have hflag : (0 : UInt32) &&& O_APPEND = 0 := rfl
  rw [step_running rfl, openNth, wrapOpen_run hlt]
  simp only [opened, manyOpen, hflag, Nat.le_refl, if_true]
  rw [update_below n fun _ => (0 : UInt32), update_below n fun i => i,
    update_below n fun _ => (⟨some 0, FILE_WRITE_DATA⟩ : Opened)]

/-- One more open than there are entries: the last descriptor has none. -/
theorem manyOpen_overruns (b : Build) {m k : Nat} (hk : k + m = 2048) :
    Run (HandsOut .ucrt) (step b .ucrt) (manyOpen k) ((List.range' k (m + 1)).map openNth)
        (step b .ucrt (manyOpen 2048) (openNth 2048)) ∧
      ∀ t, ¬ Run (InBounds b .ucrt) (step b .ucrt) (manyOpen k)
        ((List.range' k (m + 1)).map openNth) t := by
  induction m generalizing k with
  | zero =>
      obtain rfl : k = 2048 := by omega
      refine ⟨.cons (manyOpen_handsOut (by decide)) (.nil _), fun t hrun => ?_⟩
      have hindex : 2048 < OPEN_MAX .ucrt := hrun.head.1.1 2048 (List.mem_singleton_self _)
      exact absurd hindex (by decide)
  | succ m ih =>
      obtain ⟨hrun, hout⟩ := ih (k := k + 1) (by omega)
      rw [List.range'_succ, List.map_cons]
      constructor
      · refine .cons (manyOpen_handsOut (by omega)) ?_
        rw [manyOpen_step b (by omega)]
        exact hrun
      · intro t hbad
        have hrest := hbad.head.2
        rw [manyOpen_step b (by omega)] at hrest
        exact hout t hrest

/-- 2049 files are opened, and none is closed. -/
def openMany : List Op := (List.range' 0 2049).map openNth

/-- With UCRT the last one is past the end of the array: the assert fails, or the
array is overrun. -/
theorem openMany_overruns :
    (∃ t, Run (HandsOut .ucrt) (step .debug .ucrt) init openMany t ∧
      t.stopped = some .aborted ∧
      ¬ Run (InBounds .debug .ucrt) (step .debug .ucrt) init openMany t) ∧
    (∃ t, Run (HandsOut .ucrt) (step .ndebug .ucrt) init openMany t ∧
      t.stopped = some .undefined ∧
      ¬ Run (InBounds .ndebug .ucrt) (step .ndebug .ucrt) init openMany t) := by
  have hinit : init = manyOpen 0 := by
    simp only [init, manyOpen, Nat.not_lt_zero, if_false]
  rw [hinit]
  constructor
  · obtain ⟨hrun, hout⟩ := manyOpen_overruns .debug (m := 2048) (k := 0) rfl
    exact ⟨_, hrun, rfl, hout _⟩
  · obtain ⟨hrun, hout⟩ := manyOpen_overruns .ndebug (m := 2048) (k := 0) rfl
    exact ⟨_, hrun, rfl, hout _⟩

end LibcCompat.Winsup.FdCache
