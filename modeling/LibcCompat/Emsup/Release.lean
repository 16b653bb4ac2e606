/-
# `LibcCompat.Emsup.Release` — the two builds of `mmap_hack.c`

`post_munmap_hook` makes a delayed close inside `assert`, so the build with
`NDEBUG` never makes it.  What is proved: the two builds take the same step
except at a delayed close (`step_ndebug`), where only the build with asserts
makes a call (`delayedClose_closes`); so along a run in which no assert fails
they make the same calls exactly if no operation is a delayed close.
-/
import LibcCompat.Emsup.MmapHack
import LibcCompat.Lib.Run

namespace LibcCompat.Emsup

open LibcCompat.Lib

/-- The calls made to the platform. -/
def State.calls (s : State) : List Call := s.log.map Record.call

/-- The operation unmaps the last tracked mapping of a descriptor marked for close. -/
def delayedClose (s : State) : Op → Bool
  | .munmap addr _ res _ =>
      match s.maps.find? (·.ptr == addr) with
      | none => false
      | some i =>
          !(res < 0) && i.wantClose &&
            ((s.maps.eraseP (·.ptr == addr)).find? (·.fd == i.fd)).isNone
  | _ => false

theorem assertThen_ndebug (cond : Bool) (s : State) (k : State → State) :
    assertThen .ndebug cond s k = k s := rfl

theorem assertThen_debug {cond : Bool} {s : State} {k : State → State}
    (h : (assertThen .debug cond s k).stopped = none) : cond = true ∧
      assertThen .debug cond s k = k s := by
  cases cond with
  | true => exact ⟨rfl, rfl⟩
  | false => cases h

theorem assertZero_debug {res : Int} {call : State → State} {s : State}
    (h : (assertZero .debug res call s).stopped = none) :
    assertZero .debug res call s = call s := by
  simp only [assertZero] at h ⊢
  split at h
  · next hres => rw [if_pos hres]
  · cases h

theorem realFclose_calls {s : State} {fp : Option FilePtr} {res : Int}
    (h : (realFclose s fp res).stopped = none) :
    ∃ c, (realFclose s fp res).calls = s.calls ++ [c] := by
  cases fp with
  | none => cases h
  | some fp =>
      simp only [realFclose] at h ⊢
      cases hst : s.world.streams fp with
      | none => exact nomatch hst ▸ h
      | some st => exact ⟨.fclose fp res, List.map_append⟩

theorem realClose_calls (s : State) (fd : Fd) (res : Int) :
    ∃ c, (realClose s fd res).calls = s.calls ++ [c] :=
  ⟨.close fd res, List.map_append⟩

/-! ## One operation -/

theorem postMunmapHook_ndebug {s : State} {map : MapEntry} {len : Nat} {res : Int}
    (hsib : (s.maps.find? (·.fd == map.fd)).isSome)
    (h : (postMunmapHook .debug s map len res).stopped = none) :
    postMunmapHook .ndebug s map len res = postMunmapHook .debug s map len res := by
  obtain ⟨i, hi⟩ := Option.isSome_iff_exists.mp hsib
  unfold postMunmapHook at h ⊢
  obtain ⟨-, hhook⟩ := assertThen_debug h
  rw [hhook] at h ⊢
  simp only [assertThen_ndebug, hi] at h ⊢
  exact (assertThen_debug h).2.symm

theorem postMunmapHook_last {s : State} {map : MapEntry} {len : Nat} {res : Int}
    (hlast : s.maps.find? (·.fd == map.fd) = none)
    (h : (postMunmapHook .debug s map len res).stopped = none) :
    (∃ c, (postMunmapHook .debug s map len res).calls = s.calls ++ [c]) ∧
      postMunmapHook .ndebug s map len res = s := by
  unfold postMunmapHook at h ⊢
  obtain ⟨-, hhook⟩ := assertThen_debug h
  rw [hhook] at h ⊢
  simp only [assertThen_ndebug, hlast] at h ⊢
  cases hfp : map.haveFp with
  | true =>
      simp only [hfp, if_true] at h ⊢
      have hcall := assertZero_debug h
      rw [hcall] at h ⊢
      exact ⟨realFclose_calls h, rfl⟩
  | false =>
      simp only [hfp, Bool.false_eq_true, if_false] at h ⊢
      rw [assertZero_debug h]
      exact ⟨realClose_calls _ _ _, rfl⟩

/-- Away from a delayed close, the asserts make no difference. -/
theorem step_ndebug {s : State} {op : Op} (hrun : s.stopped = none)
    (h : (step .debug s op).stopped = none) (hop : delayedClose s op = false) :
    step .ndebug s op = step .debug s op := by
  rw [step_running hrun] at h ⊢
  rw [step_running hrun]
  cases op with
  | openFd fd => rfl
  | openStream fp fileno => rfl
  | mmap addr len prot flags fildes off res mallocOk =>
      cases res with
      | none => rfl
      | some ptr =>
          simp only [Op.run, mmapStubImpl] at h ⊢
          cases htr : isTracked prot flags fildes with
          | true =>
              simp only [htr, if_true] at h ⊢
              exact (assertThen_debug h).2.symm
          | false => rfl
  | close fildes res => rfl
  | fclose stream flush res => rfl
  | munmap addr len res closeRes =>
      simp only [Op.run, munmapStubImpl, realMunmap_maps] at h ⊢
      split
      · rfl
      · next hres =>
          rw [if_neg hres] at h
          cases hfind : s.maps.find? (·.ptr == addr) with
          | none => rfl
          | some i =>
              simp only [hfind] at h ⊢
              cases hwant : i.wantClose with
              | false => rfl
              | true =>
                  simp only [hwant, if_true] at h ⊢
                  refine postMunmapHook_ndebug ?_ h
                  simpa [delayedClose, hfind, hres, hwant, ← Option.isSome_iff_ne_none] using hop

/-- At a delayed close, only the build with asserts makes the call. -/
theorem delayedClose_closes {s : State} {op : Op} (hrun : s.stopped = none)
    (h : (step .debug s op).stopped = none) (hop : delayedClose s op = true) :
    ∃ c, (step .debug s op).calls = (step .ndebug s op).calls ++ [c] := by
  rw [step_running hrun] at h ⊢
  rw [step_running hrun]
  cases op with
  | munmap addr len res closeRes =>
      simp only [delayedClose] at hop
      cases hfind : s.maps.find? (·.ptr == addr) with
      | none => simp [hfind] at hop
      | some i =>
          simp only [hfind, Bool.and_eq_true, Bool.not_eq_true', decide_eq_false_iff_not,
            Option.isNone_iff_eq_none] at hop
          obtain ⟨⟨hres, hwant⟩, hlast⟩ := hop
          simp only [Op.run, munmapStubImpl, realMunmap_maps, if_neg hres, hfind, hwant,
            if_true] at h ⊢
          obtain ⟨hcall, hskip⟩ := postMunmapHook_last hlast h
          rw [hskip]
          exact hcall
  | openFd fd => cases hop
  | openStream fp fileno => cases hop
  | mmap addr len prot flags fildes off res mallocOk => cases hop
  | close fildes res => cases hop
  | fclose stream flush res => cases hop

/-! ## Runs -/

/-- The program runs, and the build with asserts gets through the operation. -/
def Passes (s : State) (op : Op) : Prop :=
  s.stopped = none ∧ (step .debug s op).stopped = none

theorem stopped_of_step {b : Build} {s : State} {op : Op} (h : (step b s op).stopped = none) :
    s.stopped = none := by
  unfold step at h
  split at h
  · exact h
  · next hs => exact hs

theorem passes_of_end {ops : List Op} : ∀ {s : State},
    (ops.foldl (step .debug) s).stopped = none →
      s.stopped = none ∧ Run Passes (step .debug) s ops (ops.foldl (step .debug) s) := by
  induction ops with
  | nil =>
      intro s h
      exact ⟨h, .nil _⟩
  | cons op ops ih =>
      intro s h
      obtain ⟨hstep, hrun⟩ := ih h
      exact ⟨stopped_of_step hstep, .cons ⟨stopped_of_step hstep, hstep⟩ hrun⟩

/-- **Release against debug.**  Along a run in which no assert fails, the two
builds make the same calls at every moment exactly if no operation of the run
is a delayed close. -/
theorem release_sameCalls {ops : List Op} (h : (ops.foldl (step .debug) init).stopped = none) :
    (∀ pre, pre <+: ops →
      (pre.foldl (step .ndebug) init).calls = (pre.foldl (step .debug) init).calls) ↔
    Run (fun s op => delayedClose s op = false) (step .debug) init ops
      (ops.foldl (step .debug) init) := by
  refine Run.agree_iff ?_ ?_ (passes_of_end h).2
  · intro s op hok hop
    exact step_ndebug hok.1 hok.2 hop
  · intro s op hok hop heq
    obtain ⟨c, hc⟩ := delayedClose_closes hok.1 hok.2 (Bool.not_eq_false _ ▸ hop)
    rw [heq, List.self_eq_append_right] at hc
    cases hc

/-- Descriptor 3 is closed with two mappings of it live, of which one is unmapped;
the only mapping of descriptor 4 is unmapped before that is closed. -/
def oneLeft : List Op :=
  [.openFd 3,
   .mmap 0 4096 PROT_WRITE MAP_SHARED 3 0 (some 0x10000) true,
   .mmap 0 8192 PROT_WRITE MAP_SHARED 3 0 (some 0x20000) true,
   .close 3 0,
   .munmap 0x10000 4096 0 0,
   .openFd 4,
   .mmap 0 4096 PROT_WRITE MAP_SHARED 4 0 (some 0x30000) true,
   .munmap 0x30000 4096 0 0,
   .close 4 0]

theorem release_sameCalls_oneLeft :
    (∀ pre, pre <+: oneLeft →
      (pre.foldl (step .ndebug) init).calls = (pre.foldl (step .debug) init).calls) ∧
    (oneLeft.foldl (step .ndebug) init).world.fds 4 = none :=
  ⟨(release_sameCalls (by decide)).mpr (Run.of_allOk (by decide)), by decide⟩

/-- One mapping of descriptor 3, which is closed and then unmapped. -/
def delayed : List Op :=
  [.openFd 3,
   .mmap 0 4096 PROT_WRITE MAP_SHARED 3 0 (some 0x10000) true,
   .close 3 0,
   .munmap 0x10000 4096 0 0]

/-- The release build never closes descriptor 3. -/
theorem release_leaks :
    (delayed.foldl (step .debug) init).stopped = none ∧
    (delayed.foldl (step .debug) init).calls =
      (delayed.foldl (step .ndebug) init).calls ++ [.close 3 0] ∧
    (delayed.foldl (step .ndebug) init).world.fds 3 = some 0 := by
  decide

end LibcCompat.Emsup
