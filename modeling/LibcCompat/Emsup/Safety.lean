/-
# `LibcCompat.Emsup.Safety` — no descriptor is closed under a tracked mapping

## What is proved

Along every run, in both builds, whatever the calls answer:

* when `__real_close` or `__real_fclose` is issued, no entry left in the list
  carries the descriptor it closes;
* when the real `munmap` of a tracked file mapping is issued, the descriptor
  the mapping was made from is still open, and it is the same opening of it.

## How

`Tracks` is the invariant.  Its first field says that the list *is* the list of
live tracked mappings, in the same order: `munmap` takes the mapping out of the
one and the entry out of the other, and nothing else touches either.  The other
fields follow the descriptor of a mapping and the stream of an entry through
the calls that could close them, and in each of these the walk over the list
has just found no entry.

`Tracks` speaks of a running program.  What the log says must survive a failed
assert too, so `Inv` keeps the two apart.
-/
import LibcCompat.Emsup.MmapHack
import LibcCompat.Lib.Keyed
import LibcCompat.Lib.Run

namespace LibcCompat.Emsup

open LibcCompat.Lib

/-! ## The statement about one logged call -/

/-- The call closes descriptor `fd`. -/
def Record.closes (r : Record) (fd : Fd) : Prop :=
  (∃ res, r.call = .close fd res) ∨
  ∃ fp res st, r.call = .fclose fp res ∧ r.world.streams fp = some st ∧ st.fileno = fd

/-- A call that closes a descriptor finds no entry with it; a call that unmaps a
tracked file mapping finds its descriptor open. -/
structure Record.Safe (r : Record) : Prop where
  closes : ∀ fd, r.closes fd → ∀ i ∈ r.maps, i.fd ≠ fd
  unmaps : ∀ addr len res, r.call = .munmap addr len res →
    ∀ m ∈ r.world.live, m.ptr = addr → m.len = len → m.tracked = true → m.isFile = true →
      (r.world.fds m.fildes).isSome ∧ m.opening = r.world.fds m.fildes

/-! ## The invariant -/

/-- What an entry and the mapping it stands for have in common. -/
def MapEntry.key (i : MapEntry) : Addr × Nat × Fd := (i.ptr, i.len, i.fd)
def Mapping.key (m : Mapping) : Addr × Nat × Fd := (m.ptr, m.len, m.fildes)

structure Tracks (s : State) : Prop where
  mirror : s.maps.map MapEntry.key = (s.world.live.filter Mapping.tracked).map Mapping.key
  starts : (s.world.live.map Mapping.ptr).Nodup
  streams : ∀ i ∈ s.maps, i.haveFp = true →
    ∃ fp st, i.fp = some fp ∧ s.world.streams fp = some st ∧ st.fileno = i.fd
  opens : ∀ m ∈ s.world.live, m.tracked = true → m.isFile = true →
    (s.world.fds m.fildes).isSome ∧ m.opening = s.world.fds m.fildes

structure Inv (s : State) : Prop where
  log : ∀ r ∈ s.log, r.Safe
  tracks : s.stopped = none → Tracks s

theorem Inv.stop {s : State} (h : Inv s) (why : Stop) : Inv (s.stop why) :=
  ⟨h.log, fun hs => nomatch hs⟩

/-! ### The list and the live mappings -/

theorem Tracks.entry_of_mapping {s : State} (h : Tracks s) {m : Mapping}
    (hm : m ∈ s.world.live) (ht : m.tracked = true) :
    ∃ i ∈ s.maps, i.ptr = m.ptr ∧ i.len = m.len ∧ i.fd = m.fildes := by
  have hk : m.key ∈ s.maps.map MapEntry.key := by
    rw [h.mirror]
    exact List.mem_map_of_mem (List.mem_filter.mpr ⟨hm, ht⟩)
  obtain ⟨i, hi, hik⟩ := List.mem_map.mp hk
  simp only [MapEntry.key, Mapping.key, Prod.mk.injEq] at hik
  exact ⟨i, hi, hik⟩

theorem Tracks.mapping_of_entry {s : State} (h : Tracks s) {i : MapEntry} (hi : i ∈ s.maps) :
    ∃ m ∈ s.world.live, m.tracked = true ∧ m.ptr = i.ptr ∧ m.len = i.len ∧ m.fildes = i.fd := by
  have hk : i.key ∈ (s.world.live.filter Mapping.tracked).map Mapping.key := by
    rw [← h.mirror]
    exact List.mem_map_of_mem hi
  obtain ⟨m, hm, hmk⟩ := List.mem_map.mp hk
  obtain ⟨hm, ht⟩ := List.mem_filter.mp hm
  simp only [MapEntry.key, Mapping.key, Prod.mk.injEq] at hmk
  exact ⟨m, hm, ht, hmk⟩

theorem Tracks.fd_nonneg {s : State} (h : Tracks s) {i : MapEntry} (hi : i ∈ s.maps) :
    0 ≤ i.fd := by
  obtain ⟨m, _, ht, _, _, hfd⟩ := h.mapping_of_entry hi
  rw [← hfd]
  simp only [Mapping.tracked, isTracked, Bool.and_eq_true, Bool.not_eq_true',
    decide_eq_false_iff_not] at ht
  exact Int.not_lt.mp ht.1

/-- Different mappings start at different addresses, so do their entries. -/
theorem Tracks.entry_starts {s : State} (h : Tracks s) : (s.maps.map MapEntry.ptr).Nodup := by
  have hp : s.maps.map MapEntry.ptr
      = (s.world.live.filter Mapping.tracked).map Mapping.ptr := by
    have := congrArg (List.map Prod.fst) h.mirror
    rw [List.map_map, List.map_map] at this
    exact this
  rw [hp]
  exact (List.filter_sublist.map _).nodup h.starts

/-! ### Closing, when no entry carries the descriptor -/

theorem Tracks.close {s : State} (h : Tracks s) {fd : Fd} {res : Int}
    (hfd : ∀ i ∈ s.maps, i.fd ≠ fd) : Tracks (realClose s fd res) where
  mirror := h.mirror
  starts := h.starts
  streams := h.streams
  opens := by
    intro m hm ht hf
    obtain ⟨i, hi, _, _, hifd⟩ := h.entry_of_mapping hm ht
    have hne : m.fildes ≠ fd := hifd ▸ hfd i hi
    have := h.opens m hm ht hf
    simpa only [realClose, Function.update_of_ne hne] using this

theorem Inv.close {s : State} (h : Inv s) (hs : s.stopped = none) {fd : Fd} {res : Int}
    (hfd : ∀ i ∈ s.maps, i.fd ≠ fd) : Inv (realClose s fd res) where
  log := by
    intro r hr
    rcases List.mem_append.mp hr with hr | hr
    · exact h.log r hr
    · obtain rfl := List.mem_singleton.mp hr
      refine ⟨?_, fun _ _ _ hc => nomatch hc⟩
      rintro fd' (⟨res', hc⟩ | ⟨_, _, _, hc, _⟩)
      · obtain ⟨rfl, -⟩ := Call.close.inj hc
        exact hfd
      · cases hc
  tracks := fun _ => (h.tracks hs).close hfd

theorem Tracks.fclose {s : State} (h : Tracks s) {fp : FilePtr} {st : Stream} {res : Int}
    (hst : s.world.streams fp = some st) (hfd : ∀ i ∈ s.maps, i.fd ≠ st.fileno) :
    Tracks (realFclose s (some fp) res) := by
  simp only [realFclose, hst]
  refine ⟨h.mirror, h.starts, ?_, ?_⟩
  · intro i hi hi'
    obtain ⟨fp', st', hfp, hst', hno⟩ := h.streams i hi hi'
    -- an entry holding this very stream would carry its descriptor
    have hne : fp' ≠ fp := by
      rintro rfl
      rw [hst] at hst'
      obtain rfl := Option.some.inj hst'
      exact hfd i hi hno.symm
    exact ⟨fp', st', hfp, by simpa only [Function.update_of_ne hne] using hst', hno⟩
  · intro m hm ht hf
    obtain ⟨i, hi, _, _, hifd⟩ := h.entry_of_mapping hm ht
    have hne : m.fildes ≠ st.fileno := hifd ▸ hfd i hi
    have := h.opens m hm ht hf
    simpa only [Function.update_of_ne hne] using this

theorem Inv.fclose {s : State} (h : Inv s) (hs : s.stopped = none) {fp : FilePtr} {st : Stream}
    {res : Int} (hst : s.world.streams fp = some st) (hfd : ∀ i ∈ s.maps, i.fd ≠ st.fileno) :
    Inv (realFclose s (some fp) res) where
  log := by
    simp only [realFclose, hst]
    intro r hr
    rcases List.mem_append.mp hr with hr | hr
    · exact h.log r hr
    · obtain rfl := List.mem_singleton.mp hr
      refine ⟨?_, fun _ _ _ hc => nomatch hc⟩
      rintro fd' (⟨_, hc⟩ | ⟨fp', res', st', hc, hst', rfl⟩)
      · cases hc
      · obtain ⟨rfl, -⟩ := Call.fclose.inj hc
        rw [hst] at hst'
        obtain rfl := Option.some.inj hst'
        exact hfd
  tracks := fun _ => (h.tracks hs).fclose hst hfd

/-! ### Marking the entries of a descriptor -/

theorem Tracks.mark {s : State} (h : Tracks s) {fildes : Fd} {handler : MapEntry → MapEntry}
    (hkey : ∀ i, (handler i).key = i.key)
    (hstream : ∀ i ∈ s.maps, i.fd = fildes → (handler i).haveFp = true →
      ∃ fp st, (handler i).fp = some fp ∧ s.world.streams fp = some st ∧ st.fileno = i.fd) :
    Tracks { s with maps := s.maps.map fun i => if i.fd = fildes then handler i else i } where
  mirror := by
    rw [← h.mirror, List.map_map]
    refine List.map_congr_left fun i _ => ?_
    by_cases hi : i.fd = fildes
    · simp only [Function.comp_apply, if_pos hi, hkey]
    · simp only [Function.comp_apply, if_neg hi]
  starts := h.starts
  streams := by
    intro j hj
    obtain ⟨i, hi, rfl⟩ := List.mem_map.mp hj
    by_cases hfd : i.fd = fildes
    · simp only [if_pos hfd]
      have hkfd : (handler i).fd = i.fd := congrArg (·.2.2) (hkey i)
      rw [hkfd]
      exact hstream i hi hfd
    · simp only [if_neg hfd]
      exact h.streams i hi
  opens := h.opens

theorem wrapClose_inv {s : State} (h : Inv s) (hs : s.stopped = none) (fildes : Fd)
    (res : Int) : Inv (wrapClose s fildes res).2 := by
  unfold wrapClose
  split
  · exact ⟨h.log, fun _ => ⟨(h.tracks hs).mirror, (h.tracks hs).starts, (h.tracks hs).streams,
      (h.tracks hs).opens⟩⟩
  · split
    · next maps hmark =>
        obtain rfl := markByFd_eq_some hmark
        exact ⟨h.log, fun _ => (h.tracks hs).mark (fun _ => rfl)
          fun i hi _ hfp => (h.tracks hs).streams i hi hfp⟩
    · next hmark => exact h.close hs (markByFd_eq_none.mp hmark)

/-- A call other than a close or an unmapping may be logged at any moment. -/
theorem Inv.issue {s : State} (h : Inv s) {c : Call} (hclose : ∀ fd res, c ≠ .close fd res)
    (hfclose : ∀ fp res, c ≠ .fclose fp res) (hunmap : ∀ addr len res, c ≠ .munmap addr len res) :
    Inv (s.issue c) where
  log := by
    intro r hr
    rcases List.mem_append.mp hr with hr | hr
    · exact h.log r hr
    · obtain rfl := List.mem_singleton.mp hr
      refine ⟨?_, fun addr len res hc => absurd hc (hunmap addr len res)⟩
      rintro fd (⟨res, hc⟩ | ⟨fp, res, _, hc, _⟩)
      · exact absurd hc (hclose fd res)
      · exact absurd hc (hfclose fp res)
  tracks := fun hs => ⟨(h.tracks hs).mirror, (h.tracks hs).starts, (h.tracks hs).streams,
    (h.tracks hs).opens⟩

theorem wrapFclose_inv {s : State} (h : Inv s) (hs : s.stopped = none) (stream : Option FilePtr)
    (flush res : Int) : Inv (wrapFclose s stream flush res).2 := by
  have ht := h.tracks hs
  unfold wrapFclose
  split
  · exact ⟨h.log, fun _ => ⟨ht.mirror, ht.starts, ht.streams, ht.opens⟩⟩
  · next fp =>
      split
      · exact h.stop _
      · next st hst =>
          split
          · next hneg =>
              refine h.fclose hs hst fun i hi hfd => ?_
              exact absurd (ht.fd_nonneg hi) (hfd ▸ Int.not_le.mpr hneg)
          · split
            · next maps hmark =>
                obtain rfl := markByFd_eq_some hmark
                have hmarked : Inv { s with maps := s.maps.map fun i => if i.fd = st.fileno
                    then { i with wantClose := true, fp := some fp, haveFp := true } else i } :=
                  ⟨h.log, fun _ => ht.mark (fun _ => rfl)
                    fun i _ hfd _ => ⟨fp, st, rfl, hst, hfd.symm⟩⟩
                exact hmarked.issue (fun _ _ hc => nomatch hc) (fun _ _ hc => nomatch hc)
                  (fun _ _ _ hc => nomatch hc)
            · next hmark => exact h.fclose hs hst (markByFd_eq_none.mp hmark)

/-! ### Mapping -/

/-- A mapping that is new joins the live ones, and the list follows. -/
theorem Tracks.map {s t : State} (h : Tracks s) {m : Mapping}
    (hworld : t.world = { s.world with live := m :: s.world.live })
    (hfresh : ∀ m' ∈ s.world.live, m'.ptr ≠ m.ptr)
    (hopen : m.tracked = true → m.isFile = true →
      (s.world.fds m.fildes).isSome ∧ m.opening = s.world.fds m.fildes)
    (hmirror : t.maps.map MapEntry.key =
      ((m :: s.world.live).filter Mapping.tracked).map Mapping.key)
    (hstreams : ∀ i ∈ t.maps, i.haveFp = true → i ∈ s.maps) : Tracks t where
  mirror := by
    rw [hworld]
    exact hmirror
  starts := by
    rw [hworld]
    refine List.nodup_cons.mpr ⟨?_, h.starts⟩
    intro hmem
    obtain ⟨m', hm', hptr⟩ := List.mem_map.mp hmem
    exact hfresh m' hm' hptr
  streams := by
    intro i hi hfp
    rw [hworld]
    exact h.streams i (hstreams i hi hfp) hfp
  opens := by
    intro m' hm' htr hf
    rw [hworld] at hm' ⊢
    rcases List.mem_cons.mp hm' with rfl | hm'
    · exact hopen htr hf
    · exact h.opens m' hm' htr hf

theorem mmapStubImpl_inv {s : State} (h : Inv s) (hs : s.stopped = none) (b : Build)
    {addr : Addr} {len : Nat} {prot flags : UInt32} {fildes : Fd} {off : Int}
    {res : Option Addr} {mallocOk : Bool}
    (hok : Platform s (.mmap addr len prot flags fildes off res mallocOk)) :
    Inv (mmapStubImpl b s addr len prot flags fildes off res mallocOk).2 := by
  have ht := h.tracks hs
  have hlog : ∀ r ∈ (realMmap s addr len prot flags fildes off res).log, r.Safe :=
    (h.issue (c := .mmap addr len prot flags fildes off res) (fun _ _ hc => nomatch hc)
      (fun _ _ hc => nomatch hc) (fun _ _ _ hc => nomatch hc)).log
  cases res with
  | none => exact ⟨hlog, fun _ => ⟨ht.mirror, ht.starts, ht.streams, ht.opens⟩⟩
  | some ptr =>
      obtain ⟨hfresh, hopen⟩ := hok
      have hopen' : (⟨ptr, len, prot, flags, fildes, s.world.fds fildes⟩ : Mapping).tracked =
          true → flags &&& MAP_ANONYMOUS = 0 → (s.world.fds fildes).isSome := by
        intro htr
        simp only [Mapping.tracked, isTracked, Bool.and_eq_true, Bool.not_eq_true',
          decide_eq_false_iff_not] at htr
        exact hopen (Int.not_lt.mp htr.1)
      unfold mmapStubImpl
      by_cases htr : isTracked prot flags fildes = true
      · simp only [if_pos htr]
        refine assertThen_cases (P := Inv) ⟨hlog, fun hc => nomatch hc⟩ ?_
        cases mallocOk with
        | false => exact ⟨hlog, fun hc => nomatch hc⟩
        | true =>
            refine ⟨hlog, fun _ => ht.map rfl hfresh
              (fun htr hf => ⟨hopen' htr (by simpa [Mapping.isFile] using hf), rfl⟩) ?_ ?_⟩
            · have htr' : (⟨ptr, len, prot, flags, fildes, s.world.fds fildes⟩ :
                  Mapping).tracked = true := htr
              rw [List.filter_cons_of_pos htr', List.map_cons, ← ht.mirror]
              rfl
            · intro i hi hfp
              rcases List.mem_cons.mp hi with rfl | hi
              · cases hfp
              · exact hi
      · simp only [if_neg htr]
        refine ⟨hlog, fun _ => ht.map rfl hfresh
          (fun htr hf => ⟨hopen' htr (by simpa [Mapping.isFile] using hf), rfl⟩) ?_
          fun i hi _ => hi⟩
        have htr' : ¬ (⟨ptr, len, prot, flags, fildes, s.world.fds fildes⟩ :
            Mapping).tracked = true := htr
        rw [List.filter_cons_of_neg htr']
        exact ht.mirror

/-! ### Unmapping -/

/-- Taking the mapping at `addr` out of the world and the first entry for `addr`
out of the list keeps the two in step. -/
theorem Tracks.unmap {s : State} (h : Tracks s) (addr : Addr) :
    Tracks { s with
      maps := s.maps.eraseP (·.ptr == addr)
      world := { s.world with live := s.world.live.filter (·.ptr != addr) } } where
  mirror := by
    show (s.maps.eraseP (·.ptr == addr)).map MapEntry.key
      = ((s.world.live.filter (·.ptr != addr)).filter Mapping.tracked).map Mapping.key
    calc (s.maps.eraseP (·.ptr == addr)).map MapEntry.key
      _ = (s.maps.filter ((·.1 != addr) ∘ MapEntry.key)).map MapEntry.key := by
          rw [eraseP_eq_filter_of_nodup addr h.entry_starts]; rfl
      _ = (s.maps.map MapEntry.key).filter (·.1 != addr) := List.filter_map.symm
      _ = ((s.world.live.filter Mapping.tracked).map Mapping.key).filter (·.1 != addr) := by
          rw [h.mirror]
      _ = ((s.world.live.filter Mapping.tracked).filter (·.ptr != addr)).map Mapping.key :=
          List.filter_map
      _ = ((s.world.live.filter (·.ptr != addr)).filter Mapping.tracked).map Mapping.key := by
          rw [List.filter_comm]
  starts := (List.filter_sublist.map _).nodup h.starts
  streams := fun i hi => h.streams i (List.mem_of_mem_eraseP hi)
  opens := fun m hm => h.opens m (List.mem_of_mem_filter hm)

theorem realMunmap_log {s : State} (h : Inv s) (hs : s.stopped = none) (addr : Addr) (len : Nat)
    (res : Int) : ∀ r ∈ (realMunmap s addr len res).log, r.Safe := by
  intro r hr
  rcases List.mem_append.mp hr with hr | hr
  · exact h.log r hr
  · obtain rfl := List.mem_singleton.mp hr
    refine ⟨?_, fun _ _ _ _ m hm _ _ => (h.tracks hs).opens m hm⟩
    rintro fd (⟨_, hc⟩ | ⟨_, _, _, hc, _⟩)
    · cases hc
    · cases hc

/-- The hook runs on an entry `map` that has left the list; the stream it holds,
if any, still belongs to its descriptor. -/
theorem postMunmapHook_inv {s : State} (h : Inv s) (hs : s.stopped = none) (b : Build)
    {map : MapEntry} (len : Nat) (res : Int)
    (hstream : map.haveFp = true →
      ∃ fp st, map.fp = some fp ∧ s.world.streams fp = some st ∧ st.fileno = map.fd) :
    Inv (postMunmapHook b s map len res) := by
  refine assertThen_cases (P := Inv) (h.stop _) ?_
  split
  · exact assertThen_cases (P := Inv) (h.stop _) h
  · next hnone =>
      have hfd : ∀ i ∈ s.maps, i.fd ≠ map.fd := by
        simpa using List.find?_eq_none.mp hnone
      split
      · next hfp =>
          obtain ⟨fp, st, hmap, hst, hno⟩ := hstream hfp
          rw [hmap]
          have hclosed : Inv (realFclose s (some fp) res) :=
            h.fclose hs hst (hno ▸ hfd)
          exact assertZero_cases (P := Inv) h hclosed (hclosed.stop _)
      · have hclosed : Inv (realClose s map.fd res) := h.close hs hfd
        exact assertZero_cases (P := Inv) h hclosed (hclosed.stop _)

theorem munmapStubImpl_inv {s : State} (h : Inv s) (hs : s.stopped = none) (b : Build)
    (addr : Addr) (len : Nat) (res closeRes : Int) :
    Inv (munmapStubImpl b s addr len res closeRes).2 := by
  have ht := h.tracks hs
  have hlog := realMunmap_log h hs addr len res
  unfold munmapStubImpl
  by_cases hres : res < 0
  · simp only [if_pos hres]
    refine ⟨hlog, fun _ => ⟨?_, ?_, ht.streams, ?_⟩⟩
    · simpa only [realMunmap, State.issue_maps, if_pos hres] using ht.mirror
    · simpa only [realMunmap, if_pos hres] using ht.starts
    · simpa only [realMunmap, if_pos hres] using ht.opens
  · simp only [if_neg hres]
    -- the list without its entry for `addr`; without a match that is the list itself
    have hout : Inv { realMunmap s addr len res with maps := s.maps.eraseP (·.ptr == addr) } := by
      refine ⟨hlog, fun _ => ⟨?_, ?_, (ht.unmap addr).streams, ?_⟩⟩
      · simpa only [realMunmap, if_neg hres] using (ht.unmap addr).mirror
      · simpa only [realMunmap, if_neg hres] using (ht.unmap addr).starts
      · simpa only [realMunmap, if_neg hres] using (ht.unmap addr).opens
    split
    · next hnone =>
        have hsame : s.maps.eraseP (·.ptr == addr) = s.maps :=
          List.eraseP_of_forall_not (fun i hi => List.find?_eq_none.mp hnone i hi)
        rw [hsame] at hout
        exact hout
    · next i hfind =>
        have hi : i ∈ s.maps := List.mem_of_find?_eq_some hfind
        dsimp only
        split
        · exact postMunmapHook_inv hout hs b len closeRes (ht.streams i hi)
        · exact hout

/-! ### The platform in between -/

theorem handOutFd_inv {s : State} (h : Inv s) (hs : s.stopped = none) {fd : Fd}
    (hfree : s.world.fds fd = none) : Inv (handOutFd s fd) := by
  have ht := h.tracks hs
  refine ⟨h.log, fun _ => ⟨ht.mirror, ht.starts, ht.streams, ?_⟩⟩
  intro m hm htr hf
  have hopen := ht.opens m hm htr hf
  have hne : m.fildes ≠ fd := by
    rintro rfl
    rw [hfree] at hopen
    exact nomatch hopen.1
  simpa only [handOutFd, Function.update_of_ne hne] using hopen

theorem handOutStream_inv {s : State} (h : Inv s) (hs : s.stopped = none) {fp : FilePtr}
    {fileno : Fd} (hfree : s.world.streams fp = none) : Inv (handOutStream s fp fileno) := by
  have ht := h.tracks hs
  refine ⟨h.log, fun _ => ⟨ht.mirror, ht.starts, ?_, ht.opens⟩⟩
  intro i hi hfp
  obtain ⟨fp', st, hmap, hst, hno⟩ := ht.streams i hi hfp
  have hne : fp' ≠ fp := by
    rintro rfl
    rw [hfree] at hst
    cases hst
  exact ⟨fp', st, hmap, by simpa only [handOutStream, Function.update_of_ne hne] using hst, hno⟩

/-! ## Runs -/

theorem step_inv (b : Build) {s : State} {op : Op} (h : Inv s) (hok : Platform s op) :
    Inv (step b s op) := by
  unfold step
  split
  · exact h
  · next hs =>
      cases op with
      | openFd fd => exact handOutFd_inv h hs hok.2
      | openStream fp fileno => exact handOutStream_inv h hs hok.1
      | mmap addr len prot flags fildes off res mallocOk => exact mmapStubImpl_inv h hs b hok
      | close fildes res => exact wrapClose_inv h hs fildes res
      | fclose stream flush res => exact wrapFclose_inv h hs stream flush res
      | munmap addr len res closeRes => exact munmapStubImpl_inv h hs b addr len res closeRes

theorem init_inv : Inv init :=
  ⟨fun _ hr => absurd hr List.not_mem_nil,
    fun _ => ⟨rfl, List.nodup_nil, fun _ hi => absurd hi List.not_mem_nil,
      fun _ hm => absurd hm List.not_mem_nil⟩⟩

theorem run_inv {b : Build} {ops : List Op} {s : State}
    (h : Run Platform (step b) init ops s) : Inv s :=
  h.inv (fun _ _ hs hok => step_inv b hs hok) init_inv

/-- **Delayed-close safety.**  In every run, each call that closes a descriptor
finds no entry with it, and each `munmap` of a tracked file mapping finds open
the very descriptor the mapping was made from. -/
theorem delayedClose_safe {b : Build} {ops : List Op} {s : State}
    (h : Run Platform (step b) init ops s) : ∀ r ∈ s.log, r.Safe :=
  (run_inv h).log

/-- Two mappings of descriptor 3, closed while both are live, unmapped oldest first. -/
def twoMappings : List Op :=
  [.openFd 3,
   .mmap 0 4096 PROT_WRITE MAP_SHARED 3 0 (some 0x10000) true,
   .mmap 0 8192 PROT_WRITE MAP_SHARED 3 0 (some 0x20000) true,
   .close 3 0,
   .munmap 0x10000 4096 0 0,
   .munmap 0x20000 8192 0 0]

theorem delayedClose_safe_twoMappings :
    (twoMappings.foldl (step .debug) init).log ≠ [] ∧
      ∀ r ∈ (twoMappings.foldl (step .debug) init).log, r.Safe :=
  ⟨by decide, delayedClose_safe (Run.of_allOk (by decide))⟩

end LibcCompat.Emsup
