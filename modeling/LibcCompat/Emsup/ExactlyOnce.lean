/-
# `LibcCompat.Emsup.ExactlyOnce` — a delayed close happens once

## What is proved

In the build with asserts, for a client that uses a descriptor only while it
holds it, closes it at most once, and unmaps what it mapped, and while the
underlying calls succeed: no assert fails, and in every state of every run the
real closes of a descriptor are

* none, if the client has not closed it or has a tracked mapping of it;
* exactly one otherwise, by `__real_fclose` of the stream the client passed, or
  by `__real_close`.

Which mappings the client has is what it did: it has one from its `mmap` to its
`munmap`, and these are the ones that are live underneath.  As all this holds
before and after each operation, the close happens at the client's own call when
there is no tracked mapping, and at the `munmap` of the last one otherwise.

Every `__real_close` and every `__real_fclose` of the log counts, whether or not
it finds an open descriptor; the only ones that find none are those of a stream
that never had one.

## How

The client's view is a `Deferred` machine: descriptors are its resources,
tracked mappings its users.  `Sim` relates the two.  Its heart is `shape`: what
an entry says about closing (`MapEntry.view`) is a function of what the client
asked for the descriptor, so the entries of a descriptor agree.  `Accounts` is
the other half: what the log holds is what the client expects.
-/
import LibcCompat.Emsup.Safety
import LibcCompat.Lib.Deferred

namespace LibcCompat.Emsup

open LibcCompat.Lib

/-- A descriptor: its number and which opening of the number it is. -/
abbrev Desc := Fd × Nat

/-- How the client closes a descriptor. -/
inductive How where
  | close
  | fclose (fp : FilePtr)
deriving DecidableEq, Repr

/-- The client's view: the descriptors it holds, how it closed the others, its
tracked mappings, and the real closes it expects. -/
abbrev Client := Deferred Desc Addr How

/-- The opening of a descriptor number, as a descriptor. -/
def World.desc (v : World) (fd : Fd) : Option Desc := (v.fds fd).map fun o => (fd, o)

/-- A logged real close: the descriptor it closes, if it is one of an open
descriptor, and how. -/
def Record.closed (r : Record) : Option (Option Desc × How) :=
  match r.call with
  | .close fd _ => some (r.world.desc fd, .close)
  | .fclose fp _ =>
      some ((r.world.streams fp).bind fun st => r.world.desc st.fileno, .fclose fp)
  | _ => none

/-- The close is `__real_fclose` of a stream that never had a descriptor. -/
def Record.OfNoDescriptor (r : Record) (how : How) : Prop :=
  ∃ fp st, how = .fclose fp ∧ r.world.streams fp = some st ∧ st.fileno < 0

/-- The real closes of the log are `released`, in order, but for streams that
never had a descriptor. -/
structure Accounts (log : List Record) (released : List (Desc × How)) : Prop where
  closes : (log.filterMap Record.closed).filter (·.1.isSome)
    = released.map fun x => (some x.1, x.2)
  proper : ∀ rec ∈ log, ∀ how, rec.closed = some (none, how) → rec.OfNoDescriptor how

/-! ### The closes in the log -/

section
variable {log : List Record} {released : List (Desc × How)} {rec : Record} {how : How}

theorem Accounts.nil : Accounts [] [] :=
  ⟨rfl, fun _ hrec => absurd hrec List.not_mem_nil⟩

theorem Accounts.proper_append (h : Accounts log released)
    (hnew : ∀ how, rec.closed = some (none, how) → rec.OfNoDescriptor how) :
    ∀ rec' ∈ log ++ [rec], ∀ how, rec'.closed = some (none, how) → rec'.OfNoDescriptor how := by
  intro rec' hrec'
  rcases List.mem_append.mp hrec' with hold | hlast
  · exact h.proper rec' hold
  · obtain rfl := List.mem_singleton.mp hlast
    exact hnew

theorem Accounts.other (h : Accounts log released) (hrec : rec.closed = none) :
    Accounts (log ++ [rec]) released where
  closes := by
    rw [List.filterMap_append, List.filterMap_cons_none hrec, List.filterMap_nil,
      List.append_nil, h.closes]
  proper := h.proper_append fun how hhow => by rw [hrec] at hhow; cases hhow

theorem Accounts.close {r : Desc} (h : Accounts log released)
    (hrec : rec.closed = some (some r, how)) :
    Accounts (log ++ [rec]) (released ++ [(r, how)]) where
  closes := by
    rw [List.filterMap_append, List.filterMap_cons_some hrec, List.filterMap_nil,
      List.filter_append, h.closes, List.map_append]
    rfl
  proper := h.proper_append fun how hhow => by rw [hrec] at hhow; cases hhow

theorem Accounts.noDescriptor (h : Accounts log released)
    (hrec : rec.closed = some (none, how)) (hno : rec.OfNoDescriptor how) :
    Accounts (log ++ [rec]) released where
  closes := by
    rw [List.filterMap_append, List.filterMap_cons_some hrec, List.filterMap_nil,
      List.filter_append, h.closes]
    exact List.append_nil _
  proper := h.proper_append fun how' hhow' => by
    rw [hrec] at hhow'
    cases hhow'
    exact hno

theorem Accounts.of_desc (h : Accounts log released) (r : Desc) :
    (log.filterMap Record.closed).filter (·.1 = some r)
      = (released.filter (·.1 = r)).map fun x => (some x.1, x.2) := by
  have hopen : ∀ x : Option Desc × How,
      decide (x.1 = some r) = (decide (x.1 = some r) && x.1.isSome) := by
    rintro ⟨d, how⟩
    cases d <;> simp
  calc (log.filterMap Record.closed).filter (·.1 = some r)
    _ = ((log.filterMap Record.closed).filter (·.1.isSome)).filter (·.1 = some r) := by
        rw [List.filter_filter]
        exact List.filter_congr fun x _ => hopen x
    _ = (released.map fun x => (some x.1, x.2)).filter (·.1 = some r) := by rw [h.closes]
    _ = (released.filter (·.1 = r)).map fun x => (some x.1, x.2) := by
        rw [List.filter_map]
        refine congrArg _ (List.filter_congr fun x _ => ?_)
        simp only [Function.comp_apply, Option.some.injEq]

end

/-! ### The client -/

/-- What an operation is for the client. -/
def clientAct (s : State) : Op → Option (Deferred.Act Desc Addr How)
  | .openFd fd => some (.acquire (fd, s.world.openings))
  | .openStream _ _ => none
  | .mmap _ _ prot flags fildes _ res _ =>
      if isTracked prot flags fildes then
        res.bind fun ptr => (s.world.fds fildes).map fun o => .attach ptr (fildes, o)
      else none
  | .close fildes _ => (s.world.fds fildes).map fun o => .request (fildes, o) .close
  | .fclose none _ _ => none
  | .fclose (some fp) _ _ =>
      (s.world.streams fp).bind fun st =>
        if st.fileno < 0 then none
        else st.opening.map fun o => .request (st.fileno, o) (.fclose fp)
  | .munmap addr _ _ _ => some (.detach addr)

def clientStep (s : State) (c : Client) (op : Op) : Client :=
  match clientAct s op with
  | some a => c.step a
  | none => c

/-- The client uses a descriptor only while it holds it, and every underlying
call succeeds. -/
def Obeys (s : State) (c : Client) : Op → Prop
  | .openFd _ => True
  | .openStream _ _ => True
  | .mmap _ _ _ _ fildes _ res mallocOk =>
      res.isSome ∧ mallocOk = true ∧ (0 ≤ fildes → ∃ o, c.held (fildes, o) = true)
  | .close fildes res => res = 0 ∧ ∃ o, c.held (fildes, o) = true
  | .fclose none _ _ => True
  | .fclose (some fp) flush res =>
      flush = 0 ∧ res = 0 ∧ ∀ st, s.world.streams fp = some st → 0 ≤ st.fileno →
        ∃ o, st.opening = some o ∧ c.held (st.fileno, o) = true
  | .munmap _ _ res closeRes => res = 0 ∧ closeRes = 0

/-! ## The simulation -/

/-- `want_close`, `have_fp` and `fp`, as the client's request determines them. -/
def marks : Option How → Bool × Bool × Option FilePtr
  | none => (false, false, none)
  | some .close => (true, false, none)
  | some (.fclose fp) => (true, true, some fp)

def MapEntry.view (i : MapEntry) : Addr × Fd × Bool × Bool × Option FilePtr :=
  (i.ptr, i.fd, i.wantClose, i.haveFp, i.fp)

def userView (asked : Desc → Option How) (p : Addr × Desc) :
    Addr × Fd × Bool × Bool × Option FilePtr :=
  (p.1, p.2.1, marks (asked p.2))

structure Sim (s : State) (c : Client) : Prop where
  running : s.stopped = none
  shape : s.maps.map MapEntry.view = c.users.map (userView c.asked)
  users : c.users.map (fun p => (p.1, p.2.1, some p.2.2))
    = (s.world.live.filter Mapping.tracked).map fun m => (m.ptr, m.fildes, m.opening)
  usesOpen : ∀ p ∈ c.users, s.world.fds p.2.1 = some p.2.2
  holdsOpen : ∀ r, c.held r = true → s.world.fds r.1 = some r.2
  known : ∀ r, c.held r = true ∨ c.asked r ≠ none → r.2 < s.world.openings
  nonneg : ∀ fd, fd < 0 → s.world.fds fd = none
  accounts : Accounts s.log c.released
  exact : Deferred.Exact c

theorem Sim.user_of_entry {s : State} {c : Client} (h : Sim s c) {i : MapEntry}
    (hi : i ∈ s.maps) : ∃ p ∈ c.users, i.view = userView c.asked p := by
  have hv : i.view ∈ c.users.map (userView c.asked) := h.shape ▸ List.mem_map_of_mem hi
  obtain ⟨p, hp, hpv⟩ := List.mem_map.mp hv
  exact ⟨p, hp, hpv.symm⟩

theorem Sim.entry_of_user {s : State} {c : Client} (h : Sim s c) {p : Addr × Desc}
    (hp : p ∈ c.users) : ∃ i ∈ s.maps, i.view = userView c.asked p := by
  have hv : userView c.asked p ∈ s.maps.map MapEntry.view := h.shape ▸ List.mem_map_of_mem hp
  obtain ⟨i, hi, hiv⟩ := List.mem_map.mp hv
  exact ⟨i, hi, hiv⟩

theorem view_fd {asked : Desc → Option How} {i : MapEntry} {p : Addr × Desc}
    (h : i.view = userView asked p) : i.fd = p.2.1 :=
  congrArg (·.2.1) h

theorem view_ptr {asked : Desc → Option How} {i : MapEntry} {p : Addr × Desc}
    (h : i.view = userView asked p) : i.ptr = p.1 :=
  congrArg (·.1) h

theorem view_marks {asked : Desc → Option How} {i : MapEntry} {p : Addr × Desc}
    (h : i.view = userView asked p) : (i.wantClose, i.haveFp, i.fp) = marks (asked p.2) :=
  congrArg (·.2.2) h

/-- Users of one descriptor number use one descriptor: the number is open once. -/
theorem Sim.desc_unique {s : State} {c : Client} (h : Sim s c) {p : Addr × Desc} {fd : Fd}
    {o : Nat} (hp : p ∈ c.users) (ho : s.world.fds fd = some o) (hfd : p.2.1 = fd) :
    p.2 = (fd, o) := by
  have hopen := h.usesOpen p hp
  rw [hfd, ho] at hopen
  exact Prod.ext hfd (Option.some.inj hopen).symm

theorem Sim.idle_iff {s : State} {c : Client} (h : Sim s c) {fd : Fd} {o : Nat}
    (ho : s.world.fds fd = some o) :
    Deferred.idle c.users (fd, o) = true ↔ ∀ i ∈ s.maps, i.fd ≠ fd := by
  simp only [Deferred.idle, List.all_eq_true, bne_iff_ne]
  constructor
  · intro hidle i hi hfd
    obtain ⟨p, hp, hv⟩ := h.user_of_entry hi
    exact hidle p hp (h.desc_unique hp ho ((view_fd hv).symm.trans hfd))
  · intro hno p hp hpr
    obtain ⟨i, hi, hv⟩ := h.entry_of_user hp
    exact hno i hi ((view_fd hv).trans (congrArg Prod.fst hpr))

/-! ### The platform in between -/

theorem Sim.openFd {s : State} {c : Client} (h : Sim s c) {fd : Fd} (hpos : 0 ≤ fd)
    (hfree : s.world.fds fd = none) :
    Sim (handOutFd s fd) (c.step (.acquire (fd, s.world.openings))) where
  running := h.running
  shape := h.shape
  users := h.users
  usesOpen := by
    intro p hp
    have hopen := h.usesOpen p hp
    have hne : p.2.1 ≠ fd := by
      rintro rfl
      rw [hfree] at hopen
      cases hopen
    simpa only [handOutFd, Function.update_of_ne hne] using hopen
  holdsOpen := by
    intro r hr
    rcases Deferred.held_acquire.mp hr with rfl | hr
    · simp [handOutFd]
    · have hopen := h.holdsOpen r hr
      have hne : r.1 ≠ fd := by
        rintro rfl
        rw [hfree] at hopen
        cases hopen
      simpa only [handOutFd, Function.update_of_ne hne] using hopen
  known := by
    intro r hr
    show r.2 < s.world.openings + 1
    rcases hr with hr | hr
    · rcases Deferred.held_acquire.mp hr with rfl | hr
      · exact Nat.lt_succ_self _
      · exact Nat.lt_succ_of_lt (h.known r (Or.inl hr))
    · exact Nat.lt_succ_of_lt (h.known r (Or.inr hr))
  nonneg := by
    intro fd' hneg
    have hne : fd' ≠ fd := fun he => absurd hpos (Int.not_le.mpr (he ▸ hneg))
    simpa only [handOutFd, Function.update_of_ne hne] using h.nonneg fd' hneg
  accounts := h.accounts
  exact := by
    refine Deferred.step_exact h.exact ?_
    -- the opening is a new one, so nobody can have asked for it
    by_contra hasked
    exact Nat.lt_irrefl _ (h.known (fd, s.world.openings) (Or.inr hasked))

theorem Sim.openStream {s : State} {c : Client} (h : Sim s c) (fp : FilePtr) (fileno : Fd) :
    Sim (handOutStream s fp fileno) c :=
  ⟨h.running, h.shape, h.users, h.usesOpen, h.holdsOpen, h.known, h.nonneg, h.accounts, h.exact⟩

/-! ### Asking for a close -/

theorem Sim.known_request {s : State} {c : Client} (h : Sim s c) {r : Desc} {how : How}
    (hheld : c.held r = true) (r' : Desc)
    (hr : (c.step (.request r how)).held r' = true ∨ (c.step (.request r how)).asked r' ≠ none) :
    r'.2 < s.world.openings := by
  by_cases hrr : r' = r
  · rw [hrr]
    exact h.known r (Or.inl hheld)
  · rw [Deferred.held_request, Deferred.asked_request_of_ne hrr] at hr
    exact h.known r' (hr.imp_left And.right)

/-- The descriptor has entries: they are marked, and nothing is due yet. -/
theorem Sim.request_mark {s s' : State} {c : Client} (h : Sim s c) {fd : Fd} {o : Nat}
    {how : How} {handler : MapEntry → MapEntry} (hheld : c.held (fd, o) = true)
    (hentry : ¬ ∀ i ∈ s.maps, i.fd ≠ fd)
    (hview : ∀ i, (i.wantClose, i.haveFp, i.fp) = marks none →
      (handler i).view = (i.ptr, i.fd, marks (some how)))
    (hmaps : s'.maps = s.maps.map fun i => if i.fd = fd then handler i else i)
    (hworld : s'.world = s.world) (hrun : s'.stopped = none)
    (hlog : Accounts s'.log c.released) : Sim s' (c.step (.request (fd, o) how)) := by
  have ho := h.holdsOpen _ hheld
  have hbusy : Deferred.idle c.users (fd, o) = false := by
    rw [Bool.eq_false_iff, ne_eq, h.idle_iff ho]
    exact hentry
  refine ⟨hrun, ?_, ?_, ?_, ?_, ?_, ?_, ?_, Deferred.step_exact h.exact hheld⟩
  · rw [hmaps, List.map_map]
    refine map_eq_map_of h.shape fun i _ p hp hv => ?_
    show (if i.fd = fd then handler i else i).view = userView _ p
    by_cases hfd : i.fd = fd
    · have hp2 : p.2 = (fd, o) := h.desc_unique hp ho ((view_fd hv).symm.trans hfd)
      have hnone : c.asked p.2 = none := hp2 ▸ h.exact.holds _ hheld
      have hm := view_marks hv
      rw [hnone] at hm
      rw [if_pos hfd, hview i hm, view_ptr hv, view_fd hv]
      simp only [userView, Deferred.step, hp2, Function.update_self]
    · have hp2 : p.2 ≠ (fd, o) := fun he =>
        hfd ((view_fd hv).trans (congrArg Prod.fst he))
      rw [if_neg hfd, hv]
      simp only [userView, Deferred.step, Function.update_of_ne hp2]
  · rw [hworld]; exact h.users
  · rw [hworld]; exact h.usesOpen
  · intro r hr
    rw [hworld]
    exact h.holdsOpen r (Deferred.held_request.mp hr).2
  · rw [hworld]; exact h.known_request hheld
  · rw [hworld]; exact h.nonneg
  · simpa only [Deferred.step, hbusy, Bool.false_eq_true, if_false] using hlog

/-- The descriptor has no entry: it is really closed at once. -/
theorem Sim.request_close {s s' : State} {c : Client} (h : Sim s c) {fd : Fd} {o : Nat}
    {how : How} (hheld : c.held (fd, o) = true) (hentry : ∀ i ∈ s.maps, i.fd ≠ fd)
    (hmaps : s'.maps = s.maps) (hlive : s'.world.live = s.world.live)
    (hfds : s'.world.fds = Function.update s.world.fds fd none)
    (hopenings : s'.world.openings = s.world.openings) (hrun : s'.stopped = none)
    (hlog : Accounts s'.log (c.released ++ [((fd, o), how)])) :
    Sim s' (c.step (.request (fd, o) how)) := by
  have ho := h.holdsOpen _ hheld
  have hidle : Deferred.idle c.users (fd, o) = true := (h.idle_iff ho).mpr hentry
  have hother : ∀ p ∈ c.users, p.2.1 ≠ fd := by
    intro p hp hfd
    obtain ⟨i, hi, hv⟩ := h.entry_of_user hp
    exact hentry i hi ((view_fd hv).trans hfd)
  refine ⟨hrun, ?_, ?_, ?_, ?_, ?_, ?_, ?_, Deferred.step_exact h.exact hheld⟩
  · rw [hmaps]
    refine map_eq_map_of h.shape fun i _ p hp hv => hv.trans ?_
    have hp2 : p.2 ≠ (fd, o) := fun he => hother p hp (congrArg Prod.fst he)
    simp only [userView, Deferred.step, Function.update_of_ne hp2]
  · rw [hlive]; exact h.users
  · intro p hp
    rw [hfds, Function.update_of_ne (hother p hp)]
    exact h.usesOpen p hp
  · intro r hr
    obtain ⟨hrr, hr⟩ := Deferred.held_request.mp hr
    have hopen := h.holdsOpen r hr
    have hne : r.1 ≠ fd := by
      rintro hfd
      rw [hfd, ho] at hopen
      exact hrr (Prod.ext hfd (Option.some.inj hopen).symm)
    rw [hfds, Function.update_of_ne hne]
    exact hopen
  · rw [hopenings]; exact h.known_request hheld
  · intro fd' hneg
    rw [hfds]
    by_cases hfd : fd' = fd
    · rw [hfd, Function.update_self]
    · rw [Function.update_of_ne hfd]
      exact h.nonneg fd' hneg
  · simpa only [Deferred.step, hidle, if_true] using hlog

theorem Sim.close {s : State} {c : Client} (h : Sim s c) {fildes : Fd} {res : Int}
    (hobey : Obeys s c (.close fildes res)) :
    Sim (wrapClose s fildes res).2 (clientStep s c (.close fildes res)) := by
  obtain ⟨-, o, hheld⟩ := hobey
  have ho := h.holdsOpen _ hheld
  simp only [wrapClose, clientStep, clientAct, ho, Option.map_some]
  split
  · next maps hmark =>
      refine h.request_mark hheld (markByFd_entry hmark) ?_ (markByFd_eq_some hmark) rfl
        h.running h.accounts
      intro i hi
      simp only [marks, Prod.mk.injEq] at hi
      simp only [MapEntry.view, marks, hi]
  · next hmark =>
      refine h.request_close hheld (markByFd_eq_none.mp hmark) rfl rfl rfl rfl h.running ?_
      exact h.accounts.close (by simp only [Record.closed, World.desc, ho, Option.map_some])

theorem Sim.fclose {s : State} {c : Client} (h : Sim s c) {stream : Option FilePtr}
    {flush res : Int} (hok : Platform s (.fclose stream flush res))
    (hobey : Obeys s c (.fclose stream flush res)) :
    Sim (wrapFclose s stream flush res).2 (clientStep s c (.fclose stream flush res)) := by
  cases stream with
  | none =>
      exact ⟨h.running, h.shape, h.users, h.usesOpen, h.holdsOpen, h.known, h.nonneg,
        h.accounts, h.exact⟩
  | some fp =>
      obtain ⟨st, hst⟩ := Option.isSome_iff_exists.mp hok
      obtain ⟨-, -, hheld⟩ := hobey
      by_cases hneg : st.fileno < 0
      · -- a stream without a descriptor: nothing of the client's is closed
        simp only [wrapFclose, clientStep, clientAct, hst, Option.bind_some, if_pos hneg,
          realFclose]
        have hfds : Function.update s.world.fds st.fileno none = s.world.fds := by
          rw [← h.nonneg st.fileno hneg]
          exact Function.update_eq_self _ _
        refine ⟨h.running, h.shape, h.users, ?_, ?_, h.known, ?_, ?_, h.exact⟩
        · rw [hfds]; exact h.usesOpen
        · rw [hfds]; exact h.holdsOpen
        · rw [hfds]; exact h.nonneg
        · refine h.accounts.noDescriptor ?_ ⟨fp, st, rfl, hst, hneg⟩
          simp only [Record.closed, World.desc, hst, Option.bind_some, h.nonneg st.fileno hneg,
            Option.map_none]
      · obtain ⟨o, hopening, hheld⟩ := hheld st hst (Int.not_lt.mp hneg)
        have ho := h.holdsOpen _ hheld
        simp only [wrapFclose, clientStep, clientAct, hst, Option.bind_some, if_neg hneg,
          hopening, Option.map_some]
        split
        · next maps hmark =>
            refine h.request_mark hheld (markByFd_entry hmark) ?_ (markByFd_eq_some hmark) rfl
              h.running ?_
            · intro i _
              rfl
            · exact h.accounts.other rfl
        · next hmark =>
            simp only [realFclose, hst]
            refine h.request_close hheld (markByFd_eq_none.mp hmark) rfl rfl rfl rfl h.running ?_
            refine h.accounts.close ?_
            simp only [Record.closed, World.desc, hst, Option.bind_some, ho, Option.map_some]

/-! ### Mapping and unmapping -/

theorem Sim.mmap {s : State} {c : Client} (hinv : Inv s) (h : Sim s c) {addr : Addr} {len : Nat}
    {prot flags : UInt32} {fildes : Fd} {off : Int} {res : Option Addr} {mallocOk : Bool}
    (hok : Platform s (.mmap addr len prot flags fildes off res mallocOk))
    (hobey : Obeys s c (.mmap addr len prot flags fildes off res mallocOk)) :
    Sim (mmapStubImpl .debug s addr len prot flags fildes off res mallocOk).2
      (clientStep s c (.mmap addr len prot flags fildes off res mallocOk)) := by
  obtain ⟨hres, rfl, hheld⟩ := hobey
  obtain ⟨ptr, rfl⟩ := Option.isSome_iff_exists.mp hres
  have hlog : Accounts (s.log ++ [⟨.mmap addr len prot flags fildes off (some ptr), s.maps,
      s.world⟩]) c.released :=
    h.accounts.other rfl
  by_cases htr : isTracked prot flags fildes = true
  · have hpos : 0 ≤ fildes := by
      simp only [isTracked, Bool.and_eq_true, Bool.not_eq_true', decide_eq_false_iff_not] at htr
      exact Int.not_lt.mp htr.1
    obtain ⟨o, hheld⟩ := hheld hpos
    have ho := h.holdsOpen _ hheld
    simp only [mmapStubImpl, clientStep, clientAct, if_pos htr, Option.bind_some, ho,
      Option.map_some, assertThen, if_true]
    refine ⟨h.running, ?_, ?_, ?_, h.holdsOpen, h.known, h.nonneg, hlog, ?_⟩
    · refine congrArg₂ _ ?_ h.shape
      show _ = (ptr, fildes, marks (c.asked (fildes, o)))
      rw [h.exact.holds _ hheld]
      rfl
    · have hf : (⟨ptr, len, prot, flags, fildes, s.world.fds fildes⟩ ::
          s.world.live : List Mapping).filter Mapping.tracked
          = ⟨ptr, len, prot, flags, fildes, s.world.fds fildes⟩ ::
            s.world.live.filter Mapping.tracked :=
        List.filter_cons_of_pos htr
      show _ = (List.filter Mapping.tracked (_ :: s.world.live)).map _
      rw [hf, List.map_cons, ← h.users, ho]
      rfl
    · intro p hp
      rcases List.mem_cons.mp hp with rfl | hp
      · exact ho
      · exact h.usesOpen p hp
    · refine Deferred.step_exact h.exact ⟨hheld, ?_⟩
      -- a user at `ptr` would be a live mapping at `ptr`
      intro p hp hptr
      obtain ⟨i, hi, hv⟩ := h.entry_of_user hp
      obtain ⟨m, hm, -, hmp, -, -⟩ := (hinv.tracks h.running).mapping_of_entry hi
      exact hok.1 m hm (hmp.trans ((view_ptr hv).trans hptr))
  · simp only [mmapStubImpl, clientStep, clientAct, if_neg htr]
    refine ⟨h.running, h.shape, ?_, h.usesOpen, h.holdsOpen, h.known, h.nonneg, hlog, h.exact⟩
    have hf : (⟨ptr, len, prot, flags, fildes, s.world.fds fildes⟩ ::
        s.world.live : List Mapping).filter Mapping.tracked
        = s.world.live.filter Mapping.tracked :=
      List.filter_cons_of_neg htr
    show _ = (List.filter Mapping.tracked (_ :: s.world.live)).map _
    rw [hf]
    exact h.users

/-- Once the entry has left the list, the list is again what the remaining users say. -/
theorem Sim.shape_unlink {s : State} {c : Client} (h : Sim s c) (addr : Addr) :
    (s.maps.eraseP (·.ptr == addr)).map MapEntry.view
      = (c.users.eraseP (·.1 == addr)).map (userView c.asked) := by
  calc (s.maps.eraseP (·.ptr == addr)).map MapEntry.view
    _ = (s.maps.map MapEntry.view).eraseP (·.1 == addr) := by rw [List.eraseP_map]; rfl
    _ = (c.users.map (userView c.asked)).eraseP (·.1 == addr) := by rw [h.shape]
    _ = (c.users.eraseP (·.1 == addr)).map (userView c.asked) := by rw [List.eraseP_map]; rfl

theorem Sim.users_unlink {s : State} {c : Client} (h : Sim s c) (addr : Addr) :
    (c.users.eraseP (·.1 == addr)).map (fun p => (p.1, p.2.1, some p.2.2))
      = ((s.world.live.filter (·.ptr != addr)).filter Mapping.tracked).map
          fun m => (m.ptr, m.fildes, m.opening) := by
  calc (c.users.eraseP (·.1 == addr)).map (fun p => (p.1, p.2.1, some p.2.2))
    _ = (c.users.filter (·.1 != addr)).map (fun p => (p.1, p.2.1, some p.2.2)) := by
        rw [eraseP_eq_filter_of_nodup addr h.exact.users]
    _ = (c.users.map (fun p => (p.1, p.2.1, some p.2.2))).filter (·.1 != addr) := by
        rw [List.filter_map]; rfl
    _ = ((s.world.live.filter Mapping.tracked).map
          fun m => (m.ptr, m.fildes, m.opening)).filter (·.1 != addr) := by rw [h.users]
    _ = ((s.world.live.filter Mapping.tracked).filter (·.ptr != addr)).map
          (fun m => (m.ptr, m.fildes, m.opening)) := List.filter_map
    _ = ((s.world.live.filter (·.ptr != addr)).filter Mapping.tracked).map
          (fun m => (m.ptr, m.fildes, m.opening)) := by rw [List.filter_comm]

/-- The entry `munmap` finds and the user who leaves are the same mapping. -/
theorem Sim.find_user {s : State} {c : Client} (h : Sim s c) (addr : Addr) :
    (s.maps.find? (·.ptr == addr)).map MapEntry.view
      = (c.users.find? (·.1 == addr)).map (userView c.asked) := by
  calc (s.maps.find? (·.ptr == addr)).map MapEntry.view
    _ = (s.maps.map MapEntry.view).find? (·.1 == addr) := by rw [List.find?_map]; rfl
    _ = (c.users.map (userView c.asked)).find? (·.1 == addr) := by rw [h.shape]
    _ = (c.users.find? (·.1 == addr)).map (userView c.asked) := by rw [List.find?_map]; rfl

/-- The mapping of user `p` is gone, and what its leaving makes due was closed. -/
theorem Sim.detach {s s' : State} {c : Client} (h : Sim s c) {addr : Addr} {p : Addr × Desc}
    (hp : c.users.find? (·.1 == addr) = some p)
    (hmaps : s'.maps = s.maps.eraseP (·.ptr == addr))
    (hlive : s'.world.live = s.world.live.filter (·.ptr != addr))
    (hopenings : s'.world.openings = s.world.openings) (hrun : s'.stopped = none)
    (huses : ∀ q ∈ c.users.eraseP (·.1 == addr), s'.world.fds q.2.1 = some q.2.2)
    (hholds : ∀ r, c.held r = true → s'.world.fds r.1 = some r.2)
    (hnonneg : ∀ fd, fd < 0 → s'.world.fds fd = none)
    (hlog : Accounts s'.log
      (c.released ++ Deferred.due c.asked (c.users.eraseP (·.1 == addr)) p.2)) :
    Sim s' (c.step (.detach addr)) := by
  have hstep : c.step (.detach addr) = { c with
      users := c.users.eraseP (·.1 == addr)
      released := c.released ++ Deferred.due c.asked (c.users.eraseP (·.1 == addr)) p.2 } := by
    simp only [Deferred.step, hp]
  have hexact : Deferred.Exact (c.step (.detach addr)) := Deferred.step_exact h.exact trivial
  rw [hstep] at hexact ⊢
  refine ⟨hrun, ?_, ?_, huses, hholds, ?_, hnonneg, hlog, hexact⟩
  · rw [hmaps]; exact h.shape_unlink addr
  · rw [hlive]; exact h.users_unlink addr
  · rw [hopenings]; exact h.known

/-- `i` is the entry found for `addr`, and `p` the user that leaves with it. -/
structure Leaving (s : State) (c : Client) (addr : Addr) (i : MapEntry) (p : Addr × Desc) :
    Prop where
  entry : s.maps.find? (·.ptr == addr) = some i
  user : c.users.find? (·.1 == addr) = some p
  view : i.view = userView c.asked p

theorem Sim.leaving {s : State} {c : Client} (h : Sim s c) {addr : Addr} {i : MapEntry}
    (hi : s.maps.find? (·.ptr == addr) = some i) : ∃ p, Leaving s c addr i p := by
  have hfound := h.find_user addr
  rw [hi] at hfound
  obtain ⟨p, hp, hv⟩ := Option.map_eq_some_iff.mp hfound.symm
  exact ⟨p, hi, hp, hv.symm⟩

/-- A sibling left in the list is a user of the same descriptor, so it wants the
close too. -/
theorem Sim.sibling {s : State} {c : Client} (h : Sim s c) {addr : Addr} {i j : MapEntry}
    {p : Addr × Desc} (hl : Leaving s c addr i p) {how : How} (hask : c.asked p.2 = some how)
    (hj : (s.maps.eraseP (·.ptr == addr)).find? (·.fd == i.fd) = some j) :
    j.wantClose = true ∧ Deferred.due c.asked (c.users.eraseP (·.1 == addr)) p.2 = [] := by
  have hjm : j ∈ s.maps.eraseP (·.ptr == addr) := List.mem_of_find?_eq_some hj
  have hjv := List.mem_map_of_mem (f := MapEntry.view) hjm
  rw [h.shape_unlink addr] at hjv
  obtain ⟨q, hq, hqv⟩ := List.mem_map.mp hjv
  have hopen := h.usesOpen p (List.mem_of_find?_eq_some hl.user)
  have hjfd : j.fd = i.fd := by simpa using List.find?_some hj
  have hq2 : q.2 = p.2 := h.desc_unique (List.mem_of_mem_eraseP hq) hopen
    ((view_fd hqv.symm).symm.trans (hjfd.trans (view_fd hl.view)))
  constructor
  · have hm := view_marks hqv.symm
    rw [hq2, hask] at hm
    cases how with
    | close => exact congrArg (·.1) hm
    | fclose fp => exact congrArg (·.1) hm
  · rw [← hq2]
    exact Deferred.due_of_busy hq

/-- Without a sibling the descriptor of `i` has no user left: its close is due,
and no other descriptor of the client has that number. -/
theorem Sim.last {s : State} {c : Client} (h : Sim s c) {addr : Addr} {i : MapEntry}
    {p : Addr × Desc} (hl : Leaving s c addr i p) {how : How} (hask : c.asked p.2 = some how)
    (hnone : (s.maps.eraseP (·.ptr == addr)).find? (·.fd == i.fd) = none) :
    (∀ q ∈ c.users.eraseP (·.1 == addr),
        Function.update s.world.fds i.fd none q.2.1 = some q.2.2) ∧
    (∀ r, c.held r = true → Function.update s.world.fds i.fd none r.1 = some r.2) ∧
    (∀ fd, fd < 0 → Function.update s.world.fds i.fd none fd = none) ∧
    Deferred.due c.asked (c.users.eraseP (·.1 == addr)) p.2 = [(p.2, how)] := by
  have hopen := h.usesOpen p (List.mem_of_find?_eq_some hl.user)
  have hfd : i.fd = p.2.1 := view_fd hl.view
  have hleft : ∀ q ∈ c.users.eraseP (·.1 == addr), q.2.1 ≠ i.fd := by
    intro q hq hqfd
    have hqv := List.mem_map_of_mem (f := userView c.asked) hq
    rw [← h.shape_unlink addr] at hqv
    obtain ⟨j, hj, hjv⟩ := List.mem_map.mp hqv
    have := List.find?_eq_none.mp hnone j hj
    exact this (by simpa using (view_fd hjv).trans hqfd)
  refine ⟨?_, ?_, ?_, ?_⟩
  · intro q hq
    rw [Function.update_of_ne (hleft q hq)]
    exact h.usesOpen q (List.mem_of_mem_eraseP hq)
  · intro r hr
    have hr' := h.holdsOpen r hr
    have hne : r.1 ≠ i.fd := by
      -- the client does not hold what it has asked to close
      intro hrfd
      rw [hrfd, hfd, hopen] at hr'
      have hrp : r = p.2 := Prod.ext (hrfd.trans hfd) (Option.some.inj hr').symm
      have hheld := h.exact.holds r hr
      rw [hrp, hask] at hheld
      cases hheld
    rw [Function.update_of_ne hne]
    exact hr'
  · intro fd hneg
    by_cases hfd' : fd = i.fd
    · rw [hfd', Function.update_self]
    · rw [Function.update_of_ne hfd']
      exact h.nonneg fd hneg
  · have hidle : Deferred.idle (c.users.eraseP (·.1 == addr)) p.2 = true := by
      simp only [Deferred.idle, List.all_eq_true, bne_iff_ne]
      exact fun q hq hq2 => hleft q hq (hfd ▸ congrArg Prod.fst hq2)
    simp only [Deferred.due, hask, hidle, if_true]

/-- The hook, on the state `s₂` in which the entry has left the list. -/
theorem Sim.hook {s s₂ : State} {c : Client} (ht : Tracks s) (h : Sim s c) {addr : Addr}
    {i : MapEntry} {p : Addr × Desc} (hl : Leaving s c addr i p) {how : How}
    (hask : c.asked p.2 = some how) {len : Nat} (hlen : i.len = len)
    (hmaps : s₂.maps = s.maps.eraseP (·.ptr == addr))
    (hworld : s₂.world = { s.world with live := s.world.live.filter (·.ptr != addr) })
    (hrun : s₂.stopped = none) (hlog : Accounts s₂.log c.released) :
    Sim (postMunmapHook .debug s₂ i len 0) (c.step (.detach addr)) := by
  have hopen := h.usesOpen p (List.mem_of_find?_eq_some hl.user)
  have hfd : i.fd = p.2.1 := view_fd hl.view
  have hmarks := view_marks hl.view
  have hlive : s₂.world.live = s.world.live.filter (·.ptr != addr) := by rw [hworld]
  have hopenings : s₂.world.openings = s.world.openings := by rw [hworld]
  have hfds : s₂.world.fds = s.world.fds := by rw [hworld]
  simp only [postMunmapHook, hlen, BEq.rfl, assertThen, hmaps]
  split
  · next j hj =>
      obtain ⟨hwant, hdue⟩ := h.sibling hl hask hj
      simp only [hwant, id_eq]
      refine h.detach hl.user hmaps hlive hopenings hrun ?_ ?_ ?_ ?_
      · rw [hfds]
        exact fun q hq => h.usesOpen q (List.mem_of_mem_eraseP hq)
      · rw [hfds]; exact h.holdsOpen
      · rw [hfds]; exact h.nonneg
      · rw [hdue, List.append_nil]
        exact hlog
  · next hnone =>
      obtain ⟨huses, hholds, hnonneg, hdue⟩ := h.last hl hask hnone
      rw [← hfds] at huses hholds hnonneg
      cases how with
      | close =>
          rw [hask] at hmarks
          simp only [marks, Prod.mk.injEq] at hmarks
          simp only [hmarks, Bool.false_eq_true, if_false, assertZero, if_true]
          refine h.detach hl.user hmaps hlive hopenings hrun huses hholds hnonneg ?_
          rw [hdue]
          refine hlog.close ?_
          simp only [Record.closed, World.desc, hfds, hfd, hopen, Option.map_some]
      | fclose fp =>
          rw [hask] at hmarks
          simp only [marks, Prod.mk.injEq] at hmarks
          obtain ⟨fp', st, hfp', hst, hno⟩ :=
            ht.streams i (List.mem_of_find?_eq_some hl.entry) hmarks.2.1
          obtain rfl := Option.some.inj (hmarks.2.2.symm.trans hfp')
          have hst₂ : s₂.world.streams fp = some st := by rw [hworld]; exact hst
          simp only [hmarks, if_true, assertZero, realFclose, hst₂, hno]
          refine h.detach hl.user hmaps hlive hopenings hrun huses hholds hnonneg ?_
          rw [hdue]
          refine hlog.close ?_
          simp only [Record.closed, World.desc, hst₂, Option.bind_some, hno, hfds, hfd, hopen,
            Option.map_some]

theorem Leaving.len_eq {s : State} {c : Client} {addr : Addr} {len : Nat} {i : MapEntry}
    {p : Addr × Desc} (hl : Leaving s c addr i p) (ht : Tracks s)
    (hok : ∃ m ∈ s.world.live, m.ptr = addr ∧ m.len = len) : i.len = len := by
  obtain ⟨m, hm, hmp, hml⟩ := hok
  obtain ⟨m', hm', -, hmp', hml', -⟩ :=
    ht.mapping_of_entry (List.mem_of_find?_eq_some hl.entry)
  have hptr : i.ptr = addr := by simpa using List.find?_some hl.entry
  -- only one live mapping starts at `addr`
  have h₁ := find?_eq_some_of_nodup ht.starts hm
  have h₂ := find?_eq_some_of_nodup ht.starts hm'
  rw [hmp', hptr, ← hmp, h₁] at h₂
  obtain rfl := Option.some.inj h₂
  exact hml'.symm.trans hml

theorem Sim.munmap {s : State} {c : Client} (hinv : Inv s) (h : Sim s c) {addr : Addr}
    {len : Nat} {res closeRes : Int} (hok : Platform s (.munmap addr len res closeRes))
    (hobey : Obeys s c (.munmap addr len res closeRes)) :
    Sim (munmapStubImpl .debug s addr len res closeRes).2
      (clientStep s c (.munmap addr len res closeRes)) := by
  obtain ⟨rfl, rfl⟩ := hobey
  have ht := hinv.tracks h.running
  have hlog : Accounts (realMunmap s addr len 0).log c.released := h.accounts.other rfl
  have huses : ∀ q ∈ c.users.eraseP (·.1 == addr), s.world.fds q.2.1 = some q.2.2 :=
    fun q hq => h.usesOpen q (List.mem_of_mem_eraseP hq)
  show Sim _ (c.step (.detach addr))
  simp only [munmapStubImpl, Int.lt_irrefl, if_false, realMunmap_maps]
  split
  · next hnone =>
      -- an untracked mapping: no entry, and nobody leaves
      have hfound := h.find_user addr
      rw [hnone] at hfound
      have hno : c.users.find? (·.1 == addr) = none := Option.map_eq_none_iff.mp hfound.symm
      have hsame : c.users.eraseP (·.1 == addr) = c.users :=
        List.eraseP_of_forall_not fun q hq => List.find?_eq_none.mp hno q hq
      have hstep : c.step (.detach addr) = c := by simp only [Deferred.step, hno]
      have husers := h.users_unlink addr
      rw [hsame] at husers
      rw [hstep]
      exact ⟨h.running, h.shape, husers, h.usesOpen, h.holdsOpen, h.known, h.nonneg, hlog,
        h.exact⟩
  · next i hi =>
      obtain ⟨p, hl⟩ := h.leaving hi
      have hmarks := view_marks hl.view
      cases hask : c.asked p.2 with
      | none =>
          rw [hask] at hmarks
          simp only [marks, Prod.mk.injEq] at hmarks
          simp only [hmarks, Bool.false_eq_true, if_false]
          refine h.detach hl.user rfl rfl rfl h.running huses h.holdsOpen h.nonneg ?_
          rw [Deferred.due_of_none hask, List.append_nil]
          exact hlog
      | some how =>
          have hwant : i.wantClose = true := by
            rw [hask] at hmarks
            cases how with
            | close => exact congrArg (·.1) hmarks
            | fclose fp => exact congrArg (·.1) hmarks
          simp only [hwant, if_true]
          exact h.hook ht hl hask (hl.len_eq ht (hok (Int.le_refl 0))) rfl rfl h.running hlog

/-! ## Runs of the program and its client -/

/-- One operation, in the build with asserts, seen by the client as well. -/
def jointStep (x : State × Client) (op : Op) : State × Client :=
  (step .debug x.1 op, clientStep x.1 x.2 op)

def JointOk (x : State × Client) (op : Op) : Prop :=
  Platform x.1 op ∧ Obeys x.1 x.2 op

theorem sim_step {x : State × Client} {op : Op} (h : Inv x.1 ∧ Sim x.1 x.2)
    (hok : JointOk x op) : Inv (jointStep x op).1 ∧ Sim (jointStep x op).1 (jointStep x op).2 := by
  obtain ⟨s, c⟩ := x
  obtain ⟨hinv, h⟩ := h
  obtain ⟨hplat, hobey⟩ := hok
  refine ⟨step_inv .debug hinv hplat, ?_⟩
  have hrun : s.stopped = none := h.running
  simp only [jointStep, step_running hrun]
  cases op with
  | openFd fd => exact h.openFd hplat.1 hplat.2
  | openStream fp fileno => exact h.openStream fp fileno
  | mmap addr len prot flags fildes off res mallocOk => exact h.mmap hinv hplat hobey
  | close fildes res => exact h.close hobey
  | fclose stream flush res => exact h.fclose hplat hobey
  | munmap addr len res closeRes => exact h.munmap hinv hplat hobey

theorem init_sim : Sim init Deferred.init where
  running := rfl
  shape := rfl
  users := rfl
  usesOpen := by
    intro p hp
    exact absurd hp List.not_mem_nil
  holdsOpen := by
    intro r hr
    cases hr
  known := by
    rintro r (hr | hr)
    · cases hr
    · exact absurd rfl hr
  nonneg := fun _ _ => rfl
  accounts := .nil
  exact := Deferred.init_exact

theorem run_sim {ops : List Op} {s : State} {c : Client}
    (h : Run JointOk jointStep (init, Deferred.init) ops (s, c)) : Sim s c :=
  (h.inv (P := fun x => Inv x.1 ∧ Sim x.1 x.2) (fun _ _ hx hok => sim_step hx hok)
    ⟨init_inv, init_sim⟩).2

/-- A tracked mapping made from descriptor `r` is live. -/
def mapped (s : State) (r : Desc) : Bool :=
  s.world.live.any fun m => m.tracked && m.fildes == r.1 && m.opening == some r.2

theorem Sim.idle_eq {s : State} {c : Client} (h : Sim s c) (r : Desc) :
    Deferred.idle c.users r = !mapped s r := by
  have hcount : (c.users.any fun p => p.2.1 == r.1 && some p.2.2 == some r.2) = mapped s r := by
    calc (c.users.any fun p => p.2.1 == r.1 && some p.2.2 == some r.2)
      _ = (c.users.map (fun p => (p.1, p.2.1, some p.2.2))).any
            (fun x => x.2.1 == r.1 && x.2.2 == some r.2) := by rw [List.any_map]; rfl
      _ = ((s.world.live.filter Mapping.tracked).map fun m => (m.ptr, m.fildes, m.opening)).any
            (fun x => x.2.1 == r.1 && x.2.2 == some r.2) := by rw [h.users]
      _ = (s.world.live.filter Mapping.tracked).any
            (fun m => m.fildes == r.1 && m.opening == some r.2) := by rw [List.any_map]; rfl
      _ = mapped s r := by simp only [List.any_filter, mapped, Bool.and_assoc]
  rw [← hcount, List.not_any_eq_all_not]
  refine congrArg (List.all c.users) (funext fun p => ?_)
  rw [Bool.eq_iff_iff]
  simp [Prod.ext_iff, imp_iff_not_or]

/-- **Exactly-once delayed close.**  No assert fails.  The real closes of a
descriptor are, in order: none while the client has not closed it or has a
tracked mapping of it, and otherwise the one close the client asked for.  No
other descriptor is closed, and what the client has mapped is what is live. -/
theorem close_exactlyOnce {ops : List Op} {s : State} {c : Client}
    (h : Run JointOk jointStep (init, Deferred.init) ops (s, c)) :
    s.stopped = none ∧
    (∀ r : Desc, (s.log.filterMap Record.closed).filter (·.1 = some r)
      = match c.asked r with
        | none => []
        | some how => if Deferred.idle c.users r then [(some r, how)] else []) ∧
    (∀ rec ∈ s.log, ∀ how, rec.closed = some (none, how) → rec.OfNoDescriptor how) ∧
    ∀ r : Desc, mapped s r = !Deferred.idle c.users r := by
  have hsim := run_sim h
  refine ⟨hsim.running, fun r => ?_, hsim.accounts.proper, fun r => ?_⟩
  · rw [hsim.accounts.of_desc, hsim.exact.releases, Deferred.due]
    cases c.asked r with
    | none => rfl
    | some how =>
        cases Deferred.idle c.users r with
        | false => rfl
        | true => rfl
  · rw [hsim.idle_eq, Bool.not_not]

theorem twoMappings_run : Run JointOk jointStep (init, Deferred.init) twoMappings
    (twoMappings.foldl jointStep (init, Deferred.init)) :=
  .cons ⟨by decide, trivial⟩
    (.cons ⟨by decide, rfl, rfl, fun _ => ⟨0, rfl⟩⟩
      (.cons ⟨by decide, rfl, rfl, fun _ => ⟨0, rfl⟩⟩
        (.cons ⟨by decide, rfl, 0, rfl⟩
          (.cons ⟨by decide, rfl, rfl⟩
            (.cons ⟨by decide, rfl, rfl⟩ (.nil _))))))

/-- The close of descriptor 3 waits for the second of its two mappings. -/
theorem close_exactlyOnce_twoMappings :
    let during := (twoMappings.take 5).foldl jointStep (init, Deferred.init)
    let after := twoMappings.foldl jointStep (init, Deferred.init)
    (during.1.log.filterMap Record.closed).filter (·.1 = some (3, 0)) = [] ∧
      (after.1.log.filterMap Record.closed).filter (·.1 = some (3, 0))
        = [(some (3, 0), .close)] ∧
      mapped during.1 (3, 0) = true ∧ mapped after.1 (3, 0) = false := by
  obtain ⟨-, hduring, -, hmapped⟩ := close_exactlyOnce (twoMappings_run.take 5)
  obtain ⟨-, hafter, -, hunmapped⟩ := close_exactlyOnce twoMappings_run
  exact ⟨hduring (3, 0), hafter (3, 0), hmapped (3, 0), hunmapped (3, 0)⟩

end LibcCompat.Emsup
