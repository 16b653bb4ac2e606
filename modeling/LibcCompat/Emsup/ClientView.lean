/-
# `LibcCompat.Emsup.ClientView` — what a client sees of a descriptor it closed

## What is proved

A client that has closed a descriptor, and had 0 for an answer, may not use it
any more: plain `close` would answer −1 and plain `mmap` would fail.  The
wrapped calls say the same as long as no close is delayed, and not one call
longer (`closed_iff`).

A delayed close leaves the descriptor open underneath, and the test for an
invalid descriptor in `__wrap_close` asks the platform.  So the second close
answers 0, and `mmap` on the closed descriptor makes a mapping — one that has
not been marked, which is what `assert(i->want_close)` in `post_munmap_hook`
takes to be impossible (`delayed_seen`).

## How

Which descriptors the client has closed is not something the program keeps, so
`Viewed` carries it beside the state.  The invariant is that these descriptors
are closed underneath as well: no call opens a descriptor (`run_closed`), and a
close that is not delayed really closes it.
-/
import LibcCompat.Emsup.MmapHack
import LibcCompat.Lib.Run

namespace LibcCompat.Emsup

open LibcCompat.Lib

/-! ## The client -/

/-- The program, with the descriptors its client has closed since they were last
handed out. -/
structure Viewed where
  state : State
  closed : Fd → Bool

/-- The descriptor a call has closed for the client: the call answered 0. -/
def Op.closed (s : State) : Op → Option Fd
  | .close fildes res => if (wrapClose s fildes res).1 = 0 then some fildes else none
  | .fclose (some fp) flush res =>
      match s.world.streams fp with
      | none => none
      | some st =>
          if (wrapFclose s (some fp) flush res).1 = 0 ∧ 0 ≤ st.fileno then some st.fileno
          else none
  | _ => none

/-- The client's table after a call: a number handed out anew is open again. -/
def Viewed.after (c : Viewed) (op : Op) (fd : Fd) : Bool :=
  decide (op.closed c.state = some fd) || (c.closed fd && decide (op ≠ .openFd fd))

theorem Viewed.after_eq_true {c : Viewed} {op : Op} {fd : Fd} :
    c.after op fd = true ↔
      op.closed c.state = some fd ∨ (c.closed fd = true ∧ op ≠ .openFd fd) := by
  simp only [Viewed.after, Bool.or_eq_true, Bool.and_eq_true, decide_eq_true_eq]

def viewedStep (b : Build) (c : Viewed) (op : Op) : Viewed :=
  match c.state.stopped with
  | some _ => c
  | none => ⟨op.run b c.state, c.after op⟩

theorem viewedStep_running {b : Build} {c : Viewed} (h : c.state.stopped = none) (op : Op) :
    viewedStep b c op = ⟨op.run b c.state, c.after op⟩ := by
  simp only [viewedStep, h]

def Viewed.init : Viewed := ⟨Emsup.init, fun _ => false⟩

/-- The table is beside the program: it does not change what the program does. -/
theorem viewedStep_state (b : Build) (c : Viewed) (op : Op) :
    (viewedStep b c op).state = step b c.state op := by
  cases h : c.state.stopped with
  | none => simp only [viewedStep, step, h]
  | some why => simp only [viewedStep, step, h]

theorem viewed_state (b : Build) (c : Viewed) (ops : List Op) :
    (ops.foldl (viewedStep b) c).state = ops.foldl (step b) c.state := by
  induction ops generalizing c with
  | nil => rfl
  | cons op ops ih =>
      rw [List.foldl_cons, List.foldl_cons, ih, viewedStep_state]

/-- A descriptor the client has closed is closed for it: `__wrap_close` answers
−1 and `_mmap_stub_impl` fails, whatever the platform may answer.  An anonymous
mapping is made from no descriptor. -/
structure Viewed.SeesClosed (b : Build) (c : Viewed) : Prop where
  close : ∀ fd, c.closed fd = true → ∀ res, (wrapClose c.state fd res).1 = -1
  mmap : ∀ fd, c.closed fd = true →
    ∀ addr len prot flags off res mallocOk, flags &&& MAP_ANONYMOUS = 0 →
      Platform c.state (.mmap addr len prot flags fd off res mallocOk) →
      (mmapStubImpl b c.state addr len prot flags fd off res mallocOk).1 = none

/-! ## The condition -/

/-- The descriptor is really open and an entry of the list carries it. -/
def Held (s : State) (fd : Fd) : Prop := (s.world.fds fd).isSome ∧ ∃ i ∈ s.maps, i.fd = fd

/-- A close that has to wait for `munmap`. -/
def Delays (s : State) : Op → Prop
  | .close fildes _ => Held s fildes
  | .fclose (some fp) _ _ =>
      ∃ st, s.world.streams fp = some st ∧ 0 ≤ st.fileno ∧ Held s st.fileno
  | _ => False

/-- The operation delays no close. -/
def Prompt (c : Viewed) (op : Op) : Prop := c.state.stopped = none → ¬ Delays c.state op

/-! ## No call opens a descriptor -/

theorem realClose_closed {s : State} {fd : Fd} (h : s.world.fds fd = none) (fd' : Fd)
    (res : Int) : (realClose s fd' res).world.fds fd = none := by
  show Function.update s.world.fds fd' none fd = none
  rw [Function.update_apply]
  split
  · rfl
  · exact h

theorem realFclose_closed {s : State} {fd : Fd} (h : s.world.fds fd = none)
    (fp : Option FilePtr) (res : Int) : (realFclose s fp res).world.fds fd = none := by
  unfold realFclose
  split
  · exact h
  · split
    · exact h
    · next st _ =>
        show Function.update s.world.fds st.fileno none fd = none
        rw [Function.update_apply]
        split
        · rfl
        · exact h

theorem postMunmapHook_closed {s : State} {fd : Fd} (h : s.world.fds fd = none) (b : Build)
    (map : MapEntry) (len : Nat) (res : Int) :
    (postMunmapHook b s map len res).world.fds fd = none := by
  refine assertThen_cases (P := fun s => s.world.fds fd = none) h ?_
  split
  · exact assertThen_cases (P := fun s => s.world.fds fd = none) h h
  · split
    · exact assertZero_cases (P := fun s => s.world.fds fd = none) h
        (realFclose_closed h map.fp res) (realFclose_closed h map.fp res)
    · exact assertZero_cases (P := fun s => s.world.fds fd = none) h
        (realClose_closed h map.fd res) (realClose_closed h map.fd res)

theorem mmapStubImpl_fds (b : Build) (s : State) (addr : Addr) (len : Nat) (prot flags : UInt32)
    (fildes : Fd) (off : Int) (res : Option Addr) (mallocOk : Bool) :
    (mmapStubImpl b s addr len prot flags fildes off res mallocOk).2.world.fds = s.world.fds := by
  unfold mmapStubImpl
  cases res with
  | none => rfl
  | some ptr =>
      dsimp only
      split
      · refine assertThen_cases (P := fun s' => s'.world.fds = s.world.fds) rfl ?_
        cases mallocOk with
        | false => rfl
        | true => rfl
      · rfl

theorem munmapStubImpl_closed {s : State} {fd : Fd} (h : s.world.fds fd = none) (b : Build)
    (addr : Addr) (len : Nat) (res closeRes : Int) :
    (munmapStubImpl b s addr len res closeRes).2.world.fds fd = none := by
  unfold munmapStubImpl
  dsimp only
  split
  · exact h
  · split
    · exact h
    · dsimp only
      split
      · exact postMunmapHook_closed (by exact h) b _ _ _
      · exact h

theorem wrapClose_closed {s : State} {fd : Fd} (h : s.world.fds fd = none) (fildes : Fd)
    (res : Int) : (wrapClose s fildes res).2.world.fds fd = none := by
  unfold wrapClose
  split
  · exact h
  · split
    · exact h
    · exact realClose_closed h fildes res

theorem wrapFclose_closed {s : State} {fd : Fd} (h : s.world.fds fd = none)
    (stream : Option FilePtr) (flush res : Int) :
    (wrapFclose s stream flush res).2.world.fds fd = none := by
  unfold wrapFclose
  split
  · exact h
  · split
    · exact h
    · split
      · exact realFclose_closed h _ res
      · split
        · exact h
        · exact realFclose_closed h _ res

/-- A closed descriptor stays closed until its number is handed out again. -/
theorem run_closed (b : Build) {s : State} {fd : Fd} (h : s.world.fds fd = none) {op : Op}
    (hop : op ≠ .openFd fd) : (op.run b s).world.fds fd = none := by
  cases op with
  | openFd fd' =>
      have hne : fd ≠ fd' := fun heq => hop (heq ▸ rfl)
      show Function.update s.world.fds fd' _ fd = none
      rw [Function.update_of_ne hne]
      exact h
  | openStream fp fileno => exact h
  | mmap addr len prot flags fildes off res mallocOk =>
      exact (congrFun (mmapStubImpl_fds b s addr len prot flags fildes off res mallocOk) fd).trans h
  | close fildes res => exact wrapClose_closed h fildes res
  | fclose stream flush res => exact wrapFclose_closed h stream flush res
  | munmap addr len res closeRes => exact munmapStubImpl_closed h b addr len res closeRes

/-! ## A close that is not delayed -/

theorem Held.of_mark {s : State} {fd : Fd} {handler : MapEntry → MapEntry}
    {maps : List MapEntry} (hopen : (s.world.fds fd).isSome)
    (hmark : markByFd s.maps fd handler = some maps) : Held s fd := by
  have hentry := markByFd_entry hmark
  exact ⟨hopen, by simpa using hentry⟩

theorem wrapClose_prompt {s : State} {fd : Fd} {res : Int} (h : ¬ Held s fd)
    (hres : (wrapClose s fd res).1 = 0) : (wrapClose s fd res).2.world.fds fd = none := by
  unfold wrapClose at hres ⊢
  split at hres
  · cases hres
  · next o hopen =>
      cases hmark : markByFd s.maps fd fun i => { i with wantClose := true } with
      | none =>
          show Function.update s.world.fds fd none fd = none
          exact Function.update_self ..
      | some maps => exact absurd (.of_mark (by rw [hopen]; rfl) hmark) h

theorem realFclose_releases {s : State} {fp : FilePtr} {st : Stream}
    (hst : s.world.streams fp = some st) (res : Int) :
    (realFclose s (some fp) res).world.fds st.fileno = none := by
  simp only [realFclose, hst]
  exact Function.update_self ..

theorem wrapFclose_prompt {s : State} {fp : FilePtr} {st : Stream} {flush res : Int}
    (hst : s.world.streams fp = some st) (hfd : 0 ≤ st.fileno) (h : ¬ Held s st.fileno) :
    (wrapFclose s (some fp) flush res).2.world.fds st.fileno = none := by
  simp only [wrapFclose, hst, if_neg (Int.not_lt.mpr hfd)]
  split
  · next hmark =>
      have hclosed : ¬ (s.world.fds st.fileno).isSome := fun hopen => h (.of_mark hopen hmark)
      exact Option.not_isSome_iff_eq_none.mp hclosed
  · exact realFclose_releases hst res

/-- Only `close`, and `fclose` of a stream on a descriptor, close for the client. -/
theorem closed_cases {s : State} {op : Op} {fd : Fd} (h : op.closed s = some fd) :
    (∃ res, op = .close fd res ∧ (wrapClose s fd res).1 = 0) ∨
      ∃ fp st flush res, op = .fclose (some fp) flush res ∧
        s.world.streams fp = some st ∧ st.fileno = fd ∧ 0 ≤ fd := by
  cases op with
  | close fildes res =>
      simp only [Op.closed, Option.ite_none_right_eq_some, Option.some.injEq] at h
      obtain ⟨hres, rfl⟩ := h
      exact .inl ⟨res, rfl, hres⟩
  | fclose stream flush res =>
      cases stream with
      | none => cases h
      | some fp =>
          cases hst : s.world.streams fp with
          | none => simp [Op.closed, hst] at h
          | some st =>
              simp only [Op.closed, hst, Option.ite_none_right_eq_some, Option.some.injEq] at h
              obtain ⟨⟨_, hfd⟩, rfl⟩ := h
              exact .inr ⟨fp, st, flush, res, rfl, hst, rfl, hfd⟩
  | openFd fd' => cases h
  | openStream fp fileno => cases h
  | mmap addr len prot flags fildes off res mallocOk => cases h
  | munmap addr len res closeRes => cases h

theorem closed_prompt (b : Build) {s : State} {op : Op} {fd : Fd}
    (h : op.closed s = some fd) (hprompt : ¬ Delays s op) :
    (op.run b s).world.fds fd = none := by
  rcases closed_cases h with ⟨res, rfl, hres⟩ | ⟨fp, st, flush, res, rfl, hst, rfl, hfd⟩
  · exact wrapClose_prompt hprompt hres
  · exact wrapFclose_prompt hst hfd fun hheld => hprompt ⟨st, hst, hfd, hheld⟩

theorem closed_nonneg {s : State} {op : Op} {fd : Fd}
    (hneg : ∀ fd, fd < 0 → s.world.fds fd = none) (h : op.closed s = some fd) : 0 ≤ fd := by
  rcases closed_cases h with ⟨res, rfl, hres⟩ | ⟨_, _, _, _, _, _, _, hfd⟩
  · refine Int.not_lt.mp fun hlt => ?_
    simp only [wrapClose, hneg fd hlt] at hres
    cases hres
  · exact hfd

/-! ## The invariant -/

/-- What the client has closed is closed underneath; negative numbers are no
descriptors. -/
structure Viewed.Agrees (c : Viewed) : Prop where
  closed : ∀ fd, c.closed fd = true → 0 ≤ fd ∧ c.state.world.fds fd = none
  negative : ∀ fd, fd < 0 → c.state.world.fds fd = none

theorem Viewed.Agrees.sees {c : Viewed} (h : c.Agrees) (b : Build) : c.SeesClosed b where
  close := by
    intro fd hfd res
    simp only [wrapClose, (h.closed fd hfd).2]
  mmap := by
    intro fd hfd addr len prot flags off res mallocOk hfile hok
    obtain ⟨hnonneg, hclosed⟩ := h.closed fd hfd
    cases res with
    | none => rfl
    | some ptr =>
        have hopen := hok.2 hnonneg hfile
        rw [hclosed] at hopen
        cases hopen

theorem Viewed.Agrees.step {b : Build} {c : Viewed} {op : Op} (h : c.Agrees)
    (hok : Platform c.state op) (hgood : Prompt c op) : (viewedStep b c op).Agrees := by
  cases hs : c.state.stopped with
  | some why => simpa only [viewedStep, hs] using h
  | none =>
      rw [viewedStep_running hs]
      refine ⟨?_, ?_⟩
      · intro fd hfd
        rcases Viewed.after_eq_true.mp hfd with hcl | ⟨hbefore, hop⟩
        · exact ⟨closed_nonneg h.negative hcl, closed_prompt b hcl (hgood hs)⟩
        · obtain ⟨hnonneg, hclosed⟩ := h.closed fd hbefore
          exact ⟨hnonneg, run_closed b hclosed hop⟩
      · intro fd hfd
        refine run_closed b (h.negative fd hfd) ?_
        rintro rfl
        exact Int.not_le.mpr hfd hok.1

theorem Viewed.init_agrees : Viewed.init.Agrees :=
  ⟨fun _ hfd => (nomatch hfd), fun _ _ => rfl⟩

/-! ## A close that is delayed shows -/

theorem wrapClose_open {s : State} {fd : Fd} (h : (s.world.fds fd).isSome) :
    (wrapClose s fd 0).1 = 0 := by
  obtain ⟨o, ho⟩ := Option.isSome_iff_exists.mp h
  simp only [wrapClose, ho]
  split
  · rfl
  · rfl

theorem markByFd_held {s : State} {fd : Fd} (h : Held s fd) (handler : MapEntry → MapEntry) :
    ∃ maps, markByFd s.maps fd handler = some maps := by
  obtain ⟨_, i, hi, hfd⟩ := h
  refine Option.ne_none_iff_exists'.mp fun hnone => ?_
  exact markByFd_eq_none.mp hnone i hi hfd

theorem delays_shows (b : Build) {s : State} {op : Op} (h : Delays s op) :
    ∃ fd, op.closed s = some fd ∧ ((op.run b s).world.fds fd).isSome := by
  cases op with
  | close fildes res =>
      obtain ⟨maps, hmark⟩ := markByFd_held h fun i => { i with wantClose := true }
      obtain ⟨o, ho⟩ := Option.isSome_iff_exists.mp h.1
      refine ⟨fildes, ?_, ?_⟩
      · simp only [Op.closed, wrapClose, ho, hmark, if_true]
      · simpa only [Op.run, wrapClose, ho, hmark] using h.1
  | fclose stream flush res =>
      cases stream with
      | none => exact h.elim
      | some fp =>
          obtain ⟨st, hst, hfd, hheld⟩ := h
          obtain ⟨maps, hmark⟩ := markByFd_held hheld fun i =>
            { i with wantClose := true, fp := some fp, haveFp := true }
          refine ⟨st.fileno, ?_, ?_⟩
          · simp only [Op.closed, wrapFclose, hst, if_neg (Int.not_lt.mpr hfd), hmark]
            exact if_pos ⟨trivial, hfd⟩
          · simp only [Op.run, wrapFclose, hst, if_neg (Int.not_lt.mpr hfd), hmark]
            exact hheld.1
  | openFd fd => exact h.elim
  | openStream fp fileno => exact h.elim
  | mmap addr len prot flags fildes off res mallocOk => exact h.elim
  | munmap addr len res closeRes => exact h.elim

theorem delays_seen {b : Build} {c : Viewed} {op : Op} (h : ¬ Prompt c op) :
    ¬ (viewedStep b c op).SeesClosed b := by
  obtain ⟨hs, hdelays⟩ : c.state.stopped = none ∧ Delays c.state op := by
    refine ⟨?_, ?_⟩
    · exact Classical.byContradiction fun hs => h fun hnone => absurd hnone hs
    · exact Classical.byContradiction fun hd => h fun _ => hd
  obtain ⟨fd, hcl, hopen⟩ := delays_shows b hdelays
  rw [viewedStep_running hs]
  intro hsees
  have hagain := hsees.close fd (Viewed.after_eq_true.mpr (.inl hcl)) 0
  rw [wrapClose_open hopen] at hagain
  cases hagain

/-! ## Runs -/

/-- **What the client sees.**  Along a run of the platform, descriptors the
client has closed are closed for it in every state exactly if no operation
delays a close. -/
theorem closed_iff {b : Build} {ops : List Op} {c : Viewed}
    (h : Run (fun c op => Platform c.state op) (viewedStep b) Viewed.init ops c) :
    (∀ pre, pre <+: ops → (pre.foldl (viewedStep b) Viewed.init).SeesClosed b) ↔
      Run Prompt (viewedStep b) Viewed.init ops c :=
  h.always_iff (fun _ hc => hc.sees b) (fun _ _ hc hok hgood => hc.step hok hgood)
    (fun _ _ _ _ hbad => delays_seen hbad) Viewed.init_agrees

/-- A descriptor without a mapping is closed at once; one with a mapping is
closed after it. -/
def unmapFirst : List Op :=
  [.openFd 3, .openFd 4,
   .mmap 0 4096 PROT_WRITE MAP_SHARED 3 0 (some 0x10000) true,
   .close 4 0,
   .munmap 0x10000 4096 0 0,
   .close 3 0]

instance decHeld (s : State) (fd : Fd) : Decidable (Held s fd) := instDecidableAnd

instance decDelays (s : State) : ∀ op : Op, Decidable (Delays s op)
  | .close fildes _ => decHeld s fildes
  | .fclose (some fp) _ _ =>
      match h : s.world.streams fp with
      | none => .isFalse fun ⟨_, hst, _⟩ => by rw [h] at hst; cases hst
      | some st => decidable_of_iff (0 ≤ st.fileno ∧ Held s st.fileno)
          ⟨fun hd => ⟨st, h, hd⟩, fun ⟨st', hst, hd⟩ => by
            rw [h] at hst
            exact Option.some.inj hst ▸ hd⟩
  | .fclose none _ _ => .isFalse id
  | .openFd _ => .isFalse id
  | .openStream _ _ => .isFalse id
  | .mmap _ _ _ _ _ _ _ _ => .isFalse id
  | .munmap _ _ _ _ => .isFalse id

instance decPrompt (c : Viewed) (op : Op) : Decidable (Prompt c op) :=
  inferInstanceAs (Decidable (c.state.stopped = none → ¬ Delays c.state op))

theorem closed_iff_unmapFirst :
    unmapFirst ≠ [] ∧
      ∀ pre, pre <+: unmapFirst → (pre.foldl (viewedStep .debug) Viewed.init).SeesClosed .debug :=
  ⟨by decide, (closed_iff (Run.of_allOk (by decide))).mpr (Run.of_allOk (by decide))⟩

/-- Descriptor 3 is closed under its mapping, mapped again all the same, and the
first mapping goes. -/
def mapClosed : List Op :=
  [.openFd 3,
   .mmap 0 4096 PROT_WRITE MAP_SHARED 3 0 (some 0x10000) true,
   .close 3 0,
   .mmap 0 8192 PROT_WRITE MAP_SHARED 3 0 (some 0x20000) true,
   .munmap 0x10000 4096 0 0]

/-- The descriptor the client has closed can be closed and mapped again; the new
mapping then fails the assert that all entries of a closed descriptor are marked. -/
theorem delayed_seen :
    allOk (fun c op => Platform c.state op) (viewedStep .debug) Viewed.init mapClosed = true ∧
      ¬ ((mapClosed.take 3).foldl (viewedStep .debug) Viewed.init).SeesClosed .debug ∧
      (mapClosed.foldl (viewedStep .debug) Viewed.init).state.stopped = some .aborted := by
  refine ⟨by decide, ?_, by decide⟩
  intro hsees
  have hagain := hsees.close 3 (by decide) 0
  revert hagain
  decide

end LibcCompat.Emsup
