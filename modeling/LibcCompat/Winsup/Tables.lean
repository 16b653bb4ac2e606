/-
# `LibcCompat.Winsup.Tables` — the two tables of the process

`Tables` has the descriptors of the C runtime and the open handles.  Most of the
platform keeps them (`Keeps`).  `__open_symlink_fd` adds an entry to each, and
`opens` says when: the path leads somewhere, the platform calls succeed, and
there is a free descriptor.
-/
import LibcCompat.Lib.Frame
import LibcCompat.Winsup.Stat

namespace LibcCompat.Winsup

open LibcCompat.Lib

structure Tables where
  crt : Fd → Option Handle
  handles : Handle → Option Object

/-- The second has all that the first has. -/
instance : PartialOrder Tables where
  le a b := Extends a.crt b.crt ∧ Extends a.handles b.handles
  le_refl a := ⟨Extends.refl _, Extends.refl _⟩
  le_trans _ _ _ h h' := ⟨h.1.trans h'.1, h.2.trans h'.2⟩
  le_antisymm a b h h' := by
    cases a
    cases b
    exact congrArg₂ Tables.mk (h.1.antisymm h'.1) (h.2.antisymm h'.2)

def Win.tables (s : Win) : Tables := ⟨s.crt, s.handles⟩

/-- The tables, without what one handle is. -/
def Tables.but (h : Handle) (t : Tables) : Tables :=
  { t with handles := Function.update t.handles h none }

variable {E : Env}

/-! ## What keeps them -/

theorem setErrno_keeps (e : Errno) : Keeps Win.tables (setErrno e) :=
  Keeps.modify fun _ => rfl

theorem setLastError_keeps (e : WinErr) : Keeps Win.tables (setLastError e) :=
  Keeps.modify fun _ => rfl

theorem setErrnoViaWinerr_keeps : Keeps Win.tables (setErrnoViaWinerr E) :=
  Keeps.modify fun _ => rfl

theorem failWith_keeps {α : Type} (e : WinErr) :
    Keeps Win.tables (failWith e : Prog Win (Option α)) :=
  (setLastError_keeps e).bind fun _ => Keeps.pure _

theorem attempt_keeps {α : Type} {failed : WinErr → Prog Win α} {go : Nat → Prog Win α}
    (hfailed : ∀ e, Keeps Win.tables (failed e)) (hgo : ∀ n, Keeps Win.tables (go n)) :
    Keeps Win.tables (attempt E failed go) := by
  intro s a t h
  rw [attempt] at h
  cases hfails : E.fails s.calls with
  | some e =>
      rw [hfails] at h
      exact hfailed e { s with calls := s.calls + 1 } a t h
  | none =>
      rw [hfails] at h
      exact hgo s.calls { s with calls := s.calls + 1 } a t h

theorem malloc_keeps : Keeps Win.tables (malloc E) :=
  attempt_keeps (fun _ => (setErrno_keeps _).bind fun _ => Keeps.pure _) fun _ => Keeps.pure _

theorem getOsfhandle_eq {fd : Fd} {h : Handle} {s : Win} (hfd : s.crt fd = some h) :
    getOsfhandle fd s = .ok (some h) s := by
  rw [getOsfhandle, hfd]

theorem getOsfhandle_keeps (fd : Fd) : Keeps Win.tables (getOsfhandle fd) := by
  intro s a t h
  rw [getOsfhandle] at h
  cases hfd : s.crt fd with
  | some handle =>
      rw [hfd] at h
      cases h
      rfl
  | none =>
      rw [hfd] at h
      cases h
      rfl

theorem query_keeps (h : Handle) : Keeps Win.tables (query E h) := by
  refine attempt_keeps failWith_keeps fun n => ?_
  intro s a t hquery
  dsimp only at hquery
  cases hh : s.handles h with
  | some o =>
      rw [hh] at hquery
      cases hquery
      rfl
  | none =>
      rw [hh] at hquery
      cases hquery
      rfl

theorem getFileType_keeps (h : Handle) : Keeps Win.tables (getFileType E h) := by
  refine (query_keeps h).bind fun o => ?_
  cases o with
  | none => exact Keeps.pure _
  | some o =>
      dsimp only
      cases o.type with
      | unknown => exact (setLastError_keeps _).bind fun _ => Keeps.pure _
      | char => exact Keeps.pure _
      | pipe => exact Keeps.pure _
      | disk => exact Keeps.pure _

theorem readUninit_keeps : Keeps Win.tables (readUninit E) := by
  intro s a t h
  rw [readUninit] at h
  cases hfound : E.uninit s.calls with
  | some found =>
      rw [hfound] at h
      cases h
      rfl
  | none =>
      rw [hfound] at h
      cases h

theorem getFinalPathNameByHandle_keeps (h : Handle) :
    Keeps Win.tables (getFinalPathNameByHandle E h) := by
  refine (query_keeps h).bind fun o => ?_
  cases o with
  | none => exact Keeps.pure _
  | some o =>
      refine Keeps.ite (failWith_keeps _) (Keeps.ite (Keeps.pure _) ?_)
      exact readUninit_keeps.bind fun _ => Keeps.pure _

theorem getReparsePoint_keeps (h : Handle) : Keeps Win.tables (getReparsePoint E h) := by
  refine (query_keeps h).bind fun o => ?_
  cases o with
  | none => exact Keeps.pure _
  | some o =>
      dsimp only
      cases o.reparse with
      | none => exact failWith_keeps _
      | some r => exact Keeps.pure _

theorem wideCharToMultiByte_keeps (w : List UInt16) (len : Nat) :
    Keeps Win.tables (wideCharToMultiByte E w len) := by
  refine attempt_keeps (fun e => (setLastError_keeps e).bind fun _ => Keeps.pure _) fun n => ?_
  exact (Keeps.pure _).ite ((Keeps.pure _).ite (Keeps.pure _))

theorem fdGetPath_keeps (fd : Fd) : Keeps Win.tables (fdGetPath E fd) := by
  refine (getOsfhandle_keeps fd).bind fun h => ?_
  cases h with
  | none => exact (setLastError_keeps _).bind fun _ => Keeps.pure _
  | some h =>
      refine malloc_keeps.bind fun ok => ?_
      cases ok with
      | false => exact Keeps.pure _
      | true =>
          refine (getFinalPathNameByHandle_keeps h).bind fun buf => ?_
          cases buf with
          | none => exact Keeps.pure _
          | some buf => exact Keeps.pure _

theorem examine_keeps (fd : Fd) : Keeps Win.tables (examine E fd) := by
  refine (getOsfhandle_keeps fd).bind fun h => ?_
  cases h with
  | none => exact Keeps.pure _
  | some h =>
      refine (query_keeps h).bind fun hfi => ?_
      cases hfi with
      | none => exact setErrnoViaWinerr_keeps.bind fun _ => Keeps.pure _
      | some hfi =>
          refine (fdGetPath_keeps fd).bind fun path => ?_
          refine (getFileType_keeps h).bind fun type => ?_
          cases type with
          | unknown =>
              refine keeps_modify_pure ?_ _
              intro s
              rfl
          | char => exact Keeps.pure _
          | pipe => exact Keeps.pure _
          | disk => exact Keeps.pure _

theorem convertName_keeps (b : Build) (r : Reparse) (len : Nat) :
    Keeps Win.tables (convertName E b r len) := by
  unfold convertName
  cases r.name with
  | none =>
      cases b with
      | debug => exact Keeps.throw _
      | ndebug => exact Keeps.pure _
  | some name =>
      refine (wideCharToMultiByte_keeps _ _).bind fun res => ?_
      exact (Keeps.throw _).ite (Keeps.pure _)

/-! ## Opening -/

variable (E) in
/-- `CreateFile` succeeds now. -/
def creates (path : Path) (s : Win) : Bool :=
  (E.fails s.calls).isNone && (E.object s.calls path).isSome &&
    (s.handles (E.newHandle s.calls)).isNone

variable (E) in
/-- `_open_osfhandle` succeeds now. -/
def wraps (s : Win) : Bool := (E.fails s.calls).isNone && (freeFd E s).isSome

variable (E) in
/-- `__open_symlink_fd` succeeds now. -/
def opens (path : Path) (s : Win) : Bool :=
  creates E path s && wraps E { s with calls := s.calls + 1 }

/-- The state after a path was opened: the descriptor and the object. -/
structure Opened (E : Env) (path : Path) (s : Win) (fd : Fd) (o : Object) (t : Win) : Prop where
  object : E.object s.calls path = some o
  fresh : s.handles (E.newHandle s.calls) = none
  free : s.crt fd = none
  state : t = { s with
    crt := Function.update s.crt fd (some (E.newHandle s.calls))
    handles := Function.update s.handles (E.newHandle s.calls) (some o)
    calls := s.calls + 2 }

theorem Opened.bound {path : Path} {s t : Win} {fd : Fd} {o : Object}
    (h : Opened E path s fd o t) : t.crt fd = some (E.newHandle s.calls) := by
  rw [h.state]
  exact Function.update_self ..

theorem createFile_ok {path : Path} {s : Win} (h : creates E path s = true) :
    ∃ o, E.object s.calls path = some o ∧ s.handles (E.newHandle s.calls) = none ∧
      createFile E path s = .ok (some (E.newHandle s.calls)) { s with
        handles := Function.update s.handles (E.newHandle s.calls) (some o)
        calls := s.calls + 1 } := by
  simp only [creates, Bool.and_eq_true, Option.isNone_iff_eq_none, Option.isSome_iff_exists] at h
  obtain ⟨⟨hsucceeds, o, hobject⟩, hfresh⟩ := h
  refine ⟨o, hobject, hfresh, ?_⟩
  simp only [createFile, attempt, hsucceeds, hobject, hfresh]

theorem createFile_fails {path : Path} {s : Win} (h : creates E path s = false) :
    ∃ t, createFile E path s = .ok none t ∧ t.tables = s.tables := by
  cases hsucceeds : E.fails s.calls with
  | some e =>
      simp only [createFile, attempt, hsucceeds]
      exact ⟨_, rfl, rfl⟩
  | none =>
      cases hobject : E.object s.calls path with
      | none =>
          simp only [createFile, attempt, hsucceeds, hobject]
          exact ⟨_, rfl, rfl⟩
      | some o =>
          cases hfresh : s.handles (E.newHandle s.calls) with
          | none => simp [creates, hsucceeds, hobject, hfresh] at h
          | some other =>
              simp only [createFile, attempt, hsucceeds, hobject, hfresh]
              exact ⟨_, rfl, rfl⟩

theorem openOsfhandle_ok (handle : Handle) {s : Win} (h : wraps E s = true) :
    ∃ fd : Fd, s.crt fd = none ∧ openOsfhandle E handle s = .ok (some fd) { s with
      crt := Function.update s.crt fd (some handle), calls := s.calls + 1 } := by
  simp only [wraps, Bool.and_eq_true, Option.isNone_iff_eq_none, Option.isSome_iff_exists] at h
  obtain ⟨hsucceeds, fd, hfd⟩ := h
  have hfree : (s.crt fd).isNone :=
    List.find?_some (p := fun fd : Nat => (s.crt fd).isNone) hfd
  have hfd' : freeFd E { s with calls := s.calls + 1 } = some fd := hfd
  refine ⟨fd, Option.isNone_iff_eq_none.mp hfree, ?_⟩
  simp only [openOsfhandle, attempt, hsucceeds, hfd']

theorem openOsfhandle_fails (handle : Handle) {s : Win} (h : wraps E s = false) :
    ∃ t, openOsfhandle E handle s = .ok none t ∧ t.tables = s.tables := by
  cases hsucceeds : E.fails s.calls with
  | some e =>
      simp only [openOsfhandle, attempt, hsucceeds]
      exact ⟨_, rfl, rfl⟩
  | none =>
      have hfull : freeFd E s = none := by simpa [wraps, hsucceeds] using h
      have hfull' : freeFd E { s with calls := s.calls + 1 } = none := hfull
      simp only [openOsfhandle, attempt, hsucceeds, hfull']
      exact ⟨_, rfl, rfl⟩

theorem openSymlinkFd_ok {path : Path} {s : Win} (h : opens E path s = true) :
    ∃ fd o t, openSymlinkFd E path s = .ok (some fd) t ∧ Opened E path s fd o t := by
  rw [opens, Bool.and_eq_true] at h
  obtain ⟨o, hobject, hfresh, hcreate⟩ := createFile_ok h.1
  obtain ⟨fd, hfree, hwrap⟩ := openOsfhandle_ok (E.newHandle s.calls) (s := { s with
    handles := Function.update s.handles (E.newHandle s.calls) (some o)
    calls := s.calls + 1 }) h.2
  refine ⟨fd, o, _, ?_, hobject, hfresh, hfree, rfl⟩
  simp only [openSymlinkFd, bind_apply, hcreate, hwrap, pure_apply]

theorem openSymlinkFd_fails {path : Path} {s : Win} (h : opens E path s = false) :
    ∃ t, openSymlinkFd E path s = .ok none t ∧ t.tables = s.tables := by
  cases hcreates : creates E path s with
  | false =>
      obtain ⟨t, hcreate, htables⟩ := createFile_fails hcreates
      refine ⟨t, ?_, htables⟩
      simp only [openSymlinkFd, bind_apply, hcreate, pure_apply]
  | true =>
      rw [opens, hcreates, Bool.true_and] at h
      obtain ⟨o, -, hfresh, hcreate⟩ := createFile_ok hcreates
      obtain ⟨t, hwrap, htables⟩ := openOsfhandle_fails (E.newHandle s.calls) (s := { s with
        handles := Function.update s.handles (E.newHandle s.calls) (some o)
        calls := s.calls + 1 }) h
      simp only [openSymlinkFd, bind_apply, hcreate, hwrap, setLastError, closeHandle,
        modify_apply, pure_apply]
      refine ⟨_, rfl, ?_⟩
      rw [Win.tables, Win.tables, Tables.mk.injEq] at htables
      rw [Win.tables, Win.tables, Tables.mk.injEq]
      exact ⟨htables.1, htables.2 ▸ update_remove hfresh _⟩

end LibcCompat.Winsup
