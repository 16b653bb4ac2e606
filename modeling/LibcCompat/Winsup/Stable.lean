/-
# `LibcCompat.Winsup.Stable` — what is not closed stays what it is

## What is proved

A program runs as in `Process`, and has a descriptor in some state of the run.
As long as it does not close it, whatever it opens, closes and inspects besides,
the descriptor keeps an owner and leads to the same object by the same handle
(`descriptor_stable`).

## How

A call does one of three things to the tables: nothing, it binds a free
descriptor to a new handle, or it takes away one descriptor with its handle
(`Moves`).
-/
import LibcCompat.Winsup.Process

namespace LibcCompat.Winsup

open LibcCompat.Lib

/-- The descriptor that a call gives back. -/
def FdOp.releases : FdOp → Option Fd
  | .close fd => some fd
  | .closedir stub => some stub.fd
  | _ => none

/-- What a call does to the tables; `released` is what it may take away. -/
def Moves (s t : Win) (released : Option Fd) : Prop :=
  t.tables = s.tables ∨ (∃ fd, Acquires s t fd) ∨
    ∃ fd, released = some fd ∧ t.tables = s.tables.without fd

section
variable {O : Outside} {b : Build} {D : Dirs Host} {base s t : Host} {owner : Owners} {fd : Fd}

/-! ## One call -/

theorem OpensOrNot.moves {x : Prog Host (Option Fd)} (hx : OpensOrNot x s) {r : Option Fd}
    (hrun : x s = .ok r t) : Moves s.win t.win none := by
  obtain ⟨-, -, hfails, hgets⟩ := hx.spec hrun
  cases r with
  | none => exact .inl (hfails rfl)
  | some fd => exact .inr (.inl ⟨fd, hgets fd rfl⟩)

/-- What comes after, and keeps the tables, does not matter. -/
theorem Moves.then_same {u : Win} {released : Option Fd} (h : Moves s.win u released)
    (htables : t.win.tables = u.tables) : Moves s.win t.win released := by
  rcases h with hsame | ⟨fd, hnonneg, hfree, hhandle⟩ | ⟨fd, hreleased, hwithout⟩
  · exact .inl (htables.trans hsame)
  · refine .inr (.inl ⟨fd, hnonneg, hfree, ?_⟩)
    rw [htables]
    exact hhandle
  · exact .inr (.inr ⟨fd, hreleased, htables.trans hwithout⟩)

theorem wrapFopen_moves {path : Path} {mode : CStr} {r : Option FilePtr}
    (hrun : wrapFopen O b path mode s = .ok r t) : Moves s.win t.win none := by
  cases hflags : fmodeflags mode with
  | none =>
      rw [wrapFopen_none hflags] at hrun
      cases hrun
      exact .inl rfl
  | some flags =>
      rw [wrapFopen_some hflags] at hrun
      obtain ⟨r', u, hopen, hrest⟩ := bind_ok hrun
      have hu := (wrapOpen_returned hopen).moves hopen
      cases r' with
      | none =>
          cases hrest
          exact hu
      | some fd => exact hu.then_same (wrapFdopen_spec hrest).1

theorem opendirStub_moves {path : Path} {r : Option DirStub}
    (hrun : opendirStub (hostFds O b) (hostDirs O D) path s = .ok r t) :
    Moves s.win t.win none := by
  obtain ⟨r', u, hopen, hrest⟩ := bind_ok hrun
  have hopens : OpensOrNot (wrapOpen O b path O_PATH none) s :=
    wrapOpen_returned hopen
  have hu : Moves s.win u.win none := hopens.moves hopen
  cases r' with
  | none =>
      cases hrest
      exact hu
  | some fd =>
      have hacq : Acquires s.win u.win fd := (hopens.spec hopen).2.2.2 fd rfl
      -- the label `error`
      have hundo : ∀ {v w : Host} {x : PUnit}, v.win.tables = u.win.tables →
          closeFd fd v = .ok x w → Moves s.win w.win none := by
        intro v w x hv hclose
        obtain ⟨win, hrun, htables⟩ := closeFd_run fd v
        rw [hclose] at hrun
        cases hrun
        refine .inl (htables.trans ?_)
        rw [hv]
        exact hacq.without
      obtain ⟨ok, v, hmalloc, hrest⟩ := bind_ok hrest
      obtain ⟨hv, -, -⟩ := zoom_beside malloc_keeps hmalloc
      cases ok with
      | false =>
          obtain ⟨_, w, hclose, hrest⟩ := bind_ok hrest
          cases hrest
          exact hundo hv hclose
      | true =>
          obtain ⟨p, w, hopendir, hrest⟩ := bind_ok hrest
          have hw : w.win.tables = u.win.tables := (opendir_spec hopendir).1.trans hv
          cases p with
          | none =>
              obtain ⟨_, w', hclose, hrest⟩ := bind_ok hrest
              cases hrest
              exact hundo hw hclose
          | some p =>
              cases hrest
              exact hu.then_same hw

theorem fdopendir_same (hstays : fstatOpens O.toEnv fd s.win = false) {r : Option DirStub}
    (hrun : fdopendir (hostSys O b) (hostDirs O D) fd s = .ok r t) :
    t.win.tables = s.win.tables := by
  rw [fdopendir_run] at hrun
  obtain ⟨path, u, hzoom, hrest⟩ := bind_ok hrun
  obtain ⟨win, hpath, rfl⟩ := zoom_eq_ok hzoom
  have htables : win.tables = s.win.tables :=
    ((dirPath_adds O.toEnv b fd).same_iff _ _ _ hpath).mpr hstays
  cases path with
  | none =>
      cases hrest
      exact htables
  | some path =>
      obtain ⟨r', v, hstream, hv, -⟩ := openStream_returns O fd path (Host.onWin.set win s)
      have hrest : openStream O fd path (Host.onWin.set win s) = .ok r t := hrest
      rw [hstream] at hrest
      cases hrest
      exact hv.trans htables

theorem closedirStub_moves {stub : DirStub} {r : Int}
    (hrun : closedirStub (hostFds O b) (hostDirs O D) (some stub) s = .ok r t) :
    Moves s.win t.win (some stub.fd) := by
  obtain ⟨dirp, fd⟩ := stub
  -- the descriptor, once the stream is closed
  have hclose : ∀ {u : Host}, u.win.tables = s.win.tables →
      (if fd < 0 then pure (0 : Int) else do closeFd fd; return 0 : Prog Host Int) u = .ok r t →
        Moves s.win t.win (some fd) := by
    intro u hu hrest
    split at hrest
    · cases hrest
      exact .inl hu
    · obtain ⟨_, v, hclose, hpure⟩ := bind_ok hrest
      cases hpure
      obtain ⟨win, hrun, htables⟩ := closeFd_run fd u
      rw [hclose] at hrun
      cases hrun
      exact .inr (.inr ⟨fd, rfl, htables.trans (by rw [hu])⟩)
  cases dirp with
  | none => exact hclose rfl hrun
  | some p =>
      obtain ⟨_, u, hclosedir, hrest⟩ := bind_ok hrun
      refine hclose ?_ hrest
      simp only [hostFds, closedir] at hclosedir
      split at hclosedir
      · cases hclosedir
      · cases hclosedir
        rfl

theorem FdOp.moves {op : FdOp} (hstays : op.opensLink O b s = false) {owner' : Owners}
    (hrun : op.run O b D owner s = .ok owner' t) : Moves s.win t.win op.releases := by
  cases op with
  | openFile path oflag mode =>
      obtain ⟨r, u, hopen, hrest⟩ := bind_ok hrun
      cases hrest
      exact (wrapOpen_returned hopen).moves hopen
  | creat path mode =>
      obtain ⟨r, u, hopen, hrest⟩ := bind_ok hrun
      cases hrest
      exact (wrapOpen_returned hopen).moves hopen
  | openat m dirfd path flags mode =>
      obtain ⟨r, u, hopenat, hrest⟩ := bind_ok hrun
      cases hrest
      obtain ⟨v, hv, ⟨rfl, rfl⟩ | hopen⟩ := openatFd_run hstays hopenat
      · exact .inl hv.tables
      · obtain ⟨-, -, hfails, hgets⟩ :=
          (wrapOpen_returned hopen).spec hopen
        cases r with
        | none => exact .inl ((hfails rfl).trans hv.tables)
        | some fd => exact .inr (.inl ⟨fd, (hgets fd rfl).of_tables hv.tables⟩)
  | close fd =>
      obtain ⟨_, u, hclose, hrest⟩ := bind_ok hrun
      cases hrest
      obtain ⟨win, hrun, htables⟩ := closeFd_run fd s
      rw [hclose] at hrun
      cases hrun
      exact .inr (.inr ⟨fd, rfl, htables⟩)
  | fopen path mode =>
      obtain ⟨s', u, hget, hrest⟩ := bind_ok hrun
      cases hget
      obtain ⟨r, u, hopen, hrest⟩ := bind_ok hrest
      refine (wrapFopen_moves hopen).then_same ?_
      cases hfd : fopenFd O b path mode s with
      | none =>
          rw [hfd] at hrest
          cases hrest
          rfl
      | some fd =>
          rw [hfd] at hrest
          cases hrest
          rfl
  | fdopen fd mode =>
      obtain ⟨r, u, hopen, hrest⟩ := bind_ok hrun
      have htables := (wrapFdopen_spec hopen).1
      cases r with
      | none =>
          cases hrest
          exact .inl htables
      | some fp =>
          cases hrest
          exact .inl htables
  | opendir path =>
      obtain ⟨r, u, hopen, hrest⟩ := bind_ok hrun
      cases hrest
      exact opendirStub_moves hopen
  | fdopendir fd =>
      obtain ⟨r, u, hopen, hrest⟩ := bind_ok hrun
      cases hrest
      exact .inl (fdopendir_same hstays hopen)
  | closedir stub =>
      obtain ⟨r, u, hclose, hrest⟩ := bind_ok hrun
      cases hrest
      exact closedirStub_moves hclose
  | inspect op =>
      obtain ⟨answer, u, hzoom, hrest⟩ := bind_ok hrun
      cases hrest
      obtain ⟨win, hwin, rfl⟩ := zoom_eq_ok hzoom
      exact .inl (((op.adds b).same_iff _ _ _ hwin).mpr hstays)

theorem Process.Entitled.owns {x : Process} {op : FdOp} (h : x.Entitled op)
    (hreleases : op.releases = some fd) : (x.owner fd).isSome := by
  cases op with
  | close fd' =>
      cases hreleases
      have hclient : x.owner fd = some .client := h
      rw [hclient]
      rfl
  | closedir stub =>
      cases hreleases
      obtain ⟨p, -, hdir⟩ := h
      rw [hdir]
      rfl
  | _ => cases hreleases

/-! ## What a descriptor leads to -/

/-- The descriptor leads where it led. -/
structure Stays (fd : Fd) (s t : Win) : Prop where
  handle : t.crt fd = s.crt fd
  object : t.objectOf fd = s.objectOf fd

theorem Stays.trans {s t u : Win} (h : Stays fd s t) (h' : Stays fd t u) : Stays fd s u :=
  ⟨h'.handle.trans h.handle, h'.object.trans h.object⟩

theorem Stays.of_update {s t : Win} {fd' : Fd} {h h' : Handle} {bound : Option Handle}
    {object : Option Object} (hbound : s.crt fd = some h) (hfd : fd ≠ fd') (hh : h ≠ h')
    (htables : t.tables = ⟨Function.update s.crt fd' bound, Function.update s.handles h' object⟩) :
    Stays fd s t := by
  have hcrt : t.crt fd = s.crt fd := by
    have hcrt : t.crt = Function.update s.crt fd' bound := congrArg Tables.crt htables
    rw [hcrt, Function.update_of_ne hfd]
  have hhandles : t.handles h = s.handles h := by
    have hhandles : t.handles = Function.update s.handles h' object :=
      congrArg Tables.handles htables
    rw [hhandles, Function.update_of_ne hh]
  refine ⟨hcrt, ?_⟩
  rw [Win.objectOf, Win.objectOf, hcrt, hbound]
  exact hhandles

theorem Moves.stays {released : Option Fd} (hmoves : Moves s.win t.win released)
    (h : Accounted base s owner) (hown : (owner fd).isSome) (hkeeps : released ≠ some fd)
    (hentitled : ∀ fd', released = some fd' → (owner fd').isSome) :
    Stays fd s.win t.win := by
  obtain ⟨handle, hbound⟩ := Option.isSome_iff_exists.mp (h.crt.bound fd hown)
  rcases hmoves with hsame | ⟨fd', -, hfree, new, o, hfresh, htables⟩ | ⟨fd', hreleased, hwithout⟩
  · exact ⟨congrFun (congrArg Tables.crt hsame) fd, objectOf_tables hsame fd⟩
  · have hfd : fd ≠ fd' := by
      rintro rfl
      rw [hbound] at hfree
      cases hfree
    have hopen : (s.win.handles handle).isSome := h.handles.bound handle ⟨fd, hown, hbound⟩
    have hhandle : handle ≠ new := by
      rintro rfl
      rw [hfresh] at hopen
      cases hopen
    exact .of_update hbound hfd hhandle htables
  · have hown' : (owner fd').isSome := hentitled fd' hreleased
    obtain ⟨handle', hbound'⟩ := Option.isSome_iff_exists.mp (h.crt.bound fd' hown')
    have hfd : fd ≠ fd' := by
      rintro rfl
      exact hkeeps hreleased
    have hhandle : handle ≠ handle' := by
      rintro rfl
      exact hfd (h.ownHandle fd fd' hown hown' (hbound.trans hbound'.symm))
    have hcrt : s.win.tables.crt fd' = some handle' := hbound'
    rw [Tables.without, hcrt] at hwithout
    exact .of_update hbound hfd hhandle hwithout

theorem Accounted.owned (h : Accounted base s owner) (hbase : base.win.crt fd = none)
    (hbound : (s.win.crt fd).isSome) : (owner fd).isSome := by
  by_contra hnone
  rw [h.crt.rest fd hnone, hbase] at hbound
  cases hbound

theorem processStep_stays {x : Process} {op : FdOp} (h : Accounted base x.host x.owner)
    (hok : x.Allows O b D op) (hown : (x.owner fd).isSome) (hkeeps : op.releases ≠ some fd) :
    ((processStep O b D x op).owner fd).isSome ∧
      Stays fd x.host.win (processStep O b D x op).host.win := by
  have h' := processStep_accounted h hok
  have hstays : Stays fd x.host.win (processStep O b D x op).host.win := by
    obtain ⟨owner, t, hrun, -⟩ := after_iff.mp hok.returns
    have hmoves : Moves x.host.win t.win op.releases := FdOp.moves hok.stays hrun
    simp only [processStep, hrun]
    exact hmoves.stays h hown hkeeps fun fd' hreleases => hok.entitled.owns hreleases
  refine ⟨h'.owned (h.crt.free fd hown) ?_, hstays⟩
  rw [hstays.handle]
  exact h.crt.bound fd hown

/-- **A descriptor that is not closed.**  Whatever a program does after it has got
a descriptor, as long as it does not close that one, the descriptor keeps an owner
and leads by the same handle to the same object. -/
theorem descriptor_stable {got more : List FdOp} {x y : Process}
    (h : Run (Process.Allows O b D) (processStep O b D) ⟨base, fun _ => none⟩ got x)
    (h' : Run (Process.Allows O b D) (processStep O b D) x more y)
    (hown : (x.owner fd).isSome) (hkeeps : ∀ op ∈ more, op.releases ≠ some fd) :
    (y.owner fd).isSome ∧ Stays fd x.host.win y.host.win := by
  have hx : Accounted base x.host x.owner := run_accounted h
  have hy := (h'.and_forall hkeeps).inv
    (P := fun z => Accounted base z.host z.owner ∧ (z.owner fd).isSome ∧
      Stays fd x.host.win z.host.win) ?_ ⟨hx, hown, rfl, rfl⟩
  · exact hy.2
  · rintro z op ⟨hz, hownz, hstays⟩ ⟨hok, hkeepsop⟩
    obtain ⟨hown', hstays'⟩ := processStep_stays hz hok hownz hkeepsop
    exact ⟨processStep_accounted hz hok, hown', hstays.trans hstays'⟩

end

/-- The directory stays open while the file is opened beside it, and closed. -/
def besideIt : List FdOp :=
  [.openFile [0x66] 0 none, .opendir [0x64], .close 1, .openat ⟨true, some 0⟩ 0 [0x66] 0 0,
   .closedir ⟨some 9, 2⟩]

theorem descriptor_stable_besideIt :
    let x := [FdOp.openFile [0x64] 0 none].foldl (processStep aProgram .debug noEntries) idle
    let y := besideIt.foldl (processStep aProgram .debug noEntries) x
    (y.owner 0).isSome ∧ Stays 0 x.host.win y.host.win :=
  descriptor_stable (Run.of_allOk (by decide +kernel))
    (Run.of_allOk (by decide +kernel)) (by decide +kernel) (by decide)

end LibcCompat.Winsup
