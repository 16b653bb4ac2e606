/-
# `LibcCompat.Winsup.DirStreams` — what a stub directory acquires and releases

A stub directory owns a directory stream and a descriptor.  `_opendir_stub` gets
both; `fdopendir` is handed the descriptor, and takes it over if it succeeds.
What a failing step leaves is undone at the label `error`, or was never acquired.

What is proved (`dirStub_allOrNothing`): each gets all or nothing, and
`_closedir_stub` gives back exactly that, under two conditions.  The descriptor
that `open` gets must have a place in the cache of `fd.c`; and the examination of
the descriptor that `fdopendir` is handed must come back, without a `readlink`
that gets past its open: that leaves a descriptor behind.
-/
import LibcCompat.Winsup.DirfdErrors
import LibcCompat.Winsup.Open

namespace LibcCompat.Winsup

open LibcCompat.Lib

/-! ## The functions in the process -/

/-- The same functions, on a part of the state. -/
def Sys.zoom {σ τ : Type} (l : Lens τ σ) (S : Sys σ) : Sys τ where
  pathIsRelative := S.pathIsRelative
  call c := Lib.zoom l (S.call c)
  fstat fd := Lib.zoom l (S.fstat fd)
  fdGetPath fd := Lib.zoom l (S.fdGetPath fd)
  setErrno e s := l.set (S.setErrno e (l.get s)) s
  setErrnoViaWinerr s := l.set (S.setErrnoViaWinerr (l.get s)) s

section
variable (O : Outside) (b : Build)

def hostSys : Sys Host := (winSys O.toEnv b).zoom Host.onWin

def hostFds : Fds Host where
  openFd path oflag := wrapOpen O b path oflag none
  close := closeFd
  closedir := closedir

/-- The functions of the C runtime; the constructors call no others than these. -/
def hostDirs (D : Dirs Host) : Dirs Host :=
  { D with
    malloc := zoom Host.onWin (malloc O.toEnv)
    opendir := opendir O
    setErrno := fun e s => { s with win := { s.win with errno := e } } }

variable (D : Dirs Host)

/-! ## All or nothing -/

/-- The stub has a directory stream of its own and an open descriptor, and
`_closedir_stub` releases each once. -/
structure Owns (before after : Host) (stub : DirStub) : Prop where
  stream : ∃ p path, stub.dirp = some p ∧ before.dirs p = none ∧
    after.dirs = Function.update before.dirs p (some path)
  descriptor : (after.win.crt stub.fd).isSome
  closes : ∃ p t, stub.dirp = some p ∧
    closedirStub (hostFds O b) (hostDirs O D) (some stub) after = .ok 0 t ∧
    t.released = after.released ++ [.closedir p, .close stub.fd] ∧
    t.tables = (after.win.tables.without stub.fd, before.dirs)

/-- A constructor returns null and leaves the tables as they were, or a stub that
owns what it has; `got` says where its descriptor is from. -/
def AllOrNothing (x : Prog Host (Option DirStub)) (got : Host → DirStub → Prop) (s : Host) :
    Prop :=
  ∃ r t, x s = .ok r t ∧
    match r with
    | none => t.tables = s.tables
    | some stub => Owns O b D s t stub ∧ got t stub

/-- `_opendir_stub`: the descriptor is new, and nothing else is. -/
def OpendirAllOrNothing (path : Path) (s : Host) : Prop :=
  AllOrNothing O b D (opendirStub (hostFds O b) (hostDirs O D) path)
    (fun t stub => s.win.crt stub.fd = none ∧ t.win.tables.without stub.fd = s.win.tables) s

/-- `fdopendir`: the descriptor is the one handed over. -/
def FdopendirAllOrNothing (fd : Fd) (s : Host) : Prop :=
  AllOrNothing O b D (fdopendir (hostSys O b) (hostDirs O D) fd)
    (fun t stub => stub.fd = fd ∧ t.win.tables = s.win.tables) s

end

variable (E : Env)

/-- `__fd_get_path` reads a buffer that Windows did not fill, and that has no
end; `n` counts the calls before it. -/
def pathStops (o : Object) (n : Nat) : Bool :=
  (E.fails n).isNone && (E.fails (n + 1)).isNone && PATH_MAX ≤ o.finalPath.length &&
    (E.uninit (n + 2)).isNone

/-- The examination of a descriptor comes back, and no `readlink` on the way gets
past its open. -/
def Examinable (fd : Fd) (s : Win) : Prop :=
  fstatOpens E fd s = false ∧ ∀ o, s.objectOf fd = some o →
    stops E o s.calls = false ∧
      (o.isDirectory = true → queriesFail E s.calls = false →
        pathStops E o (typeQuery E s.calls + 1) = false)

/-! ## On a part of the state -/

section
variable {σ τ : Type} {l : Lens τ σ}

theorem isDirfd_zoom (S : Sys σ) (fd : Fd) : isDirfd (S.zoom l) fd = Lib.zoom l (isDirfd S fd) := by
  simp only [isDirfd, zoom_bind]
  refine congrArg (Lib.zoom l (S.fstat fd) >>= ·) (funext fun r => ?_)
  cases r with
  | none => rfl
  | some buf =>
      simp only [zoom_ite, zoom_pure]
      rfl

theorem dirPath_zoom (S : Sys σ) (fd : Fd) : dirPath (S.zoom l) fd = Lib.zoom l (dirPath S fd) := by
  simp only [dirPath, isDirfd_zoom, zoom_bind]
  refine congrArg (Lib.zoom l (isDirfd S fd) >>= ·) (funext fun ok => ?_)
  cases ok with
  | false => exact (zoom_pure none).symm
  | true =>
      simp only [if_true, zoom_bind]
      refine congrArg (Lib.zoom l (S.fdGetPath fd) >>= ·) (funext fun r => ?_)
      cases r with
      | none => rfl
      | some path => exact (zoom_pure (some path)).symm

theorem resolve_zoom (S : Sys σ) (m : Heap) (dirfd : Fd) (name : Path) :
    resolve (S.zoom l) m dirfd name = Lib.zoom l (resolve S m dirfd name) := by
  have hjoin : joinAt (S.zoom l) m.malloc dirfd name =
      Lib.zoom l (joinAt S m.malloc dirfd name) := by
    simp only [joinAt, isDirfd_zoom, zoom_bind]
    refine congrArg (Lib.zoom l (isDirfd S dirfd) >>= ·) (funext fun ok => ?_)
    cases ok with
    | false => exact (zoom_pure none).symm
    | true =>
        simp only [if_true, zoom_bind]
        refine congrArg (Lib.zoom l (S.fdGetPath dirfd) >>= ·) (funext fun r => ?_)
        cases r with
        | none => rfl
        | some parent =>
            simp only [zoom_ite, zoom_pure]
            rfl
  simp only [resolve, hjoin, zoom_ite, zoom_pure]
  rfl

theorem fdopendir_dirPath (S : Sys σ) (D : Dirs σ) (fd : Fd) :
    fdopendir S D fd = dirPath S fd >>= fun r => r.elim (pure none) fun path => do
      if ← D.malloc then
        match ← D.opendir path with
        | none => return none
        | some stream => return some ⟨some stream, fd⟩
      else
        return none := by
  funext s
  simp only [fdopendir, dirPath, bind_apply]
  cases isDirfd S fd s with
  | error e t => rfl
  | ok ok t =>
      cases ok with
      | false => rfl
      | true =>
          simp only [if_true, bind_apply]
          cases S.fdGetPath fd t with
          | error e u => rfl
          | ok path u =>
              cases path with
              | none => rfl
              | some path => rfl

end

/-! ## The steps -/

section
variable {O : Outside} {b : Build} {D : Dirs Host} {s t : Host} {fd : Fd}

theorem malloc_returns (E : Env) (s : Win) :
    ∃ r t, malloc E s = .ok r t ∧ t.tables = s.tables := by
  cases hm : E.fails s.calls with
  | none => exact ⟨_, _, malloc_ok hm, rfl⟩
  | some e => exact ⟨_, _, malloc_fails hm, rfl⟩

theorem opendir_returns (O : Outside) (path : Path) (s : Host) :
    ∃ r t, opendir O path s = .ok r t ∧ t.win.tables = s.win.tables ∧
      t.released = s.released ∧
      match r with
      | none => t.dirs = s.dirs
      | some p => s.dirs p = none ∧ t.dirs = Function.update s.dirs p (some path) := by
  unfold opendir
  cases O.opendir s.win.calls path with
  | error e => exact ⟨none, _, rfl, rfl, rfl, rfl⟩
  | ok p =>
      dsimp only
      cases hp : s.dirs p with
      | some other => exact ⟨none, _, rfl, rfl, rfl, rfl⟩
      | none => exact ⟨some p, _, rfl, rfl, rfl, hp, rfl⟩

theorem closeFd_eq (fd : Fd) (s : Host) :
    ∃ t, closeFd fd s = .ok ⟨⟩ t ∧ t.released = s.released ++ [.close fd] ∧
      t.tables = (s.win.tables.without fd, s.dirs) := by
  obtain ⟨t, hclose, htables⟩ := close_eq fd s.win
  refine ⟨{ s with released := s.released ++ [.close fd], win := t }, ?_, rfl,
    congrArg (·, s.dirs) htables⟩
  rw [closeFd, bind_apply]
  exact zoom_ok (l := Host.onWin) (s := { s with released := s.released ++ [.close fd] }) hclose

theorem closeFd_acquired {u : Host} (h : Acquires s.win t.win fd)
    (htables : u.win.tables = t.win.tables) (hdirs : u.dirs = s.dirs) :
    ∃ v, closeFd fd u = .ok ⟨⟩ v ∧ v.tables = s.tables := by
  obtain ⟨v, hclose, -, hv⟩ := closeFd_eq fd u
  refine ⟨v, hclose, ?_⟩
  rw [hv, htables, h.without, hdirs]
  rfl

theorem owns_of {p : DirPtr} {path : Path} (hfree : s.dirs p = none)
    (hdirs : t.dirs = Function.update s.dirs p (some path)) (hfd : 0 ≤ fd)
    (hopen : (t.win.crt fd).isSome) : Owns O b D s t ⟨some p, fd⟩ := by
  refine ⟨⟨p, path, rfl, hfree, hdirs⟩, hopen, p, ?_⟩
  have hp : t.dirs p = some path := by
    rw [hdirs, Function.update_self]
  have hclosedir : closedir p t = .ok ⟨⟩ { t with
      dirs := s.dirs, released := t.released ++ [.closedir p] } := by
    rw [closedir, hp]
    simp only [hdirs, update_remove hfree]
  obtain ⟨u, hclose, hreleased, htables⟩ := closeFd_eq fd { t with
    dirs := s.dirs, released := t.released ++ [.closedir p] }
  refine ⟨u, rfl, ?_, ?_, htables⟩
  · simp only [closedirStub, hostFds, bind_apply, hclosedir, if_neg (Int.not_lt.mpr hfd), hclose,
      pure_apply]
  · rw [hreleased, List.append_assoc]
    rfl

/-! ## `_opendir_stub` -/

theorem opendirStub_allOrNothing {path : Path} (h : InCache O b path O_PATH none s) :
    OpendirAllOrNothing O b D path s := by
  obtain ⟨r, t, hopen, hbeside, hr⟩ := wrapOpen_opens h
  have hdirs : t.dirs = s.dirs := congrArg (fun x => x.2.1) hbeside
  simp only [OpendirAllOrNothing, AllOrNothing, opendirStub, hostFds, hostDirs]
  cases r with
  | none =>
      refine ⟨none, t, ?_, Prod.ext hr hdirs⟩
      rw [bind_apply, hopen]
      rfl
  | some fd =>
      obtain ⟨ok, u, hmalloc, hu⟩ := malloc_returns O.toEnv t.win
      have hmalloc' := zoom_ok (l := Host.onWin) (s := t) hmalloc
      rw [bind_apply, hopen]
      dsimp only
      rw [bind_apply, hmalloc']
      dsimp only
      cases ok with
      | false =>
          obtain ⟨v, hclose, hv⟩ := closeFd_acquired (u := Host.onWin.set u t) hr hu hdirs
          refine ⟨none, v, ?_, hv⟩
          rw [if_neg Bool.false_ne_true, bind_apply, hclose]
          rfl
      | true =>
          obtain ⟨r, v, hopendir, htables, -, hv⟩ := opendir_returns O path (Host.onWin.set u t)
          have htables' : v.win.tables = t.win.tables := htables.trans hu
          rw [if_pos rfl, bind_apply, hopendir]
          cases r with
          | none =>
              obtain ⟨w, hclose, hw⟩ := closeFd_acquired hr htables' (hv.trans hdirs)
              refine ⟨none, w, ?_, hw⟩
              dsimp only
              rw [bind_apply, hclose]
              rfl
          | some p =>
              have hbound : (v.win.crt fd).isSome := by
                have hcrt : v.win.crt = t.win.crt := congrArg Tables.crt htables'
                rw [hcrt]
                exact hr.isOpen
              refine ⟨some ⟨some p, fd⟩, v, rfl, ?_, hr.free, ?_⟩
              · exact owns_of (hdirs ▸ hv.1) (hdirs ▸ hv.2) hr.nonneg hbound
              · rw [htables', hr.without]

theorem opendirStub_inCache {path : Path} (h : OpendirAllOrNothing O b D path s) :
    InCache O b path O_PATH none s := by
  obtain ⟨r, t, hrun, -⟩ := h
  obtain ⟨fd, u, hopen, -⟩ := bind_ok hrun
  exact wrapOpen_inCache ⟨fd, u, hopen⟩

end

/-! ## `fdopendir` -/

section
variable {E : Env} {b : Build} {fd : Fd} {h : Handle} {o : Object} {s t : Win} {a : Answer}

theorem readlink_returns {path : Path} {len : Nat} (hstays : readlinkOpens E path len s = false) :
    ∃ a t, readlink E b path len s = .ok a t := by
  by_cases hlen : len = 0
  · rw [readlink, if_pos hlen]
    exact ⟨_, _, rfl⟩
  · have hopens : opens E path s = false := by simpa [readlinkOpens, hlen] using hstays
    obtain ⟨u, hopen, -⟩ := openSymlinkFd_fails hopens
    rw [readlink, if_neg hlen, bind_apply, hopen]
    exact ⟨_, _, rfl⟩

theorem sizeOf_returns {path : Option Path} (hstays : sizeOpens E o path s = false) :
    ∃ size t, Winsup.sizeOf E b o path s = .ok size t := by
  unfold Winsup.sizeOf
  rw [sizeOpens] at hstays
  cases hreparse : o.isReparse with
  | false => exact ⟨_, _, rfl⟩
  | true =>
      rw [hreparse, Bool.true_and] at hstays
      cases path with
      | none => exact ⟨_, _, rfl⟩
      | some path =>
          obtain ⟨a, t, hread⟩ := readlink_returns (b := b) hstays
          simp only [if_true, bind_apply, hread]
          exact ⟨_, _, rfl⟩

/-- `fstat` comes back unless it reads a buffer without an end. -/
theorem fstat64_returns_iff (hstays : fstatOpens E fd s = false) :
    (∃ a t, fstat64 E b fd s = .ok a t) ↔
      ∀ o, s.objectOf fd = some o → stops E o s.calls = false := by
  constructor
  · rintro ⟨a, t, hrun⟩ o hobject
    obtain ⟨h, hfd, hopen⟩ := objectOf_eq_some.mp hobject
    cases hstops : stops E o s.calls with
    | false => rfl
    | true =>
        obtain ⟨e, u, herror⟩ := fstat64_stops (b := b) hfd hopen hstops
        rw [herror] at hrun
        cases hrun
  · intro hall
    have hexamine : ∃ found t, examine E fd s = .ok found t := by
      cases hfd : s.crt fd with
      | none =>
          rw [examine, bind_apply, getOsfhandle, hfd]
          exact ⟨_, _, rfl⟩
      | some h =>
          cases hopen : s.handles h with
          | none =>
              obtain ⟨u, hquery⟩ := query_none (E := E) hopen
              simp only [examine, getFileInformationByHandle, bind_apply, getOsfhandle_eq hfd,
                hquery]
              exact ⟨_, _, rfl⟩
          | some o =>
              obtain ⟨path, t, hrun, -⟩ :=
                examine_returns hfd hopen (hall o (objectOf_eq_some.mpr ⟨h, hfd, hopen⟩))
              exact ⟨_, _, hrun⟩
    obtain ⟨found, t, hexamine⟩ := hexamine
    rw [fstatOpens, after_of_ok hexamine] at hstays
    rw [fstat64, bind_apply, hexamine]
    cases found with
    | none => exact ⟨_, _, rfl⟩
    | some found =>
        obtain ⟨o, type, path⟩ := found
        obtain ⟨size, u, hsize⟩ := sizeOf_returns (b := b) hstays
        dsimp only
        rw [bind_apply, hsize]
        exact ⟨_, _, rfl⟩

theorem fdGetPath_returns_iff (hfd : s.crt fd = some h) (hopen : s.handles h = some o) :
    (∃ r t, fdGetPath E fd s = .ok r t) ↔ pathStops E o s.calls = false := by
  constructor
  · rintro ⟨r, t, hrun⟩
    cases hstops : pathStops E o s.calls with
    | false => rfl
    | true =>
        simp only [pathStops, Bool.and_eq_true, Option.isNone_iff_eq_none,
          decide_eq_true_eq] at hstops
        obtain ⟨⟨⟨hm, hq⟩, hlong⟩, hend⟩ := hstops
        obtain ⟨u, herror⟩ := fdGetPath_stops hfd hopen hm hq hlong hend
        rw [herror] at hrun
        cases hrun
  · intro hgoes
    obtain ⟨path, t, hrun, -⟩ := fdGetPath_returns (E := E) hfd hopen fun hm hq hlong => by
      simpa [pathStops, hm, hq, hlong] using hgoes
    exact ⟨path, t, hrun⟩

/-- The way to the path of the directory comes back exactly if no buffer without
an end is read. -/
theorem dirPath_returns_iff (hstays : fstatOpens E fd s = false) :
    (∃ r t, dirPath (winSys E b) fd s = .ok r t) ↔ Examinable E fd s := by
  constructor
  · rintro ⟨r, t, hrun⟩
    refine ⟨hstays, fun o hobject => ?_⟩
    have hfstat : ∃ a u, fstat64 E b fd s = .ok a u := by
      cases hstat : fstat64 E b fd s with
      | ok a u => exact ⟨a, u, rfl⟩
      | error e u =>
          rw [dirPath_stops hstat] at hrun
          cases hrun
    have hstops := (fstat64_returns_iff hstays).mp hfstat o hobject
    refine ⟨hstops, fun hdir hqueries => ?_⟩
    rcases fstat64_directory (b := b) hobject hdir hstops with
      ⟨hfails, -⟩ | ⟨-, a, u, hstat, hret, hmode, hkept, -, hcalls⟩
    · rw [hqueries] at hfails
      cases hfails
    · obtain ⟨h, hfd, hopen⟩ := objectOf_eq_some.mp hkept
      rw [← hcalls]
      refine (fdGetPath_returns_iff hfd hopen).mp ?_
      cases hpath : fdGetPath E fd u with
      | ok path v => exact ⟨path, v, rfl⟩
      | error e v =>
          rw [dirPath_error hstat hret hmode hpath] at hrun
          cases hrun
  · rintro ⟨-, hall⟩
    obtain ⟨a, u, hstat⟩ :=
      (fstat64_returns_iff (b := b) hstays).mpr fun o hobject => (hall o hobject).1
    by_cases hgood : ∃ o, s.objectOf fd = some o ∧ o.isDirectory = true
    · obtain ⟨o, hobject, hdir⟩ := hgood
      obtain ⟨hstops, hpath⟩ := hall o hobject
      rcases fstat64_directory (b := b) hobject hdir hstops with
        ⟨-, v, hfail⟩ | ⟨hqueries, a, v, hstat, hret, hmode, hkept, -, hcalls⟩
      · exact ⟨none, _, dirPath_bad hfail (.inl (by decide))⟩
      · obtain ⟨h, hfd, hopen⟩ := objectOf_eq_some.mp hkept
        obtain ⟨path, w, hread⟩ :=
          (fdGetPath_returns_iff hfd hopen).mpr (hcalls ▸ hpath hdir hqueries)
        cases path with
        | none => exact ⟨none, _, dirPath_none hstat hret hmode hread⟩
        | some path => exact ⟨some path, _, dirPath_some hstat hret hmode hread⟩
    · have hnot : ∀ o, s.objectOf fd = some o → o.isDirectory = false := by
        intro o hobject
        exact Bool.eq_false_iff.mpr fun hdir => hgood ⟨o, hobject, hdir⟩
      exact ⟨none, _, dirPath_bad hstat (fstat64_notDirectory hnot hstat)⟩

end

section
variable {O : Outside} {b : Build} {D : Dirs Host} {s : Host} {fd : Fd}

theorem dirPath_adds (E : Env) (b : Build) (fd : Fd) :
    Adds Win.tables (dirPath (winSys E b) fd) (fstatOpens E fd) := by
  refine (isDirfd_adds E b fd).bind_keeps fun ok => ?_
  cases ok with
  | false => exact Keeps.pure _
  | true =>
      refine (fdGetPath_keeps fd).bind fun r => ?_
      cases r with
      | none => exact winSys_setErrnoViaWinerr_keeps E b _
      | some path => exact Keeps.pure _

theorem dirPath_open {E : Env} {s t : Win} {path : Path}
    (h : dirPath (winSys E b) fd s = .ok (some path) t) : (s.crt fd).isSome := by
  cases hfd : s.crt fd with
  | some handle => rfl
  | none =>
      obtain ⟨u, hstat⟩ := fstat64_notOpen (E := E) (b := b) hfd
      rw [dirPath_bad hstat (.inl (by decide))] at h
      cases h

/-- The last steps of `fdopendir`. -/
def openStream (O : Outside) (fd : Fd) (path : Path) : Prog Host (Option DirStub) := do
  if ← zoom Host.onWin (malloc O.toEnv) then
    match ← opendir O path with
    | none => return none
    | some stream => return some ⟨some stream, fd⟩
  else
    return none

/-- They leave the descriptors as they were. -/
theorem openStream_returns (O : Outside) (fd : Fd) (path : Path) (s : Host) :
    ∃ r t, openStream O fd path s = .ok r t ∧ t.win.tables = s.win.tables ∧
      match r with
      | none => t.dirs = s.dirs
      | some stub => ∃ p, stub = ⟨some p, fd⟩ ∧ s.dirs p = none ∧
          t.dirs = Function.update s.dirs p (some path) := by
  obtain ⟨ok, u, hmalloc, hu⟩ := malloc_returns O.toEnv s.win
  have hmalloc' := zoom_ok (l := Host.onWin) (s := s) hmalloc
  unfold openStream
  simp only [bind_apply, hmalloc']
  cases ok with
  | false => exact ⟨none, _, rfl, hu, rfl⟩
  | true =>
      obtain ⟨r, v, hopendir, hv, -, hdirs⟩ := opendir_returns O path (Host.onWin.set u s)
      simp only [if_true, bind_apply, hopendir]
      cases r with
      | none => exact ⟨none, v, rfl, hv.trans hu, hdirs⟩
      | some p => exact ⟨some ⟨some p, fd⟩, v, rfl, hv.trans hu, p, rfl, hdirs⟩

theorem fdopendir_run (O : Outside) (b : Build) (D : Dirs Host) (fd : Fd) :
    fdopendir (hostSys O b) (hostDirs O D) fd =
      zoom Host.onWin (dirPath (winSys O.toEnv b) fd) >>= fun r =>
        r.elim (pure none) (openStream O fd) := by
  rw [fdopendir_dirPath, hostSys, dirPath_zoom]
  rfl

theorem fdopendir_allOrNothing (hfd : fd < 0 → s.win.crt fd = none)
    (h : Examinable O.toEnv fd s.win) : FdopendirAllOrNothing O b D fd s := by
  obtain ⟨r, t, hpath⟩ := (dirPath_returns_iff (b := b) h.1).mpr h
  have htables : t.tables = s.win.tables :=
    ((dirPath_adds O.toEnv b fd).same_iff _ _ _ hpath).mpr h.1
  rw [FdopendirAllOrNothing, AllOrNothing, fdopendir_run, bind_apply,
    zoom_ok (l := Host.onWin) hpath]
  cases r with
  | none => exact ⟨none, _, rfl, Prod.ext htables rfl⟩
  | some path =>
      obtain ⟨r, u, hrun, hu, hr⟩ := openStream_returns O fd path (Host.onWin.set t s)
      have hu' : u.win.tables = s.win.tables := hu.trans htables
      refine ⟨r, u, hrun, ?_⟩
      cases r with
      | none => exact Prod.ext hu' hr
      | some stub =>
          obtain ⟨p, rfl, hfree, hdirs⟩ := hr
          have hopen := dirPath_open hpath
          have hnonneg : 0 ≤ fd := by
            refine Int.not_lt.mp fun hneg => ?_
            rw [hfd hneg] at hopen
            cases hopen
          have hcrt : u.win.crt = s.win.crt := congrArg Tables.crt hu'
          exact ⟨owns_of hfree hdirs hnonneg (hcrt ▸ hopen), rfl, hu'⟩

theorem fdopendir_examinable (h : FdopendirAllOrNothing O b D fd s) :
    Examinable O.toEnv fd s.win := by
  obtain ⟨r, u, hrun, hr⟩ := h
  rw [fdopendir_run] at hrun
  obtain ⟨path, t', hzoom, hrest⟩ := bind_ok hrun
  obtain ⟨t, hpath, rfl⟩ := zoom_eq_ok hzoom
  -- after the examination the tables are kept
  have hkept : u.win.tables = t.tables := by
    cases path with
    | none =>
        cases hrest
        rfl
    | some path =>
        obtain ⟨r', u', hstream, hu, -⟩ := openStream_returns O fd path (Host.onWin.set t s)
        rw [Option.elim_some, hstream] at hrest
        cases hrest
        exact hu
  have htables : u.win.tables = s.win.tables := by
    cases r with
    | none => exact congrArg Prod.fst hr
    | some stub => exact hr.2.2
  have hstays : fstatOpens O.toEnv fd s.win = false :=
    ((dirPath_adds O.toEnv b fd).same_iff _ _ _ hpath).mp (hkept.symm.trans htables)
  exact (dirPath_returns_iff hstays).mp ⟨path, t, hpath⟩

end

/-- **All or nothing.**  `_opendir_stub` acquires all or nothing exactly if the
descriptor it gets from `open` has a place in the cache, and `fdopendir` exactly
if the descriptor can be examined. -/
theorem dirStub_allOrNothing (O : Outside) (b : Build) (D : Dirs Host) :
    (∀ path s, OpendirAllOrNothing O b D path s ↔ InCache O b path O_PATH none s) ∧
    (∀ fd s, (fd < 0 → s.win.crt fd = none) →
      (FdopendirAllOrNothing O b D fd s ↔ Examinable O.toEnv fd s.win)) := by
  constructor
  · intro path s
    exact ⟨opendirStub_inCache, opendirStub_allOrNothing⟩
  · intro fd s hfd
    exact ⟨fdopendir_examinable, fdopendir_allOrNothing hfd⟩

/-- The folder, under a runtime that opens what is there. -/
def aMachine : Outside where
  toEnv := aFolder
  runtime := .ucrt
  target := aFolder.object
  realOpen n path _ _ :=
    match aFolder.object n path with
    | some o => .ok o
    | none => .error .ENOENT
  realFdopen n _ _ := .ok n
  opendir n _ := .ok n

/-- Descriptor 3 is the link `l`. -/
def aLinkHost : Host where
  win := { aProcess with
    crt := Function.update aProcess.crt 3 (some 1)
    handles := Function.update aProcess.handles 1 (some aLink) }
  cache := FdCache.init.cache
  streams _ := none
  dirs _ := none
  opened := []
  released := []

/-- Streams without entries. -/
def noEntries : Dirs Host where
  malloc := pure true
  opendir _ := pure none
  readdir _ := pure none
  rewinddir _ := pure ⟨⟩
  telldir _ := pure 0
  seekdir _ _ := pure ⟨⟩
  lseek _ offset _ := pure offset
  fstatat _ _ _ := pure failed
  setErrno e s := { s with win := { s.win with errno := e } }

/-- Descriptor 3 is the directory. -/
def aDirectoryHost : Host := { aLinkHost with
  win := { aLinkHost.win with handles := Function.update aProcess.handles 1 (some aDirectory) } }

theorem dirStub_allOrNothing_aDirectory :
    FdopendirAllOrNothing aMachine .debug noEntries 3 aDirectoryHost := by
  refine ((dirStub_allOrNothing aMachine .debug noEntries).2 3 aDirectoryHost
    fun h => absurd h (by decide)).mpr ⟨by decide +kernel, fun o ho => ?_⟩
  obtain rfl : aDirectory = o := Option.some.inj ho
  exact ⟨rfl, fun _ _ => by decide +kernel⟩

/-- A descriptor stays open when the stub of a link is refused. -/
theorem fdopendir_leaks : ¬ FdopendirAllOrNothing aMachine .debug noEntries 3 aLinkHost := by
  intro h
  have hleak : fstatOpens aMachine.toEnv 3 aLinkHost.win = true := by decide +kernel
  rw [(fdopendir_examinable h).1] at hleak
  cases hleak

end LibcCompat.Winsup
