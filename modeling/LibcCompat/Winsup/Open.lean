/-
# `LibcCompat.Winsup.Open` — `__wrap_open` of `open.c`

The C runtime does not open directories, so `open` asks for the type of the path
first, unless a file may be created; a directory is opened by `__open_dir_fd`.
A descriptor that is handed out gets an entry in the cache of `fd.c`, and that
can end the process: past the end of the cache the assert fails, or the array is
overrun.
-/
import LibcCompat.Winsup.Host

namespace LibcCompat.Winsup

open LibcCompat.Lib

def O_ACCMODE : UInt32 := 0x0003
def O_RDONLY : UInt32 := 0x0000
def O_WRONLY : UInt32 := 0x0001
def O_RDWR : UInt32 := 0x0002
def O_BINARY : UInt32 := 0x8000

def EISDIR : Errno := .other 21

variable (O : Outside)

/-- Links are followed on the way to an object. -/
def Outside.following : Env := { O.toEnv with object := O.target }

/-- `__open_dir_fd`: the text of `__open_symlink_fd`, but for the flag that keeps
links from being followed. -/
def openDirFd (path : Path) (flags : UInt32) : Prog Host (Option Fd) := do
  match ← zoom Host.onWin (openSymlinkFd O.following path) with
  | none => return none
  | some fd =>
      modify fun s => { s with opened := s.opened ++ [(path, flags)] }
      return some fd

/-- `open_impl`.  A mode that is not handed over is not looked at. -/
def openImpl (b : Build) (path : Path) (oflag : UInt32) (mode : Option ModeT) :
    Prog Host (Option Fd) := do
  let oflag := oflag ||| O_BINARY
  if oflag &&& O_CREAT ≠ 0 then realOpen O path oflag mode
  else
    let buf ← zoom Host.onWin (pathCall O.toEnv b (.stat path))
    if buf.ret < 0 then realOpen O path oflag none
    else if isDir buf.stat.mode then
      if oflag &&& O_ACCMODE = O_RDONLY then
        match ← openDirFd O path oflag with
        | none =>
            zoom Host.onWin (setErrnoViaWinerr O.toEnv)
            return none
        | some fd => return some fd
      else if oflag &&& O_ACCMODE = O_WRONLY ∨ oflag &&& O_ACCMODE = O_RDWR then
        zoom Host.onWin (setErrno EISDIR)
        return none
      else
        zoom Host.onWin (setErrno .EINVAL)
        return none
    else realOpen O path oflag none

/-- `__fd_cache_oflag`, in the process. -/
def cacheOflag (b : Build) (fd : Fd) (oflag : UInt32) : Prog Host PUnit := fun s =>
  let t := FdCache.fdCacheOflag b O.runtime ⟨s.cache, fun _ => none, fun _ => none, none⟩
    fd.toNat oflag
  match t.stopped with
  | some why => .error why s
  | none => .ok ⟨⟩ { s with cache := t.cache }

/-- `__wrap_open`. -/
def wrapOpen (b : Build) (path : Path) (oflag : UInt32) (mode : Option ModeT) :
    Prog Host (Option Fd) := do
  match ← openImpl O b path oflag mode with
  | none => return none
  | some fd =>
      cacheOflag O b fd oflag
      return some fd

/-! ## What an open leaves -/

/-- A free descriptor is bound to a new handle, and nothing else changes. -/
structure Acquires (s t : Win) (fd : Fd) : Prop where
  nonneg : 0 ≤ fd
  free : s.crt fd = none
  handle : ∃ h o, s.handles h = none ∧ t.tables =
    ⟨Function.update s.crt fd (some h), Function.update s.handles h (some o)⟩

/-- The tables without a descriptor and its handle. -/
def Tables.without (T : Tables) (fd : Fd) : Tables :=
  match T.crt fd with
  | some h => ⟨Function.update T.crt fd none, Function.update T.handles h none⟩
  | none => T

/-- What lies beside the tables and the cache. -/
def Host.beside (s : Host) : (FilePtr → Option Fd) × (DirPtr → Option Path) × List Release :=
  (s.streams, s.dirs, s.released)

theorem close_eq (fd : Fd) (s : Win) :
    ∃ t, close fd s = .ok ⟨⟩ t ∧ t.tables = s.tables.without fd := by
  rw [close]
  cases hfd : s.crt fd with
  | some h => exact ⟨_, rfl, by simp only [Win.tables, Tables.without, hfd]⟩
  | none => exact ⟨_, rfl, by simp only [Win.tables, Tables.without, hfd]⟩

theorem Acquires.isOpen {s t : Win} {fd : Fd} (h : Acquires s t fd) : (t.crt fd).isSome := by
  obtain ⟨handle, o, -, htables⟩ := h.handle
  have hcrt : t.crt = Function.update s.crt fd (some handle) := congrArg Tables.crt htables
  rw [hcrt, Function.update_self]
  rfl

theorem Acquires.without {s t : Win} {fd : Fd} (h : Acquires s t fd) :
    t.tables.without fd = s.tables := by
  obtain ⟨handle, o, hfresh, htables⟩ := h.handle
  simp only [htables, Tables.without, Function.update_self, update_remove h.free,
    update_remove hfresh]
  rfl

/-- The program returns: nothing, with the tables as they were; or a descriptor
it acquired. -/
def OpensOrNot (x : Prog Host (Option Fd)) (s : Host) : Prop :=
  ∃ r t, x s = .ok r t ∧ t.beside = s.beside ∧
    match r with
    | none => t.win.tables = s.win.tables
    | some fd => Acquires s.win t.win fd

variable {O}

theorem freeFd_free {E : Env} {s : Win} {fd : Nat} (h : freeFd E s = some fd) :
    s.crt fd = none :=
  Option.isNone_iff_eq_none.mp (List.find?_some (p := fun fd : Nat => (s.crt fd).isNone) h)

theorem realOpen_opens (path : Path) (oflag : UInt32) (mode : Option ModeT) (s : Host) :
    OpensOrNot (realOpen O path oflag mode) s := by
  unfold OpensOrNot realOpen
  cases O.realOpen s.win.calls path oflag mode with
  | error e => exact ⟨none, _, rfl, rfl, rfl⟩
  | ok o =>
      dsimp only
      split
      · next fd hfd hfresh =>
          exact ⟨some fd, _, rfl, rfl, Int.natCast_nonneg _, freeFd_free hfd, _, o, hfresh, rfl⟩
      · exact ⟨none, _, rfl, rfl, rfl⟩

theorem openSymlinkFd_nonneg {E : Env} {path : Path} {s t : Win} {fd : Fd}
    (h : openSymlinkFd E path s = .ok (some fd) t) : 0 ≤ fd := by
  obtain ⟨handle, u, -, hrest⟩ := bind_ok h
  cases handle with
  | none => cases hrest
  | some handle =>
      obtain ⟨res, v, hwrap, hrest⟩ := bind_ok hrest
      cases res with
      | none => cases hrest
      | some fd' =>
          cases hrest
          simp only [openOsfhandle, attempt] at hwrap
          split at hwrap
          · cases hwrap
          · split at hwrap
            · cases hwrap
            · cases hwrap
              exact Int.natCast_nonneg _

theorem Opened.acquires {E : Env} {path : Path} {s t : Win} {fd : Fd} {o : Object}
    (h : Opened E path s fd o t) (hfd : 0 ≤ fd) : Acquires s t fd := by
  refine ⟨hfd, h.free, E.newHandle s.calls, o, h.fresh, ?_⟩
  rw [h.state]
  rfl

theorem openDirFd_opens (path : Path) (flags : UInt32) (s : Host) :
    OpensOrNot (openDirFd O path flags) s := by
  unfold OpensOrNot openDirFd
  cases hopens : opens O.following path s.win with
  | false =>
      obtain ⟨t, hrun, htables⟩ := openSymlinkFd_fails hopens
      rw [bind_apply, zoom_ok hrun]
      exact ⟨none, _, rfl, rfl, htables⟩
  | true =>
      obtain ⟨fd, o, t, hrun, hopened⟩ := openSymlinkFd_ok hopens
      rw [bind_apply, zoom_ok hrun]
      exact ⟨some fd, _, rfl, rfl, hopened.acquires (openSymlinkFd_nonneg hrun)⟩

theorem Acquires.of_tables {s s' t : Win} {fd : Fd} (h : Acquires s' t fd)
    (htables : s'.tables = s.tables) : Acquires s t fd := by
  have hcrt : s'.crt = s.crt := congrArg Tables.crt htables
  have hhandles : s'.handles = s.handles := congrArg Tables.handles htables
  obtain ⟨hnonneg, hfree, hhandle⟩ := h
  rw [hcrt] at hfree
  rw [hcrt, hhandles] at hhandle
  exact ⟨hnonneg, hfree, hhandle⟩

/-- What comes before and keeps the tables does not matter. -/
theorem OpensOrNot.after {α : Type} {x : Prog Host α} {f : α → Prog Host (Option Fd)}
    {s t : Host} {a : α} (hx : x s = .ok a t) (hbeside : t.beside = s.beside)
    (htables : t.win.tables = s.win.tables) (h : OpensOrNot (f a) t) :
    OpensOrNot (x >>= f) s := by
  obtain ⟨r, u, hrun, hrest, hr⟩ := h
  refine ⟨r, u, ?_, hrest.trans hbeside, ?_⟩
  · rw [bind_apply, hx]
    exact hrun
  · cases r with
    | none => exact hr.trans htables
    | some fd => exact hr.of_tables htables

theorem OpensOrNot.orElse {x : Prog Host (Option Fd)} {f : Option Fd → Prog Host (Option Fd)}
    {s : Host} (h : OpensOrNot x s) (hsome : ∀ fd, f (some fd) = pure (some fd))
    (hnone : ∀ t, OpensOrNot (f none) t) : OpensOrNot (x >>= f) s := by
  obtain ⟨r, t, hrun, hbeside, hr⟩ := h
  cases r with
  | none => exact .after hrun hbeside hr (hnone t)
  | some fd =>
      refine ⟨some fd, t, ?_, hbeside, hr⟩
      rw [bind_apply, hrun]
      exact congrFun (hsome fd) t

theorem OpensOrNot.fails {x : Prog Win PUnit} {s : Host} (hreturns : ∃ t, x s.win = .ok ⟨⟩ t)
    (hkeeps : Keeps Win.tables x) : OpensOrNot (do zoom Host.onWin x; return none) s := by
  obtain ⟨t, hx⟩ := hreturns
  exact .after (zoom_ok hx) rfl (hkeeps _ _ _ hx) ⟨none, _, rfl, rfl, rfl⟩

theorem openImpl_opens (b : Build) (path : Path) (oflag : UInt32) (mode : Option ModeT)
    (s : Host) : OpensOrNot (openImpl O b path oflag mode) s := by
  unfold openImpl
  dsimp only
  split
  · exact realOpen_opens path _ mode s
  · refine .after (zoom_ok rfl) rfl rfl ?_
    split
    · exact realOpen_opens path _ none _
    · split
      · split
        · exact (openDirFd_opens path _ _).orElse (fun _ => rfl) fun _ =>
            .fails ⟨_, rfl⟩ setErrnoViaWinerr_keeps
        · split
          · exact .fails ⟨_, rfl⟩ (setErrno_keeps _)
          · exact .fails ⟨_, rfl⟩ (setErrno_keeps _)
      · exact realOpen_opens path _ none _

theorem cacheOflag_eq {b : Build} {fd : Fd} (hfd : 0 ≤ fd) (oflag : UInt32) (s : Host) :
    if fd < FdCache.OPEN_MAX O.runtime then
      ∃ cache, cacheOflag O b fd oflag s = .ok ⟨⟩ { s with cache }
    else ∃ e, cacheOflag O b fd oflag s = .error e s := by
  obtain ⟨n, rfl⟩ := Int.eq_ofNat_of_zero_le hfd
  simp only [cacheOflag, FdCache.fdCacheOflag, Int.toNat_natCast, Int.ofNat_lt]
  split
  · exact ⟨_, rfl⟩
  · cases b with
    | debug => exact ⟨_, rfl⟩
    | ndebug => exact ⟨_, rfl⟩

variable (O) in
/-- The descriptor that `open` gets, if it gets one, has a place in the cache. -/
def InCache (b : Build) (path : Path) (oflag : UInt32) (mode : Option ModeT) (s : Host) : Prop :=
  ∀ fd t, openImpl O b path oflag mode s = .ok (some fd) t → fd < FdCache.OPEN_MAX O.runtime

theorem wrapOpen_opens {b : Build} {path : Path} {oflag : UInt32} {mode : Option ModeT}
    {s : Host} (h : InCache O b path oflag mode s) :
    OpensOrNot (wrapOpen O b path oflag mode) s := by
  obtain ⟨r, t, hrun, hbeside, hr⟩ := openImpl_opens b path oflag mode s
  cases r with
  | none => exact .after hrun hbeside hr ⟨none, t, rfl, rfl, rfl⟩
  | some fd =>
      have hcache := cacheOflag_eq (O := O) (b := b) hr.nonneg oflag t
      rw [if_pos (h fd t hrun)] at hcache
      obtain ⟨cache, hcache⟩ := hcache
      refine ⟨some fd, { t with cache }, ?_, hbeside, hr⟩
      rw [wrapOpen, bind_apply, hrun]
      dsimp only
      rw [bind_apply, hcache]
      rfl

theorem wrapOpen_inCache {b : Build} {path : Path} {oflag : UInt32} {mode : Option ModeT}
    {s : Host} (h : ∃ r t, wrapOpen O b path oflag mode s = .ok r t) :
    InCache O b path oflag mode s := by
  intro fd t hrun
  obtain ⟨r, u, hwrap⟩ := h
  rw [wrapOpen, bind_apply, hrun] at hwrap
  by_contra hout
  obtain ⟨r', t', hrun', -, hr⟩ := openImpl_opens (O := O) b path oflag mode s
  rw [hrun] at hrun'
  cases hrun'
  have hcache := cacheOflag_eq (O := O) (b := b) hr.nonneg oflag t
  rw [if_neg hout] at hcache
  obtain ⟨e, hcache⟩ := hcache
  dsimp only at hwrap
  rw [bind_apply, hcache] at hwrap
  cases hwrap

end LibcCompat.Winsup
