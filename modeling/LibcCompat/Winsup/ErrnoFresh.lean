/-
# `LibcCompat.Winsup.ErrnoFresh` — what `errno` says in a run

## What is proved

None of the calls of `Process` reads the `errno` it finds: whatever value is in it
at the start, the run is the same but for `errno` (`errno_unread`).

An opening call that fails sets it, in every state of a run (`errno_told`), so
what it says then is not left over from something earlier.  That goes for
`open`, `creat`, `openat`, `fopen`, `fdopen`, `opendir` and `fdopendir`, and for
an `fopen` that loses its descriptor.

## How

`PriorErrno` has it for the functions that ask Windows; here are the others, over
all of the process.
-/
import LibcCompat.Winsup.PriorErrno
import LibcCompat.Winsup.Process

namespace LibcCompat.Winsup

open LibcCompat.Lib

/-- The process but for `errno`. -/
def Host.butErrno (s : Host) : Host := { s with win := s.win.butErrno }

/-- The process with another `errno`. -/
def Host.withErrno (e : Errno) (s : Host) : Host := { s with win := { s.win with errno := e } }

theorem withErrno_butErrno (e : Errno) (s : Host) : (s.withErrno e).butErrno = s.butErrno := rfl

theorem host_butErrno_eq {s t : Host} (h : s.butErrno = t.butErrno) :
    t = s.withErrno t.win.errno := by
  cases s
  cases t
  simp only [Host.butErrno, Host.mk.injEq] at h
  simp only [Host.withErrno, Host.mk.injEq]
  exact ⟨butErrno_eq h.1, h.2.1.symm, h.2.2.1.symm, h.2.2.2.1.symm, h.2.2.2.2.1.symm,
    h.2.2.2.2.2.symm⟩

section
variable {O : Outside} {b : Build} {D : Dirs Host} {fd : Fd}
variable {α : Type} {sets : α → Prop}

/-- It is enough to change `errno`. -/
theorem hostBlind_of_errno {x : Prog Host α}
    (hx : ∀ s e, EndAlike Host.butErrno sets (x s) (x (s.withErrno e))) :
    Blind Host.butErrno sets x := by
  intro s t h
  rw [host_butErrno_eq h]
  exact hx s t.win.errno

theorem onWin_blind {x : Prog Win α} (hx : Blind Win.butErrno sets x) :
    Blind Host.butErrno sets (zoom Host.onWin x) := by
  refine hostBlind_of_errno fun s e => ?_
  have hend := hx s.win { s.win with errno := e } rfl
  have hget : Host.onWin.get (s.withErrno e) = { s.win with errno := e } := rfl
  have hget' : Host.onWin.get s = s.win := rfl
  unfold zoom
  rw [hget, hget']
  generalize x s.win = r at hend
  generalize x { s.win with errno := e } = r' at hend
  cases hend with
  | ok hview hset =>
      refine .ok ?_ fun ha => ?_
      · exact congrArg (fun w => { s with win := w }) hview
      · rw [hset ha]
        rfl
  | error => exact .error

/-! ## The functions -/

theorem realOpen_blind (path : Path) (oflag : UInt32) (mode : Option ModeT) :
    Blind Host.butErrno (· = none) (realOpen O path oflag mode) := by
  refine hostBlind_of_errno fun s e => ?_
  have hcalls : (s.withErrno e).win.calls = s.win.calls := rfl
  have hfree : freeFd O.toEnv (s.withErrno e).win = freeFd O.toEnv s.win := rfl
  have hhandles : (s.withErrno e).win.handles = s.win.handles := rfl
  unfold realOpen
  rw [hcalls, hfree, hhandles]
  cases O.realOpen s.win.calls path oflag mode with
  | error e' => exact .ok rfl fun _ => rfl
  | ok o =>
      dsimp only
      cases freeFd O.toEnv s.win with
      | none => exact .ok rfl fun _ => rfl
      | some fd =>
          cases s.win.handles (O.newHandle s.win.calls) with
          | none => exact .ok rfl nofun
          | some other => exact .ok rfl fun _ => rfl

theorem setErrno_onWin_blind {x : PUnit → Prog Host α} (e : Errno) :
    Blind Host.butErrno sets (zoom Host.onWin (setErrno e) >>= x) :=
  Blind.bind (P := fun _ => True)
    (onWin_blind (Blind.overwrite fun s t h => by rw [butErrno_eq h]))
    fun _ h => absurd trivial h

theorem setErrnoViaWinerr_onWin_blind {x : PUnit → Prog Host α} :
    Blind Host.butErrno sets (zoom Host.onWin (setErrnoViaWinerr O.toEnv) >>= x) :=
  Blind.bind (P := fun _ => True)
    (onWin_blind (Blind.overwrite fun s t h => by rw [butErrno_eq h]))
    fun _ h => absurd trivial h

theorem openDirFd_blind (path : Path) (flags : UInt32) :
    Blind Host.butErrno never (openDirFd O path flags) := by
  refine (onWin_blind (openSymlinkFd_blind path)).bind fun r _ => ?_
  cases r with
  | none => exact Blind.pure id
  | some fd =>
      refine Blind.bind (P := never) (hostBlind_of_errno fun s e => .ok rfl False.elim)
        fun _ _ => Blind.pure id

theorem openImpl_blind (path : Path) (oflag : UInt32) (mode : Option ModeT) :
    Blind Host.butErrno (· = none) (openImpl O b path oflag mode) := by
  refine Blind.ite (realOpen_blind path _ mode) ?_
  refine Blind.bind (P := never) (hostBlind_of_errno fun s e => .ok rfl False.elim)
    fun buf _ => ?_
  refine Blind.ite (realOpen_blind path _ none) (Blind.ite ?_ (realOpen_blind path _ none))
  refine Blind.ite ?_ (Blind.ite (setErrno_onWin_blind _) (setErrno_onWin_blind _))
  refine (openDirFd_blind path _).bind fun r _ => ?_
  cases r with
  | none => exact setErrnoViaWinerr_onWin_blind
  | some fd => exact Blind.pure nofun

theorem cacheOflag_blind (fd : Fd) (oflag : UInt32) :
    Blind Host.butErrno never (cacheOflag O b fd oflag) := by
  refine hostBlind_of_errno fun s e => ?_
  have hcache : (s.withErrno e).cache = s.cache := rfl
  unfold cacheOflag
  rw [hcache]
  dsimp only
  split
  · exact .error
  · exact .ok rfl False.elim

theorem wrapOpen_blind (path : Path) (oflag : UInt32) (mode : Option ModeT) :
    Blind Host.butErrno (· = none) (wrapOpen O b path oflag mode) := by
  refine (openImpl_blind path oflag mode).bind fun r hne => ?_
  cases r with
  | none => exact absurd rfl hne
  | some fd => exact (cacheOflag_blind fd oflag).bind fun _ _ => Blind.pure nofun

theorem realFdopen_blind (fd : Fd) (mode : List UInt8) :
    Blind Host.butErrno (· = none) (realFdopen O fd mode) := by
  refine hostBlind_of_errno fun s e => ?_
  have hcalls : (s.withErrno e).win.calls = s.win.calls := rfl
  have hstreams : (s.withErrno e).streams = s.streams := rfl
  unfold realFdopen
  rw [hcalls, hstreams]
  cases O.realFdopen s.win.calls fd mode with
  | error e' => exact .ok rfl fun _ => rfl
  | ok fp =>
      dsimp only
      cases s.streams fp with
      | none => exact .ok rfl nofun
      | some other => exact .ok rfl fun _ => rfl

theorem wrapFdopen_blind (fd : Fd) (mode : CStr) :
    Blind Host.butErrno (· = none) (wrapFdopen O fd mode) := by
  unfold wrapFdopen
  cases fixupFmode mode with
  | none => exact setErrno_onWin_blind _
  | some newMode => exact realFdopen_blind fd newMode.bytes

theorem wrapFopen_blind (path : Path) (mode : CStr) :
    Blind Host.butErrno (· = none) (wrapFopen O b path mode) := by
  unfold wrapFopen
  cases fmodeflags mode with
  | none => exact setErrno_onWin_blind _
  | some flags =>
      refine (wrapOpen_blind path flags _).bind fun r hne => ?_
      cases r with
      | none => exact absurd rfl hne
      | some fd => exact wrapFdopen_blind fd mode

theorem opendir_blind (path : Path) : Blind Host.butErrno (· = none) (opendir O path) := by
  refine hostBlind_of_errno fun s e => ?_
  have hcalls : (s.withErrno e).win.calls = s.win.calls := rfl
  have hdirs : (s.withErrno e).dirs = s.dirs := rfl
  unfold opendir
  rw [hcalls, hdirs]
  cases O.opendir s.win.calls path with
  | error e' => exact .ok rfl fun _ => rfl
  | ok p =>
      dsimp only
      cases s.dirs p with
      | none => exact .ok rfl nofun
      | some other => exact .ok rfl fun _ => rfl

theorem closeFd_blind (fd : Fd) : Blind Host.butErrno never (closeFd fd) := by
  refine Blind.bind (P := never) (hostBlind_of_errno fun s e => .ok rfl False.elim)
    fun _ _ => onWin_blind (close_blind fd)

theorem opendirStub_blind (path : Path) :
    Blind Host.butErrno (· = none) (opendirStub (hostFds O b) (hostDirs O D) path) := by
  refine (wrapOpen_blind path O_PATH none).bind fun r hne => ?_
  cases r with
  | none => exact absurd rfl hne
  | some fd =>
      refine Blind.bind (P := (· = false)) (onWin_blind malloc_blind) fun ok hok => ?_
      cases ok with
      | false => exact absurd rfl hok
      | true =>
          refine Blind.bind (P := (· = none)) (opendir_blind path) fun p hp => ?_
          cases p with
          | none => exact absurd rfl hp
          | some p => exact Blind.pure nofun

theorem dirPath_blind (fd : Fd) :
    Blind Win.butErrno (· = none) (dirPath (winSys O.toEnv b) fd) := by
  refine (isDirfd_blind b fd).bind fun ok hok => ?_
  cases ok with
  | false => exact absurd rfl hok
  | true =>
      refine (fdGetPath_blind fd).bind fun path _ => ?_
      cases path with
      | none => exact setErrnoViaWinerr_bind_blind _
      | some path => exact Blind.pure nofun

theorem fdopendir_blind (fd : Fd) :
    Blind Host.butErrno (· = none) (fdopendir (hostSys O b) (hostDirs O D) fd) := by
  rw [fdopendir_run]
  refine (onWin_blind (dirPath_blind fd)).bind fun path hne => ?_
  cases path with
  | none => exact absurd rfl hne
  | some path =>
      refine Blind.bind (P := (· = false)) (onWin_blind malloc_blind) fun ok hok => ?_
      cases ok with
      | false => exact absurd rfl hok
      | true =>
          refine Blind.bind (P := (· = none)) (opendir_blind path) fun p hp => ?_
          cases p with
          | none => exact absurd rfl hp
          | some p => exact Blind.pure nofun

theorem closedirStub_blind (stub : DirStub) :
    Blind Host.butErrno never (closedirStub (hostFds O b) (hostDirs O D) (some stub)) := by
  obtain ⟨dirp, fd⟩ := stub
  have hclose : Blind Host.butErrno never
      (if fd < 0 then pure (0 : Int) else do closeFd fd; return 0 : Prog Host Int) :=
    Blind.ite (Blind.pure id) ((closeFd_blind fd).bind fun _ _ => Blind.pure id)
  cases dirp with
  | none => exact hclose
  | some p =>
      refine Blind.bind (P := never) (hostBlind_of_errno fun s e => ?_) fun _ _ => hclose
      have hdirs : (s.withErrno e).dirs = s.dirs := rfl
      simp only [hostFds, closedir, hdirs]
      cases s.dirs p with
      | none => exact .error
      | some path => exact .ok rfl False.elim

theorem openatFd_blind (m : Heap) (dirfd : Fd) (path : Path) (flags mode : UInt32) :
    Blind Host.butErrno (· = none) (openatFd O b m dirfd path flags mode) := by
  rw [openatFd_eq]
  refine Blind.ite ?_ ?_
  · refine (onWin_blind (getPathAt_blind b m.malloc dirfd path)).bind fun real hne => ?_
    cases real with
    | none => exact absurd rfl hne
    | some real => exact wrapOpen_blind path flags _
  · refine Blind.bind (P := never) ?_ fun _ _ => wrapOpen_blind path flags _
    unfold dupFirst
    split
    · exact Blind.pure id
    · exact Blind.throw _
    · exact Blind.pure id

theorem PathOp.blind (op : PathOp) : Blind Win.butErrno never (op.run O.toEnv b) := by
  have hstat : ∀ path, Blind Win.butErrno never (pathCall O.toEnv b (.stat path)) :=
    fun path => blind_of_errno fun s e => .ok rfl False.elim
  cases op with
  | readlink path len => exact readlink_blind b path len
  | readlinkat m dirfd path len =>
      refine Blind.ite ?_ (readlink_blind b path len)
      refine ((getPathAt_blind b m.malloc dirfd path).mono fun _ => False.elim).bind
        fun real _ => ?_
      cases real with
      | none => exact Blind.pure id
      | some real => exact readlink_blind b real len
  | lstat path => exact (lstat_blind b path).mono fun _ => False.elim
  | fstatat m dirfd pathname flags =>
      refine Blind.ite ?_ (Blind.ite ?_ (setErrno_bind_blind _ _))
      · exact (fstatat_blind b m dirfd pathname).mono fun _ => False.elim
      · refine Blind.ite ?_ (hstat pathname)
        refine ((getPathAt_blind b m.malloc dirfd pathname).mono fun _ => False.elim).bind
          fun real _ => ?_
        cases real with
        | none => exact Blind.pure id
        | some real => exact hstat real
  | fstat fd => exact (fstat64_blind b fd).mono fun _ => False.elim

/-! ## One call -/

variable {base s t : Host} {owner owner' : Owners}

theorem adds_withErrno {x : Prog Win α} {more : Win → Bool} (hadds : Adds Win.tables x more)
    (hx : Blind Win.butErrno sets x) {s t : Win} {a : α} (hrun : x s = .ok a t) (e : Errno) :
    more { s with errno := e } = false ↔ more s = false := by
  have hstart : s.butErrno = Win.butErrno { s with errno := e } := rfl
  obtain ⟨v, hrun', hview, -⟩ := hx.ok hstart hrun
  have htables : v.tables = t.tables := by
    show v.butErrno.tables = t.butErrno.tables
    rw [hview]
  rw [← hadds.same_iff _ _ _ hrun, ← hadds.same_iff _ _ _ hrun', htables]
  rfl

theorem fopenFd_withErrno (path : Path) (mode : CStr) (s : Host) (e : Errno) :
    fopenFd O b path mode (s.withErrno e) = fopenFd O b path mode s := by
  unfold fopenFd
  cases fmodeflags mode with
  | none => rfl
  | some flags =>
      have hend := wrapOpen_blind (O := O) (b := b) path flags (createMode flags) s (s.withErrno e)
        (withErrno_butErrno e s).symm
      dsimp only
      generalize wrapOpen O b path flags (createMode flags) s = r at hend
      generalize wrapOpen O b path flags (createMode flags) (s.withErrno e) = r' at hend
      cases hend with
      | ok hview hset => rfl
      | error => rfl

variable (O b) in
/-- The rest of an `fopen`, once it is known which descriptor it opens. -/
def fopenRest (owner : Owners) (path : Path) (mode : CStr) (opened : Option Fd) :
    Prog Host Owners := do
  let r ← wrapFopen O b path mode
  return opened.elim owner fun fd => Function.update owner fd (some (r.elim .lost .stream))

theorem fopen_rest (owner : Owners) (path : Path) (mode : CStr) (s : Host) :
    FdOp.run O b D owner (.fopen path mode) s =
      fopenRest O b owner path mode (fopenFd O b path mode s) s := by
  show (wrapFopen O b path mode >>= _) s = _
  refine congrFun (congrArg (wrapFopen O b path mode >>= ·) (funext fun r => ?_)) s
  cases fopenFd O b path mode s with
  | none => rfl
  | some fd => rfl

theorem FdOp.run_blind (owner : Owners) (op : FdOp) :
    Blind Host.butErrno never (op.run O b D owner) := by
  have hopen : ∀ path oflag mode, Blind Host.butErrno never (wrapOpen O b path oflag mode) :=
    fun path oflag mode => (wrapOpen_blind path oflag mode).mono fun _ => False.elim
  cases op with
  | openFile path oflag mode => exact (hopen path oflag mode).bind fun _ _ => Blind.pure id
  | creat path mode => exact (hopen path _ _).bind fun _ _ => Blind.pure id
  | openat m dirfd path flags mode =>
      refine Blind.bind (P := never) ?_ fun _ _ => Blind.pure id
      exact (openatFd_blind m dirfd path flags mode).mono fun _ => False.elim
  | close fd => exact (closeFd_blind fd).bind fun _ _ => Blind.pure id
  | fopen path mode =>
      refine hostBlind_of_errno fun s e => ?_
      have hrest : ∀ opened, Blind Host.butErrno never (fopenRest O b owner path mode opened) := by
        intro opened
        refine Blind.bind (P := never) ?_ fun r _ => Blind.pure id
        exact (wrapFopen_blind path mode).mono fun _ => False.elim
      rw [fopen_rest, fopen_rest, fopenFd_withErrno]
      exact hrest _ s (s.withErrno e) (withErrno_butErrno e s).symm
  | fdopen fd mode =>
      refine Blind.bind (P := never) ?_ fun r _ => ?_
      · exact (wrapFdopen_blind fd mode).mono fun _ => False.elim
      · cases r with
        | none => exact Blind.pure id
        | some fp => exact Blind.pure id
  | opendir path =>
      refine Blind.bind (P := never) ?_ fun _ _ => Blind.pure id
      exact (opendirStub_blind path).mono fun _ => False.elim
  | fdopendir fd =>
      refine Blind.bind (P := never) ?_ fun _ _ => Blind.pure id
      exact (fdopendir_blind fd).mono fun _ => False.elim
  | closedir stub => exact (closedirStub_blind stub).bind fun _ _ => Blind.pure id
  | inspect op =>
      refine Blind.bind (P := never) (onWin_blind (PathOp.blind op)) fun _ _ => Blind.pure id

/-! ## Runs -/

def Process.withErrno (e : Errno) (x : Process) : Process := { x with host := x.host.withErrno e }

/-- `open` itself leaves no descriptor of a `readlink` behind. -/
theorem resolveOpens_open (E : Env) (m : Heap) (dirfd : Fd) (path : Path) (s : Win) :
    resolveOpens E b m dirfd path (fun _ _ => false) s =
      (E.pathIsRelative path && fstatOpens E dirfd s) := by
  have hnone : after (getPathAt (winSys E b) m.malloc dirfd path)
      (fun r _ => r.any fun _ => false) s = false := by
    unfold after
    split
    · next r t hrun =>
        cases r with
        | none => rfl
        | some real => rfl
    · rfl
  unfold resolveOpens
  cases E.pathIsRelative path with
  | false => rfl
  | true => rw [if_pos rfl, hnone, Bool.or_false, Bool.true_and]

theorem opensLink_withErrno {op : FdOp} (hrun : op.run O b D owner s = .ok owner' t)
    (hstays : op.opensLink O b s = false) (e : Errno) :
    op.opensLink O b (s.withErrno e) = false := by
  cases op with
  | openat m dirfd path flags mode =>
      obtain ⟨r, u, hopenat, -⟩ := bind_ok hrun
      rw [openatFd_eq] at hopenat
      simp only [FdOp.opensLink, resolveOpens_open] at hstays ⊢
      cases hrel : O.pathIsRelative path with
      | false => rfl
      | true =>
          rw [if_pos hrel] at hopenat
          obtain ⟨real, v, hpath, -⟩ := bind_ok hopenat
          obtain ⟨win, hwin, -⟩ := zoom_eq_ok hpath
          rw [hrel, Bool.true_and] at hstays
          rw [Bool.true_and]
          exact (adds_withErrno (getPathAt_adds O.toEnv b m.malloc dirfd path)
            (getPathAt_blind b m.malloc dirfd path) hwin e).mpr hstays
  | fdopendir fd =>
      obtain ⟨r, u, hopendir, -⟩ := bind_ok hrun
      rw [fdopendir_run] at hopendir
      obtain ⟨path, v, hzoom, -⟩ := bind_ok hopendir
      obtain ⟨win, hwin, -⟩ := zoom_eq_ok hzoom
      exact (adds_withErrno (dirPath_adds O.toEnv b fd) (dirPath_blind fd) hwin e).mpr hstays
  | inspect op =>
      obtain ⟨answer, u, hzoom, -⟩ := bind_ok hrun
      obtain ⟨win, hwin, -⟩ := zoom_eq_ok hzoom
      exact (adds_withErrno (op.adds b) (PathOp.blind op) hwin e).mpr hstays
  | _ => exact hstays

theorem processStep_withErrno {x : Process} {op : FdOp} (hok : x.Allows O b D op) (e : Errno) :
    (x.withErrno e).Allows O b D op ∧
      ∃ e', processStep O b D (x.withErrno e) op = (processStep O b D x op).withErrno e' := by
  obtain ⟨owner, t, hrun, -⟩ := after_iff.mp hok.returns
  obtain ⟨v, hrun', hview, -⟩ := (FdOp.run_blind (O := O) (b := b) (D := D) x.owner op).ok
    (withErrno_butErrno e x.host).symm hrun
  have hrun'' : op.run O b D (x.withErrno e).owner (x.withErrno e).host = .ok owner v := hrun'
  refine ⟨⟨?_, opensLink_withErrno hrun hok.stays e, ?_⟩, v.win.errno, ?_⟩
  · cases op with
    | _ => exact hok.entitled
  · exact after_iff.mpr ⟨owner, v, hrun'', rfl⟩
  · simp only [processStep, hrun, hrun'']
    rw [host_butErrno_eq hview]
    rfl

/-- **`errno` is not read.**  With another value in `errno` at the start the run is
the same, but for `errno`. -/
theorem errno_unread {x y : Process} {ops : List FdOp}
    (h : Run (Process.Allows O b D) (processStep O b D) x ops y) (e : Errno) :
    ∃ e', Run (Process.Allows O b D) (processStep O b D) (x.withErrno e) ops (y.withErrno e') := by
  induction h generalizing e with
  | nil x => exact ⟨e, .nil _⟩
  | cons hok _ ih =>
      obtain ⟨hok', e', hstep⟩ := processStep_withErrno hok e
      obtain ⟨e'', hrest⟩ := ih e'
      refine ⟨e'', .cons hok' ?_⟩
      rw [hstep]
      exact hrest

/-- The calls that open something, or make a stream of what is open. -/
def FdOp.Opening : FdOp → Prop
  | .openFile _ _ _ => True
  | .creat _ _ => True
  | .openat _ _ _ _ _ => True
  | .fopen _ _ => True
  | .fdopen _ _ => True
  | .opendir _ => True
  | .fdopendir _ => True
  | _ => False

/-- Nobody has got anything. -/
def Owners.Fails (owner owner' : Owners) : Prop :=
  ∀ fd, owner' fd = owner fd ∨ owner' fd = some .lost

theorem Owners.Fails.update {o : Owner} (h : owner.Fails (Function.update owner fd (some o)))
    (hlost : o ≠ .lost) : owner fd = some o := by
  rcases h fd with hsame | hnew
  · rw [← hsame, Function.update_self]
  · rw [Function.update_self] at hnew
    exact absurd (Option.some.inj hnew) hlost

theorem Owners.Fails.gain {r : Option Fd} (h : owner.Fails (owner.gain r))
    (hfree : ∀ fd, r = some fd → owner fd = none) : r = none := by
  cases r with
  | none => rfl
  | some fd =>
      have hfd : owner fd = some .client := Owners.Fails.update h (by simp)
      rw [hfree fd rfl] at hfd
      cases hfd

theorem Owners.Fails.gainDir {r : Option DirStub} (h : owner.Fails (owner.gainDir r))
    (hgets : ∀ stub, r = some stub → ∃ p, stub.dirp = some p ∧ owner stub.fd ≠ some (.dir p)) :
    r = none := by
  cases r with
  | none => rfl
  | some stub =>
      obtain ⟨p, hp, hne⟩ := hgets stub rfl
      obtain ⟨dirp, fd⟩ := stub
      cases hp
      exact absurd (Owners.Fails.update h (by simp)) hne

theorem failed_withErrno {β : Type} {x : Prog Host (Option β)}
    (hx : Blind Host.butErrno (· = none) x) (hrun : x s = .ok none t) (e : Errno) :
    x (s.withErrno e) = .ok none t := by
  obtain ⟨v, hrun', -, hsame⟩ := hx.ok (withErrno_butErrno e s).symm hrun
  rw [hsame rfl]
  exact hrun'

/-- An opening call that fails ends the same way, whatever `errno` was. -/
theorem FdOp.told {op : FdOp} (h : Accounted base s owner)
    (hentitled : Process.Entitled ⟨s, owner⟩ op) (hstays : op.opensLink O b s = false)
    (hopening : op.Opening) (hrun : op.run O b D owner s = .ok owner' t)
    (hfails : owner.Fails owner') (e : Errno) :
    op.run O b D owner (s.withErrno e) = .ok owner' t := by
  have hopens : ∀ {path oflag mode fd u}, wrapOpen O b path oflag mode s = .ok (some fd) u →
      owner fd = none := fun hrun => h.no_owner (wrapOpen_free hrun)
  cases op with
  | openFile path oflag mode =>
      obtain ⟨r, u, hopen, hrest⟩ := bind_ok hrun
      cases hrest
      obtain rfl := hfails.gain fun fd hr => hopens (hr ▸ hopen)
      simp only [FdOp.run, bind_apply, failed_withErrno (wrapOpen_blind _ _ _) hopen e]
      rfl
  | creat path mode =>
      obtain ⟨r, u, hopen, hrest⟩ := bind_ok hrun
      cases hrest
      obtain rfl := hfails.gain fun fd hr => hopens (hr ▸ hopen)
      have hcreat : Blind Host.butErrno (· = none) (wrapCreat O b path mode) :=
        wrapOpen_blind _ _ _
      simp only [FdOp.run, bind_apply, failed_withErrno hcreat hopen e]
      rfl
  | openat m dirfd path flags mode =>
      obtain ⟨r, u, hopenat, hrest⟩ := bind_ok hrun
      cases hrest
      have hfree : ∀ fd, r = some fd → owner fd = none :=
        fun fd hr => h.no_owner (openatFd_free hstays (hr ▸ hopenat))
      obtain rfl := hfails.gain hfree
      simp only [FdOp.run, bind_apply, failed_withErrno (openatFd_blind m dirfd path flags mode)
        hopenat e]
      rfl
  | fopen path mode =>
      obtain ⟨s', u, hget, hrest⟩ := bind_ok hrun
      cases hget
      obtain ⟨r, u, hopen, hrest⟩ := bind_ok hrest
      cases r with
      | none =>
          have hopen' := failed_withErrno (wrapFopen_blind path mode) hopen e
          rw [fopen_rest, fopenRest, bind_apply] at hrun ⊢
          rw [hopen', fopenFd_withErrno]
          rwa [hopen] at hrun
      | some fp =>
          cases hfd : fopenFd O b path mode s with
          | none => cases wrapFopen_no_stream hfd hopen
          | some fd =>
              obtain ⟨flags, v, -, hfirst⟩ := fopenFd_eq_some hfd
              rw [hfd] at hrest
              cases hrest
              have hfd : owner fd = some (.stream fp) := hfails.update (by simp)
              rw [hopens hfirst] at hfd
              cases hfd
  | fdopen fd mode =>
      obtain ⟨r, u, hopen, hrest⟩ := bind_ok hrun
      cases r with
      | none =>
          simp only [FdOp.run, bind_apply, failed_withErrno (wrapFdopen_blind fd mode) hopen e]
          exact hrest
      | some fp =>
          cases hrest
          have hclient : owner fd = some .client := hentitled
          have hfd : owner fd = some (.stream fp) := hfails.update (by simp)
          rw [hclient] at hfd
          cases hfd
  | opendir path =>
      obtain ⟨r, u, hopen, hrest⟩ := bind_ok hrun
      cases hrest
      have hnone : r = none := by
        refine hfails.gainDir ?_
        rintro stub rfl
        obtain ⟨⟨p, hp⟩, v, hfirst⟩ := opendirStub_gets hopen
        refine ⟨p, hp, ?_⟩
        rw [hopens hfirst]
        intro hdir
        cases hdir
      subst hnone
      simp only [FdOp.run, bind_apply, failed_withErrno (opendirStub_blind path) hopen e]
      rfl
  | fdopendir fd =>
      obtain ⟨r, u, hopen, hrest⟩ := bind_ok hrun
      cases hrest
      have hnone : r = none := by
        refine hfails.gainDir ?_
        rintro stub rfl
        obtain ⟨p, rfl⟩ := fdopendir_fd hopen
        have hclient : owner fd = some .client := hentitled
        refine ⟨p, rfl, ?_⟩
        rw [hclient]
        intro hdir
        cases hdir
      subst hnone
      simp only [FdOp.run, bind_apply, failed_withErrno (fdopendir_blind fd) hopen e]
      rfl
  | _ => exact hopening.elim

/-- **`errno` is told.**  In every run, an opening call that fails leaves the same
state, `errno` included, whatever `errno` was before it. -/
theorem errno_told {x : Process} {ops : List FdOp} {op : FdOp}
    (h : Run (Process.Allows O b D) (processStep O b D) ⟨base, fun _ => none⟩ ops x)
    (hok : x.Allows O b D op) (hopening : op.Opening)
    (hfails : x.owner.Fails (processStep O b D x op).owner) (e : Errno) :
    processStep O b D (x.withErrno e) op = processStep O b D x op := by
  have hx : Accounted base x.host x.owner := run_accounted h
  obtain ⟨owner, t, hrun, -⟩ := after_iff.mp hok.returns
  simp only [processStep, hrun] at hfails
  have hrun' : op.run O b D (x.withErrno e).owner (x.withErrno e).host = .ok owner t :=
    FdOp.told hx hok.entitled hok.stays hopening hrun hfails e
  simp only [processStep, hrun, hrun']

end

/-- The file is open. -/
def aFileOpen : Process :=
  [FdOp.openFile [0x66] 0 none].foldl (processStep aProgram .debug noEntries) idle

set_option maxRecDepth 10000 in
theorem aFileOpen_fails :
    (processStep aProgram .debug noEntries aFileOpen (.opendir [0x67])).owner =
      aFileOpen.owner := rfl

/-- There is no directory `g`. -/
theorem errno_told_aFileOpen :
    processStep aProgram .debug noEntries (aFileOpen.withErrno .EBADF) (.opendir [0x67]) =
      processStep aProgram .debug noEntries aFileOpen (.opendir [0x67]) := by
  have hrun : Run (Process.Allows aProgram .debug noEntries)
      (processStep aProgram .debug noEntries) idle [.openFile [0x66] 0 none] aFileOpen :=
    Run.of_allOk (by decide +kernel)
  have hopening : FdOp.Opening (.opendir [0x67]) := trivial
  refine errno_told hrun (by decide +kernel) hopening (fun fd => .inl ?_) .EBADF
  rw [aFileOpen_fails]

/-- The same files are opened after a call that was interrupted. -/
theorem errno_unread_openAll :
    ∃ e', Run (Process.Allows aProgram .debug noEntries) (processStep aProgram .debug noEntries)
      (idle.withErrno .EINTR) openAll
      ((openAll.foldl (processStep aProgram .debug noEntries) idle).withErrno e') :=
  errno_unread (Run.of_allOk (by decide +kernel)) .EINTR

end LibcCompat.Winsup
