/-
# `LibcCompat.Winsup.OpenFlags` — the append mode of what the program has open

## What is proved

The program runs as in `Process`, and in between the Rust side looks handles up in
the cache of `fd.c`.  In every state of such a run, whatever is in the cache of
the state it starts from, the handle of each descriptor that was got and not yet
given back is found with the append mode that the descriptor was opened with
(`append_known`): by `open`, `openat`, `creat`, `fopen` or `opendir`, and also
after `fdopen` and `fdopendir` have handed it over.

That is more than the cache can promise by itself, where a descriptor may be
handed out past `__wrap_open` or a handle value may come back.  Here every
descriptor comes from `__wrap_open`, and the handles of the others are apart from
those of the program (`Accounted`).

## How

All that ends up in the cache is noted by `__wrap_open`; the other functions
leave it as it is (`Keeps Host.cache`).
-/
import LibcCompat.Winsup.CacheScan
import LibcCompat.Winsup.Process

namespace LibcCompat.Winsup

open LibcCompat.Lib

/-! ## The runs -/

/-- The flags that the descriptors were opened with. -/
abbrev Flags := Fd → UInt32

/-- What `fd.c` sees of the process; `known` is what the system tells of handles. -/
def Host.fds (s : Host) (known : Handle → Option FdCache.Opened) : FdCache.State where
  cache := s.cache
  crt := fun fd => s.win.crt fd
  handles := known
  stopped := none

/-- The process, with the flags of its descriptors. -/
structure Flagged where
  process : Process
  flags : Flags

/-- A call of the program, or a lookup by the Rust side. -/
inductive FlagOp where
  | call (op : FdOp)
  | lookup (known : Handle → Option FdCache.Opened) (h : Option Handle)

section
variable (O : Outside) (b : Build) (D : Dirs Host)

/-- The part of a call that opens a descriptor, and with which flags. -/
def FdOp.opens : FdOp → Option (Prog Host (Option Fd) × UInt32)
  | .openFile path oflag mode => some (wrapOpen O b path oflag mode, oflag)
  | .creat path mode => some (wrapCreat O b path mode, CREAT_OFLAGS)
  | .openat m dirfd path flags mode => some (openatFd O b m dirfd path flags mode, flags)
  | .fopen path mode =>
      (fmodeflags mode).map fun flags => (wrapOpen O b path flags (createMode flags), flags)
  | .opendir path => some (wrapOpen O b path O_PATH none, O_PATH)
  | _ => none

/-- What a program answers. -/
def answered (x : Prog Host (Option Fd)) (s : Host) : Option Fd :=
  match x s with
  | .ok r _ => r
  | .error _ _ => none

/-- The descriptor that a call opens, with its flags. -/
def FdOp.opened (op : FdOp) (s : Host) : Option (Fd × UInt32) :=
  (op.opens O b).bind fun x => (answered x.1 s).map fun fd => (fd, x.2)

/-- The flags after a call. -/
def Flags.note (flags : Flags) : Option (Fd × UInt32) → Flags
  | some (fd, oflag) => Function.update flags fd oflag
  | none => flags

def Flagged.step (x : Flagged) : FlagOp → Flagged
  | .call op =>
      ⟨processStep O b D x.process op, x.flags.note (op.opened O b x.process.host)⟩
  | .lookup known h =>
      { x with process := { x.process with host := { x.process.host with
          cache := (FdCache.getOsfhandleOflag (x.process.host.fds known) h).2.cache } } }

/-- The program makes the calls of `Process`; lookups are made at any time. -/
def Flagged.Allows (x : Flagged) : FlagOp → Prop
  | .call op => x.process.Allows O b D op
  | .lookup _ _ => True

instance decFlagAllows (x : Flagged) : ∀ op : FlagOp, Decidable (x.Allows O b D op)
  | .call op => inferInstanceAs (Decidable (x.process.Allows O b D op))
  | .lookup _ _ => .isTrue trivial

end

/-! ## What becomes of the cache -/

/-- An entry is noted. -/
structure Notes (c c' : FdCache.Cache) (fd : Fd) (oflag : UInt32) : Prop where
  entry : c'.oflag fd.toNat = some (oflag &&& FdCache.O_APPEND)
  others : ∀ n, n ≠ fd.toNat → c'.oflag n = c.oflag n
  bounded : (∀ n, c.maxSize ≤ n → c.oflag n = none) → ∀ n, c'.maxSize ≤ n → c'.oflag n = none

/-- What a call does to the cache: it notes what it opens. -/
def CacheAfter (s t : Host) : Option (Fd × UInt32) → Prop
  | some (fd, oflag) => Notes s.cache t.cache fd oflag
  | none => t.cache = s.cache

section
variable {O : Outside} {b : Build} {D : Dirs Host} {base s t : Host} {owner : Owners} {fd : Fd}

theorem cacheOflag_notes {oflag : UInt32} {u : PUnit} (hrun : cacheOflag O b fd oflag s = .ok u t) :
    Notes s.cache t.cache fd oflag := by
  unfold cacheOflag FdCache.fdCacheOflag at hrun
  by_cases hlt : fd.toNat < FdCache.OPEN_MAX O.runtime
  · simp only [if_pos hlt] at hrun
    cases hrun
    refine ⟨Function.update_self _ _ _, fun n hn => Function.update_of_ne hn _ _, ?_⟩
    intro hbound n hn
    dsimp only at hn ⊢
    split at hn
    · rw [Function.update_of_ne (by omega)]
      exact hbound n (by omega)
    · rw [Function.update_of_ne (by omega)]
      exact hbound n hn
  · simp only [if_neg hlt] at hrun
    cases b with
    | debug => cases hrun
    | ndebug => cases hrun

theorem zoom_keeps_cache {α : Type} (x : Prog Win α) : Keeps Host.cache (zoom Host.onWin x) :=
  zoom_keeps_beside fun _ _ => rfl

theorem realOpen_keeps_cache (path : Path) (oflag : UInt32) (mode : Option ModeT) :
    Keeps Host.cache (realOpen O path oflag mode) := by
  intro s r t hrun
  unfold realOpen at hrun
  split at hrun
  · cases hrun
    rfl
  · dsimp only at hrun
    split at hrun
    · cases hrun
      rfl
    · cases hrun
      rfl

theorem openDirFd_keeps_cache (path : Path) (flags : UInt32) :
    Keeps Host.cache (openDirFd O path flags) := by
  refine (zoom_keeps_cache _).bind fun r => ?_
  cases r with
  | none => exact .pure _
  | some fd =>
      refine Keeps.bind (Keeps.modify fun s => ?_) fun _ => .pure _
      rfl

theorem openImpl_keeps_cache (path : Path) (oflag : UInt32) (mode : Option ModeT) :
    Keeps Host.cache (openImpl O b path oflag mode) := by
  have hfails : ∀ x : Prog Win PUnit,
      Keeps Host.cache (do zoom Host.onWin x; return none : Prog Host (Option Fd)) :=
    fun x => (zoom_keeps_cache x).bind fun _ => .pure _
  refine .ite (realOpen_keeps_cache _ _ _) ((zoom_keeps_cache _).bind fun buf => ?_)
  refine .ite (realOpen_keeps_cache _ _ _) (.ite ?_ (realOpen_keeps_cache _ _ _))
  refine .ite ?_ (.ite (hfails _) (hfails _))
  refine (openDirFd_keeps_cache _ _).bind fun r => ?_
  cases r with
  | none => exact hfails _
  | some fd => exact .pure _

theorem wrapOpen_cache {path : Path} {oflag : UInt32} {mode : Option ModeT} {r : Option Fd}
    (hrun : wrapOpen O b path oflag mode s = .ok r t) :
    CacheAfter s t (r.map fun fd => (fd, oflag)) := by
  obtain ⟨r', u, hopen, hrest⟩ := bind_ok hrun
  have hkept : u.cache = s.cache := openImpl_keeps_cache _ _ _ _ _ _ hopen
  cases r' with
  | none =>
      cases hrest
      exact hkept
  | some fd =>
      obtain ⟨_, v, hnote, hrest⟩ := bind_ok hrest
      cases hrest
      show Notes s.cache t.cache fd oflag
      rw [← hkept]
      exact cacheOflag_notes hnote

theorem wrapFdopen_keeps_cache (fd : Fd) (mode : CStr) :
    Keeps Host.cache (wrapFdopen O fd mode) := by
  intro s r t hrun
  exact (wrapFdopen_spec hrun).2.2.1

theorem opendir_keeps_cache (path : Path) : Keeps Host.cache (opendir O path) := by
  intro s r t hrun
  exact (opendir_spec hrun).2.2.1

theorem closeFd_keeps_cache (fd : Fd) : Keeps Host.cache (closeFd fd) := by
  refine Keeps.bind (Keeps.modify fun s => ?_) fun _ => zoom_keeps_cache _
  rfl

theorem closedir_keeps_cache (p : DirPtr) : Keeps Host.cache (closedir p) := by
  intro s r t hrun
  unfold closedir at hrun
  split at hrun
  · cases hrun
  · cases hrun
    rfl

theorem fdopendir_keeps_cache (fd : Fd) :
    Keeps Host.cache (fdopendir (hostSys O b) (hostDirs O D) fd) := by
  rw [fdopendir_run]
  refine (zoom_keeps_cache _).bind fun path => ?_
  cases path with
  | none => exact .pure _
  | some path =>
      refine Keeps.bind (zoom_keeps_cache (malloc O.toEnv)) fun ok => ?_
      cases ok with
      | false => exact .pure _
      | true =>
          refine Keeps.bind (opendir_keeps_cache path) fun r => ?_
          cases r with
          | none => exact .pure _
          | some p => exact .pure _

theorem closedirStub_keeps_cache (stub : DirStub) :
    Keeps Host.cache (closedirStub (hostFds O b) (hostDirs O D) (some stub)) := by
  have hclose : Keeps Host.cache (if stub.fd < 0 then pure (0 : Int)
      else do closeFd stub.fd; return 0 : Prog Host Int) :=
    .ite (.pure _) ((closeFd_keeps_cache _).bind fun _ => .pure _)
  obtain ⟨dirp, fd⟩ := stub
  cases dirp with
  | none => exact hclose
  | some p => exact (closedir_keeps_cache p).bind fun _ => hclose

/-! ## One call -/

/-- A free descriptor is opened, and noted with the flags. -/
structure Opens (s t : Host) (r : Option Fd) (oflag : UInt32) : Prop where
  cache : CacheAfter s t (r.map fun fd => (fd, oflag))
  free : ∀ fd, r = some fd → 0 ≤ fd ∧ s.win.crt fd = none

theorem wrapOpen_opens_notes {path : Path} {oflag : UInt32} {mode : Option ModeT}
    {r : Option Fd} (hrun : wrapOpen O b path oflag mode s = .ok r t) : Opens s t r oflag := by
  refine ⟨wrapOpen_cache hrun, fun fd hfd => ?_⟩
  obtain ⟨-, -, -, hgets⟩ := (wrapOpen_returned hrun).spec hrun
  exact ⟨(hgets fd hfd).nonneg, (hgets fd hfd).free⟩

theorem openatFd_opens_notes {m : Heap} {dirfd : Fd} {path : Path} {flags mode : UInt32}
    {r : Option Fd}
    (hstays : resolveOpens O.toEnv b m dirfd path (fun _ _ => false) s.win = false)
    (hrun : openatFd O b m dirfd path flags mode s = .ok r t) : Opens s t r flags := by
  obtain ⟨u, hu, ⟨rfl, rfl⟩ | hopen⟩ := openatFd_run hstays hrun
  · exact ⟨hu.cache, nofun⟩
  · obtain ⟨hcache, hfree⟩ := wrapOpen_opens_notes hopen
    have hcrt : u.win.crt = s.win.crt := congrArg Tables.crt hu.tables
    refine ⟨?_, fun fd hfd => hcrt ▸ hfree fd hfd⟩
    cases r with
    | none => exact hcache.trans hu.cache
    | some fd =>
        show Notes s.cache t.cache fd flags
        rw [← hu.cache]
        exact hcache

theorem FdOp.opened_eq {op : FdOp} {x : Prog Host (Option Fd)} {oflag : UInt32} {r : Option Fd}
    (hop : op.opens O b = some (x, oflag)) (hrun : x s = .ok r t) :
    op.opened O b s = r.map fun fd => (fd, oflag) := by
  simp only [FdOp.opened, hop, Option.bind_some, answered, hrun]

/-- What is known after a call of the descriptor it opens, if it opens one. -/
def AfterOpening (s t : Host) (new : Option (Fd × UInt32)) : Prop :=
  CacheAfter s t new ∧ ∀ fd oflag, new = some (fd, oflag) → 0 ≤ fd ∧ s.win.crt fd = none

/-- A call that opens something first, and leaves the cache as it is then. -/
theorem opening_call {op : FdOp} {x : Prog Host (Option Fd)} {oflag : UInt32} {α : Type}
    {f : Option Fd → Prog Host α} {a : α} (hop : op.opens O b = some (x, oflag))
    (hx : ∀ {r u}, x s = .ok r u → Opens s u r oflag) (hf : ∀ r, Keeps Host.cache (f r))
    (hrun : (x >>= f) s = .ok a t) : AfterOpening s t (op.opened O b s) := by
  obtain ⟨r, u, hopen, hrest⟩ := bind_ok hrun
  obtain ⟨hcache, hfree⟩ := hx hopen
  have hkept : t.cache = u.cache := hf r _ _ _ hrest
  rw [FdOp.opened_eq hop hopen]
  cases r with
  | none => exact ⟨hkept.trans hcache, nofun⟩
  | some fd =>
      constructor
      · show Notes s.cache t.cache fd oflag
        rw [hkept]
        exact hcache
      · rintro fd' oflag' heq
        cases heq
        exact hfree fd rfl

/-- Any other leaves the cache as it is. -/
theorem quiet_call {op : FdOp} {α : Type} {x : Prog Host α} {a : α} (hop : op.opens O b = none)
    (hx : Keeps Host.cache x) (hrun : x s = .ok a t) : AfterOpening s t (op.opened O b s) := by
  rw [FdOp.opened, hop]
  exact ⟨hx _ _ _ hrun, nofun⟩

theorem FdOp.opens_fopen {path : Path} {mode : CStr} {flags : UInt32}
    (hflags : fmodeflags mode = some flags) : (FdOp.fopen path mode).opens O b =
      some (wrapOpen O b path flags (createMode flags), flags) := by
  rw [FdOp.opens, hflags]
  rfl

theorem FdOp.after_opening {op : FdOp} {owner' : Owners} (hstays : op.opensLink O b s = false)
    (hrun : op.run O b D owner s = .ok owner' t) : AfterOpening s t (op.opened O b s) := by
  cases op with
  | openFile path oflag mode =>
      exact opening_call rfl wrapOpen_opens_notes (fun _ => .pure _) hrun
  | creat path mode => exact opening_call rfl wrapOpen_opens_notes (fun _ => .pure _) hrun
  | openat m dirfd path flags mode =>
      exact opening_call rfl (openatFd_opens_notes hstays) (fun _ => .pure _) hrun
  | close fd => exact quiet_call rfl ((closeFd_keeps_cache fd).bind fun _ => .pure _) hrun
  | fopen path mode =>
      obtain ⟨s', u, hget, hrest⟩ := bind_ok hrun
      cases hget
      obtain ⟨r, u, hopen, hrest⟩ := bind_ok hrest
      obtain rfl : t = u := by
        cases hfd : fopenFd O b path mode s with
        | none =>
            rw [hfd] at hrest
            cases hrest
            rfl
        | some fd =>
            rw [hfd] at hrest
            cases hrest
            rfl
      cases hflags : fmodeflags mode with
      | none =>
          rw [wrapFopen_none hflags] at hopen
          cases hopen
          rw [FdOp.opened, FdOp.opens, hflags]
          exact ⟨rfl, nofun⟩
      | some flags =>
          rw [wrapFopen_some hflags] at hopen
          refine opening_call (opens_fopen hflags) wrapOpen_opens_notes (fun r => ?_) hopen
          cases r with
          | none => exact .pure _
          | some fd => exact wrapFdopen_keeps_cache fd mode
  | fdopen fd mode =>
      refine quiet_call rfl ((wrapFdopen_keeps_cache fd mode).bind fun r => ?_) hrun
      cases r with
      | none => exact .pure _
      | some fp => exact .pure _
  | opendir path =>
      obtain ⟨r, u, hopen, hrest⟩ := bind_ok hrun
      cases hrest
      refine opening_call rfl wrapOpen_opens_notes (fun r => ?_) hopen
      cases r with
      | none => exact .pure _
      | some fd =>
          have hclose :
              Keeps Host.cache (do closeFd fd; return none : Prog Host (Option DirStub)) :=
            (closeFd_keeps_cache fd).bind fun _ => .pure _
          refine Keeps.bind (zoom_keeps_cache (malloc O.toEnv)) fun ok => ?_
          refine .ite (Keeps.bind (opendir_keeps_cache path) fun r => ?_) hclose
          cases r with
          | none => exact hclose
          | some p => exact .pure _
  | fdopendir fd => exact quiet_call rfl ((fdopendir_keeps_cache fd).bind fun _ => .pure _) hrun
  | closedir stub =>
      exact quiet_call rfl ((closedirStub_keeps_cache stub).bind fun _ => .pure _) hrun
  | inspect op => exact quiet_call rfl ((zoom_keeps_cache _).bind fun _ => .pure _) hrun

/-! ## Whose the descriptors are -/

theorem Owners.isSome_gain {r : Option Fd} (h : (owner.gain r fd).isSome) :
    r = some fd ∨ (owner fd).isSome := by
  cases r with
  | none => exact .inr h
  | some fd' =>
      by_cases hfd : fd = fd'
      · exact .inl (congrArg some hfd.symm)
      · rw [Owners.gain, Function.update_of_ne hfd] at h
        exact .inr h

theorem Owners.isSome_gainDir {r : Option DirStub} (h : (owner.gainDir r fd).isSome) :
    (∃ p, r = some ⟨some p, fd⟩) ∨ (owner fd).isSome := by
  rcases r with _ | ⟨_ | p, fd'⟩
  · exact .inr h
  · exact .inr h
  · by_cases hfd : fd = fd'
    · exact .inl ⟨p, by rw [hfd]⟩
    · rw [Owners.gainDir, Function.update_of_ne hfd] at h
      exact .inr h

theorem Owners.isSome_update {fd' : Fd} {o : Owner} {new : Option Owner}
    (hfd : owner fd' = some o) (h : (Function.update owner fd' new fd).isSome) :
    (owner fd).isSome := by
  by_cases heq : fd = fd'
  · rw [heq, hfd]
    rfl
  · rwa [Function.update_of_ne heq] at h

theorem Owners.isSome_gain_of_update {fd' : Fd} {new : Option Owner}
    (h : (Function.update owner fd' new fd).isSome) : (owner.gain (some fd') fd).isSome := by
  by_cases heq : fd = fd'
  · rw [heq, Owners.gain, Function.update_self]
    rfl
  · rw [Function.update_of_ne heq] at h
    rwa [Owners.gain, Function.update_of_ne heq]

theorem FdOp.owned {op : FdOp} (hentitled : Process.Entitled ⟨s, owner⟩ op) {owner' : Owners}
    (hrun : op.run O b D owner s = .ok owner' t) (hfd : (owner' fd).isSome) :
    (∃ oflag, op.opened O b s = some (fd, oflag)) ∨ (owner fd).isSome := by
  have hopens : ∀ {x : Prog Host (Option Fd)} {oflag : UInt32} {r : Option Fd} {u : Host},
      op.opens O b = some (x, oflag) → x s = .ok r u → (owner.gain r fd).isSome →
        (∃ oflag, op.opened O b s = some (fd, oflag)) ∨ (owner fd).isSome := by
    intro x oflag r u hop hopen hgain
    refine (Owners.isSome_gain hgain).imp_left ?_
    rintro rfl
    exact ⟨oflag, FdOp.opened_eq hop hopen⟩
  cases op with
  | openFile path oflag mode =>
      obtain ⟨r, u, hopen, hrest⟩ := bind_ok hrun
      cases hrest
      exact hopens rfl hopen hfd
  | creat path mode =>
      obtain ⟨r, u, hopen, hrest⟩ := bind_ok hrun
      cases hrest
      exact hopens rfl hopen hfd
  | openat m dirfd path flags mode =>
      obtain ⟨r, u, hopen, hrest⟩ := bind_ok hrun
      cases hrest
      exact hopens rfl hopen hfd
  | close fd' =>
      obtain ⟨_, u, -, hrest⟩ := bind_ok hrun
      cases hrest
      exact .inr (Owners.isSome_update (hentitled : owner fd' = some .client) hfd)
  | fopen path mode =>
      obtain ⟨s', u, hget, hrest⟩ := bind_ok hrun
      cases hget
      obtain ⟨r, u, -, hrest⟩ := bind_ok hrest
      cases hopened : fopenFd O b path mode s with
      | none =>
          rw [hopened] at hrest
          cases hrest
          exact .inr hfd
      | some fd' =>
          rw [hopened] at hrest
          cases hrest
          obtain ⟨flags, v, hflags, hopen⟩ := fopenFd_eq_some hopened
          exact hopens (opens_fopen hflags) hopen (Owners.isSome_gain_of_update hfd)
  | fdopen fd' mode =>
      obtain ⟨r, u, -, hrest⟩ := bind_ok hrun
      cases r with
      | none =>
          cases hrest
          exact .inr hfd
      | some fp =>
          cases hrest
          exact .inr (Owners.isSome_update (hentitled : owner fd' = some .client) hfd)
  | opendir path =>
      obtain ⟨r, u, hopendir, hrest⟩ := bind_ok hrun
      cases hrest
      rcases Owners.isSome_gainDir hfd with ⟨p, rfl⟩ | hold
      · obtain ⟨-, v, hopen⟩ := opendirStub_gets hopendir
        exact .inl ⟨O_PATH, FdOp.opened_eq rfl hopen⟩
      · exact .inr hold
  | fdopendir fd' =>
      obtain ⟨r, u, hopendir, hrest⟩ := bind_ok hrun
      cases hrest
      rcases Owners.isSome_gainDir hfd with ⟨p, rfl⟩ | hold
      · obtain ⟨q, hstub⟩ := fdopendir_fd hopendir
        cases hstub
        have hclient : owner fd = some .client := hentitled
        exact .inr (by rw [hclient]; rfl)
      · exact .inr hold
  | closedir stub =>
      obtain ⟨p, -, hdir⟩ := hentitled
      obtain ⟨r, u, -, hrest⟩ := bind_ok hrun
      cases hrest
      exact .inr (Owners.isSome_update hdir hfd)
  | inspect op =>
      obtain ⟨answer, u, -, hrest⟩ := bind_ok hrun
      cases hrest
      exact .inr hfd

/-! ## Every run -/

/-- The cache knows the flags of what the program has. -/
structure FlagsNoted (base : Host) (x : Flagged) : Prop where
  account : Accounted base x.process.host x.process.owner
  bounded : ∀ n, x.process.host.cache.maxSize ≤ n → x.process.host.cache.oflag n = none
  entry : ∀ fd, (x.process.owner fd).isSome →
    x.process.host.cache.oflag fd.toNat = some (x.flags fd &&& FdCache.O_APPEND)

theorem FlagsNoted.call {x : Flagged} (h : FlagsNoted base x) {op : FdOp}
    (hok : x.process.Allows O b D op) : FlagsNoted base (x.step O b D (.call op)) := by
  obtain ⟨owner', t, hrun, -⟩ := after_iff.mp hok.returns
  have hstep : processStep O b D x.process op = ⟨t, owner'⟩ := by
    simp only [processStep, hrun]
  have haccount := processStep_accounted h.account hok
  rw [hstep] at haccount
  obtain ⟨hcache, hfree⟩ := FdOp.after_opening hok.stays hrun
  simp only [Flagged.step, hstep]
  cases hopened : op.opened O b x.process.host with
  | none =>
      rw [hopened] at hcache
      have hcache : t.cache = x.process.host.cache := hcache
      refine ⟨haccount, hcache ▸ h.bounded, fun fd hfd => ?_⟩
      rcases FdOp.owned hok.entitled hrun hfd with ⟨oflag, hnew⟩ | hold
      · rw [hopened] at hnew
        cases hnew
      · show t.cache.oflag fd.toNat = _
        rw [hcache]
        exact h.entry fd hold
  | some new =>
      obtain ⟨fd', oflag'⟩ := new
      rw [hopened] at hcache
      have hcache : Notes x.process.host.cache t.cache fd' oflag' := hcache
      obtain ⟨hnonneg', -⟩ := hfree fd' oflag' hopened
      refine ⟨haccount, hcache.bounded h.bounded, fun fd hfd => ?_⟩
      by_cases hne : fd = fd'
      · subst hne
        simp only [Flags.note, Function.update_self]
        exact hcache.entry
      · simp only [Flags.note, Function.update_of_ne hne]
        have hnonneg := haccount.nonneg fd hfd
        have hother : fd.toNat ≠ fd'.toNat := by
          intro heq
          refine hne ?_
          rw [← Int.toNat_of_nonneg hnonneg, heq, Int.toNat_of_nonneg hnonneg']
        rw [hcache.others fd.toNat hother]
        rcases FdOp.owned hok.entitled hrun hfd with ⟨oflag, hnew⟩ | hold
        · rw [hopened] at hnew
          exact absurd (Prod.mk.inj (Option.some.inj hnew)).1.symm hne
        · exact h.entry fd hold

theorem fds_crt (hfd : 0 ≤ fd) (known : Handle → Option FdCache.Opened) :
    (s.fds known).crt fd.toNat = s.win.crt fd :=
  congrArg s.win.crt (Int.toNat_of_nonneg hfd)

/-- A lookup drops only entries of descriptors that are not open. -/
theorem FlagsNoted.lookup {x : Flagged} (h : FlagsNoted base x)
    (known : Handle → Option FdCache.Opened) (handle : Option Handle) :
    FlagsNoted base (x.step O b D (.lookup known handle)) := by
  have hev := FdCache.getOsfhandleOflag_evicts (x.process.host.fds known) handle
  refine ⟨h.account.of_eq rfl rfl rfl, hev.bounded h.bounded, fun fd hfd => ?_⟩
  have hnonneg := h.account.nonneg fd hfd
  obtain ⟨own, hbound⟩ := Option.isSome_iff_exists.mp (h.account.crt.bound fd hfd)
  have hhit : FdCache.Hits (x.process.host.fds known) own fd.toNat
      (x.flags fd &&& FdCache.O_APPEND) :=
    ⟨h.entry fd hfd, (fds_crt hnonneg known).trans hbound⟩
  exact ((hev.hits own fd.toNat _).mpr hhit).1

theorem FlagsNoted.step {x : Flagged} (h : FlagsNoted base x) {op : FlagOp}
    (hok : x.Allows O b D op) : FlagsNoted base (x.step O b D op) := by
  cases op with
  | call op => exact h.call hok
  | lookup known handle => exact h.lookup known handle

theorem Accounted.only_binding (h : Accounted base s owner)
    (hbase : ∀ fd handle, base.win.crt fd = some handle → (base.win.handles handle).isSome)
    {handle : Handle} (hfd : (owner fd).isSome) (hbound : s.win.crt fd = some handle) {fd' : Fd}
    (hbound' : s.win.crt fd' = some handle) : fd' = fd := by
  by_cases hfd' : (owner fd').isSome
  · exact h.ownHandle fd' fd hfd' hfd (hbound'.trans hbound.symm)
  · rw [h.crt.rest fd' hfd'] at hbound'
    have hopen := hbase fd' handle hbound'
    rw [h.handles.free handle ⟨fd, hfd, hbound⟩] at hopen
    cases hopen

theorem FlagsNoted.found {x : Flagged} (h : FlagsNoted base x)
    (hbase : ∀ fd handle, base.win.crt fd = some handle → (base.win.handles handle).isSome)
    (known : Handle → Option FdCache.Opened) (hfd : (x.process.owner fd).isSome) :
    (FdCache.getOsfhandleOflag (x.process.host.fds known) (x.process.host.win.crt fd)).1 =
      x.flags fd &&& FdCache.O_APPEND := by
  have hnonneg := h.account.nonneg fd hfd
  obtain ⟨own, hbound⟩ := Option.isSome_iff_exists.mp (h.account.crt.bound fd hfd)
  have hbound' : (x.process.host.fds known).crt fd.toNat = some own :=
    (fds_crt hnonneg known).trans hbound
  rw [hbound]
  refine FdCache.lookup_firstHit h.bounded ⟨⟨h.entry fd hfd, hbound'⟩, fun fd' hlt e hhit => ?_⟩
  -- the entry of another descriptor is not for this handle
  have hsame : ((fd' : Nat) : Int) = fd := h.account.only_binding hbase hfd hbound hhit.2
  omega

/-- **The append mode.**  In every run the handle of a descriptor that was got and not
given back is found with the append mode that the descriptor was opened with. -/
theorem append_known {ops : List FlagOp} {x : Flagged} {flags : Flags}
    (hrun : Run (Flagged.Allows O b D) (Flagged.step O b D) ⟨⟨base, fun _ => none⟩, flags⟩ ops x)
    (hbound : ∀ n, base.cache.maxSize ≤ n → base.cache.oflag n = none)
    (hbase : ∀ fd handle, base.win.crt fd = some handle → (base.win.handles handle).isSome)
    (known : Handle → Option FdCache.Opened) (fd : Fd) (hfd : (x.process.owner fd).isSome) :
    (FdCache.getOsfhandleOflag (x.process.host.fds known) (x.process.host.win.crt fd)).1 =
      x.flags fd &&& FdCache.O_APPEND := by
  have hx : FlagsNoted base x := hrun.inv (P := FlagsNoted base) (fun _ _ hx hok => hx.step hok)
    ⟨.start base, hbound, nofun⟩
  exact hx.found hbase known hfd

end

/-- A file is opened to append, and looked up; its descriptor goes to a stream.  A file
is opened to read and closed, and its descriptor is that of a directory. -/
def appending : List FlagOp :=
  [.call (.openFile [0x66] (O_WRONLY ||| FdCache.O_APPEND) none),
   .lookup (fun _ => none) (some 7),
   .call (.fdopen 0 ⟨[0x61], by decide⟩),
   .call (.openFile [0x66] O_RDONLY none), .call (.close 1),
   .lookup (fun _ => none) (some 7),
   .call (.opendir [0x64])]

def appended : Flagged :=
  appending.foldl (Flagged.step aProgram .debug noEntries) ⟨idle, fun _ => 0⟩

theorem append_known_appending :
    (FdCache.getOsfhandleOflag (appended.process.host.fds fun _ => none)
      (appended.process.host.win.crt 0)).1 = FdCache.O_APPEND := by
  have hrun : Run (Flagged.Allows aProgram .debug noEntries)
      (Flagged.step aProgram .debug noEntries) ⟨idle, fun _ => 0⟩ appending appended :=
    Run.of_allOk (by decide +kernel)
  have hknown := append_known hrun (fun _ _ => rfl) nofun (fun _ => none) 0 (by decide +kernel)
  exact hknown.trans (by decide +kernel)

end LibcCompat.Winsup
