/-
# `LibcCompat.Winsup.FopenFails` — what a failed `fopen` leaves

Between the two looks at the mode the file is opened.  A mode that passes the
first but not the second leaves the file and its descriptor behind; the empty
mode is the only one.  The same is left when the C runtime has no stream for the
descriptor.

What is proved (`fopen_failsCleanly`): `fopen` fails cleanly exactly if the mode
is not empty and each descriptor it opens becomes a stream, or if the mode is
empty and the open already fails, as it should, with `EINVAL`.
-/
import LibcCompat.Winsup.DirStreams
import LibcCompat.Winsup.File

namespace LibcCompat.Winsup

open LibcCompat.Lib

section
variable (O : Outside) (b : Build)

/-- What is asked of a `fopen` that fails: no descriptor is left open, and a mode
that does not start with one of the letters is refused before anything is
opened. -/
structure FailsCleanly (path : Path) (mode : CStr) (s : Host) : Prop where
  table : ∀ t, wrapFopen O b path mode s = .ok none t → t.win.crt = s.win.crt
  invalid : (∀ letter : ModeLetter, mode.first ≠ letter.byte) →
    ∃ t, wrapFopen O b path mode s = .ok none t ∧ t.win.errno = .EINVAL ∧ t.opened = s.opened

/-- The permissions `fopen` passes. -/
def createMode (flags : UInt32) : Option ModeT :=
  if flags &&& O_CREAT ≠ 0 then some rwMode else none

/-- The C runtime has a stream for the descriptor that is opened, if one is. -/
def HasStream (path : Path) (mode : CStr) (s : Host) : Prop :=
  ∀ flags newMode fd t, fmodeflags mode = some flags → fixupFmode mode = some newMode →
    wrapOpen O b path flags (createMode flags) s = .ok (some fd) t →
    ∃ fp u, realFdopen O fd newMode.bytes t = .ok (some fp) u

/-- The flags of the empty mode. -/
def emptyFlags : UInt32 := O_WRONLY ||| O_CREAT ||| O_BINARY

/-- When `fopen` fails cleanly. -/
def CleanCase (path : Path) (mode : CStr) (s : Host) : Prop :=
  if mode.bytes = [] then
    O.realOpen s.win.calls path emptyFlags (some rwMode) = .error .EINVAL
  else HasStream O b path mode s

end

section
variable {O : Outside} {b : Build} {path : Path} {mode : CStr} {s t : Host}

theorem wrapFopen_none (h : fmodeflags mode = none) :
    wrapFopen O b path mode s = .ok none { s with win := { s.win with errno := .EINVAL } } := by
  rw [wrapFopen, h]
  rfl

theorem wrapFopen_some {flags : UInt32} (h : fmodeflags mode = some flags) :
    wrapFopen O b path mode = wrapOpen O b path flags (createMode flags) >>= fun r =>
      r.elim (pure none) fun fd => wrapFdopen O fd mode := by
  rw [wrapFopen, h]
  refine congrArg (wrapOpen O b path flags _ >>= ·) (funext fun r => ?_)
  cases r with
  | none => rfl
  | some fd => rfl

theorem wrapOpen_some {flags : UInt32} {perms : Option ModeT} {fd : Fd}
    (h : wrapOpen O b path flags perms s = .ok (some fd) t) : t.win.crt ≠ s.win.crt := by
  obtain ⟨r, u, hrun, -, hr⟩ := wrapOpen_opens (wrapOpen_inCache ⟨_, _, h⟩)
  rw [h] at hrun
  cases hrun
  intro hsame
  have hopen := hr.isOpen
  rw [hsame, hr.free] at hopen
  cases hopen

theorem realFdopen_returns (O : Outside) (fd : Fd) (mode : List UInt8) (s : Host) :
    ∃ r t, realFdopen O fd mode s = .ok r t ∧ t.win.crt = s.win.crt := by
  unfold realFdopen
  cases O.realFdopen s.win.calls fd mode with
  | error e => exact ⟨none, _, rfl, rfl⟩
  | ok fp =>
      dsimp only
      cases s.streams fp with
      | some fd' => exact ⟨none, _, rfl, rfl⟩
      | none => exact ⟨some fp, _, rfl, rfl⟩

/-! ## A mode that is not empty -/

theorem fixupFmode_some {flags : UInt32} (hne : mode.bytes ≠ [])
    (hflags : fmodeflags mode = some flags) : ∃ newMode, fixupFmode mode = some newMode := by
  obtain ⟨letter, hletter⟩ := first_of_fmodeflags hne hflags
  exact ⟨_, fixupFmode_eq hletter⟩

theorem failsCleanly_hasStream (hne : mode.bytes ≠ []) :
    FailsCleanly O b path mode s ↔ HasStream O b path mode s := by
  constructor
  · intro h flags newMode fd t hflags hnew hopen
    obtain ⟨r, u, hrun, hcrt⟩ := realFdopen_returns O fd newMode.bytes t
    cases r with
    | some fp => exact ⟨fp, u, hrun⟩
    | none =>
        have hfopen : wrapFopen O b path mode s = .ok none u := by
          rw [wrapFopen_some hflags, bind_apply, hopen]
          simp only [Option.elim_some, wrapFdopen, hnew, hrun]
        exact absurd (hcrt.symm.trans (h.table u hfopen)) (wrapOpen_some hopen)
  · intro h
    refine ⟨fun t hfopen => ?_, fun hother => ?_⟩
    · cases hflags : fmodeflags mode with
      | none =>
          rw [wrapFopen_none hflags] at hfopen
          cases hfopen
          rfl
      | some flags =>
          rw [wrapFopen_some hflags] at hfopen
          obtain ⟨r, u, hopen, hrest⟩ := bind_ok hfopen
          cases r with
          | none =>
              cases hrest
              obtain ⟨r, v, hrun, -, hr⟩ := wrapOpen_opens (wrapOpen_inCache ⟨_, _, hopen⟩)
              rw [hopen] at hrun
              cases hrun
              exact congrArg Tables.crt hr
          | some fd =>
              obtain ⟨newMode, hnew⟩ := fixupFmode_some hne hflags
              obtain ⟨fp, v, hrun⟩ := h flags newMode fd u hflags hnew hopen
              simp only [Option.elim_some, wrapFdopen, hnew, hrun] at hrest
              cases hrest
    · exact ⟨_, wrapFopen_none (fmodeflags_other hne hother), rfl, rfl⟩

/-! ## The empty mode -/

theorem openImpl_empty (b : Build) (path : Path) (perms : Option ModeT) :
    openImpl O b path emptyFlags perms = realOpen O path emptyFlags perms := by
  have hflags : emptyFlags ||| O_BINARY = emptyFlags := by decide
  have hcreat : emptyFlags &&& O_CREAT ≠ 0 := by decide
  unfold openImpl
  dsimp only
  rw [hflags, if_pos hcreat]

theorem wrapFopen_empty (h : mode.bytes = []) :
    wrapFopen O b path mode = realOpen O path emptyFlags (some rwMode) >>= fun r =>
      r.elim (pure none) fun fd => do
        cacheOflag O b fd emptyFlags
        zoom Host.onWin (setErrno .EINVAL)
        return none := by
  have hperms : createMode emptyFlags = some rwMode := by decide
  have hflags : fmodeflags mode = some emptyFlags := fmodeflags_empty h
  rw [wrapFopen_some hflags, hperms]
  funext s
  simp only [wrapOpen, openImpl_empty, bind_apply]
  cases realOpen O path emptyFlags (some rwMode) s with
  | error e t => rfl
  | ok r t =>
      cases r with
      | none => rfl
      | some fd =>
          dsimp only [Option.elim_some]
          rw [bind_apply, bind_apply]
          cases cacheOflag O b fd emptyFlags t with
          | error e u => rfl
          | ok x u =>
              simp only [pure_apply, wrapFdopen, fixupFmode_empty h]
              rfl

/-- `__real_open` opens the file, or it fails. -/
theorem realOpen_opened (O : Outside) (path : Path) (flags : UInt32) (perms : Option ModeT)
    (s : Host) :
    (∃ fd t, realOpen O path flags perms s = .ok (some fd) t ∧
      t.opened = s.opened ++ [(path, flags)] ∧
      ∃ o, O.realOpen s.win.calls path flags perms = .ok o) ∨
    ∃ e, realOpen O path flags perms s = .ok none (s.failed e) ∧
      (O.realOpen s.win.calls path flags perms = .error e ∨
        e = EMFILE ∧ ∃ o, O.realOpen s.win.calls path flags perms = .ok o) := by
  unfold realOpen
  cases O.realOpen s.win.calls path flags perms with
  | error e => exact .inr ⟨e, rfl, .inl rfl⟩
  | ok o =>
      dsimp only
      split
      · exact .inl ⟨_, _, rfl, rfl, o, rfl⟩
      · exact .inr ⟨_, rfl, .inr ⟨rfl, o, rfl⟩⟩

theorem cacheOflag_opened {fd : Fd} {oflag : UInt32} {u : PUnit}
    (h : cacheOflag O b fd oflag s = .ok u t) : t.opened = s.opened := by
  unfold cacheOflag at h
  dsimp only at h
  split at h
  · cases h
  · cases h
    rfl

theorem failsCleanly_empty (h : mode.bytes = []) :
    FailsCleanly O b path mode s ↔
      O.realOpen s.win.calls path emptyFlags (some rwMode) = .error .EINVAL := by
  have hnoLetter : ∀ letter : ModeLetter, mode.first ≠ letter.byte := by
    intro letter
    rw [CStr.first_eq_zero.mpr h]
    cases letter <;> decide
  rcases realOpen_opened O path emptyFlags (some rwMode) s with
    ⟨fd, t, hopen, hopened, o, ho⟩ | ⟨e, hopen, he⟩
  · refine iff_of_false (fun hclean => ?_) (by rw [ho]; exact nofun)
    obtain ⟨u, hrun, -, hsame⟩ := hclean.invalid hnoLetter
    rw [wrapFopen_empty h, bind_apply, hopen] at hrun
    obtain ⟨x, v, hcache, hrest⟩ := bind_ok hrun
    cases hrest
    have hlong : s.opened = s.opened ++ [(path, emptyFlags)] :=
      hsame.symm.trans ((cacheOflag_opened hcache).trans hopened)
    exact absurd (congrArg List.length hlong) (by simp)
  · have hrun : wrapFopen O b path mode s = .ok none (s.failed e) := by
      rw [wrapFopen_empty h, bind_apply, hopen]
      rfl
    constructor
    · intro hclean
      obtain ⟨u, hrun', herrno, -⟩ := hclean.invalid hnoLetter
      rw [hrun] at hrun'
      cases hrun'
      rcases he with he | ⟨rfl, -⟩
      · rw [he, show e = .EINVAL from herrno]
      · cases herrno
    · intro hfails
      rw [hfails] at he
      rcases he with he | ⟨-, o, ho⟩
      · cases he
        refine ⟨fun t hrun' => ?_, fun _ => ⟨_, hrun, rfl, rfl⟩⟩
        rw [hrun] at hrun'
        cases hrun'
        rfl
      · cases ho

end

/-- **A failed `fopen`.**  For every path and mode, `fopen` fails cleanly exactly
in a `CleanCase`. -/
theorem fopen_failsCleanly (O : Outside) (b : Build) (path : Path) (mode : CStr) (s : Host) :
    FailsCleanly O b path mode s ↔ CleanCase O b path mode s := by
  unfold CleanCase
  split
  · next h => exact failsCleanly_empty h
  · next h => exact failsCleanly_hasStream h

/-- The empty mode. -/
def noMode : CStr := ⟨[], List.not_mem_nil⟩

/-- It is refused when the file is open already, and the descriptor stays. -/
theorem fopen_noMode :
    ¬ FailsCleanly aMachine .debug [0x66] noMode aLinkHost ∧
      ∃ t, wrapFopen aMachine .debug [0x66] noMode aLinkHost = .ok none t ∧
        t.opened = [([0x66], emptyFlags)] ∧ t.win.crt ≠ aLinkHost.win.crt := by
  obtain ⟨r, t, hrun, hr⟩ := after_iff.mp
    (show after (wrapFopen aMachine .debug [0x66] noMode)
      (fun r t => r.isNone && decide (t.opened = [([0x66], emptyFlags)]) && (t.win.crt 0).isSome)
      aLinkHost = true by decide +kernel)
  simp only [Bool.and_eq_true, decide_eq_true_eq, Option.isNone_iff_eq_none] at hr
  obtain ⟨⟨rfl, hopened⟩, hleft⟩ := hr
  have hcrt : t.win.crt ≠ aLinkHost.win.crt := by
    intro hsame
    rw [hsame] at hleft
    exact absurd hleft (by decide)
  exact ⟨fun hclean => hcrt (hclean.table t hrun), t, hrun, hopened, hcrt⟩

end LibcCompat.Winsup
