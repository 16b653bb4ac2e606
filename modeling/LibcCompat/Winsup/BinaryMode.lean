/-
# `LibcCompat.Winsup.BinaryMode` — no file is opened in text mode

## What is proved

A file opened in text mode is not what is on the disk: the C runtime takes line
ends apart and ends the file at a certain byte.  `open` and the functions over it
add `O_BINARY`, and `fdopen` hands on a mode that ends in `b`.

What the runtime would do for any other request makes no difference to a process
(`binaryOnly_run`): two platforms that answer requests for binary files alike
have the same runs.  A mode is only handed on with `O_CREAT`, and that is part of
the result.

## How

The two functions of the runtime are asked in one place each, and the rest are
made of those.
-/
import LibcCompat.Winsup.Acl
import LibcCompat.Winsup.Process

namespace LibcCompat.Winsup

open LibcCompat.Lib

/-- A request of `open` for a binary file; the mode only says how to create one. -/
structure AsksBinary (oflag : UInt32) (mode : Option ModeT) : Prop where
  binary : oflag &&& O_BINARY ≠ 0
  mode : oflag &&& O_CREAT = 0 → mode = none

/-- A platform that opens files, and streams, in another way. -/
def Outside.reopening (O : Outside)
    (open' : Nat → Path → UInt32 → Option ModeT → Except Errno Object)
    (fdopen' : Nat → Fd → List UInt8 → Except Errno FilePtr) : Outside :=
  { O with realOpen := open', realFdopen := fdopen' }

section
variable {O : Outside} {b : Build} {D : Dirs Host}
variable {open' : Nat → Path → UInt32 → Option ModeT → Except Errno Object}
variable {fdopen' : Nat → Fd → List UInt8 → Except Errno FilePtr}

/-! ## The requests -/

theorem realOpen_reopening {path : Path} {oflag : UInt32} {mode : Option ModeT}
    (h : ∀ n, open' n path oflag mode = O.realOpen n path oflag mode) :
    realOpen (O.reopening open' fdopen') path oflag mode = realOpen O path oflag mode := by
  funext s
  unfold realOpen Outside.reopening
  dsimp only
  rw [h]

theorem realFdopen_reopening {fd : Fd} {mode : List UInt8}
    (h : ∀ n, fdopen' n fd mode = O.realFdopen n fd mode) :
    realFdopen (O.reopening open' fdopen') fd mode = realFdopen O fd mode := by
  funext s
  unfold realFdopen Outside.reopening
  dsimp only
  rw [h]

theorem or_binary (oflag : UInt32) : (oflag ||| O_BINARY) &&& O_BINARY ≠ 0 := by
  rw [or_and_distrib, UInt32.and_self]
  intro h
  exact absurd (UInt32.or_eq_zero_iff.mp h).2 (by decide)

theorem openImpl_reopening
    (h : ∀ n path oflag mode, AsksBinary oflag mode →
      open' n path oflag mode = O.realOpen n path oflag mode)
    (path : Path) (oflag : UInt32) (mode : Option ModeT) :
    openImpl (O.reopening open' fdopen') b path oflag mode = openImpl O b path oflag mode := by
  have hplain : realOpen (O.reopening open' fdopen') path (oflag ||| O_BINARY) none =
      realOpen O path (oflag ||| O_BINARY) none :=
    realOpen_reopening fun n => h n path _ none ⟨or_binary oflag, fun _ => rfl⟩
  unfold openImpl
  dsimp only
  split
  · next hcreat =>
      exact realOpen_reopening fun n =>
        h n path _ mode ⟨or_binary oflag, fun hzero => absurd hzero hcreat⟩
  · rw [hplain]
    rfl

/-- A mode that is handed on is a letter, a plus or not, and `b`. -/
theorem fixupFmode_normal {mode newMode : CStr} (h : fixupFmode mode = some newMode) :
    ∃ letter plus, newMode = ModeLetter.mode letter plus := by
  unfold fixupFmode at h
  cases hflags : fmodeflags mode with
  | none =>
      rw [hflags] at h
      cases h
  | some flags =>
      rw [hflags] at h
      dsimp only at h
      cases hletter : modeLetter flags with
      | none =>
          rw [hletter] at h
          cases h
      | some letter =>
          rw [hletter] at h
          dsimp only at h
          split at h
          · cases h
          · cases h
            exact ⟨letter, _, rfl⟩

theorem wrapFdopen_reopening
    (h : ∀ n fd letter plus, fdopen' n fd (ModeLetter.mode letter plus).bytes =
      O.realFdopen n fd (ModeLetter.mode letter plus).bytes) (fd : Fd) (mode : CStr) :
    wrapFdopen (O.reopening open' fdopen') fd mode = wrapFdopen O fd mode := by
  unfold wrapFdopen
  cases hnew : fixupFmode mode with
  | none => rfl
  | some newMode =>
      obtain ⟨letter, plus, rfl⟩ := fixupFmode_normal hnew
      exact realFdopen_reopening fun n => h n fd letter plus

/-! ## The functions made of them -/

/-- The two functions are the same for both platforms. -/
structure SameFiles (O O' : Outside) (b : Build) : Prop where
  env : O'.toEnv = O.toEnv
  opens : wrapOpen O' b = wrapOpen O b
  fdopens : wrapFdopen O' = wrapFdopen O
  opendir : O'.opendir = O.opendir

theorem reopening_sameFiles
    (hopen : ∀ n path oflag mode, AsksBinary oflag mode →
      open' n path oflag mode = O.realOpen n path oflag mode)
    (hfdopen : ∀ n fd letter plus, fdopen' n fd (ModeLetter.mode letter plus).bytes =
      O.realFdopen n fd (ModeLetter.mode letter plus).bytes) :
    SameFiles O (O.reopening open' fdopen') b where
  env := rfl
  opens := by
    funext path oflag mode
    unfold wrapOpen
    rw [openImpl_reopening hopen]
    rfl
  fdopens := by
    funext fd mode
    exact wrapFdopen_reopening hfdopen fd mode
  opendir := rfl

namespace SameFiles

variable {O' : Outside} (h : SameFiles O O' b)
include h

theorem openSys : Winsup.openSys O' b = Winsup.openSys O b := by
  unfold Winsup.openSys hostSys
  rw [h.env, h.opens]

theorem hostDirs : Winsup.hostDirs O' D = Winsup.hostDirs O D := by
  unfold Winsup.hostDirs
  rw [h.env]
  unfold Winsup.opendir
  rw [h.opendir]

theorem wrapFopen : Winsup.wrapFopen O' b = Winsup.wrapFopen O b := by
  funext path mode
  unfold Winsup.wrapFopen
  rw [h.opens, h.fdopens]

theorem fopenFd : Winsup.fopenFd O' b = Winsup.fopenFd O b := by
  funext path mode s
  unfold Winsup.fopenFd
  rw [h.opens]

theorem run : FdOp.run O' b D = FdOp.run O b D := by
  funext owner op
  cases op with
  | openFile path oflag mode =>
      unfold FdOp.run
      rw [h.opens]
  | creat path mode =>
      unfold FdOp.run wrapCreat
      rw [h.opens]
  | openat m dirfd path flags mode =>
      unfold FdOp.run openatFd
      rw [h.openSys]
  | close fd => rfl
  | fopen path mode =>
      unfold FdOp.run
      rw [h.wrapFopen, h.fopenFd]
  | fdopen fd mode =>
      unfold FdOp.run
      rw [h.fdopens]
  | opendir path =>
      unfold FdOp.run hostFds
      rw [h.opens, h.hostDirs]
  | fdopendir fd =>
      unfold FdOp.run hostSys
      rw [h.env, h.hostDirs]
  | closedir stub =>
      unfold FdOp.run hostFds
      rw [h.opens, h.hostDirs]
  | inspect op =>
      unfold FdOp.run
      rw [h.env]

theorem processStep : Winsup.processStep O' b D = Winsup.processStep O b D := by
  funext x op
  unfold Winsup.processStep
  rw [h.run]

theorem allows : Process.Allows O' b D = Process.Allows O b D := by
  have hlink : ∀ op s, FdOp.opensLink O' b op s = FdOp.opensLink O b op s := by
    intro op s
    unfold FdOp.opensLink
    rw [h.env]
  funext x op
  refine propext ⟨fun hok => ?_, fun hok => ?_⟩
  · refine ⟨hok.entitled, ?_, ?_⟩
    · rw [← hlink]
      exact hok.stays
    · rw [← h.run]
      exact hok.returns
  · refine ⟨hok.entitled, ?_, ?_⟩
    · rw [hlink]
      exact hok.stays
    · rw [h.run]
      exact hok.returns

end SameFiles

/-- **Binary files only.**  Platforms that answer requests for binary files alike,
whatever they do for others, have the same runs. -/
theorem binaryOnly_run
    (hopen : ∀ n path oflag mode, AsksBinary oflag mode →
      open' n path oflag mode = O.realOpen n path oflag mode)
    (hfdopen : ∀ n fd letter plus, fdopen' n fd (ModeLetter.mode letter plus).bytes =
      O.realFdopen n fd (ModeLetter.mode letter plus).bytes)
    (x y : Process) (ops : List FdOp) :
    Run (Process.Allows (O.reopening open' fdopen') b D)
        (processStep (O.reopening open' fdopen') b D) x ops y ↔
      Run (Process.Allows O b D) (processStep O b D) x ops y := by
  have hsame : SameFiles O (O.reopening open' fdopen') b := reopening_sameFiles hopen hfdopen
  rw [hsame.processStep, hsame.allows]

end

/-- A request in text mode ends here. -/
def textFails (n : Nat) (path : Path) (oflag : UInt32) (mode : Option ModeT) :
    Except Errno Object :=
  if oflag &&& O_BINARY ≠ 0 then aProgram.realOpen n path oflag mode else .error .EINVAL

theorem binaryOnly_run_textFails :
    Run (Process.Allows (aProgram.reopening textFails aProgram.realFdopen) .debug noEntries)
        (processStep (aProgram.reopening textFails aProgram.realFdopen) .debug noEntries) idle
        openAll (openAll.foldl (processStep aProgram .debug noEntries) idle) :=
  (binaryOnly_run (fun _ _ _ _ hasks => if_pos hasks.binary) (fun _ _ _ _ => rfl) _ _ _).mpr
    (Run.of_allOk (by decide +kernel))

end LibcCompat.Winsup
