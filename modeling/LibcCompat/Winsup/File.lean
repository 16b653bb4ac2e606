/-
# `LibcCompat.Winsup.File` — `file.c`

A stream is opened in two steps, each of which looks at the mode.  `__fmodeflags`
makes flags for `open` of it; `__fixup_fmode` makes flags of it again, and of the
flags a mode that every runtime understands, for `fdopen`.

The first character of the mode is checked by looking it up in `"rwa"`.  The
terminator of that string counts, so the empty mode passes.
-/
import LibcCompat.Winsup.Open

namespace LibcCompat.Winsup

open LibcCompat.Lib

def O_CLOEXEC : UInt32 := 0x0080
def O_TRUNC : UInt32 := 0x0200
def O_EXCL : UInt32 := 0x0400
def CREAT_OFLAGS : UInt32 := O_CREAT ||| O_TRUNC ||| O_RDWR

def S_IREAD : ModeT := 0x0100
def S_IWRITE : ModeT := 0x0080

/-- A string of C. -/
structure CStr where
  bytes : List UInt8
  nonzero : 0 ∉ bytes
deriving DecidableEq

/-- `*s`. -/
def CStr.first (s : CStr) : UInt8 := s.bytes.headD 0

/-- Whether `strchr(s, c)` finds something.  The terminator is part of the string. -/
def CStr.has (s : CStr) (c : UInt8) : Bool := c == 0 || s.bytes.contains c

/-- `"rwa"`. -/
def rwa : CStr := ⟨[0x72, 0x77, 0x61], by decide⟩

/-- A bit that is set on a condition. -/
def flagIf (c : Bool) (flag : UInt32) : UInt32 := if c then flag else 0

/-- `__fmodeflags`. -/
def fmodeflags (mode : CStr) : Option UInt32 :=
  if rwa.has mode.first then
    some ((if mode.has 0x2B then O_RDWR else if mode.first = 0x72 then O_RDONLY else O_WRONLY) |||
      flagIf (mode.has 0x78) O_EXCL |||
      flagIf (mode.has 0x65 || mode.has 0x4E) O_CLOEXEC |||
      flagIf (mode.first != 0x72) O_CREAT |||
      flagIf (mode.first == 0x77) O_TRUNC |||
      flagIf (mode.first == 0x61) FdCache.O_APPEND |||
      O_BINARY)
  else none

/-- The first character of a mode. -/
inductive ModeLetter where
  | r
  | w
  | a
deriving DecidableEq, Repr

def ModeLetter.byte : ModeLetter → UInt8
  | .r => 0x72
  | .w => 0x77
  | .a => 0x61

/-- The letter for the flags. -/
def modeLetter (flags : UInt32) : Option ModeLetter :=
  if flags &&& O_RDWR ≠ 0 then
    if flags &&& FdCache.O_APPEND ≠ 0 then some .a
    else if flags &&& O_TRUNC ≠ 0 then some .w
    else if flags &&& O_CREAT = 0 then some .r
    else none
  else if flags &&& O_WRONLY ≠ 0 then
    if flags &&& O_TRUNC ≠ 0 then some .w
    else if flags &&& FdCache.O_APPEND ≠ 0 then some .a
    else none
  else some .r

/-- A letter, a plus or not, and `b`. -/
def ModeLetter.mode (letter : ModeLetter) (plus : Bool) : CStr where
  bytes := letter.byte :: (if plus then [0x2B, 0x62] else [0x62])
  nonzero := by cases letter <;> cases plus <;> decide

/-- `__fixup_fmode`. -/
def fixupFmode (oldMode : CStr) : Option CStr :=
  match fmodeflags oldMode with
  | none => none
  | some flags =>
      match modeLetter flags with
      | none => none
      | some letter =>
          if letter ≠ .r ∧ flags &&& O_CREAT = 0 then none
          else some (letter.mode (flags &&& O_RDWR != 0))

variable (O : Outside)

/-- `__wrap_fdopen`. -/
def wrapFdopen (fd : Fd) (mode : CStr) : Prog Host (Option FilePtr) := do
  match fixupFmode mode with
  | none =>
      zoom Host.onWin (setErrno .EINVAL)
      return none
  | some newMode => realFdopen O fd newMode.bytes

/-- `0666`. -/
def rwMode : ModeT := S_IRUSR ||| S_IWUSR ||| S_IRGRP ||| S_IWGRP ||| S_IROTH ||| S_IWOTH

/-- `__wrap_fopen`. -/
def wrapFopen (b : Build) (path : Path) (mode : CStr) : Prog Host (Option FilePtr) := do
  match fmodeflags mode with
  | none =>
      zoom Host.onWin (setErrno .EINVAL)
      return none
  | some flags =>
      match ← wrapOpen O b path flags (if flags &&& O_CREAT ≠ 0 then some rwMode else none) with
      | none => return none
      | some fd => wrapFdopen O fd mode

/-- `__wrap_creat`. -/
def wrapCreat (b : Build) (path : Path) (mode : ModeT) : Prog Host (Option Fd) :=
  let fixedMode :=
    (if mode &&& (S_IRUSR ||| S_IRGRP ||| S_IROTH) ≠ 0 then S_IREAD else 0) |||
      (if mode &&& (S_IWUSR ||| S_IWGRP ||| S_IWOTH) ≠ 0 then S_IWRITE else 0)
  wrapOpen O b path CREAT_OFLAGS (some fixedMode)

/-! ## Which modes are taken -/

section
variable {mode : CStr} {letter : ModeLetter}

theorem CStr.first_eq_zero : mode.first = 0 ↔ mode.bytes = [] := by
  obtain ⟨bytes, nonzero⟩ := mode
  cases bytes with
  | nil => exact iff_of_true rfl rfl
  | cons c bytes =>
      refine iff_of_false (fun h => nonzero ?_) nofun
      rw [← show c = 0 from h]
      exact List.mem_cons_self

theorem rwa_has (c : UInt8) :
    rwa.has c = true ↔ c = 0 ∨ ∃ letter : ModeLetter, c = letter.byte := by
  rw [CStr.has, Bool.or_eq_true, beq_iff_eq]
  refine or_congr_right ?_
  simp only [rwa, List.contains_iff_mem, List.mem_cons, List.not_mem_nil, or_false]
  constructor
  · rintro (h | h | h)
    · exact ⟨.r, h⟩
    · exact ⟨.w, h⟩
    · exact ⟨.a, h⟩
  · rintro ⟨letter, h⟩
    cases letter with
    | r => exact .inl h
    | w => exact .inr (.inl h)
    | a => exact .inr (.inr h)

/-- The empty mode passes as one that writes. -/
theorem fmodeflags_empty (h : mode.bytes = []) :
    fmodeflags mode = some (O_WRONLY ||| O_CREAT ||| O_BINARY) := by
  have hfirst : mode.first = 0 := CStr.first_eq_zero.mpr h
  have hhas : ∀ c, c ≠ 0 → mode.has c = false := by
    intro c hc
    rw [CStr.has, h, Bool.or_eq_false_iff]
    exact ⟨beq_eq_false_iff_ne.mpr hc, rfl⟩
  rw [fmodeflags, hfirst, hhas 0x2B (by decide), hhas 0x78 (by decide), hhas 0x65 (by decide),
    hhas 0x4E (by decide)]
  decide

/-- But not the second time. -/
theorem fixupFmode_empty (h : mode.bytes = []) : fixupFmode mode = none := by
  rw [fixupFmode, fmodeflags_empty h]
  rfl

/-- The flags of a mode, from its letter and its modifiers. -/
def modeFlags (letter : ModeLetter) (plus excl cloexec : Bool) : UInt32 :=
  (if plus then O_RDWR else if letter = .r then O_RDONLY else O_WRONLY) |||
    flagIf excl O_EXCL ||| flagIf cloexec O_CLOEXEC ||| flagIf (letter != .r) O_CREAT |||
    flagIf (letter == .w) O_TRUNC ||| flagIf (letter == .a) FdCache.O_APPEND ||| O_BINARY

theorem fmodeflags_eq (h : mode.first = letter.byte) :
    fmodeflags mode = some (modeFlags letter (mode.has 0x2B) (mode.has 0x78)
      (mode.has 0x65 || mode.has 0x4E)) := by
  unfold fmodeflags
  rw [if_pos ((rwa_has _).mpr (.inr ⟨letter, h⟩)), h]
  cases letter with
  | r => rfl
  | w => rfl
  | a => rfl

theorem modeLetter_modeFlags (letter : ModeLetter) (plus excl cloexec : Bool) :
    modeLetter (modeFlags letter plus excl cloexec) = some letter ∧
      (letter = .r ∨ modeFlags letter plus excl cloexec &&& O_CREAT ≠ 0) := by
  cases letter with
  | r => revert plus excl cloexec; decide
  | w => revert plus excl cloexec; decide
  | a => revert plus excl cloexec; decide

theorem modeFlags_plus (letter : ModeLetter) (plus excl cloexec : Bool) :
    (modeFlags letter plus excl cloexec &&& O_RDWR != 0) = plus := by
  cases letter with
  | r => revert plus excl cloexec; decide
  | w => revert plus excl cloexec; decide
  | a => revert plus excl cloexec; decide

theorem fixupFmode_eq (h : mode.first = letter.byte) :
    fixupFmode mode = some (letter.mode (mode.has 0x2B)) := by
  have hback := modeLetter_modeFlags letter (mode.has 0x2B) (mode.has 0x78)
    (mode.has 0x65 || mode.has 0x4E)
  rw [fixupFmode, fmodeflags_eq h]
  dsimp only
  rw [hback.1]
  dsimp only
  rw [if_neg, modeFlags_plus]
  rintro ⟨hne, hzero⟩
  exact hback.2.elim hne fun hcreat => hcreat hzero

theorem fmodeflags_other (hne : mode.bytes ≠ [])
    (hother : ∀ letter : ModeLetter, mode.first ≠ letter.byte) : fmodeflags mode = none := by
  rw [fmodeflags, if_neg]
  rw [rwa_has]
  rintro (hzero | ⟨letter, h⟩)
  · exact hne (CStr.first_eq_zero.mp hzero)
  · exact hother letter h

/-- A mode that is not empty and has flags starts with one of the letters. -/
theorem first_of_fmodeflags {flags : UInt32} (hne : mode.bytes ≠ [])
    (hflags : fmodeflags mode = some flags) : ∃ letter : ModeLetter, mode.first = letter.byte := by
  by_contra hnone
  rw [fmodeflags_other hne fun letter h => hnone ⟨letter, h⟩] at hflags
  cases hflags

end

end LibcCompat.Winsup
