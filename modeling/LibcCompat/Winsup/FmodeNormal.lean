/-
# `LibcCompat.Winsup.FmodeNormal` — the flags of a mode and the mode of flags

`__fmodeflags` reads flags off a mode, in which modifiers may come in any order
and number.  `__fixup_fmode` reads a mode off the flags: a letter, a plus or not,
and `b` (`ModeLetter.mode`).  These are the normal modes.

What is proved (`fixupFmode_agrees`): every mode that is not empty and has flags
is taken to a normal mode with the same flags, but for those that are of no use
for an open file, and a normal mode is taken to itself.
-/
import LibcCompat.Lib.CString
import LibcCompat.Winsup.File

namespace LibcCompat.Winsup

open LibcCompat.Lib

/-! ## The buffer -/

/-- `mode[i] = c`.  A byte past the end of the buffer is undefined. -/
def storeAt (mode : List UInt8) (i : Nat) (c : UInt8) : Option (List UInt8) :=
  if i < mode.length then some (mode.set i c) else none

/-- `__fixup_fmode`, with the buffer it is handed: the result, and what the buffer
holds then. -/
def fixupFmodeInto (oldMode : CStr) (mode : List UInt8) : Option (Int × List UInt8) :=
  match fmodeflags oldMode with
  | none => some (-1, mode)
  | some flags =>
      match modeLetter flags with
      | none => some (-1, mode)
      | some letter => do
          let mode ← storeAt mode 0 letter.byte
          if mode.head? ≠ some 0x72 ∧ flags &&& O_CREAT = 0 then return (-1, mode)
          else
            let (mode, ptr) ←
              if flags &&& O_RDWR ≠ 0 then (storeAt mode 1 0x2B).map (·, 2)
              else some (mode, 1)
            let mode ← storeAt mode ptr 0x62
            let mode ← storeAt mode (ptr + 1) 0
            return (0, mode)

/-- The flags without those that only matter for opening. -/
def openedFlags (flags : UInt32) : UInt32 := flags &&& ~~~(O_EXCL ||| O_CLOEXEC)

section
variable {mode : CStr} {letter : ModeLetter} {plus : Bool} {flags : UInt32}

/-! ## Normal modes -/

theorem openedFlags_modeFlags (letter : ModeLetter) (plus excl cloexec : Bool) :
    openedFlags (modeFlags letter plus excl cloexec) = modeFlags letter plus false false := by
  cases letter with
  | r => revert plus excl cloexec; decide
  | w => revert plus excl cloexec; decide
  | a => revert plus excl cloexec; decide

theorem mode_modifiers (letter : ModeLetter) (plus : Bool) :
    (letter.mode plus).first = letter.byte ∧ (letter.mode plus).has 0x2B = plus ∧
      (letter.mode plus).has 0x78 = false ∧
      ((letter.mode plus).has 0x65 || (letter.mode plus).has 0x4E) = false := by
  cases letter with
  | r => revert plus; decide
  | w => revert plus; decide
  | a => revert plus; decide

theorem fmodeflags_mode (letter : ModeLetter) (plus : Bool) :
    fmodeflags (letter.mode plus) = some (modeFlags letter plus false false) := by
  obtain ⟨hfirst, hplus, hexcl, hcloexec⟩ := mode_modifiers letter plus
  rw [fmodeflags_eq hfirst, hplus, hexcl, hcloexec]

theorem fixupFmode_mode (letter : ModeLetter) (plus : Bool) :
    fixupFmode (letter.mode plus) = some (letter.mode plus) := by
  obtain ⟨hfirst, hplus, -, -⟩ := mode_modifiers letter plus
  rw [fixupFmode_eq hfirst, hplus]

theorem mode_short (letter : ModeLetter) (plus : Bool) :
    (letter.mode plus).bytes.length + 1 ≤ 4 := by
  cases plus with
  | true => exact Nat.le_refl 4
  | false => exact Nat.le_succ 3

/-! ## What is written -/

theorem storeAt_lt {buf : List UInt8} {i : Nat} (hi : i < buf.length) (c : UInt8) :
    storeAt buf i c = some (buf.set i c) := if_pos hi

theorem head_letter (letter : ModeLetter) : letter.byte ≠ 0x72 ↔ letter ≠ .r := by
  cases letter with
  | r => decide
  | w => decide
  | a => decide

/-- The normal mode and its terminator are written, and no byte after them. -/
theorem fixupFmodeInto_eq (hfirst : mode.first = letter.byte) {buf : List UInt8}
    (hcap : 4 ≤ buf.length) :
    fixupFmodeInto mode buf = some (0, (letter.mode (mode.has 0x2B)).bytes ++
      0 :: buf.drop ((letter.mode (mode.has 0x2B)).bytes.length + 1)) := by
  obtain ⟨b₀, b₁, b₂, b₃, rest, rfl⟩ : ∃ b₀ b₁ b₂ b₃ rest, buf = b₀ :: b₁ :: b₂ :: b₃ :: rest := by
    match buf, hcap with
    | b₀ :: b₁ :: b₂ :: b₃ :: rest, _ => exact ⟨b₀, b₁, b₂, b₃, rest, rfl⟩
  have hback := modeLetter_modeFlags letter (mode.has 0x2B) (mode.has 0x78)
    (mode.has 0x65 || mode.has 0x4E)
  have hplus := modeFlags_plus letter (mode.has 0x2B) (mode.has 0x78)
    (mode.has 0x65 || mode.has 0x4E)
  rw [fixupFmodeInto, fmodeflags_eq hfirst]
  generalize modeFlags letter (mode.has 0x2B) (mode.has 0x78)
    (mode.has 0x65 || mode.has 0x4E) = flags at hback hplus
  have hletter : ¬ ((letter.byte :: b₁ :: b₂ :: b₃ :: rest).head? ≠ some 0x72 ∧
      flags &&& O_CREAT = 0) := by
    rintro ⟨hne, hzero⟩
    exact hback.2.elim ((head_letter letter).mp fun h => hne (congrArg some h))
      fun hcreat => hcreat hzero
  dsimp only
  rw [hback.1]
  dsimp only
  rw [storeAt_lt (Nat.succ_pos _)]
  dsimp only [Option.bind_eq_bind, Option.bind_some, List.set_cons_zero]
  rw [if_neg hletter]
  cases hhas : mode.has 0x2B with
  | true =>
      have hset : flags &&& O_RDWR ≠ 0 := by
        rw [hhas, bne_iff_ne] at hplus
        exact hplus
      rw [if_pos hset]
      rfl
  | false =>
      have hclear : ¬ flags &&& O_RDWR ≠ 0 := by
        rw [hhas, bne_eq_false_iff_eq] at hplus
        exact not_not.mpr hplus
      rw [if_neg hclear]
      rfl

theorem fixupFmodeInto_none (h : fixupFmode mode = none) (buf : List UInt8) :
    fixupFmodeInto mode buf = some (-1, buf) := by
  by_cases hempty : mode.bytes = []
  · rw [fixupFmodeInto, fmodeflags_empty hempty]
    rfl
  · cases hflags : fmodeflags mode with
    | none => rw [fixupFmodeInto, hflags]
    | some flags =>
        obtain ⟨letter, hfirst⟩ := first_of_fmodeflags hempty hflags
        rw [fixupFmode_eq hfirst] at h
        cases h

theorem fixupFmodeInto_holds (hfirst : mode.first = letter.byte) {buf : List UInt8}
    (hcap : 4 ≤ buf.length) :
    ∃ buf', fixupFmodeInto mode buf = some (0, buf') ∧
      HoldsString buf' (letter.mode (mode.has 0x2B)).bytes ∧ buf'.drop 4 = buf.drop 4 := by
  refine ⟨_, fixupFmodeInto_eq hfirst hcap, ?_, ?_⟩
  · exact ⟨⟨_, (List.append_cons _ _ _).symm⟩, (letter.mode _).nonzero⟩
  · have hshort := mode_short letter (mode.has 0x2B)
    have hlen : ((letter.mode (mode.has 0x2B)).bytes ++ [0]).length =
        (letter.mode (mode.has 0x2B)).bytes.length + 1 := List.length_append
    rw [List.append_cons, List.drop_append, List.drop_eq_nil_of_le (hlen ▸ hshort), hlen,
      List.nil_append, List.drop_drop]
    congr 1
    omega

end

/-- **Flags and modes.**  A mode that is not empty and has flags is taken to one of
at most three characters, of which no more than that and the terminator are
written.  It has the same flags but for `O_EXCL` and `O_CLOEXEC`, and is taken to
itself. -/
theorem fixupFmode_agrees {mode : CStr} {flags : UInt32} (hne : mode.bytes ≠ [])
    (hflags : fmodeflags mode = some flags) :
    ∃ out, fixupFmode mode = some out ∧ out.bytes.length + 1 ≤ 4 ∧
      (∀ buf, 4 ≤ buf.length → ∃ buf', fixupFmodeInto mode buf = some (0, buf') ∧
        HoldsString buf' out.bytes ∧ buf'.drop 4 = buf.drop 4) ∧
      fmodeflags out = some (openedFlags flags) ∧ fixupFmode out = some out := by
  obtain ⟨letter, hfirst⟩ := first_of_fmodeflags hne hflags
  have hflags' := hflags.symm.trans (fmodeflags_eq hfirst)
  refine ⟨letter.mode (mode.has 0x2B), fixupFmode_eq hfirst, mode_short letter _, ?_, ?_, ?_⟩
  · exact fun buf hcap => fixupFmodeInto_holds hfirst hcap
  · rw [fmodeflags_mode, Option.some.inj hflags', openedFlags_modeFlags]
  · exact fixupFmode_mode letter _

/-- `w+xe`. -/
def writeExclusive : CStr := ⟨[0x77, 0x2B, 0x78, 0x65], by decide⟩

theorem fixupFmode_agrees_writeExclusive :
    ∃ out, fixupFmode writeExclusive = some out ∧ out.bytes.length + 1 ≤ 4 ∧
      (∀ buf, 4 ≤ buf.length → ∃ buf', fixupFmodeInto writeExclusive buf = some (0, buf') ∧
        HoldsString buf' out.bytes ∧ buf'.drop 4 = buf.drop 4) ∧
      fmodeflags out = some (openedFlags (modeFlags .w true true true)) ∧
      fixupFmode out = some out :=
  fixupFmode_agrees (by decide) (fmodeflags_eq rfl)

/-- It is taken to `w+b`. -/
example : (fixupFmode writeExclusive).map CStr.bytes = some [0x77, 0x2B, 0x62] := by decide

end LibcCompat.Winsup
