/-
# `LibcCompat.Winsup.Makedev` — device numbers

The C headers and the Rust crate pack a major and a minor number into a `dev_t`
and take them out again.  Taking them out is the same on both sides; packing is
not: C shifts an `int`, which is undefined when it overflows, Rust an unsigned
number.

What is proved (`device_numbers`): every device number is what Rust packs of its
two parts, and what C packs of them where the number is below 2^31.  Both get
back what was packed, up to 16 bits of each part.  C is defined for the major
numbers from 0 to 2^15 - 1 only, and packs the same number as Rust there.
-/
import Mathlib.Data.Nat.Bitwise
import Mathlib.Tactic.Common

namespace LibcCompat.Winsup

/-! ## The functions -/

/-- `maj << 16` of an `int`, where the result fits. -/
def shiftMajor (maj : Int32) : Option Int32 :=
  if 0 ≤ maj.toInt ∧ maj.toInt * 2 ^ 16 < 2 ^ 31 then some (maj <<< 16) else none

/-- `__gnu_dev_makedev`. -/
def gnuDevMakedev (maj min : Int32) : Option UInt32 := do
  let high ← shiftMajor maj
  return (high ||| (min &&& 0xffff)).toUInt32

/-- `__gnu_dev_major`, and `major` of the crate. -/
def gnuDevMajor (dev : UInt32) : Int32 := ((dev >>> 16) &&& 0xffff).toInt32

/-- `__gnu_dev_minor`, and `minor` of the crate. -/
def gnuDevMinor (dev : UInt32) : Int32 := (dev &&& 0xffff).toInt32

/-- `makedev` of the crate. -/
def makedev (ma mi : Int32) : UInt32 := (ma.toUInt32 <<< 16) ||| (mi.toUInt32 &&& 0xffff)

/-! ## As numbers -/

theorem toInt_toInt32 {x : UInt32} (hx : x.toNat < 2 ^ 31) : x.toInt32.toInt = x.toNat :=
  BitVec.toInt_eq_toNat_of_lt (show 2 * x.toNat < 2 ^ 32 by omega)

/-- An `int` and the unsigned number with its bits end in the same 16 bits. -/
theorem toNat_toUInt32_mod (x : Int32) : (x.toUInt32.toNat % 2 ^ 16 : Nat) = x.toInt % 2 ^ 16 := by
  have hbits : x.toInt = (x.toUInt32.toNat : Int).bmod (2 ^ 32) := BitVec.toInt_eq_toNat_bmod _
  rw [hbits, Int.bmod_def]
  omega

theorem toNat_makedev (ma mi : Int32) :
    (makedev ma mi).toNat = ma.toUInt32.toNat % 2 ^ 16 * 2 ^ 16 + mi.toUInt32.toNat % 2 ^ 16 := by
  have hlow : mi.toUInt32.toNat % 2 ^ 16 < 2 ^ 16 := Nat.mod_lt _ (by decide)
  have hmask : mi.toUInt32.toNat &&& 0xffff = mi.toUInt32.toNat % 2 ^ 16 :=
    Nat.and_two_pow_sub_one_eq_mod _ 16
  have hhigh : (ma.toUInt32.toNat <<< 16) % 2 ^ 32 = ma.toUInt32.toNat % 2 ^ 16 * 2 ^ 16 := by
    rw [Nat.shiftLeft_eq]
    omega
  rw [makedev, UInt32.toNat_or, UInt32.toNat_shiftLeft, UInt32.toNat_and]
  show (ma.toUInt32.toNat <<< 16) % 2 ^ 32 ||| (mi.toUInt32.toNat &&& 0xffff) = _
  rw [hmask, hhigh, ← Nat.shiftLeft_eq, Nat.shiftLeft_add_eq_or_of_lt hlow]

theorem toInt_gnuDevMajor (dev : UInt32) :
    (gnuDevMajor dev).toInt = (dev.toNat / 2 ^ 16 : Nat) := by
  have hlt : dev.toNat < 2 ^ 32 := dev.toNat_lt
  have hbits : ((dev >>> 16) &&& 0xffff).toNat = dev.toNat / 2 ^ 16 := by
    rw [UInt32.toNat_and, UInt32.toNat_shiftRight]
    show (dev.toNat >>> 16) &&& 0xffff = _
    rw [Nat.and_two_pow_sub_one_eq_mod _ 16, Nat.shiftRight_eq_div_pow]
    omega
  rw [gnuDevMajor, toInt_toInt32 (by omega), hbits]

theorem toInt_gnuDevMinor (dev : UInt32) :
    (gnuDevMinor dev).toInt = (dev.toNat % 2 ^ 16 : Nat) := by
  have hbits : (dev &&& 0xffff).toNat = dev.toNat % 2 ^ 16 := by
    rw [UInt32.toNat_and]
    exact Nat.and_two_pow_sub_one_eq_mod _ 16
  rw [gnuDevMinor, toInt_toInt32 (by omega), hbits]

/-! ## Packing and taking out -/

theorem parts_makedev (ma mi : Int32) :
    (gnuDevMajor (makedev ma mi)).toInt = ma.toInt % 2 ^ 16 ∧
      (gnuDevMinor (makedev ma mi)).toInt = mi.toInt % 2 ^ 16 := by
  rw [toInt_gnuDevMajor, toInt_gnuDevMinor, toNat_makedev, ← toNat_toUInt32_mod ma,
    ← toNat_toUInt32_mod mi]
  constructor
  · omega
  · omega

theorem makedev_parts (dev : UInt32) : makedev (gnuDevMajor dev) (gnuDevMinor dev) = dev := by
  refine UInt32.toNat_inj.mp ?_
  have hmajor := toNat_toUInt32_mod (gnuDevMajor dev)
  have hminor := toNat_toUInt32_mod (gnuDevMinor dev)
  have hlt : dev.toNat < 2 ^ 32 := dev.toNat_lt
  rw [toInt_gnuDevMajor] at hmajor
  rw [toInt_gnuDevMinor] at hminor
  rw [toNat_makedev]
  omega

/-- C packs the same where it does not overflow. -/
theorem gnuDevMakedev_eq (maj min : Int32) :
    gnuDevMakedev maj min =
      if 0 ≤ maj.toInt ∧ maj.toInt < 2 ^ 15 then some (makedev maj min) else none := by
  have hfits : 0 ≤ maj.toInt ∧ maj.toInt * 2 ^ 16 < 2 ^ 31 ↔
      0 ≤ maj.toInt ∧ maj.toInt < 2 ^ 15 := by omega
  unfold gnuDevMakedev shiftMajor
  simp only [hfits]
  split
  · rfl
  · rfl

/-- **Device numbers.**  Every device number is packed of its parts, in C below
2^31 only; the parts come back up to 16 bits; C agrees with Rust where it is
defined. -/
theorem device_numbers :
    (∀ dev, makedev (gnuDevMajor dev) (gnuDevMinor dev) = dev ∧
      gnuDevMakedev (gnuDevMajor dev) (gnuDevMinor dev) =
        if dev.toNat < 2 ^ 31 then some dev else none) ∧
    ∀ maj min, ((gnuDevMajor (makedev maj min)).toInt = maj.toInt % 2 ^ 16 ∧
        (gnuDevMinor (makedev maj min)).toInt = min.toInt % 2 ^ 16) ∧
      gnuDevMakedev maj min =
        if 0 ≤ maj.toInt ∧ maj.toInt < 2 ^ 15 then some (makedev maj min) else none := by
  refine ⟨fun dev => ⟨makedev_parts dev, ?_⟩, fun maj min =>
    ⟨parts_makedev maj min, gnuDevMakedev_eq maj min⟩⟩
  have hiff : 0 ≤ (gnuDevMajor dev).toInt ∧ (gnuDevMajor dev).toInt < 2 ^ 15 ↔
      dev.toNat < 2 ^ 31 := by
    rw [toInt_gnuDevMajor]
    omega
  rw [gnuDevMakedev_eq, makedev_parts]
  simp only [hiff]

end LibcCompat.Winsup
