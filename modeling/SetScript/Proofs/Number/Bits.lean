import Mathlib
import SetScript.Number.Rounding
/-!
# The bits of a double

The patterns up to that of infinity stand for doubles without a sign and are kept as they are (`toBits_ofBits`). Every
pattern above it stands for one NaN (`toBits_of_infinityBits_lt`).
-/

namespace SetScript.Number

theorem infinityBits_eq : infinityBits = 2047 * 2 ^ 52 := by decide

theorem toNat_toBits_mod (x : Float) : x.toBits.toNat % 2 ^ 63 = magnitude x := by
  simp [magnitude]

/-! ## Exponent and fraction -/

theorem toNat_unpackExponent (bits : UInt64) :
    (@Float.Model.UnpackedFloat.unpackExponent .binary64 bits.toBitVec).toNat = bits.toNat / 2 ^ 52 % 2 ^ 11 := by
  simp [Float.Model.UnpackedFloat.unpackExponent, BitVec.extractLsb, Nat.shiftRight_eq_div_pow]

theorem toNat_unpackMantissa (bits : UInt64) :
    (@Float.Model.UnpackedFloat.unpackMantissa .binary64 bits.toBitVec).toNat = bits.toNat % 2 ^ 52 := by
  simp [Float.Model.UnpackedFloat.unpackMantissa, BitVec.extractLsb]

/-- There is one NaN: a pattern above infinity is the one with the highest bit of the fraction alone. -/
theorem toBits_of_infinityBits_lt {x : Float} (h : infinityBits < magnitude x) :
    x.toBits = 0x7FF8000000000000 := by
  rw [← toNat_toBits_mod, infinityBits_eq] at h
  have exponent : @Float.Model.UnpackedFloat.unpackExponent .binary64 x.toBits.toBitVec = -1#11 := by
    apply BitVec.eq_of_toNat_eq
    rw [toNat_unpackExponent, show (-1#11).toNat = 2047 from rfl]
    omega
  have fraction : @Float.Model.UnpackedFloat.unpackMantissa .binary64 x.toBits.toBitVec ≠ 0#52 := by
    intro zero
    have digits := toNat_unpackMantissa x.toBits
    rw [zero, show (0#52).toNat = 0 from rfl] at digits
    omega
  have packed := x.toModel.valid.eq_packedNaN exponent fraction
  exact UInt64.toBitVec_inj.mp (packed.trans (by decide))

/-! ## Patterns without a sign -/

section

variable {b : Nat} (h : b ≤ infinityBits)

include h

theorem toNat_ofNat : (UInt64.ofNat b).toNat = b := by
  rw [UInt64.toNat_ofNat', Nat.mod_eq_of_lt (Nat.lt_of_le_of_lt h (by decide))]

/-- A pattern up to that of infinity is no NaN, and stays as it is. -/
theorem toBits_ofBits : (Float.ofBits (UInt64.ofNat b)).toBits = UInt64.ofNat b := by
  have number : @Float.Model.UnpackedFloat.isNaNBits .binary64 (UInt64.ofNat b).toBitVec = false := by
    refine decide_eq_false fun ⟨ones, fraction⟩ => fraction ?_
    have exponent := toNat_unpackExponent (UInt64.ofNat b)
    rw [ones, show (-1#11).toNat = 2047 from rfl, toNat_ofNat h] at exponent
    have bound : b ≤ 2047 * 2 ^ 52 := infinityBits_eq ▸ h
    apply BitVec.eq_of_toNat_eq
    rw [toNat_unpackMantissa, toNat_ofNat h, show (0#52).toNat = 0 from rfl]
    omega
  have packed := @Float.Model.UnpackedFloat.pack_unpack .binary64 (UInt64.ofNat b).toBitVec (by decide)
  rw [number, if_neg Bool.false_ne_true] at packed
  exact congrArg UInt64.ofBitVec packed

theorem magnitude_ofBits : magnitude (Float.ofBits (UInt64.ofNat b)) = b := by
  rw [← toNat_toBits_mod, toBits_ofBits h, toNat_ofNat h]
  exact Nat.mod_eq_of_lt (Nat.lt_of_le_of_lt h (by decide))

theorem isNegative_ofBits : isNegative (Float.ofBits (UInt64.ofNat b)) = false := by
  rw [isNegative, toBits_ofBits h, decide_eq_false_iff_not, UInt64.not_le, UInt64.lt_iff_toNat_lt, toNat_ofNat h]
  exact Nat.lt_of_le_of_lt h (by decide)

end

theorem ofBits_magnitude {x : Float} (h : isNegative x = false) : Float.ofBits (UInt64.ofNat (magnitude x)) = x := by
  have small : x.toBits < 0x8000000000000000 := by
    rwa [isNegative, decide_eq_false_iff_not, UInt64.not_le] at h
  rw [magnitude, UInt64.mod_eq_of_lt small, UInt64.ofNat_toNat, Float.ofBits_toBits]

end SetScript.Number
