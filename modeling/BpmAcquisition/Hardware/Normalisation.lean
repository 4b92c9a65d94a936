import BpmAcquisition.Hardware.Utilities
import Mathlib.Algebra.Order.Ring.Int

/-!
# The shift of the operands

What `div_floatingpoint` and `div_ieee754_single` compute alike before they divide: the difference of
the two most significant bits as a signed number, its absolute value, and the shifted operands.
-/

namespace BpmAcquisition.Utilities

open Signed

section
variable {W : Nat}

/-- `v_i_shift`, of the range 0 to `G_DATA_WIDTH` - 1. -/
def vIShift (svShift : BitVec (log2 W + 1)) : Int := svShift.abs.toInt

def shiftedN (svShift : BitVec (log2 W + 1)) (n : BitVec W) : BitVec W :=
  if 0 < svShift.toInt then n <<< (vIShift svShift).toNat else n

def shiftedD (svShift : BitVec (log2 W + 1)) (d : BitVec W) : BitVec W :=
  if 0 < svShift.toInt then d else d <<< (vIShift svShift).toNat

theorem difference_toInt (two : 2 ≤ W) (n d : BitVec W) :
    (findMsb d d.msb - findMsb n n.msb).toInt = (findMsbIndex d d.msb : Int) - findMsbIndex n n.msb := by
  have insideN := (findMsbIndex_highest two n).inside
  have insideD := (findMsbIndex_highest two d).inside
  have fits := (log2_least W).1
  have width : 2 ^ (log2 W + 1) = 2 * 2 ^ log2 W := by ring
  rw [BitVec.toInt_sub, findMsb_toInt two, findMsb_toInt two]
  exact Int.bmod_eq_of_le (by omega) (by omega)

theorem sub_one_toInt (two : 2 ≤ W) {svShift : BitVec (log2 W + 1)} (low : 2 - (W : Int) ≤ svShift.toInt) :
    (svShift - 1).toInt = svShift.toInt - 1 := by
  have fits := (log2_least W).1
  have width : 2 ^ (log2 W + 1) = 2 * 2 ^ log2 W := by ring
  have one : (1 : BitVec (log2 W + 1)).toInt = 1 := by
    rw [BitVec.ofNat_eq_ofNat, BitVec.toInt_ofNat', Nat.cast_one]
    exact Int.bmod_eq_of_le (by omega) (by omega)
  have most := (toInt_range svShift).2
  have power : ((2 ^ log2 W : Nat) : Int) = 2 ^ log2 W := Nat.cast_pow 2 _
  rw [BitVec.toInt_sub, one]
  exact Int.bmod_eq_of_le (by omega) (by omega)

theorem vIShift_eq {svShift : BitVec (log2 W + 1)} (low : -(W : Int) < svShift.toInt) :
    vIShift svShift = svShift.toInt.natAbs := by
  have fits := (log2_least W).1
  have power : ((2 ^ log2 W : Nat) : Int) = 2 ^ log2 W := Nat.cast_pow 2 _
  unfold vIShift
  rw [BitVec.toInt_abs_eq_natAbs, if_neg]
  rintro rfl
  rw [BitVec.toInt_intMin_of_pos (by omega : 0 < log2 W + 1), Nat.add_sub_cancel] at low
  omega

/-- A shift that leaves room for the sign above the most significant bit. -/
theorem Highest.shifted {arg : BitVec W} {index k : Nat} (highest : Highest arg index) (room : index + k + 2 ≤ W) :
    (arg <<< k).toInt = 2 ^ k * arg.toInt := by
  obtain ⟨low, high⟩ := highest.range
  have power : (0 : Int) < 2 ^ k := Int.pow_pos (by decide)
  have top : (2 : Int) * (2 ^ k * 2 ^ (index + 1)) ≤ 2 ^ W := by
    calc (2 : Int) * (2 ^ k * 2 ^ (index + 1)) = 2 ^ (index + k + 2) := by ring
      _ ≤ 2 ^ W := pow_le_pow_right₀ (by decide) room
  have below := Int.mul_le_mul_of_nonneg_left low (Int.le_of_lt power)
  have above := Int.mul_lt_mul_of_pos_left high power
  rw [Int.mul_neg] at below
  exact toInt_shiftLeft (by omega) (by omega)

theorem Highest.log2_eq {arg : BitVec W} {index a : Nat} (highest : Highest arg index) (value : arg.toInt = a)
    (positive : 0 < a) : index = a.log2 := by
  have least := highest.power_le (by omega)
  have most := highest.range.2
  rw [value] at least most
  refine ((Nat.log2_eq_iff (Nat.ne_of_gt positive)).mpr ⟨?_, ?_⟩).symm
  · exact_mod_cast least
  · exact_mod_cast most

/-- Where the most significant bits meet, the denominator bounds the numerator. -/
theorem Highest.bounded {n d : BitVec W} {index index' : Nat} (highest : Highest n index)
    (highest' : Highest d index') (positive : 0 < d.toInt) (k k' : Nat) (met : k + (index + 1) = k' + index') :
    -(2 ^ k' * d.toInt) ≤ 2 ^ k * n.toInt ∧ 2 ^ k * n.toInt < 2 ^ k' * d.toInt := by
  obtain ⟨low, high⟩ := highest.range
  have power : (0 : Int) < 2 ^ k := Int.pow_pos (by decide)
  have power' : (0 : Int) < 2 ^ k' := Int.pow_pos (by decide)
  have most : (2 : Int) ^ k * 2 ^ (index + 1) ≤ 2 ^ k' * d.toInt := by
    calc (2 : Int) ^ k * 2 ^ (index + 1) = 2 ^ k' * 2 ^ index' := by rw [← pow_add, ← pow_add, met]
      _ ≤ 2 ^ k' * d.toInt := Int.mul_le_mul_of_nonneg_left (highest'.power_le positive) (Int.le_of_lt power')
  have below := Int.mul_le_mul_of_nonneg_left low (Int.le_of_lt power)
  have above := Int.mul_lt_mul_of_pos_left high power
  rw [Int.mul_neg] at below
  constructor <;> omega

end

end BpmAcquisition.Utilities
