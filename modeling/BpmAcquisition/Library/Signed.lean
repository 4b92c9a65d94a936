import Mathlib.Data.Int.ModEq
import Mathlib.Tactic.Ring

/-!
# Signed words

Sums and differences in a word one bit wider than the operands do not wrap around, a number that
needs one bit more than the word has wraps once, and a truncated quotient is zero exactly if the
dividend is smaller than the divisor.
-/

namespace Signed

theorem toInt_range {w : Nat} (x : BitVec (w + 1)) : -(2 ^ w : Int) ≤ x.toInt ∧ x.toInt < 2 ^ w := by
  have low := BitVec.le_toInt x
  have high := BitVec.toInt_lt (x := x)
  rw [Nat.add_sub_cancel] at low high
  exact ⟨low, high⟩

theorem bmod_wide {w : Nat} {z : Int} (low : -(2 * 2 ^ w) ≤ z) (high : z < 2 * 2 ^ w) :
    z.bmod (2 ^ (w + 2) : Nat) = z := by
  have width : (2 : Int) ^ (w + 2) = 4 * 2 ^ w := by ring
  apply Int.bmod_eq_of_le
  · push_cast
    omega
  · push_cast
    omega

theorem signExtend_add {w : Nat} (x y : BitVec (w + 1)) :
    (x.signExtend (w + 2) + y.signExtend (w + 2)).toInt = x.toInt + y.toInt := by
  obtain ⟨lowX, highX⟩ := toInt_range x
  obtain ⟨lowY, highY⟩ := toInt_range y
  rw [BitVec.toInt_add, BitVec.toInt_signExtend_of_le (by omega), BitVec.toInt_signExtend_of_le (by omega)]
  exact bmod_wide (by omega) (by omega)

theorem signExtend_sub {w : Nat} (x y : BitVec (w + 1)) :
    (x.signExtend (w + 2) - y.signExtend (w + 2)).toInt = x.toInt - y.toInt := by
  obtain ⟨lowX, highX⟩ := toInt_range x
  obtain ⟨lowY, highY⟩ := toInt_range y
  rw [BitVec.toInt_sub, BitVec.toInt_signExtend_of_le (by omega), BitVec.toInt_signExtend_of_le (by omega)]
  exact bmod_wide (by omega) (by omega)

theorem tdiv_eq_zero {a b : Int} (nonzero : b ≠ 0) : a.tdiv b = 0 ↔ a.natAbs < b.natAbs := by
  rw [← Int.natAbs_eq_zero, Int.natAbs_tdiv]
  show a.natAbs / b.natAbs = 0 ↔ _
  rw [Nat.div_eq_zero_iff]
  omega

theorem ofInt_eq_zero {w : Nat} {z : Int} (small : z.natAbs < 2 ^ w) : BitVec.ofInt w z = 0 ↔ z = 0 := by
  constructor
  · intro zero
    have divides : ((2 ^ w : Nat) : Int) ∣ z := by
      have bits := congrArg BitVec.toInt zero
      rw [BitVec.toInt_ofInt, BitVec.ofNat_eq_ofNat, BitVec.toInt_zero] at bits
      exact Int.dvd_of_bmod_eq_zero bits
    exact Int.eq_zero_of_dvd_of_natAbs_lt_natAbs divides (by simpa using small)
  · rintro rfl
    simp

theorem setWidth_signExtend {w v : Nat} (x : BitVec w) (wide : w ≤ v) : (x.signExtend v).setWidth w = x := by
  ext i inside
  rw [BitVec.getElem_setWidth, BitVec.getLsbD_signExtend, decide_eq_true (by omega : i < v), Bool.true_and,
    if_pos inside, BitVec.getLsbD_eq_getElem]

/-- A word that is congruent to a number of its range is that number. -/
theorem toInt_of_modEq {w : Nat} {x : BitVec (w + 1)} {z : Int} (congruent : (x.toNat : Int) ≡ z [ZMOD 2 ^ (w + 1)])
    (low : -(2 ^ w) ≤ z) (high : z < 2 ^ w) : x.toInt = z := by
  have width : (2 : Int) ^ (w + 1) = 2 * 2 ^ w := by ring
  have same : (x.toNat : Int) % ((2 ^ (w + 1) : Nat) : Int) = z % ((2 ^ (w + 1) : Nat) : Int) := by
    rw [Nat.cast_pow]
    exact congruent
  rw [BitVec.toInt_eq_toNat_bmod, ← Int.emod_bmod, same, Int.emod_bmod]
  apply Int.bmod_eq_of_le
  · push_cast
    omega
  · push_cast
    omega

theorem ofInt_two_mul {w : Nat} (z : Int) : BitVec.ofInt w (2 * z) = BitVec.ofInt w z <<< 1 := by
  rw [Int.two_mul, BitVec.ofInt_add]
  apply BitVec.eq_of_toNat_eq
  rw [BitVec.toNat_add, BitVec.toNat_shiftLeft, Nat.shiftLeft_eq]
  congr 1
  omega

theorem ofInt_two_pow_mul {w : Nat} (k : Nat) (z : Int) : BitVec.ofInt w (2 ^ k * z) = BitVec.ofInt w z <<< k := by
  induction k with
  | zero => rw [pow_zero, one_mul, BitVec.shiftLeft_zero]
  | succ k ih => rw [BitVec.shiftLeft_add, ← ih, ← ofInt_two_mul, pow_succ', mul_assoc]

/-- A shift to the left that stays in the range of the word. -/
theorem toInt_shiftLeft {w k : Nat} {x : BitVec w} (low : -(2 ^ w) ≤ 2 * (2 ^ k * x.toInt))
    (high : 2 * (2 ^ k * x.toInt) < 2 ^ w) : (x <<< k).toInt = 2 ^ k * x.toInt := by
  have bits : BitVec.ofInt w (2 ^ k * x.toInt) = x <<< k := by rw [ofInt_two_pow_mul, BitVec.ofInt_toInt]
  rw [← bits, BitVec.toInt_ofInt]
  apply Int.bmod_eq_of_le
  · push_cast
    omega
  · push_cast
    omega

/-- A number of one bit too many is read as itself or wraps once. -/
theorem bmod_once {m : Nat} {z : Int} (even : 2 ∣ m) (low : -(m : Int) < z) (high : z < m) :
    -(m : Int) ≤ 2 * z ∧ 2 * z < m ∧ z.bmod m = z ∨ m ≤ 2 * z ∧ z.bmod m = z - m ∨
      2 * z < -m ∧ z.bmod m = z + m := by
  obtain ⟨h, rfl⟩ := even
  rcases Int.lt_or_le (2 * z) (-((2 * h : Nat) : Int)) with below | notBelow
  · refine Or.inr (Or.inr ⟨below, ?_⟩)
    rw [← Int.add_bmod_right]
    exact Int.bmod_eq_of_le (by omega) (by omega)
  · rcases Int.lt_or_le (2 * z) ((2 * h : Nat) : Int) with inside | above
    · exact Or.inl ⟨notBelow, inside, Int.bmod_eq_of_le (by omega) (by omega)⟩
    · refine Or.inr (Or.inl ⟨above, ?_⟩)
      rw [← Int.sub_bmod_right]
      exact Int.bmod_eq_of_le (by omega) (by omega)

end Signed
