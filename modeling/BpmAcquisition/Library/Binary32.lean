import Mathlib.Data.Rat.Cast.Order
import Mathlib.Tactic.NormNum
import Mathlib.Tactic.Positivity
import Mathlib.Tactic.Ring

/-!
# Binary32

The value of a word of the IEEE 754 single format, and how close a truncated quotient comes to the
quotient of two natural numbers.
-/

namespace Binary32

def sign (word : BitVec 32) : Bool := word.msb

def exponent (word : BitVec 32) : Nat := (word.extractLsb' 23 8).toNat

def fraction (word : BitVec 32) : Nat := (word.extractLsb' 0 23).toNat

/-- There is none for an infinity and what is not a number. -/
def magnitude (word : BitVec 32) : Option ℚ :=
  if exponent word = 255 then none
  else if exponent word = 0 then some (fraction word * 2 ^ (-149 : ℤ))
  else some ((2 ^ 23 + fraction word) * 2 ^ ((exponent word : ℤ) - 150))

def pack (sign : Bool) (exponent : BitVec 8) (fraction : BitVec 23) : BitVec 32 := (exponent ++ fraction).cons sign

theorem sign_pack (s : Bool) (e : BitVec 8) (f : BitVec 23) : sign (pack s e f) = s := by
  unfold sign pack
  rw [BitVec.msb_cons]

theorem exponent_pack (s : Bool) (e : BitVec 8) (f : BitVec 23) : exponent (pack s e f) = e.toNat := by
  unfold exponent pack
  congr 1
  ext i inside
  rw [BitVec.getElem_extractLsb', BitVec.getLsbD_cons, if_neg (by omega : ¬ 23 + i = 8 + 23), BitVec.getLsbD_append,
    if_neg (by omega), Nat.add_sub_cancel_left, BitVec.getLsbD_eq_getElem]

theorem fraction_pack (s : Bool) (e : BitVec 8) (f : BitVec 23) : fraction (pack s e f) = f.toNat := by
  unfold fraction pack
  congr 1
  ext i inside
  rw [BitVec.getElem_extractLsb', BitVec.getLsbD_cons, if_neg (by omega : ¬ 0 + i = 8 + 23), BitVec.getLsbD_append,
    if_pos (by omega), Nat.zero_add, BitVec.getLsbD_eq_getElem]

/-- A word whose exponent is that of a normal number. -/
theorem magnitude_pack (s : Bool) {e : BitVec 8} (f : BitVec 23) (nonzero : e.toNat ≠ 0) (finite : e.toNat ≠ 255) :
    magnitude (pack s e f) = some ((2 ^ 23 + f.toNat : ℚ) * 2 ^ ((e.toNat : ℤ) - 150)) := by
  unfold magnitude
  rw [exponent_pack, fraction_pack, if_neg finite, if_neg nonzero]

/-! ### Truncated quotients -/

/-- A magnitude `m` that `x` is not below, and exceeds by less than two units of the last place. -/
def Truncated (m x : ℚ) : Prop := m ≤ x ∧ x < m * (1 + 2 ^ (-22 : ℤ))

theorem truncated_scale {m x c : ℚ} (positive : 0 < c) : Truncated (m * c) (x * c) ↔ Truncated m x := by
  unfold Truncated
  rw [mul_le_mul_iff_left₀ positive, mul_right_comm, mul_lt_mul_iff_left₀ positive]

theorem truncated_iff {q n d t : Nat} (positive : 0 < d) :
    Truncated (q * 2 ^ (-(t : ℤ))) (n / d) ↔ q * d ≤ n * 2 ^ t ∧ n * 2 ^ (t + 22) < q * d * (2 ^ 22 + 1) := by
  have below : (0 : ℚ) < d := by exact_mod_cast positive
  have power : (0 : ℚ) < 2 ^ t := by positivity
  have units : (1 : ℚ) + 2 ^ (-22 : ℤ) = (2 ^ 22 + 1) / 2 ^ 22 := by norm_num
  have least : (q : ℚ) * d ≤ n * 2 ^ t ↔ q * d ≤ n * 2 ^ t := by norm_cast
  have most : (n : ℚ) * (2 ^ t * 2 ^ 22) < q * (2 ^ 22 + 1) * d ↔ n * 2 ^ (t + 22) < q * d * (2 ^ 22 + 1) := by
    rw [mul_right_comm (q : ℚ), ← pow_add]
    norm_cast
  unfold Truncated
  rw [zpow_neg, zpow_natCast, ← div_eq_mul_inv, units, div_mul_div_comm, div_le_div_iff₀ power below,
    div_lt_div_iff₀ below (by positivity), least, most]

/-- Quotients of at least 23 bits are close enough. -/
theorem truncated_div {n d t : Nat} (positive : 0 < d) (long : 2 ^ 22 ≤ n * 2 ^ t / d) :
    Truncated ((n * 2 ^ t / d : Nat) * 2 ^ (-(t : ℤ))) (n / d) := by
  rw [truncated_iff positive]
  have least := Nat.div_mul_le_self (n * 2 ^ t) d
  have most : n * 2 ^ t < (n * 2 ^ t / d + 1) * d := by
    rw [Nat.add_one_mul]
    exact Nat.lt_div_mul_add positive
  generalize n * 2 ^ t / d = q at *
  refine ⟨least, ?_⟩
  calc n * 2 ^ (t + 22) = n * 2 ^ t * 2 ^ 22 := by rw [pow_add, mul_assoc]
    _ < (q + 1) * d * 2 ^ 22 := Nat.mul_lt_mul_of_pos_right most (by decide)
    _ = q * d * 2 ^ 22 + 2 ^ 22 * d := by ring
    _ ≤ q * d * 2 ^ 22 + q * d := Nat.add_le_add_left (Nat.mul_le_mul_right d long) _
    _ = q * d * (2 ^ 22 + 1) := by ring

/-- Where the last bit of the numerator is dropped, the quotient is close enough only if the numerator
outweighs the bit and what the division leaves. -/
theorem truncated_dropped {k d t : Nat} (positive : 0 < d) :
    Truncated ((k * 2 ^ t / d : Nat) * 2 ^ (-(t : ℤ))) ((k + 1 : Nat) / d) ↔
      2 ^ (t + 22) + k * 2 ^ t % d * (2 ^ 22 + 1) < k * 2 ^ t := by
  rw [truncated_iff positive]
  have whole : k * 2 ^ t / d * d + k * 2 ^ t % d = k * 2 ^ t := Nat.div_add_mod' _ _
  have power : (k + 1) * 2 ^ (t + 22) = k * 2 ^ t * 2 ^ 22 + 2 ^ (t + 22) := by ring
  have next : (k + 1) * 2 ^ t = k * 2 ^ t + 2 ^ t := by ring
  rw [power, next]
  generalize k * 2 ^ t / d * d = q at *
  generalize k * 2 ^ t % d = rest at *
  generalize k * 2 ^ t = n at *
  generalize 2 ^ (t + 22) = top at *
  generalize 2 ^ t = bit at *
  constructor
  · rintro ⟨-, most⟩
    omega
  · intro outweighs
    exact ⟨by omega, by omega⟩

end Binary32
