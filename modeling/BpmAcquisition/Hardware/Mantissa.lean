import BpmAcquisition.Library.Binary32
import Mathlib.Tactic.FieldSimp

/-!
# The mantissa of a single-precision quotient

`div_ieee754_single` divides two natural numbers once their most significant bits have met.
`mantissa_truncated` says for which of them the mantissa and the shift that come out are the
truncated quotient.
-/

namespace BpmAcquisition.DivIeee754Single

open Binary32

/-! ### Aligned operands -/

/-- The numerator with its most significant bit not below that of the denominator. -/
def alignedN (a d : Nat) : Nat := 2 ^ (d.log2 - a.log2) * a

def alignedD (a d : Nat) : Nat := 2 ^ (a.log2 - d.log2) * d

/-- The operands, once aligned, differ, and where the numerator is the larger one and odd, it outweighs
the bit that it loses. -/
structure Kept (a d : Nat) : Prop where
  differ : alignedN a d ≠ alignedD a d
  outweighs : alignedD a d < alignedN a d → alignedN a d % 2 = 1 →
    2 ^ 45 + (alignedN a d - 1) * 2 ^ 23 % alignedD a d * (2 ^ 22 + 1) < (alignedN a d - 1) * 2 ^ 23

section
variable {a d : Nat}

theorem scaled_bounds {x : Nat} (positive : 0 < x) (k : Nat) :
    2 ^ (k + x.log2) ≤ 2 ^ k * x ∧ 2 ^ k * x < 2 * 2 ^ (k + x.log2) := by
  have power : 0 < 2 ^ k := Nat.pow_pos (by decide)
  constructor
  · rw [pow_add]
    exact Nat.mul_le_mul_left _ (Nat.log2_self_le (Nat.ne_of_gt positive))
  · calc 2 ^ k * x < 2 ^ k * 2 ^ (x.log2 + 1) := Nat.mul_lt_mul_of_pos_left Nat.lt_log2_self power
      _ = 2 * 2 ^ (k + x.log2) := by ring

theorem aligned_bounds (positive : 0 < a) (positive' : 0 < d) :
    0 < alignedD a d ∧ alignedN a d < 2 * alignedD a d ∧ alignedD a d < 2 * alignedN a d := by
  obtain ⟨leastN, mostN⟩ := scaled_bounds positive (d.log2 - a.log2)
  obtain ⟨leastD, mostD⟩ := scaled_bounds positive' (a.log2 - d.log2)
  have met : d.log2 - a.log2 + a.log2 = a.log2 - d.log2 + d.log2 := by omega
  have power : 0 < 2 ^ (a.log2 - d.log2 + d.log2) := Nat.pow_pos (by decide)
  rw [met] at leastN mostN
  unfold alignedN alignedD
  omega

theorem log2_scaled {x : Nat} (positive : 0 < x) (k : Nat) : (2 ^ k * x).log2 = k + x.log2 := by
  have bounds := scaled_bounds positive k
  have nonzero : 2 ^ k * x ≠ 0 := Nat.ne_of_gt (Nat.mul_pos (Nat.pow_pos (by decide)) positive)
  rw [Nat.log2_eq_iff nonzero, pow_succ']
  exact bounds

/-- The operands, once aligned, are equal exactly if their quotient is a power of two. -/
theorem aligned_eq_iff (positive : 0 < a) (positive' : 0 < d) :
    alignedN a d = alignedD a d ↔ ∃ k, a = 2 ^ k * d ∨ d = 2 ^ k * a := by
  unfold alignedN alignedD
  constructor
  · intro same
    rcases Nat.le_total a.log2 d.log2 with le | le
    · rw [Nat.sub_eq_zero_of_le le, pow_zero, one_mul] at same
      exact ⟨_, Or.inr same.symm⟩
    · rw [Nat.sub_eq_zero_of_le le, pow_zero, one_mul] at same
      exact ⟨_, Or.inl same⟩
  · rintro ⟨k, rfl | rfl⟩
    · rw [log2_scaled positive', Nat.add_sub_cancel, Nat.sub_eq_zero_of_le (Nat.le_add_left _ _), pow_zero, one_mul]
    · rw [log2_scaled positive, Nat.add_sub_cancel, Nat.sub_eq_zero_of_le (Nat.le_add_left _ _), pow_zero, one_mul]

theorem ratio_aligned (a : Nat) (positive' : 0 < d) :
    (a : ℚ) / d = alignedN a d / alignedD a d * 2 ^ ((a.log2 : ℤ) - d.log2) := by
  have below : (d : ℚ) ≠ 0 := by exact_mod_cast Nat.ne_of_gt positive'
  unfold alignedN alignedD
  push_cast
  rcases Nat.le_total a.log2 d.log2 with le | le
  · have exponent : (a.log2 : ℤ) - d.log2 = -((d.log2 - a.log2 : Nat) : ℤ) := by omega
    rw [exponent, Nat.sub_eq_zero_of_le le, zpow_neg, zpow_natCast]
    field_simp
  · have exponent : (a.log2 : ℤ) - d.log2 = ((a.log2 - d.log2 : Nat) : ℤ) := by omega
    rw [exponent, Nat.sub_eq_zero_of_le le, zpow_natCast]
    field_simp

/-! ### The mantissa -/

/-- The mantissa with its hidden bit, from the quotient of the fixed-point divider. -/
def mantissa (v : Int) (d : Nat) : Int := 2 ^ 23 + v * 2 ^ 24 / d % 2 ^ 23

theorem mantissa_normal {n d : Nat} (below : n < d) (half : d ≤ 2 * n) :
    mantissa n d = (n * 2 ^ 24 / d : Nat) ∧ 2 ^ 23 ≤ n * 2 ^ 24 / d := by
  have low : 2 ^ 23 ≤ n * 2 ^ 24 / d := by
    rw [Nat.le_div_iff_mul_le (by omega)]
    omega
  have high : n * 2 ^ 24 / d < 2 ^ 24 := by
    rw [Nat.div_lt_iff_lt_mul (by omega)]
    omega
  have quotient : (n : Int) * 2 ^ 24 / d = (n * 2 ^ 24 / d : Nat) := by push_cast; rfl
  refine ⟨?_, low⟩
  unfold mantissa
  rw [quotient]
  omega

theorem smaller_truncated {n d : Nat} (below : n < d) (half : d < 2 * n) :
    Truncated (mantissa n d * 2 ^ (-24 : ℤ)) (n / d) := by
  obtain ⟨whole, low⟩ := mantissa_normal below (Nat.le_of_lt half)
  rw [whole, Int.cast_natCast]
  exact truncated_div (by omega) (by omega)

theorem equal_halved {d : Nat} (positive : 0 < d) : ¬ Truncated (mantissa (-d) d * 2 ^ (-24 : ℤ)) (d / d) := by
  have quotient : -(d : Int) * 2 ^ 24 / d = -2 ^ 24 := by
    rw [(by ring : -(d : Int) * 2 ^ 24 = -2 ^ 24 * d)]
    exact Int.mul_ediv_cancel _ (by omega)
  have half : mantissa (-d) d = 2 ^ 23 := by
    unfold mantissa
    rw [quotient]
    rfl
  rintro ⟨-, most⟩
  rw [half, div_self (by exact_mod_cast Nat.ne_of_gt positive)] at most
  norm_num at most

theorem larger_truncated {n d : Nat} (positive : 0 < d) (above : d < n) (double : n < 2 * d) :
    Truncated (mantissa (n / 2 : Nat) d * 2 ^ (-23 : ℤ)) (n / d) ↔
      (n % 2 = 1 → 2 ^ 45 + (n - 1) * 2 ^ 23 % d * (2 ^ 22 + 1) < (n - 1) * 2 ^ 23) := by
  obtain ⟨whole, low⟩ := @mantissa_normal (n / 2) d (by omega) (by omega)
  rw [whole, Int.cast_natCast]
  rcases Nat.mod_two_eq_zero_or_one n with even | odd
  · have doubled : n / 2 * 2 ^ 24 = n * 2 ^ 23 := by omega
    rw [doubled] at low ⊢
    exact iff_of_true (truncated_div positive (by omega)) (by omega)
  · have doubled : n / 2 * 2 ^ 24 = (n - 1) * 2 ^ 23 := by omega
    have next : (n : ℚ) = (n - 1 + 1 : Nat) := by rw [Nat.sub_add_cancel (by omega)]
    rw [doubled, next]
    refine (@truncated_dropped (n - 1) d 23 positive).trans ⟨?_, fun outweighs => outweighs odd⟩
    exact fun outweighs _ => outweighs

/-- The number of whose quotient the fixed-point divider gives the digits. -/
def dividend (a d : Nat) : Int :=
  if alignedD a d < alignedN a d then (alignedN a d / 2 : Nat)
  else if alignedN a d = alignedD a d then -alignedD a d
  else alignedN a d

def finalShift (a d : Nat) : Int :=
  if alignedD a d < alignedN a d then (d.log2 : Int) - a.log2 - 1 else (d.log2 : Int) - a.log2

theorem mantissa_truncated (positive : 0 < a) (positive' : 0 < d) :
    Truncated (mantissa (dividend a d) (alignedD a d) * 2 ^ (-24 - finalShift a d)) (a / d) ↔ Kept a d := by
  obtain ⟨least, double, half⟩ := aligned_bounds positive positive'
  have unit : (0 : ℚ) < 2 ^ ((a.log2 : ℤ) - d.log2) := zpow_pos (by norm_num) _
  have split : ∀ t : ℤ, (2 : ℚ) ^ (t + ((a.log2 : ℤ) - d.log2)) = 2 ^ t * 2 ^ ((a.log2 : ℤ) - d.log2) := by
    intro t
    exact zpow_add₀ (by norm_num) _ _
  rw [ratio_aligned a positive']
  unfold dividend finalShift
  rcases Nat.lt_trichotomy (alignedN a d) (alignedD a d) with below | same | above
  · have exponent : (-24 : ℤ) - ((d.log2 : ℤ) - a.log2) = -24 + ((a.log2 : ℤ) - d.log2) := by omega
    rw [if_neg (Nat.lt_asymm below), if_neg (Nat.ne_of_lt below), if_neg (Nat.lt_asymm below), exponent, split,
      ← mul_assoc, truncated_scale unit]
    refine iff_of_true (smaller_truncated below half) ⟨Nat.ne_of_lt below, ?_⟩
    intro above
    omega
  · have exponent : (-24 : ℤ) - ((d.log2 : ℤ) - a.log2) = -24 + ((a.log2 : ℤ) - d.log2) := by omega
    have large : ¬ alignedD a d < alignedN a d := by omega
    rw [if_neg large, if_pos same, if_neg large, exponent, split, ← mul_assoc, truncated_scale unit, same]
    exact iff_of_false (equal_halved least) fun kept => kept.differ same
  · have exponent : (-24 : ℤ) - ((d.log2 : ℤ) - a.log2 - 1) = -23 + ((a.log2 : ℤ) - d.log2) := by omega
    rw [if_pos above, if_pos above, exponent, split, ← mul_assoc, truncated_scale unit,
      larger_truncated least above double]
    exact ⟨fun outweighs => ⟨Nat.ne_of_gt above, fun _ => outweighs⟩, fun kept => kept.outweighs above⟩

end

end BpmAcquisition.DivIeee754Single
