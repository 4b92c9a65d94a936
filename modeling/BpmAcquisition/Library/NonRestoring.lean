import Mathlib.Tactic.Ring

/-!
# Non-restoring division

The divisor is subtracted from a doubled partial remainder that is not negative and added to one
that is; the signs of the remainders are the binary digits of the quotient, the first of them its
sign. `after_exact`: after `k` digits behind the first one the quotient is that of `2 ^ k * n`,
rounded down.
-/

namespace NonRestoring

/-- The digits so far as a two's complement number, and the partial remainder. -/
structure Partial where
  quotient : Int
  remainder : Int

def digit (remainder : Int) : Int := if 0 ≤ remainder then 1 else 0

/-- One subtraction or addition, by the sign of the remainder. -/
def reduce (remainder d : Int) : Int := if 0 ≤ remainder then remainder - d else remainder + d

def start (n d : Int) : Partial := ⟨-digit (reduce n d), reduce n d⟩

def next (d : Int) (s : Partial) : Partial :=
  ⟨2 * s.quotient + digit (reduce (2 * s.remainder) d), reduce (2 * s.remainder) d⟩

def after (n d : Int) : Nat → Partial
  | 0 => start n d
  | k + 1 => next d (after n d k)

/-- The quotient of `a`, and its remainder, from which `d` has been subtracted if it is negative. -/
structure Exact (a d : Int) (s : Partial) : Prop where
  quotient : s.quotient = a / d
  remainder : s.remainder = a % d ∨ s.remainder = a % d - d

variable {a n d : Int} {s : Partial}

theorem Exact.range (exact : Exact a d s) (positive : 0 < d) : -d ≤ s.remainder ∧ s.remainder < d := by
  have low := Int.emod_nonneg a (Int.ne_of_gt positive)
  have high := Int.emod_lt_of_pos a positive
  rcases exact.remainder with same | below
  · omega
  · omega

theorem start_exact (low : -d ≤ n) (high : n < d) : Exact n d (start n d) := by
  have unique : ∀ {q r : Int}, r + d * q = n → 0 ≤ r → r < d → n / d = q ∧ n % d = r := by
    intro q r sum least most
    exact (Int.ediv_emod_unique (by omega)).mpr ⟨sum, least, most⟩
  unfold start
  by_cases sign : 0 ≤ n
  · obtain ⟨quotient, remainder⟩ := unique (by ring : n + d * 0 = n) sign high
    have first : reduce n d = n - d := if_pos sign
    have negative : digit (n - d) = 0 := if_neg (by omega)
    rw [first, negative]
    exact ⟨quotient.symm, Or.inr (by rw [remainder])⟩
  · obtain ⟨quotient, remainder⟩ := unique (by ring : (n + d) + d * -1 = n) (by omega) (by omega)
    have first : reduce n d = n + d := if_neg sign
    have carry : digit (n + d) = 1 := if_pos (by omega)
    rw [first, carry]
    exact ⟨quotient.symm, Or.inl remainder.symm⟩

/-- Equal operands give the digits of the smallest quotient. -/
theorem start_equal (positive : 0 < d) : start d d = start (-d) d := by
  have subtracted : reduce d d = 0 := by
    unfold reduce
    rw [if_pos (by omega), Int.sub_self]
  have added : reduce (-d) d = 0 := by
    unfold reduce
    rw [if_neg (by omega), Int.add_left_neg]
  unfold start
  rw [subtracted, added]

/-- The new remainder is twice the true one less the divisor, from either sign of the old one. -/
theorem next_exact (exact : Exact a d s) (positive : 0 < d) : Exact (2 * a) d (next d s) := by
  obtain ⟨quotient, remainder⟩ := exact
  have low := Int.emod_nonneg a (Int.ne_of_gt positive)
  have high := Int.emod_lt_of_pos a positive
  have sum : a % d + d * (a / d) = a := Int.emod_add_mul_ediv a d
  have doubled : reduce (2 * s.remainder) d = 2 * (a % d) - d := by
    unfold reduce
    split <;> omega
  unfold next
  rw [doubled, quotient]
  by_cases carry : 0 ≤ 2 * (a % d) - d
  · have whole : (2 * (a % d) - d) + d * (2 * (a / d) + 1) = 2 * a := by
      calc (2 * (a % d) - d) + d * (2 * (a / d) + 1) = 2 * (a % d + d * (a / d)) := by ring
        _ = 2 * a := by rw [sum]
    obtain ⟨quotient', remainder'⟩ := (Int.ediv_emod_unique positive).mpr ⟨whole, carry, by omega⟩
    have one : digit (2 * (a % d) - d) = 1 := if_pos carry
    rw [one]
    exact ⟨quotient'.symm, Or.inl remainder'.symm⟩
  · have whole : 2 * (a % d) + d * (2 * (a / d) + 0) = 2 * a := by
      calc 2 * (a % d) + d * (2 * (a / d) + 0) = 2 * (a % d + d * (a / d)) := by ring
        _ = 2 * a := by rw [sum]
    obtain ⟨quotient', remainder'⟩ := (Int.ediv_emod_unique positive).mpr ⟨whole, by omega, by omega⟩
    have zero : digit (2 * (a % d) - d) = 0 := if_neg carry
    rw [zero]
    exact ⟨quotient'.symm, Or.inr (by rw [remainder'])⟩

theorem after_exact (positive : 0 < d) (low : -d ≤ n) (high : n < d) (k : Nat) :
    Exact (2 ^ k * n) d (after n d k) := by
  induction k with
  | zero =>
    rw [pow_zero, one_mul]
    exact start_exact low high
  | succ k ih =>
    have double : 2 ^ (k + 1) * n = 2 * (2 ^ k * n) := by ring
    rw [double]
    exact next_exact ih positive

end NonRestoring
