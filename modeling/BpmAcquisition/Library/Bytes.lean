import Mathlib.Algebra.Ring.Nat

/-!
# Numbers in memory

`little w n` is the number `n` as `w` bytes in ascending significance, `value` reads bytes in
that order. Each undoes the other, and a wide number is its parts one after the other.
-/

namespace Bytes

def little : Nat → Nat → List UInt8
  | 0, _ => []
  | w + 1, n => UInt8.ofNat n :: little w (n / 256)

def value (bytes : List UInt8) : Nat := bytes.foldr (fun b v => b.toNat + 256 * v) 0

@[simp] theorem little_length (w n : Nat) : (little w n).length = w := by
  induction w generalizing n with
  | zero => rfl
  | succ w ih => rw [little, List.length_cons, ih]

@[simp] theorem value_cons (b : UInt8) (bytes : List UInt8) : value (b :: bytes) = b.toNat + 256 * value bytes := rfl

theorem value_little (w n : Nat) : value (little w n) = n % 256 ^ w := by
  induction w generalizing n with
  | zero =>
    rw [Nat.pow_zero, Nat.mod_one]
    rfl
  | succ w ih =>
    have first : (UInt8.ofNat n).toNat = n % 256 := UInt8.toNat_ofNat'
    rw [little, value_cons, ih, first, Nat.pow_succ', Nat.mod_mul]

theorem value_lt (bytes : List UInt8) : value bytes < 256 ^ bytes.length := by
  induction bytes with
  | nil => exact Nat.one_pos
  | cons b bytes ih =>
    have first := b.toNat_lt
    rw [value_cons, List.length_cons, Nat.pow_succ]
    omega

theorem little_value (bytes : List UInt8) : little bytes.length (value bytes) = bytes := by
  induction bytes with
  | nil => rfl
  | cons b bytes ih =>
    have first := b.toNat_lt
    have rest : (b.toNat + 256 * value bytes) / 256 = value bytes := by omega
    have low : UInt8.ofNat (b.toNat + 256 * value bytes) = b := by
      apply UInt8.toNat_inj.mp
      rw [UInt8.toNat_ofNat']
      omega
    rw [List.length_cons, little, value_cons, rest, low, ih]

theorem little_add (a b n : Nat) : little (a + b) n = little a n ++ little b (n / 256 ^ a) := by
  induction a generalizing n with
  | zero => simp [little]
  | succ a ih =>
    rw [Nat.succ_add, little, ih, little, List.cons_append, Nat.div_div_eq_div_mul, Nat.pow_succ']

theorem shifted_or (a : Nat) {b k : Nat} (small : b < 2 ^ k) : a <<< k ||| b = 2 ^ k * a + b := by
  rw [Nat.two_pow_add_eq_or_of_lt small, Nat.shiftLeft_eq, Nat.mul_comm]

theorem little_slice {w n lo k : Nat} (within : lo + k ≤ w) :
    ((little w n).drop lo).take k = little k (n / 256 ^ lo) := by
  obtain ⟨rest, rfl⟩ : ∃ rest, w = lo + (k + rest) := ⟨w - lo - k, by omega⟩
  rw [little_add, List.drop_left' (little_length _ _), little_add, List.take_left' (little_length _ _)]

end Bytes
