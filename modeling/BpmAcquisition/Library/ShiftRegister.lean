import Mathlib.Data.List.GetD
import Mathlib.Data.List.Induction

/-!
# Shift registers

A register that takes in a list of bits at one end gives out its own bits at the other. This module has
the bit that is out after any number of shifts, for both directions, and what the register holds when
it has been filled.
-/

namespace ShiftRegister

variable {n : Nat}

/-- In at the least significant end. -/
def left (r : BitVec n) (b : Bool) : BitVec n := r.shiftConcat b

/-- In at the most significant end. -/
def right (r : BitVec n) (b : Bool) : BitVec n := (BitVec.cons b r).extractLsb' 1 n

theorem getLsbD_left (r : BitVec n) (b : Bool) {k : Nat} (inside : k < n) :
    (left r b).getLsbD k = if k = 0 then b else r.getLsbD (k - 1) := by
  unfold left
  rw [BitVec.getLsbD_shiftConcat]
  simp [inside]

theorem getLsbD_right (r : BitVec n) (b : Bool) {k : Nat} (inside : k < n) :
    (right r b).getLsbD k = if k + 1 = n then b else r.getLsbD (k + 1) := by
  unfold right
  rw [BitVec.getLsbD_extractLsb', BitVec.getLsbD_cons, Nat.add_comm 1 k]
  simp [inside]

/-- After a list of bits has come in: the last of them first, then the old bits. -/
theorem getLsbD_lefts (w : BitVec n) (l : List Bool) {k : Nat} (inside : k < n) :
    (l.foldl left w).getLsbD k =
      if k < l.length then l.getD (l.length - 1 - k) false else w.getLsbD (k - l.length) := by
  induction l using List.reverseRecOn generalizing k with
  | nil => simp
  | append_singleton l b ih =>
    rw [List.foldl_append, List.foldl_cons, List.foldl_nil, getLsbD_left _ _ inside, List.length_append]
    cases k with
    | zero => simp
    | succ k =>
      rw [if_neg (by omega), Nat.add_sub_cancel, ih (by omega), List.length_singleton]
      by_cases recent : k < l.length
      · rw [if_pos recent, if_pos (by omega), List.getD_append _ _ _ _ (by omega)]
        congr 1
        omega
      · rw [if_neg recent, if_neg (by omega)]
        congr 1
        omega

theorem getLsbD_rights (w : BitVec n) (l : List Bool) {k : Nat} (inside : k < n) (short : l.length ≤ n) :
    (l.foldl right w).getLsbD k =
      if k + l.length < n then w.getLsbD (k + l.length) else l.getD (k + l.length - n) false := by
  induction l using List.reverseRecOn generalizing k with
  | nil => simp [inside]
  | append_singleton l b ih =>
    rw [List.length_append, List.length_singleton] at short ⊢
    rw [List.foldl_append, List.foldl_cons, List.foldl_nil, getLsbD_right _ _ inside]
    by_cases top : k + 1 = n
    · rw [if_pos top, if_neg (by omega), show k + (l.length + 1) - n = l.length by omega]
      simp
    · rw [if_neg top, ih (by omega) (by omega)]
      by_cases old : k + 1 + l.length < n
      · rw [if_pos old, if_pos (by omega)]
        congr 1
        omega
      · rw [if_neg old, if_neg (by omega), List.getD_append _ _ _ _ (by omega)]
        congr 1
        omega

/-- The bit that is out at the most significant end. -/
theorem msb_lefts (w : BitVec n) (l : List Bool) (short : l.length < n) :
    (l.foldl left w).msb = w.getMsbD l.length := by
  rw [BitVec.msb_eq_getLsbD_last, getLsbD_lefts w l (by omega), if_neg (by omega), BitVec.getMsbD_eq_getLsbD]
  simp only [short, decide_true, Bool.true_and]

theorem lsb_rights (w : BitVec n) (l : List Bool) (short : l.length < n) :
    (l.foldl right w).getLsbD 0 = w.getLsbD l.length := by
  rw [getLsbD_rights w l (by omega) (by omega), if_pos (by omega), Nat.zero_add]

/-- The least significant bits are what came in last. -/
theorem low_lefts (w : BitVec n) (l : List Bool) {m : Nat} (fits : m ≤ n) (enough : m ≤ l.length) :
    (l.foldl left w).extractLsb' 0 m = (l.drop (l.length - m)).foldl left 0 := by
  apply BitVec.eq_of_getLsbD_eq
  intro k inside
  have last : (l.drop (l.length - m)).length = m := by
    rw [List.length_drop]
    omega
  rw [BitVec.getLsbD_extractLsb', getLsbD_lefts w l (by omega), getLsbD_lefts 0 _ inside, last, if_pos (by omega),
    if_pos inside]
  simp only [inside, decide_true, Bool.true_and, List.getD_eq_getElem?_getD, List.getElem?_drop]
  congr 3
  omega

/-- A register that has been filled holds what came in. -/
theorem filled_rights (w : BitVec n) {l : List Bool} (full : l.length = n) :
    l.foldl right w = l.foldl right 0 := by
  apply BitVec.eq_of_getLsbD_eq
  intro k inside
  rw [getLsbD_rights w l inside (by omega), getLsbD_rights 0 l inside (by omega), if_neg (by omega), if_neg (by omega)]

end ShiftRegister
