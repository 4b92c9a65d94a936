import Mathlib.Algebra.Ring.Nat

/-!
# Slices of a buffer

A buffer is handed out in slices. This module has the lists of slices that follow each other,
the part of a concatenation of equally wide blocks that a slice is, and the arithmetic of
cutting an amount into slices of a fixed size when the last one is not trimmed.
-/

structure Slice where
  start : Nat
  size : Nat
deriving DecidableEq

namespace Slices

variable {α : Type}

def total (ss : List Slice) : Nat := (ss.map (·.size)).sum

/-- Every slice begins where the one before ends, the first at `start`. -/
def Consecutive : Nat → List Slice → Prop
  | _, [] => True
  | start, s :: rest => s.start = start ∧ Consecutive (start + s.size) rest

def scale (w : Nat) (s : Slice) : Slice := ⟨s.start * w, s.size * w⟩

@[simp] theorem total_nil : total [] = 0 := rfl

@[simp] theorem total_cons (s : Slice) (rest : List Slice) : total (s :: rest) = s.size + total rest := by
  simp [total]

theorem total_scale (w : Nat) (ss : List Slice) : total (ss.map (scale w)) = total ss * w := by
  induction ss with
  | nil => simp
  | cons s rest ih => rw [List.map_cons, total_cons, ih, total_cons, Nat.add_mul, scale]

theorem consecutive_scale {w start : Nat} (positive : 0 < w) {ss : List Slice} :
    Consecutive (start * w) (ss.map (scale w)) ↔ Consecutive start ss := by
  induction ss generalizing start with
  | nil => exact Iff.rfl
  | cons s rest ih =>
    have next : Consecutive (start * w + s.size * w) (rest.map (scale w)) ↔ Consecutive (start + s.size) rest := by
      rw [← Nat.add_mul]
      exact ih
    exact and_congr (Nat.mul_left_inj (Nat.ne_of_gt positive)) next

/-! ### Blocks of one width -/

section
variable {β : Type} {f : β → List α} {w : Nat} {xs : List β}

theorem blocks_drop (uniform : ∀ x ∈ xs, (f x).length = w) (k : Nat) :
    (xs.flatMap f).drop (k * w) = (xs.drop k).flatMap f := by
  induction xs generalizing k with
  | nil => simp
  | cons x rest ih =>
    cases k with
    | zero => simp
    | succ k =>
      have first := uniform x List.mem_cons_self
      rw [List.flatMap_cons, Nat.succ_mul, Nat.add_comm, ← List.drop_drop, List.drop_left' first,
        ih (fun y member => uniform y (List.mem_cons_of_mem x member)), List.drop_succ_cons]

theorem blocks_take (uniform : ∀ x ∈ xs, (f x).length = w) (k : Nat) :
    (xs.flatMap f).take (k * w) = (xs.take k).flatMap f := by
  induction xs generalizing k with
  | nil => simp
  | cons x rest ih =>
    cases k with
    | zero => simp
    | succ k =>
      have first := uniform x List.mem_cons_self
      rw [List.flatMap_cons, Nat.succ_mul, Nat.add_comm, ← first, List.take_length_add_append, first,
        ih (fun y member => uniform y (List.mem_cons_of_mem x member)), List.take_succ_cons, List.flatMap_cons]

end

/-! ### Untrimmed slices -/

/-- The least multiple of `m` from `d` on. -/
def roundUp (m d : Nat) : Nat := (d + (m - 1)) / m * m

@[simp] theorem roundUp_zero {m : Nat} (positive : 0 < m) : roundUp m 0 = 0 := by
  unfold roundUp
  rw [Nat.zero_add, Nat.div_eq_of_lt (by omega), Nat.zero_mul]

theorem le_roundUp {m : Nat} (positive : 0 < m) (d : Nat) : d ≤ roundUp m d := by
  have split := Nat.div_add_mod (d + (m - 1)) m
  have below := Nat.mod_lt (d + (m - 1)) positive
  unfold roundUp
  rw [Nat.mul_comm]
  omega

theorem roundUp_step {m d : Nat} (positive : 0 < m) (some : 0 < d) :
    roundUp m d = m + roundUp m (d - m) := by
  unfold roundUp
  by_cases more : m ≤ d
  · have shift : d + (m - 1) = d - m + (m - 1) + m := by omega
    rw [shift, Nat.add_div_right _ positive, Nat.succ_mul, Nat.add_comm]
  · have one : (d + (m - 1)) / m = 1 := Nat.div_eq_of_lt_le (by omega) (by omega)
    have none : d - m + (m - 1) = m - 1 := by omega
    rw [one, none, Nat.div_eq_of_lt (by omega)]
    omega

theorem roundUp_eq_iff {m : Nat} (positive : 0 < m) (d : Nat) : roundUp m d = d ↔ m ∣ d := by
  constructor
  · intro h
    rw [← h]
    exact Nat.dvd_mul_left _ _
  · rintro ⟨k, rfl⟩
    unfold roundUp
    rw [Nat.mul_add_div positive, Nat.div_eq_of_lt (by omega), Nat.add_zero, Nat.mul_comm]

end Slices
