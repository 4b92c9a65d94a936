import Mathlib.Algebra.Ring.Nat

/-!
# Rings of slots

A ring of `2 ^ k` slots addressed by wrapping `k`-bit pointers. `Holds` relates the slots to
the queue they keep from the read pointer on: the slot at distance `d` is the queue's entry
`d`, and every slot beyond the queue is empty. Writing behind the queue appends, emptying the
slot at the read pointer and advancing it removes the head.
-/

namespace Ring

variable {α : Type} {k : Nat}

def Holds (slots : BitVec k → Option α) (rd : BitVec k) (q : List α) : Prop :=
  q.length ≤ 2 ^ k ∧ ∀ j, slots j = q[(j - rd).toNat]?

def put (slots : BitVec k → Option α) (at' : BitVec k) (x : α) : BitVec k → Option α :=
  fun j => if j = at' then some x else slots j

def clear (slots : BitVec k → Option α) (at' : BitVec k) : BitVec k → Option α :=
  fun j => if j = at' then none else slots j

theorem distance_eq (j rd : BitVec k) {d : Nat} (small : d < 2 ^ k) :
    j = rd + BitVec.ofNat k d ↔ (j - rd).toNat = d := by
  have value : (BitVec.ofNat k d).toNat = d := by simp [Nat.mod_eq_of_lt small]
  constructor
  · rintro rfl
    rw [BitVec.add_comm, BitVec.add_sub_cancel, value]
  · intro h
    have same : j - rd = BitVec.ofNat k d := BitVec.eq_of_toNat_eq (h.trans value.symm)
    rw [← same, BitVec.add_comm, BitVec.sub_add_cancel]

theorem head_eq {slots : BitVec k → Option α} {rd : BitVec k} {q : List α} (h : Holds slots rd q) :
    slots rd = q.head? := by
  rw [h.2 rd, BitVec.sub_self, BitVec.toNat_zero, List.head?_eq_getElem?]

theorem put_holds {slots : BitVec k → Option α} {rd : BitVec k} {q : List α} (x : α)
    (h : Holds slots rd q) (room : q.length < 2 ^ k) :
    Holds (put slots (rd + BitVec.ofNat k q.length) x) rd (q ++ [x]) := by
  refine ⟨by rw [List.length_append]; exact room, fun j => ?_⟩
  by_cases here : (j - rd).toNat = q.length
  · rw [put, if_pos ((distance_eq j rd room).mpr here), here]
    simp
  · rw [put, if_neg (fun e => here ((distance_eq j rd room).mp e)), h.2 j]
    rcases Nat.lt_or_gt_of_ne here with below | above
    · rw [List.getElem?_append_left below]
    · have beyond : (q ++ [x]).length ≤ (j - rd).toNat := by
        rw [List.length_append]
        exact above
      rw [List.getElem?_eq_none (Nat.le_of_lt above), List.getElem?_eq_none beyond]

theorem distance_next (j rd : BitVec k) (other : j ≠ rd) :
    (j - rd).toNat = (j - (rd + 1#k)).toNat + 1 := by
  have apart : j - rd ≠ 0#k := by
    intro h
    exact other (by simpa using BitVec.sub_eq_iff_eq_add.mp h)
  have positive : 0 < (j - rd).toNat := by
    apply Nat.pos_of_ne_zero
    intro h
    exact apart (BitVec.eq_of_toNat_eq (by simpa using h))
  have below := (j - rd).isLt
  have one : (1#k).toNat = 1 := by
    rw [BitVec.toNat_ofNat]
    exact Nat.mod_eq_of_lt (by omega)
  have le : 1#k ≤ j - rd := by
    rw [BitVec.le_def, one]
    exact positive
  rw [← BitVec.sub_sub, BitVec.toNat_sub_of_le le, one]
  omega

theorem clear_holds {slots : BitVec k → Option α} {rd : BitVec k} {x : α} {q : List α}
    (h : Holds slots rd (x :: q)) : Holds (clear slots rd) (rd + 1#k) q := by
  have bound : q.length + 1 ≤ 2 ^ k := h.1
  refine ⟨by omega, fun j => ?_⟩
  by_cases here : j = rd
  · -- The emptied slot is now the farthest from the read pointer.
    subst here
    have last : (j - (j + 1#k)).toNat = 2 ^ k - 1 := by
      rw [← BitVec.sub_sub, BitVec.sub_self, BitVec.zero_sub, BitVec.neg_one_eq_allOnes,
        BitVec.toNat_allOnes]
    rw [clear, if_pos rfl, last, List.getElem?_eq_none (by omega)]
  · rw [clear, if_neg here, h.2 j, distance_next j rd here, List.getElem?_cons_succ]

theorem clear_empty {slots : BitVec k → Option α} {rd : BitVec k} (h : Holds slots rd []) :
    Holds (clear slots rd) rd [] := by
  refine ⟨h.1, fun j => ?_⟩
  unfold clear
  split
  · simp
  · exact h.2 j

end Ring
