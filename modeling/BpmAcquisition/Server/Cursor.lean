import BpmAcquisition.Library.Slices

/-!
# The shared read position

What `get_samples` does with a channel's two counters, over natural numbers: `count` samples
were captured and `pos` of them are read. `next` answers one request for `n` samples; `slices`
is a whole response loop, which asks for the same `n` until `need` samples are delivered.
`slices_exact` says from which counters it delivers exactly what was asked for.
-/

namespace BpmAcquisition.Server

open Slices

structure Cursor where
  count : Nat
  pos : Nat
deriving DecidableEq

namespace Cursor

def left (c : Cursor) : Nat := c.count - c.pos

/-- The slice is trimmed to what is left, except that a request that fits gets one sample. -/
def next (max n : Nat) (c : Cursor) : Slice × Cursor :=
  if c.pos + n ≤ c.count then (⟨c.pos, 1⟩, ⟨c.count, c.pos + 1⟩)
  else if c.pos < c.count then (⟨c.pos, min max c.left⟩, ⟨c.count, c.pos + min max c.left⟩)
  else (⟨0, min max n⟩, ⟨n, min max n⟩)

def slices (max n : Nat) : Nat → Nat → Cursor → List Slice
  | 0, _, _ => []
  | fuel + 1, need, c =>
    if need = 0 then []
    else (c.next max n).1 :: slices max n fuel (need - (c.next max n).1.size) (c.next max n).2

variable {max n fuel need : Nat} {c : Cursor}

theorem next_fits (fits : c.pos + n ≤ c.count) :
    c.next max n = (⟨c.pos, 1⟩, ⟨c.count, c.pos + 1⟩) := by
  unfold next
  rw [if_pos fits]

theorem next_trimmed (trims : c.count < c.pos + n) (some : c.pos < c.count) :
    c.next max n = (⟨c.pos, min max c.left⟩, ⟨c.count, c.pos + min max c.left⟩) := by
  unfold next
  rw [if_neg (by omega), if_pos some]

theorem next_drained (drained : c.pos = c.count) (asked : 0 < n) :
    c.next max n = (⟨0, min max n⟩, ⟨n, min max n⟩) := by
  unfold next
  rw [if_neg (by omega), if_neg (by omega)]

theorem next_start (some : c.pos < c.count) : (c.next max n).1.start = c.pos := by
  unfold next
  rw [if_pos some]
  split <;> rfl

theorem next_start_le (max n : Nat) (c : Cursor) : (c.next max n).1.start ≤ c.pos := by
  unfold next
  split
  · exact Nat.le_refl _
  · split
    · exact Nat.le_refl _
    · exact Nat.zero_le _

theorem next_size_positive (c : Cursor) (limit : 0 < max) (asked : 0 < n) : 0 < (c.next max n).1.size := by
  unfold next
  split
  · exact Nat.one_pos
  · split
    · show 0 < min max c.left
      unfold left
      omega
    · show 0 < min max n
      omega

theorem next_size_le (n : Nat) (c : Cursor) (limit : 0 < max) : (c.next max n).1.size ≤ max := by
  unfold next
  split
  · exact limit
  · split
    · exact Nat.min_le_left _ _
    · exact Nat.min_le_left _ _

theorem next_read (max n : Nat) (c : Cursor) :
    (c.next max n).1.start + (c.next max n).1.size = (c.next max n).2.pos := by
  unfold next
  split
  · rfl
  · split
    · rfl
    · exact Nat.zero_add _

theorem next_valid (max : Nat) {n : Nat} {c : Cursor} (asked : 0 < n) (valid : c.pos ≤ c.count) :
    (c.next max n).2.pos ≤ (c.next max n).2.count ∧ (c.next max n).2.count ≤ c.count.max n := by
  unfold next
  split
  · exact ⟨by simp only; omega, Nat.le_max_left _ _⟩
  · split
    · refine ⟨?_, Nat.le_max_left _ _⟩
      show c.pos + min max c.left ≤ c.count
      unfold left
      omega
    · exact ⟨Nat.min_le_right _ _, Nat.le_max_right _ _⟩

theorem slices_done : slices max n fuel 0 c = [] := by
  cases fuel <;> rfl

theorem slices_more (more : 0 < need) :
    slices max n (fuel + 1) need c =
      (c.next max n).1 :: slices max n fuel (need - (c.next max n).1.size) (c.next max n).2 := by
  rw [slices, if_neg (by omega)]

theorem slices_limited (limit : 0 < max) : ∀ s ∈ slices max n fuel need c, s.size ≤ max := by
  induction fuel generalizing need c with
  | zero => simp [slices]
  | succ fuel ih =>
    rcases Nat.eq_zero_or_pos need with rfl | more
    · simp [slices_done]
    · intro s member
      rw [slices_more more] at member
      rcases List.mem_cons.mp member with rfl | later
      · exact next_size_le n c limit
      · exact ih s later

/-! ### What a loop delivers -/

/-- While the rest of the capture covers the need, the last slice overshoots it up to the end
of the capture at most. -/
theorem total_within (limit : 0 < max) (trims : c.count < c.pos + n) (valid : c.pos ≤ c.count)
    (covered : need ≤ c.left) (enough : need ≤ fuel) :
    total (slices max n fuel need c) = min c.left (roundUp max need) := by
  induction fuel generalizing need c with
  | zero =>
    have nothing : need = 0 := by omega
    subst nothing
    simp [slices_done, limit]
  | succ fuel ih =>
    rcases Nat.eq_zero_or_pos need with rfl | more
    · simp [slices_done, limit]
    · unfold left at covered ih ⊢
      rw [slices_more more, next_trimmed trims (by omega), total_cons, roundUp_step limit more]
      unfold left
      by_cases whole : max ≤ c.count - c.pos
      · rw [Nat.min_eq_left whole]
        have rest := @ih (need - max) ⟨c.count, c.pos + max⟩
          (by simp only; omega) (by simp only; omega) (by simp only; omega) (by omega)
        simp only at rest ⊢
        omega
      · have size : min max (c.count - c.pos) = c.count - c.pos := Nat.min_eq_right (by omega)
        have last : need - (c.count - c.pos) = 0 := Nat.sub_eq_zero_of_le covered
        simp only [size, last, slices_done, total_nil]
        omega

/-- Where the rest of the capture falls short, it is delivered and then a new capture of `n`. -/
theorem total_across (limit : 0 < max) (trims : c.count < c.pos + n) (valid : c.pos ≤ c.count)
    (short : c.left < need) (asked : need ≤ n) (enough : need ≤ fuel) :
    total (slices max n fuel need c) = c.left + min n (roundUp max (need - c.left)) := by
  induction fuel generalizing need c with
  | zero => omega
  | succ fuel ih =>
    have more : 0 < need := by omega
    unfold left at short ih ⊢
    rcases Nat.eq_or_lt_of_le valid with drained | some
    · rw [slices_more more, next_drained drained (by omega), total_cons, drained, Nat.sub_self,
        Nat.zero_add, Nat.sub_zero, roundUp_step limit more]
      by_cases whole : max ≤ n
      · rw [Nat.min_eq_left whole]
        have rest : total (slices max n fuel (need - max) ⟨n, max⟩) = _ :=
          total_within limit (by simp only; omega) whole (by unfold left; simp only; omega) (by omega)
        unfold left at rest
        simp only at rest ⊢
        omega
      · have size : min max n = n := Nat.min_eq_right (by omega)
        have last : need - n = 0 := Nat.sub_eq_zero_of_le asked
        simp only [size, last, slices_done, total_nil]
        omega
    · rw [slices_more more, next_trimmed trims some, total_cons]
      unfold left
      have rest := @ih (need - min max (c.count - c.pos))
        ⟨c.count, c.pos + min max (c.count - c.pos)⟩ (by simp only; omega) (by simp only; omega)
        (by simp only; omega) (by omega) (by omega)
      simp only at rest ⊢
      have same : need - min max (c.count - c.pos) - (c.count - (c.pos + min max (c.count - c.pos))) =
          need - (c.count - c.pos) := by omega
      rw [rest, same]
      omega

theorem total_fitting (limit : 0 < max) (fits : c.pos + n ≤ c.count) (asked : need ≤ n)
    (enough : need ≤ fuel) :
    total (slices max n fuel need c) =
      if need ≤ c.left - n + 1 then need
      else c.left - n + 1 + min (n - 1) (roundUp max (need - (c.left - n + 1))) := by
  induction fuel generalizing need c with
  | zero =>
    have nothing : need = 0 := by omega
    subst nothing
    simp [slices_done]
  | succ fuel ih =>
    rcases Nat.eq_zero_or_pos need with rfl | more
    · simp [slices_done]
    · unfold left at ih ⊢
      rw [slices_more more, next_fits fits, total_cons]
      by_cases again : c.pos + 1 + n ≤ c.count
      · have rest := @ih (need - 1) ⟨c.count, c.pos + 1⟩ again (by omega) (by omega)
        simp only at rest ⊢
        have same : need - 1 - (c.count - (c.pos + 1) - n + 1) = need - (c.count - c.pos - n + 1) := by
          omega
        rw [rest, same]
        split <;> split <;> omega
      · -- The request fits for the last time, and `n - 1` samples are left behind it.
        have rest : total (slices max n fuel (need - 1) ⟨c.count, c.pos + 1⟩) = _ :=
          total_within limit (by simp only; omega) (by simp only; omega)
            (by unfold left; simp only; omega) (by omega)
        unfold left at rest
        simp only at rest ⊢
        have one : c.count - c.pos - n + 1 = 1 := by omega
        have others : c.count - (c.pos + 1) = n - 1 := by omega
        rw [rest, one, others]
        split
        · have last : need - 1 = 0 := by omega
          rw [last, roundUp_zero limit]
          omega
        · rfl

/-- With `r` samples left, a loop for `n` delivers `n`: the capture is drained, or what is left
of it is less than `n` and the remainder is cut without rest from the next capture, or it covers
`n` and so does the number of single samples or the cut of what they leave. -/
def Cuts (max n r : Nat) : Prop :=
  r = 0 ∨ r < n ∧ max ∣ n - r ∨ n ≤ r ∧ (r = n ∨ 2 * n - 1 ≤ r ∨ max ∣ 2 * n - 1 - r)

theorem slices_exact (limit : 0 < max) (asked : 0 < n) (valid : c.pos ≤ c.count) (enough : n ≤ fuel) :
    total (slices max n fuel n c) = n ↔ Cuts max n c.left := by
  unfold Cuts
  by_cases fits : c.pos + n ≤ c.count
  · have large : n ≤ c.left := by unfold left; omega
    rw [total_fitting limit fits (Nat.le_refl n) enough]
    have rest : n - (c.left - n + 1) = 2 * n - 1 - c.left := by omega
    have above := le_roundUp limit (2 * n - 1 - c.left)
    rw [rest, ← roundUp_eq_iff limit (2 * n - 1 - c.left)]
    split <;> omega
  · have small : c.left < n := by unfold left; omega
    rw [total_across limit (by omega) valid small (Nat.le_refl n) enough]
    have above := le_roundUp limit (n - c.left)
    rw [← roundUp_eq_iff limit (n - c.left)]
    omega

/-! ### The slices of a fresh capture -/

theorem slices_consecutive (limit : 0 < max) (trims : c.count < c.pos + n) (valid : c.pos ≤ c.count)
    (covered : need ≤ c.left) : Consecutive c.pos (slices max n fuel need c) := by
  induction fuel generalizing need c with
  | zero => trivial
  | succ fuel ih =>
    rcases Nat.eq_zero_or_pos need with rfl | more
    · rw [slices_done]
      trivial
    · unfold left at covered ih
      rw [slices_more more, next_trimmed trims (by omega)]
      unfold left
      refine ⟨rfl, ?_⟩
      exact @ih (need - min max (c.count - c.pos)) ⟨c.count, c.pos + min max (c.count - c.pos)⟩
        (by simp only; omega) (by simp only; omega) (by simp only; omega)

/-- A loop for `n` samples that starts on a drained capture hands out one capture of `n` from
its beginning to its end. -/
theorem slices_drained (limit : 0 < max) (asked : 0 < n) (drained : c.left = 0) (valid : c.pos ≤ c.count)
    (enough : n ≤ fuel) :
    Consecutive 0 (slices max n fuel n c) ∧ total (slices max n fuel n c) = n := by
  refine ⟨?_, (slices_exact limit asked valid enough).mpr (Or.inl drained)⟩
  have same : c.pos = c.count := by unfold left at drained; omega
  cases fuel with
  | zero => trivial
  | succ fuel =>
    rw [slices_more asked, next_drained same asked]
    refine ⟨rfl, ?_⟩
    have rest : Consecutive (min max n) (slices max n fuel (n - min max n) ⟨n, min max n⟩) :=
      @slices_consecutive max n fuel (n - min max n) ⟨n, min max n⟩ limit (by simp only; omega)
        (Nat.min_le_right _ _) (Nat.le_refl _)
    rwa [Nat.zero_add]

end Cursor

end BpmAcquisition.Server
