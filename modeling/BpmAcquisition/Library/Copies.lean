/-!
# Copies

A list in which every element is repeated as often as a list of counts says. Such a copy is the
list itself where all counts are one, and only there for all lists.
-/

namespace Copies

variable {α β : Type}

def repeated : List Nat → List α → List α
  | k :: ks, x :: xs => List.replicate k x ++ repeated ks xs
  | _, _ => []

@[simp] theorem repeated_nil (ks : List Nat) : repeated ks ([] : List α) = [] := by
  cases ks <;> rfl

@[simp] theorem repeated_cons (k : Nat) (ks : List Nat) (x : α) (xs : List α) :
    repeated (k :: ks) (x :: xs) = List.replicate k x ++ repeated ks xs := rfl

theorem repeated_ones {ks : List Nat} {xs : List α} (length : ks.length = xs.length) (ones : ∀ k ∈ ks, k = 1) :
    repeated ks xs = xs := by
  induction ks generalizing xs with
  | nil =>
    rw [List.length_eq_zero_iff.mp length.symm]
    rfl
  | cons k ks ih =>
    cases xs with
    | nil => cases length
    | cons x xs =>
      obtain ⟨rfl, others⟩ := List.forall_mem_cons.mp ones
      have rest := ih (Nat.succ.inj length) others
      rw [repeated_cons, rest]
      rfl

theorem mem_repeated {ks : List Nat} {xs : List α} {x : α} (member : x ∈ repeated ks xs) : x ∈ xs := by
  induction ks generalizing xs with
  | nil => cases xs <;> cases member
  | cons k ks ih =>
    cases xs with
    | nil => cases member
    | cons y xs =>
      rw [repeated_cons, List.mem_append] at member
      rcases member with here | later
      · rw [(List.mem_replicate.mp here).2]
        exact List.mem_cons_self
      · exact List.mem_cons_of_mem y (ih later)

/-- One element among others shows how often it is repeated. -/
theorem one_of_repeated {k : Nat} {ks : List Nat} {x : α} {xs : List α} (other : x ∉ xs)
    (same : repeated (k :: ks) (x :: xs) = x :: xs) : k = 1 := by
  rw [repeated_cons] at same
  cases k with
  | zero =>
    rw [List.replicate_zero, List.nil_append] at same
    have member : x ∈ repeated ks xs := by
      rw [same]
      exact List.mem_cons_self
    exact absurd (mem_repeated member) other
  | succ k =>
    rw [List.replicate_succ, List.cons_append] at same
    have behind := (List.cons.inj same).2
    cases k with
    | zero => rfl
    | succ k =>
      refine absurd ?_ other
      rw [← behind, List.replicate_succ]
      exact List.mem_cons_self

theorem ones_of_repeated {f : α → β} {a b : α} (apart : f a ≠ f b) {ks : List Nat}
    (same : ∀ xs : List α, xs.length = ks.length → repeated ks (xs.map f) = xs.map f) : ∀ k ∈ ks, k = 1 := by
  induction ks with
  | nil => simp
  | cons k ks ih =>
    have first : k = 1 := by
      have marked := same (a :: List.replicate ks.length b) (by simp)
      rw [List.map_cons] at marked
      refine one_of_repeated ?_ marked
      intro member
      rw [List.map_replicate] at member
      exact apart (List.mem_replicate.mp member).2
    subst first
    refine List.forall_mem_cons.mpr ⟨rfl, ih ?_⟩
    intro xs length
    have longer := same (a :: xs) (by simp [length])
    rw [List.map_cons, repeated_cons] at longer
    exact (List.cons.inj longer).2

end Copies
