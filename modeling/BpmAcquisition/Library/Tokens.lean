import Mathlib.Data.List.TakeWhile

/-!
# Tokens between separators

The tokenizer of C's `strtok` for one separator: separators before a token are skipped, the one
after it is taken with it. `next_joined` and `next_last` are its two rules for a token that is
followed by a separator or by nothing.
-/

namespace Tokens

variable {α : Type} [DecidableEq α] {sep : α} {token rest : List α}

/-- The next token and what follows the separator after it. -/
def next (sep : α) (s : List α) : Option (List α × List α) :=
  let s := s.dropWhile (· == sep)
  if s = [] then none else some (s.takeWhile (· != sep), (s.dropWhile (· != sep)).drop 1)

/-- The first `n` tokens, or all if there are fewer. -/
def first (sep : α) : Nat → List α → List (List α)
  | 0, _ => []
  | n + 1, s =>
    match next sep s with
    | none => []
    | some (token, rest) => token :: first sep n rest

theorem first_some {s : List α} (some : next sep s = some (token, rest)) (n : Nat) :
    first sep (n + 1) s = token :: first sep n rest := by
  rw [first, some]

theorem first_cons {s : List α} {n : Nat} {tokens : List (List α)} (h : first sep (n + 1) s = token :: tokens) :
    ∃ rest, next sep s = some (token, rest) ∧ first sep n rest = tokens := by
  unfold first at h
  split at h
  · cases h
  case h_2 token' rest' found =>
    obtain ⟨rfl, rfl⟩ := List.cons.inj h
    exact ⟨rest', found, rfl⟩

theorem token_starts (nonempty : token ≠ []) (clean : sep ∉ token) :
    (token ++ rest).dropWhile (· == sep) = token ++ rest := by
  obtain ⟨c, token, rfl⟩ := List.exists_cons_of_ne_nil nonempty
  have other : c ≠ sep := fun same => clean (by rw [same]; exact List.mem_cons_self)
  rw [List.cons_append, List.dropWhile_cons_of_neg (by simpa using other)]

theorem token_passes (clean : sep ∉ token) : ∀ c ∈ token, (c != sep) = true := by
  intro c member
  rw [bne_iff_ne]
  rintro rfl
  exact clean member

theorem next_joined (nonempty : token ≠ []) (clean : sep ∉ token) (rest : List α) :
    next sep (token ++ sep :: rest) = some (token, rest) := by
  have passes := token_passes clean
  have some : token ++ sep :: rest ≠ [] := by simp
  unfold next
  simp only [token_starts nonempty clean, if_neg some]
  rw [List.takeWhile_append_of_pos passes, List.dropWhile_append_of_pos passes,
    List.takeWhile_cons_of_neg (by simp), List.dropWhile_cons_of_neg (by simp), List.append_nil]
  rfl

theorem next_last (nonempty : token ≠ []) (clean : sep ∉ token) : next sep token = some (token, []) := by
  have passes := token_passes clean
  have starts : (token ++ []).dropWhile (· == sep) = token ++ [] := token_starts nonempty clean
  rw [List.append_nil] at starts
  unfold next
  simp only [starts, if_neg nonempty]
  rw [List.takeWhile_eq_self_iff.mpr passes, List.dropWhile_eq_nil_iff.mpr passes]
  rfl

end Tokens
