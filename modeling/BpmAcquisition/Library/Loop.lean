/-!
# Loops that exit

`while true` around an exit and an update. `repeated` passes at most a given number of times; the rule
`repeated_ends` takes an invariant and a variant, and gives the state the loop leaves with.
-/

namespace Loop

variable {σ : Type}

/-- The state at the exit, if it comes within so many passes. -/
def repeated (exits : σ → Bool) (next : σ → σ) : Nat → σ → Option σ
  | 0, _ => none
  | passes + 1, s => if exits s then some s else repeated exits next passes (next s)

theorem repeated_ends {exits : σ → Bool} {next : σ → σ} {inv : σ → Prop} {variant : σ → Nat} {passes : Nat} {s : σ}
    (keep : ∀ s, inv s → exits s = false → inv (next s) ∧ variant (next s) < variant s) (start : inv s)
    (enough : variant s < passes) : ∃ t, repeated exits next passes s = some t ∧ exits t = true ∧ inv t := by
  induction passes generalizing s with
  | zero => exact absurd enough (Nat.not_lt_zero _)
  | succ passes ih =>
    unfold repeated
    cases exit : exits s with
    | true => exact ⟨s, if_pos rfl, exit, start⟩
    | false =>
      obtain ⟨still, less⟩ := keep s start exit
      rw [if_neg Bool.false_ne_true]
      exact ih still (by omega)

end Loop
