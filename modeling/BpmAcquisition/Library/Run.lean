/-!
# Runs of deterministic machines

A machine is a step function `σ → ι → σ`. This module has the state a list of inputs leads
to, what the steps emit on the way, and the rules that lift a fact about one step to a run: what
a step keeps, a run keeps; what a step conserves, a run conserves; a machine that simulates
another step by step emits what the other one does; and a property that one step keeps exactly
under a condition holds throughout a run exactly when every step meets the condition. A bit that
steps set and inputs clear is high exactly if nothing cleared it since it was last set.
-/

namespace Machine

variable {σ ι ω : Type}

def run (step : σ → ι → σ) : σ → List ι → σ
  | s, [] => s
  | s, i :: rest => run step (step s i) rest

def trace (step : σ → ι → σ) (emit : σ → ι → List ω) : σ → List ι → List ω
  | _, [] => []
  | s, i :: rest => emit s i ++ trace step emit (step s i) rest

def Along (step : σ → ι → σ) (ok : σ → ι → Prop) : σ → List ι → Prop
  | _, [] => True
  | s, i :: rest => ok s i ∧ Along step ok (step s i) rest

instance decidableAlong {step : σ → ι → σ} {ok : σ → ι → Prop} [∀ s i, Decidable (ok s i)] :
    (s : σ) → (is : List ι) → Decidable (Along step ok s is)
  | _, [] => isTrue trivial
  | s, i :: rest =>
    have := @decidableAlong step ok _ (step s i) rest
    inferInstanceAs (Decidable (ok s i ∧ Along step ok (step s i) rest))

/-- Every state of the run, the first and the last included, has `P`. -/
def Always (step : σ → ι → σ) (P : σ → Prop) : σ → List ι → Prop
  | s, [] => P s
  | s, i :: rest => P s ∧ Always step P (step s i) rest

variable {step : σ → ι → σ} {ok ok' : σ → ι → Prop} {inv P : σ → Prop} {s : σ}

@[simp] theorem run_nil : run step s [] = s := rfl

@[simp] theorem run_cons (i : ι) (rest : List ι) : run step s (i :: rest) = run step (step s i) rest := rfl

@[simp] theorem trace_nil (emit : σ → ι → List ω) : trace step emit s [] = [] := rfl

@[simp] theorem trace_cons (emit : σ → ι → List ω) (i : ι) (rest : List ι) :
    trace step emit s (i :: rest) = emit s i ++ trace step emit (step s i) rest := rfl

@[simp] theorem along_nil : Along step ok s [] := trivial

@[simp] theorem along_cons (i : ι) (rest : List ι) :
    Along step ok s (i :: rest) ↔ ok s i ∧ Along step ok (step s i) rest := Iff.rfl

theorem run_append (a b : List ι) : run step s (a ++ b) = run step (run step s a) b := by
  induction a generalizing s with
  | nil => rfl
  | cons i rest ih => exact ih

theorem trace_append (emit : σ → ι → List ω) (a b : List ι) :
    trace step emit s (a ++ b) = trace step emit s a ++ trace step emit (run step s a) b := by
  induction a generalizing s with
  | nil => rfl
  | cons i rest ih => simp only [List.cons_append, trace_cons, run_cons, ih, List.append_assoc]

/-- A run in blocks is a run of the machine whose steps are the blocks. -/
theorem run_blocks {κ : Type} (block : κ → List ι) (ks : List κ) :
    run step s (ks.flatMap block) = run (fun s k => run step s (block k)) s ks := by
  induction ks generalizing s with
  | nil => rfl
  | cons k rest ih => rw [List.flatMap_cons, run_append, run_cons, ih]

theorem trace_blocks {κ : Type} (emit : σ → ι → List ω) (block : κ → List ι) (ks : List κ) :
    trace step emit s (ks.flatMap block) =
      trace (fun s k => run step s (block k)) (fun s k => trace step emit s (block k)) s ks := by
  induction ks generalizing s with
  | nil => rfl
  | cons k rest ih => rw [List.flatMap_cons, trace_append, trace_cons, ih]

theorem along_append (a b : List ι) :
    Along step ok s (a ++ b) ↔ Along step ok s a ∧ Along step ok (run step s a) b := by
  induction a generalizing s with
  | nil => simp
  | cons i rest ih => simp only [List.cons_append, along_cons, run_cons, ih, and_assoc]

theorem along_mono (weaker : ∀ s i, ok s i → ok' s i) {is : List ι} (h : Along step ok s is) :
    Along step ok' s is := by
  induction is generalizing s with
  | nil => trivial
  | cons i rest ih => exact ⟨weaker s i h.1, ih h.2⟩

theorem along_and {is : List ι} (h : Along step ok s is) (h' : Along step ok' s is) :
    Along step (fun s i => ok s i ∧ ok' s i) s is := by
  induction is generalizing s with
  | nil => trivial
  | cons i rest ih => exact ⟨⟨h.1, h'.1⟩, ih h.2 h'.2⟩

theorem along_of_inputs {ok : ι → Prop} {is : List ι} (h : ∀ i ∈ is, ok i) :
    Along step (fun _ i => ok i) s is := by
  induction is generalizing s with
  | nil => trivial
  | cons i rest ih =>
    exact ⟨h i List.mem_cons_self, ih fun j member => h j (List.mem_cons_of_mem i member)⟩

theorem along_always (step : σ → ι → σ) (s : σ) (is : List ι) : Along step (fun _ _ => True) s is :=
  along_of_inputs fun _ _ => trivial

theorem along_of_all {is : List ι} (h : ∀ s, ∀ i ∈ is, ok s i) : Along step ok s is := by
  induction is generalizing s with
  | nil => trivial
  | cons i rest ih =>
    exact ⟨h s i List.mem_cons_self, ih fun s j member => h s j (List.mem_cons_of_mem i member)⟩

theorem inputs_of_along {ok : ι → Prop} {is : List ι} (h : Along step (fun _ i => ok i) s is) :
    ∀ i ∈ is, ok i := by
  induction is generalizing s with
  | nil => simp
  | cons i rest ih =>
    intro j member
    rcases List.mem_cons.mp member with rfl | later
    · exact h.1
    · exact ih h.2 j later

theorem run_invariant (keep : ∀ s i, inv s → ok s i → inv (step s i)) {is : List ι}
    (start : inv s) (h : Along step ok s is) : inv (run step s is) := by
  induction is generalizing s with
  | nil => exact start
  | cons i rest ih => exact ih (keep s i start h.1) h.2

/-- What every step keeps, every run keeps. -/
theorem run_keeps (keep : ∀ s i, inv s → inv (step s i)) (start : inv s) (is : List ι) : inv (run step s is) :=
  run_invariant (fun s i held (_ : True) => keep s i held) start (along_of_inputs fun _ _ => trivial)

theorem along_invariant (keep : ∀ s i, inv s → ok s i → inv (step s i))
    (gives : ∀ s i, inv s → ok s i → ok' s i) {is : List ι}
    (start : inv s) (h : Along step ok s is) : Along step ok' s is := by
  induction is generalizing s with
  | nil => trivial
  | cons i rest ih => exact ⟨gives s i start h.1, ih (keep s i start h.1) h.2⟩

theorem along_iff (keep : ∀ s i, inv s → ok s i → inv (step s i)) {good good' : σ → ι → Prop}
    (same : ∀ s i, inv s → ok s i → (good s i ↔ good' s i)) {is : List ι}
    (start : inv s) (h : Along step ok s is) : Along step good s is ↔ Along step good' s is := by
  induction is generalizing s with
  | nil => exact Iff.rfl
  | cons i rest ih => exact and_congr (same s i start h.1) (ih (keep s i start h.1) h.2)

theorem along_iff_keeps (keep : ∀ s i, inv s → inv (step s i)) {good good' : σ → ι → Prop}
    (same : ∀ s i, inv s → (good s i ↔ good' s i)) (start : inv s) (is : List ι) :
    Along step good s is ↔ Along step good' s is :=
  along_iff (fun s i held (_ : True) => keep s i held) (fun s i held _ => same s i held) start
    (along_of_inputs fun _ _ => trivial)

theorem along_congr {good good' : σ → ι → Prop} (same : ∀ s i, good s i ↔ good' s i) (is : List ι) :
    Along step good s is ↔ Along step good' s is :=
  along_iff_keeps (fun _ _ _ => trivial) (fun s i (_ : True) => same s i) trivial is

/-- What a step takes in and what is held come out again or are still held: so over a run. -/
theorem trace_conserved {R : σ → List ω → Prop} {supply deliver : σ → ι → List ω}
    (keep : ∀ s i held, R s held → ok s i →
      ∃ next, R (step s i) next ∧ held ++ supply s i = deliver s i ++ next)
    {is : List ι} {held : List ω} (start : R s held) (h : Along step ok s is) :
    ∃ rest, R (run step s is) rest ∧
      held ++ trace step supply s is = trace step deliver s is ++ rest := by
  induction is generalizing s held with
  | nil => exact ⟨held, start, by simp⟩
  | cons i is ih =>
    obtain ⟨next, related, conserved⟩ := keep s i held start h.1
    obtain ⟨rest, final, conserved'⟩ := ih related h.2
    refine ⟨rest, final, ?_⟩
    simp only [trace_cons]
    rw [← List.append_assoc, conserved, List.append_assoc, conserved', List.append_assoc]

theorem trace_silent {emit : σ → ι → List ω} (none : ∀ s i, emit s i = []) (is : List ι) :
    trace step emit s is = [] := by
  induction is generalizing s with
  | nil => rfl
  | cons i rest ih => rw [trace_cons, none, ih, List.append_nil]

/-- What every step takes from a stock, a run takes from it. -/
theorem trace_spent {R : σ → List ω → Prop} {deliver : σ → ι → List ω}
    (keep : ∀ s i held, R s held → ok s i → ∃ next, R (step s i) next ∧ held = deliver s i ++ next)
    {is : List ι} {held : List ω} (start : R s held) (h : Along step ok s is) :
    ∃ rest, R (run step s is) rest ∧ held = trace step deliver s is ++ rest := by
  have conserve : ∀ s i held, R s held → ok s i → ∃ next, R (step s i) next ∧ held ++ [] = deliver s i ++ next := by
    intro s i held related meets
    rw [List.append_nil]
    exact keep s i held related meets
  obtain ⟨rest, final, conserved⟩ := trace_conserved conserve start h
  rw [trace_silent (fun _ _ => rfl), List.append_nil] at conserved
  exact ⟨rest, final, conserved⟩

theorem run_simulates {τ κ : Type} {step' : τ → κ → τ} {abs : σ → τ} {input : σ → ι → κ}
    (sim : ∀ s i, ok s i → abs (step s i) = step' (abs s) (input s i))
    {is : List ι} (h : Along step ok s is) :
    abs (run step s is) = run step' (abs s) (trace step (fun s i => [input s i]) s is) := by
  induction is generalizing s with
  | nil => rfl
  | cons i rest ih =>
    simp only [trace_cons, run_cons, List.cons_append, List.nil_append]
    rw [ih h.2, sim s i h.1]

theorem trace_simulates {τ κ : Type} {step' : τ → κ → τ} {abs : σ → τ} {input : σ → ι → κ}
    {emit : σ → ι → List ω} {emit' : τ → κ → List ω}
    (sim : ∀ s i, ok s i → abs (step s i) = step' (abs s) (input s i))
    (same : ∀ s i, ok s i → emit s i = emit' (abs s) (input s i))
    {is : List ι} (h : Along step ok s is) :
    trace step emit s is = trace step' emit' (abs s) (trace step (fun s i => [input s i]) s is) := by
  induction is generalizing s with
  | nil => rfl
  | cons i rest ih =>
    simp only [trace_cons, List.cons_append, List.nil_append]
    rw [ih h.2, sim s i h.1, same s i h.1]

/-- Where related states step to related ones and emit the same up to `f`, so do runs. -/
theorem trace_refines {τ κ α : Type} {R : σ → τ → Prop} {step' : τ → κ → τ} {input : ι → κ} {f : α → ω}
    {emit : σ → ι → List ω} {emit' : τ → κ → List α}
    (sim : ∀ s t i, R s t → ok s i →
      R (step s i) (step' t (input i)) ∧ emit s i = (emit' t (input i)).map f)
    {is : List ι} {t : τ} (start : R s t) (h : Along step ok s is) :
    R (run step s is) (run step' t (is.map input)) ∧
      trace step emit s is = (trace step' emit' t (is.map input)).map f := by
  induction is generalizing s t with
  | nil => exact ⟨start, rfl⟩
  | cons i rest ih =>
    obtain ⟨next, same⟩ := sim s t i start h.1
    obtain ⟨final, others⟩ := ih next h.2
    refine ⟨final, ?_⟩
    rw [trace_cons, List.map_cons, trace_cons, List.map_append, ← others, ← same]

theorem trace_congr {emit emit' : σ → ι → List ω} (same : ∀ s i, ok s i → emit s i = emit' s i)
    {is : List ι} (h : Along step ok s is) : trace step emit s is = trace step emit' s is := by
  induction is generalizing s with
  | nil => rfl
  | cons i rest ih => simp only [trace_cons, same s i h.1, ih h.2]

theorem trace_flatMap {α : Type} (emit : σ → ι → List ω) (f : ω → List α) (is : List ι) :
    (trace step emit s is).flatMap f = trace step (fun s i => (emit s i).flatMap f) s is := by
  induction is generalizing s with
  | nil => rfl
  | cons i rest ih => simp only [trace_cons, List.flatMap_append, ih]

theorem trace_map {α : Type} (emit : σ → ι → List ω) (f : ω → α) (is : List ι) :
    trace step (fun s i => (emit s i).map f) s is = (trace step emit s is).map f := by
  induction is generalizing s with
  | nil => rfl
  | cons i rest ih => simp only [trace_cons, List.map_append, ih]

theorem trace_forall {P : ω → Prop} {emit : σ → ι → List ω} (each : ∀ s i, ∀ x ∈ emit s i, P x) (is : List ι) :
    ∀ x ∈ trace step emit s is, P x := by
  induction is generalizing s with
  | nil => simp
  | cons i rest ih =>
    rw [trace_cons, List.forall_mem_append]
    exact ⟨each s i, ih⟩

theorem always_first {is : List ι} (h : Always step P s is) : P s := by
  cases is with
  | nil => exact h
  | cons i rest => exact h.1

theorem always_last {is : List ι} (h : Always step P s is) : P (run step s is) := by
  induction is generalizing s with
  | nil => exact h
  | cons i rest ih => exact ih h.2

/-- Where a step that meets `ok` keeps `P`, a run whose steps all meet it has `P` throughout. -/
theorem always_of_along (keep : ∀ s i, inv s → inv (step s i))
    (enough : ∀ s i, inv s → P s → ok s i → P (step s i)) {is : List ι} (start : inv s) (first : P s)
    (h : Along step ok s is) : Always step P s is := by
  induction is generalizing s with
  | nil => exact first
  | cons i rest ih => exact ⟨first, ih (keep s i start) (enough s i start first h.1) h.2⟩

/-- Where only a step that meets `ok` keeps `P`, a run that has `P` throughout meets it at each. -/
theorem along_of_always {allowed : ι → Prop} (keep : ∀ s i, inv s → inv (step s i))
    (needed : ∀ s i, inv s → allowed i → P s → P (step s i) → ok s i) {is : List ι} (start : inv s)
    (inputs : ∀ i ∈ is, allowed i) (h : Always step P s is) : Along step ok s is := by
  induction is generalizing s with
  | nil => trivial
  | cons i rest ih =>
    refine ⟨needed s i start (inputs i List.mem_cons_self) h.1 (always_first h.2), ?_⟩
    exact ih (keep s i start) (fun j member => inputs j (List.mem_cons_of_mem i member)) h.2

/-- A step of the run sets, and no later input clears. -/
def SetSince (step : σ → ι → σ) (sets : σ → ι → Prop) (clears : ι → Prop) (s : σ) (is : List ι) : Prop :=
  ∃ before i after, is = before ++ i :: after ∧ sets (run step s before) i ∧ ∀ j ∈ after, ¬ clears j

theorem setSince_cons {sets : σ → ι → Prop} {clears : ι → Prop} (i : ι) (rest : List ι) :
    SetSince step sets clears s (i :: rest) ↔
      SetSince step sets clears (step s i) rest ∨ sets s i ∧ ∀ j ∈ rest, ¬ clears j := by
  constructor
  · rintro ⟨before, j, after, same, set, kept⟩
    cases before with
    | nil =>
      obtain ⟨rfl, rfl⟩ := List.cons.inj same
      exact Or.inr ⟨set, kept⟩
    | cons k before =>
      obtain ⟨rfl, rfl⟩ := List.cons.inj same
      exact Or.inl ⟨before, j, after, rfl, set, kept⟩
  · rintro (⟨before, j, after, rfl, set, kept⟩ | ⟨set, kept⟩)
    · exact ⟨i :: before, j, after, rfl, set, kept⟩
    · exact ⟨[], i, rest, rfl, set, kept⟩

theorem sticky_run (bit : σ → Bool) {sets : σ → ι → Prop} {clears : ι → Prop}
    (rule : ∀ s i, ok s i → (bit (step s i) = true ↔ sets s i ∨ bit s = true ∧ ¬ clears i))
    {is : List ι} (h : Along step ok s is) :
    bit (run step s is) = true ↔
      SetSince step sets clears s is ∨ bit s = true ∧ ∀ i ∈ is, ¬ clears i := by
  induction is generalizing s with
  | nil => simp [SetSince]
  | cons i rest ih =>
    -- The first step has set the bit, or has left it as it was.
    rw [run_cons, ih h.2, setSince_cons, rule s i h.1, List.forall_mem_cons, or_and_right, and_assoc, or_assoc]

/-- From a state with `P`, `n` rounds or more lead to one with `Q`. -/
def LeadsTo (step : σ → ι → σ) (round : List ι → Prop) (n : Nat) (P Q : σ → Prop) : Prop :=
  ∀ (s : σ) (rounds : List (List ι)), P s → (∀ r ∈ rounds, round r) → n ≤ rounds.length → Q (run step s rounds.flatten)

section
variable {round : List ι → Prop} {Q R : σ → Prop} {n m : Nat}

theorem leadsTo_trans (first : LeadsTo step round n P Q) (second : LeadsTo step round m Q R) :
    LeadsTo step round (n + m) P R := by
  intro s rounds start both enough
  have front := first s (rounds.take n) start (fun r member => both r (List.mem_of_mem_take member))
    (by rw [List.length_take]; omega)
  have back := second _ (rounds.drop n) front (fun r member => both r (List.mem_of_mem_drop member))
    (by rw [List.length_drop]; omega)
  rw [← run_append, ← List.flatten_append, List.take_append_drop] at back
  exact back

/-- Each round takes one from the bound. -/
theorem leadsTo_bound {P : Nat → σ → Prop} (less : ∀ m s r, P m s → round r → P (m - 1) (run step s r)) (n : Nat) :
    LeadsTo step round n (P n) (P 0) := by
  intro s rounds start both enough
  induction rounds generalizing s n with
  | nil =>
    have none : n = 0 := by simpa using enough
    rw [none] at start
    exact start
  | cons r rest ih =>
    obtain ⟨here, others⟩ := List.forall_mem_cons.mp both
    rw [List.length_cons] at enough
    rw [List.flatten_cons, run_append]
    exact ih (n - 1) (run step s r) (less n s r start here) others (by omega)

theorem leadsTo_rank (rank : σ → Nat) (less : ∀ s r, P s → round r → P (run step s r) ∧ rank (run step s r) ≤ rank s - 1)
    (bound : ∀ s, P s → rank s ≤ n) (ended : ∀ s, P s → rank s = 0 → Q s) : LeadsTo step round n P Q := by
  have fewer : ∀ m s r, (P s ∧ rank s ≤ m) → round r → P (run step s r) ∧ rank (run step s r) ≤ m - 1 := by
    rintro m s r ⟨held, most⟩ here
    obtain ⟨next, one⟩ := less s r held here
    exact ⟨next, by omega⟩
  intro s rounds start both enough
  obtain ⟨final, none⟩ := leadsTo_bound fewer n s rounds ⟨start, bound s start⟩ both enough
  exact ended _ final (Nat.le_zero.mp none)

end

end Machine
