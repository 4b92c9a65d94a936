import BpmAcquisition.Hardware.FixedDivider

/-!
# State machines around the fixed-point divider

`div_floatingpoint` and `div_ieee754_single` both wait for a trigger, prepare the operands for some
edges, trigger the fixed-point divider in the first cycle of their state `DIVIDE`, and leave that
state when it is ready. `Moves` is what the two state machines have in common, and `Sequenced` what
it keeps: in every state but `DIVIDE` the divider rests. `Embedded` collects what the rules need of a
state machine.
-/

namespace BpmAcquisition.DivFixedpoint

open Machine

/-- `prc_error` of both dividers, by whether the state is `IDLE` or `DIVIDE`. -/
def prcError (rst trg rdy idle divide err : Bool) : Bool :=
  if rst then false
  else if idle && trg then false
  else if divide && trg && rdy then false
  else if trg then true
  else err

theorem error_quiet {rst trg rdy idle divide err : Bool} (clocked : rst = false) (quiet : trg = false)
    (fine : err = false) : prcError rst trg rdy idle divide err = false := by
  unfold prcError
  simp [clocked, quiet, fine]

/-- `first` is the first of the states that prepare the operands. -/
inductive Stage where
  | waiting
  | first
  | preparing
  | dividing
  deriving DecidableEq

/-- The stages before and after an edge, and `sl_init` after it. -/
inductive Moves (trg rdy : Bool) : Stage → Stage → Bool → Prop
  | wait : Moves trg rdy .waiting .waiting false
  | start (triggered : trg = true) : Moves trg rdy .waiting .first false
  | prepare : Moves trg rdy .first .preparing false
  | further : Moves trg rdy .preparing .preparing false
  | launch : Moves trg rdy .preparing .dividing true
  | divide (unready : rdy = false) : Moves trg rdy .dividing .dividing false
  | again (ready : rdy = true) (triggered : trg = true) : Moves trg rdy .dividing .first false
  | finish (ready : rdy = true) (quiet : trg = false) : Moves trg rdy .dividing .waiting false

/-- The fixed-point divider in each stage, by `sl_err` and `sl_init` of the state machine. Only right
after a reset can it wait and not have finished; `o_rdy` is then high. -/
inductive Sequenced {W P : Nat} (err : Bool) (s : Regs W P) : Stage → Bool → Prop
  | waiting (count : s.uvCount = 0) (fine : s.slErr = false)
    (finished : s.slFinished = true ∨ s.oRdy = true ∧ err = false) : Sequenced err s .waiting false
  | first (rest : Rest s) : Sequenced err s .first false
  | preparing (rest : Rest s) (unready : s.oRdy = false) : Sequenced err s .preparing false
  | launched (rest : Rest s) (unready : s.oRdy = false) : Sequenced err s .dividing true
  | counting (fine : s.slErr = false) (running : s.slFinished = false) (unready : s.oRdy = false) :
    Sequenced err s .dividing false
  | done (rest : Rest s) (ready : s.oRdy = true) : Sequenced err s .dividing false

variable {W P : Nat} {dsp : Dsp48e} {s : Regs W P} {i : Input W} {err err' init init' trg : Bool} {stage stage' : Stage}

theorem Sequenced.init_waiting (sequenced : Sequenced err s .waiting init) : init = false := by
  cases sequenced
  rfl

theorem Sequenced.unready_preparing (sequenced : Sequenced err s .preparing init) : s.oRdy = false := by
  cases sequenced
  assumption

theorem Sequenced.rest_launched (sequenced : Sequenced err s .dividing true) : Rest s ∧ s.oRdy = false := by
  cases sequenced with
  | launched rest unready => exact ⟨rest, unready⟩

theorem sequenced_reset (rst : i.iRst = true) : Sequenced false (edge dsp s i) .waiting false := by
  have control : prcControl s i = { s with slInit := true, uvCount := 0, oRdy := true, slErr := false } := by
    unfold prcControl
    rw [if_pos rst]
  refine Sequenced.waiting ?_ ?_ (Or.inr ⟨?_, rfl⟩)
  · show (prcControl s i).uvCount = 0
    rw [control]
  · show (prcControl s i).slErr = false
    rw [control]
  · show (prcControl s i).oRdy = true
    rw [control]

theorem counting_next (fine : s.slErr = false) (running : s.slFinished = false) (clocked : i.iRst = false)
    (quiet : i.iTrg = false) : Sequenced err (edge dsp s i) .dividing false := by
  cases count : s.uvCount.toNat with
  | zero =>
    have zero : s.uvCount = 0 := BitVec.eq_of_toNat_eq count
    obtain ⟨rest, ready⟩ := rest_edge dsp zero fine clocked quiet
    rw [running] at ready
    exact Sequenced.done rest ready
  | succ m =>
    obtain ⟨-, -, -, same, same', unready⟩ := counting_edge dsp clocked quiet count
    exact Sequenced.counting (same'.trans fine) (same.trans running) unready

theorem launched_unready (dsp : Dsp48e) (rest : Rest s) (clocked : i.iRst = false) (trg : i.iTrg = true) :
    (edge dsp s i).oRdy = false := by
  have silenced : s.Silenced := fun failed => Bool.noConfusion (rest.fine.symm.trans failed)
  have pulse := ready_trigger dsp rest.count silenced clocked trg
  rw [rest.finished] at pulse
  refine Bool.eq_false_iff.mpr fun ready => ?_
  cases (pulse.mp ready).1

theorem launched_next (rest : Rest s) (clocked : i.iRst = false) (trg : i.iTrg = true) :
    Sequenced err (edge dsp s i) .dividing false := by
  have loaded := loaded_edge dsp rest.count clocked trg
  exact Sequenced.counting loaded.fine loaded.running (launched_unready dsp rest clocked trg)

theorem sequenced_edge (sequenced : Sequenced err s stage init) (moves : Moves trg s.oRdy stage stage' init')
    (clocked : i.iRst = false) (same : i.iTrg = init) : Sequenced err' (edge dsp s i) stage' init' := by
  cases sequenced with
  | waiting count fine =>
    obtain ⟨rest, -⟩ := rest_edge dsp count fine clocked same
    cases moves with
    | wait => exact Sequenced.waiting rest.count rest.fine (Or.inl rest.finished)
    | start => exact Sequenced.first rest
  | first rest =>
    obtain ⟨still, unready⟩ := over_edge dsp clocked same rest
    cases moves
    exact Sequenced.preparing still unready
  | preparing rest =>
    obtain ⟨still, unready⟩ := over_edge dsp clocked same rest
    cases moves with
    | further => exact Sequenced.preparing still unready
    | launch => exact Sequenced.launched still unready
  | launched rest unready =>
    rw [unready] at moves
    cases moves with
    | divide => exact launched_next rest clocked same
    | again ready => cases ready
    | finish ready => cases ready
  | counting fine running unready =>
    rw [unready] at moves
    cases moves with
    | divide => exact counting_next fine running clocked same
    | again ready => cases ready
    | finish ready => cases ready
  | done rest ready =>
    obtain ⟨still, -⟩ := over_edge dsp clocked same rest
    rw [ready] at moves
    cases moves with
    | divide unready => cases unready
    | again => exact Sequenced.first still
    | finish => exact Sequenced.waiting still.count still.fine (Or.inl still.finished)

theorem Sequenced.ready_left (sequenced : Sequenced err s .waiting init) (clocked : i.iRst = false)
    (quiet : i.iTrg = init) (ready : (edge dsp s i).oRdy = true) : (s.oRdy && !err) = true := by
  cases sequenced with
  | waiting count fine finished =>
    rcases finished with finished | ⟨stays, good⟩
    · obtain ⟨-, pulse⟩ := rest_edge dsp count fine clocked quiet
      rw [finished, ready] at pulse
      cases pulse
    · rw [stays, good]
      rfl

/-! ### Embedding the divider -/

/-- A machine around the divider: what of its state and inputs matters here, and its laws. -/
structure Embedded (dsp : Dsp48e) (W P : Nat) (σ ι : Type) where
  step : σ → ι → σ
  rst : ι → Bool
  trg : ι → Bool
  stage : σ → Stage
  init : σ → Bool
  err : σ → Bool
  nHold : σ → BitVec W
  dHold : σ → BitVec W
  div : σ → Regs W P
  div_step : ∀ s i, div (step s i) = edge dsp (div s) ⟨rst i, nHold s, dHold s, init s⟩
  reset : ∀ s i, rst i = true → stage (step s i) = .waiting ∧ init (step s i) = false ∧ err (step s i) = false
  moves : ∀ s i, rst i = false → (stage s = .waiting → init s = false) →
    Moves (trg i) (div s).oRdy (stage s) (stage (step s i)) (init (step s i))
  fine : ∀ s i, rst i = false → trg i = false → err s = false → err (step s i) = false

namespace Embedded

variable {σ ι : Type} (M : Embedded dsp W P σ ι) {s : σ} {i : ι}

/-- `o_rdy` of the machine. -/
def ready (s : σ) : Bool := (M.div s).oRdy && !M.err s

def Sequenced (s : σ) : Prop := DivFixedpoint.Sequenced (M.err s) (M.div s) (M.stage s) (M.init s)

theorem reset_sequenced (s : σ) (rst : M.rst i = true) : M.Sequenced (M.step s i) := by
  obtain ⟨stage, init, err⟩ := M.reset s i rst
  unfold Sequenced
  rw [stage, init, err, M.div_step]
  exact sequenced_reset rst

theorem moves_sequenced (sequenced : M.Sequenced s) (clocked : M.rst i = false) :
    Moves (M.trg i) (M.div s).oRdy (M.stage s) (M.stage (M.step s i)) (M.init (M.step s i)) := by
  refine M.moves s i clocked fun waiting => ?_
  unfold Sequenced at sequenced
  rw [waiting] at sequenced
  exact sequenced.init_waiting

theorem step_sequenced (i : ι) (sequenced : M.Sequenced s) : M.Sequenced (M.step s i) := by
  cases clocked : M.rst i with
  | true => exact M.reset_sequenced s clocked
  | false =>
    have moves := M.moves_sequenced sequenced clocked
    unfold Sequenced
    rw [M.div_step]
    exact sequenced_edge sequenced moves clocked rfl

theorem sequenced_run (s₀ : σ) {reset : ι} (is : List ι) (rst : M.rst reset = true) :
    M.Sequenced (run M.step s₀ (reset :: is)) :=
  run_keeps (fun _ i sequenced => M.step_sequenced i sequenced) (M.reset_sequenced s₀ rst) is

/-- At the edge of the trigger the ready output can only have stayed high, after a reset. -/
theorem ready_left (sequenced : M.Sequenced s) (waiting : M.stage s = .waiting) (clocked : M.rst i = false)
    (ready : (M.div (M.step s i)).oRdy = true) : M.ready s = true := by
  unfold Sequenced at sequenced
  rw [waiting] at sequenced
  rw [M.div_step] at ready
  exact sequenced.ready_left (i := ⟨M.rst i, M.nHold s, M.dHold s, M.init s⟩) clocked rfl ready

/-- `m` edges after the edge at which the divider was triggered with `n'` and `d'`. -/
structure Dividing (n d : BitVec W) (v : Int) (m : Nat) (s : σ) : Prop where
  stage : M.stage s = .dividing ∨ M.stage s = .waiting
  init : M.init s = false
  unready : m = 0 → (M.div s).oRdy = false
  phase : Phase n d v (M.div s) m

variable {n d : BitVec W} {v : Int} {m : Nat}

theorem rest_launched (sequenced : M.Sequenced s) (dividing : M.stage s = .dividing) (init : M.init s = true) :
    Rest (M.div s) ∧ (M.div s).oRdy = false := by
  unfold Sequenced at sequenced
  rw [dividing, init] at sequenced
  exact sequenced.rest_launched

/-- While the operands are prepared, or the divider is triggered, it is not ready: it is too early. -/
theorem preparing_early {length : Nat} (sequenced : M.Sequenced s) (preparing : M.stage s = .preparing)
    (early : m ≠ length) : (M.div s).oRdy = true ↔ m = length := by
  unfold Sequenced at sequenced
  rw [preparing] at sequenced
  rw [sequenced.unready_preparing]
  exact iff_of_false Bool.false_ne_true early

theorem launched_early {length : Nat} (sequenced : M.Sequenced s) (dividing : M.stage s = .dividing)
    (init : M.init s = true) (early : m ≠ length) : (M.div s).oRdy = true ↔ m = length := by
  rw [(M.rest_launched sequenced dividing init).2]
  exact iff_of_false Bool.false_ne_true early

/-- A machine that divides goes on or waits, unless it is triggered. -/
theorem stage_quiet (sequenced : M.Sequenced s) (stage : M.stage s = .dividing ∨ M.stage s = .waiting)
    (clocked : M.rst i = false) (quiet : M.trg i = false) :
    (M.stage (M.step s i) = .dividing ∨ M.stage (M.step s i) = .waiting) ∧ M.init (M.step s i) = false := by
  have moves := M.moves_sequenced sequenced clocked
  rw [quiet] at moves
  generalize M.stage (M.step s i) = stage' at *
  generalize M.init (M.step s i) = init' at *
  rcases stage with stage | stage
  · rw [stage] at moves
    cases moves with
    | divide => exact ⟨Or.inl rfl, rfl⟩
    | again ready triggered => cases triggered
    | finish => exact ⟨Or.inr rfl, rfl⟩
  · rw [stage] at moves
    cases moves with
    | wait => exact ⟨Or.inr rfl, rfl⟩
    | start triggered => cases triggered

theorem launch (sequenced : M.Sequenced s) (dividing : M.stage s = .dividing) (init : M.init s = true)
    (clocked : M.rst i = false) (quiet : M.trg i = false) (v : Int) :
    M.Dividing (M.nHold s) (M.dHold s) v 0 (M.step s i) := by
  obtain ⟨rest, -⟩ := M.rest_launched sequenced dividing init
  obtain ⟨stage, still⟩ := M.stage_quiet sequenced (Or.inl dividing) clocked quiet
  refine ⟨stage, still, fun _ => ?_, Phase.loaded ?_⟩
  · rw [M.div_step]
    exact launched_unready dsp rest clocked init
  · rw [M.div_step]
    exact loaded_edge (i := ⟨M.rst i, M.nHold s, M.dHold s, M.init s⟩) dsp rest.count clocked init

theorem Dividing.next {M : Embedded dsp W P σ ι} (wide : W ≤ 48) (precise : P < 48) (divides : Divides n d v)
    (sequenced : M.Sequenced s) (dividing : M.Dividing n d v m s) (clocked : M.rst i = false) (quiet : M.trg i = false) :
    M.Dividing n d v (m + 1) (M.step s i) := by
  obtain ⟨stage, init⟩ := M.stage_quiet sequenced dividing.stage clocked quiet
  refine ⟨stage, init, fun zero => absurd zero (Nat.succ_ne_zero m), ?_⟩
  rw [M.div_step]
  exact phase_edge wide precise divides clocked dividing.init dividing.phase

theorem Dividing.ready_iff {M : Embedded dsp W P σ ι} (dividing : M.Dividing n d v m s) :
    (M.div s).oRdy = true ↔ m = P + 2 := by
  cases m with
  | zero =>
    rw [dividing.unready rfl]
    exact iff_of_false Bool.false_ne_true (by omega)
  | succ m => exact dividing.phase.ready_iff (Nat.succ_pos m)

/-- Without a trigger, what each edge keeps is kept, and there is no error. -/
theorem run_quiet {A : Nat → σ → Prop} {is : List ι}
    (keep : ∀ s i m, M.Sequenced s → M.rst i = false → M.trg i = false → A m s → A (m + 1) (M.step s i))
    (sequenced : M.Sequenced s) (fine : M.err s = false) (start : A m s)
    (quiet : ∀ i ∈ is, M.rst i = false ∧ M.trg i = false) :
    M.Sequenced (run M.step s is) ∧ M.err (run M.step s is) = false ∧ A (m + is.length) (run M.step s is) := by
  induction is generalizing s m with
  | nil => exact ⟨sequenced, fine, start⟩
  | cons i rest ih =>
    obtain ⟨⟨clocked, silent⟩, others⟩ := List.forall_mem_cons.mp quiet
    rw [run_cons, List.length_cons, Nat.add_comm rest.length, ← Nat.add_assoc]
    exact ih (M.step_sequenced i sequenced) (M.fine s i clocked silent fine) (keep s i m sequenced clocked silent start)
      others

/-- From a reset to the trigger and `length` quiet edges on: the output rises after the edge that the
divider needs, and after no other one. -/
theorem answered {A : Nat → σ → Prop} {length : Nat} (s₀ : σ) {reset trigger : ι} {before after : List ι}
    (rst : M.rst reset = true)
    (keep : ∀ s i m, M.Sequenced s → M.rst i = false → M.trg i = false → A m s → A (m + 1) (M.step s i))
    (known : ∀ s m, M.Sequenced s → A m s → 0 < m → ((M.div s).oRdy = true ↔ m = length)) (positive : 0 < length) :
    let idle := run M.step s₀ (reset :: before)
    let now := run M.step s₀ (reset :: before ++ trigger :: after)
    M.stage idle = .waiting → M.rst trigger = false → A 0 (M.step idle trigger) → M.err (M.step idle trigger) = false →
      (∀ i ∈ after, M.rst i = false ∧ M.trg i = false) →
      A after.length now ∧ (M.ready now = true → after.length = length ∨ after = [] ∧ M.ready idle = true) ∧
        (after.length = length → M.ready now = true) := by
  intro idle now waiting clocked start fine quiet
  have sequenced : M.Sequenced idle := M.sequenced_run s₀ before rst
  obtain ⟨sequenced', fine', later⟩ := M.run_quiet keep (M.step_sequenced trigger sequenced) fine start quiet
  have steps : now = run M.step (M.step idle trigger) after := run_append (reset :: before) (trigger :: after)
  rw [← steps] at sequenced' fine' later
  rw [Nat.zero_add] at later
  have shown : M.ready now = (M.div now).oRdy := by
    unfold ready
    rw [fine', Bool.not_false, Bool.and_true]
  rw [shown]
  refine ⟨later, ?_, fun done => (known now _ sequenced' later (by omega)).mpr done⟩
  intro high
  cases after with
  | nil =>
    rw [steps, run_nil] at high
    exact Or.inr ⟨rfl, M.ready_left sequenced waiting clocked high⟩
  | cons i rest => exact Or.inl ((known now _ sequenced' later (Nat.succ_pos _)).mp high)

end Embedded

end BpmAcquisition.DivFixedpoint
