import BpmAcquisition.Hardware.WriteStream

/-!
# The start of a capture

`capture_ctl_i` goes through three registers before `start_acq_trig` sees its bit 21 rise. The
states are followed from one capture to the next: at rest, armed by a zero, triggered by a one,
and loaded.
-/

namespace BpmAcquisition.DmaIf

open Machine

variable {n c : Nat} {s : DataSide n c} {i : DataIn n}

/-- No capture runs and the command has been at `level` for as long as the detector looks back. -/
structure Resting (level : Bool) (s : DataSide n c) : Prop where
  idle : s.capturing = false
  trig : s.startAcqTrig = false
  regs : s.startAcqReg0 = level ∧ s.startAcqReg1 = level ∧ s.startAcqReg2 = level

/-- The detector has seen a zero and nothing rises behind it. -/
structure Armed (s : DataSide n c) : Prop where
  idle : s.capturing = false
  trig : s.startAcqTrig = false
  low : s.startAcqReg0 = false
  falling : s.startAcqReg1 = true → s.startAcqReg2 = true

structure Triggered (s : DataSide n c) : Prop where
  idle : s.capturing = false
  trig : s.startAcqTrig = true
  high : s.startAcqReg0 = true ∧ s.startAcqReg1 = true ∧ s.startAcqReg2 = true

structure Loaded (s : DataSide n c) : Prop where
  trig : s.startAcqTrig = false
  high : s.startAcqReg0 = true ∧ s.startAcqReg1 = true ∧ s.startAcqReg2 = true

def Commands (level : Bool) (i : DataIn n) : Prop := Clocked i ∧ startAcq i.captureCtlI = level

theorem reset_resting (s : DataSide n c) (rst : i.dataClkRst = true) : Resting false (dataEdge s i) := by
  refine ⟨?_, ?_, ?_⟩
  · simp [DataSide.capturing, dataEdge, pSamplesCounter, rst]
  · simp [dataEdge, rst]
  · simp [dataEdge, rst]

theorem idle_step (clocked : Clocked i) (idle : s.capturing = false) (trig : s.startAcqTrig = false) :
    (dataEdge s i).capturing = false := ended_step ⟨clocked, trig⟩ idle

theorem resting_step {level : Bool} (resting : Resting level s) (command : Commands level i) :
    Resting level (dataEdge s i) := by
  obtain ⟨idle, trig, reg0, reg1, reg2⟩ := resting
  refine ⟨idle_step command.1 idle trig, ?_, ?_⟩
  · simp [dataEdge, reg1, reg2]
  · simp [dataEdge, command.1, command.2, reg0, reg1]

theorem resting_run {level : Bool} {is : List (DataIn n)} (resting : Resting level s)
    (commands : ∀ i ∈ is, Commands level i) :
    Along dataEdge NoTrigger s is ∧ Resting level (run dataEdge s is) := by
  have along : Along dataEdge (fun _ i => Commands level i) s is := along_of_inputs commands
  have keep : ∀ (s : DataSide n c) i, Resting level s → Commands level i → Resting level (dataEdge s i) :=
    fun _ _ => resting_step
  exact ⟨along_invariant keep (fun _ _ resting command => ⟨command.1, resting.trig⟩) resting along,
    run_invariant keep resting along⟩

theorem Resting.armed (resting : Resting false s) : Armed s := by
  obtain ⟨idle, trig, reg0, reg1, reg2⟩ := resting
  exact ⟨idle, trig, reg0, fun risen => absurd (reg1.symm.trans risen) Bool.false_ne_true⟩

theorem arm_step {level : Bool} (resting : Resting level s) (low : Commands false i) : Armed (dataEdge s i) := by
  obtain ⟨idle, trig, reg0, reg1, reg2⟩ := resting
  refine ⟨idle_step low.1 idle trig, ?_, ?_, ?_⟩
  · simp [dataEdge, reg1, reg2]
  · simp [dataEdge, low.2]
  · simp [dataEdge, low.1, reg0, reg1]

theorem armed_step (armed : Armed s) (low : Commands false i) : Armed (dataEdge s i) := by
  obtain ⟨idle, trig, still, falling⟩ := armed
  refine ⟨idle_step low.1 idle trig, ?_, ?_, ?_⟩
  · cases reg1 : s.startAcqReg1 with
    | false => simp [dataEdge, reg1]
    | true => simp [dataEdge, falling reg1]
  · simp [dataEdge, low.2]
  · simp [dataEdge, still]

theorem rest_run {level : Bool} {is : List (DataIn n)} (resting : Resting level s)
    (low : ∀ i ∈ is, Commands false i) :
    Along dataEdge NoTrigger s is ∧ (Armed (run dataEdge s is) ∨ is = [] ∧ level = true) := by
  cases is with
  | nil =>
    cases level with
    | false => exact ⟨trivial, Or.inl resting.armed⟩
    | true => exact ⟨trivial, Or.inr ⟨rfl, rfl⟩⟩
  | cons i rest =>
    have first := low i List.mem_cons_self
    have armed := arm_step resting first
    have along : Along dataEdge (fun _ i => Commands false i) (dataEdge s i) rest :=
      along_of_inputs fun j member => low j (List.mem_cons_of_mem i member)
    have keep : ∀ (s : DataSide n c) i, Armed s → Commands false i → Armed (dataEdge s i) := fun _ _ => armed_step
    refine ⟨⟨⟨first.1, resting.trig⟩, ?_⟩, Or.inl ?_⟩
    · exact along_invariant keep (fun _ _ armed low => ⟨low.1, armed.trig⟩) armed along
    · rw [run_cons]
      exact run_invariant keep armed along

theorem trigger_run {i₁ i₂ i₃ : DataIn n} (armed : Armed s) (first : Commands true i₁) (second : Commands true i₂)
    (third : Commands true i₃) :
    Along dataEdge NoTrigger s [i₁, i₂, i₃] ∧ Triggered (run dataEdge s [i₁, i₂, i₃]) := by
  obtain ⟨idle, trig, still, falling⟩ := armed
  have trig₁ : (dataEdge s i₁).startAcqTrig = false := by
    cases reg1 : s.startAcqReg1 with
    | false => simp [dataEdge, reg1]
    | true => simp [dataEdge, falling reg1]
  have trig₂ : (dataEdge (dataEdge s i₁) i₂).startAcqTrig = false := by simp [dataEdge, still]
  have idle₁ := idle_step first.1 idle trig
  have idle₂ := idle_step second.1 idle₁ trig₁
  have idle₃ := idle_step third.1 idle₂ trig₂
  refine ⟨⟨⟨first.1, trig⟩, ⟨second.1, trig₁⟩, ⟨third.1, trig₂⟩, trivial⟩, idle₃, ?_, ?_⟩
  · simp [dataEdge, first.1, first.2, second.1, third.1, still]
  · simp [dataEdge, first.1, first.2, second.1, second.2, third.1, third.2]

theorem load_step (triggered : Triggered s) (high : Commands true i) :
    (dataEdge s i).Left (loadCount i).toNat ∧ Loaded (dataEdge s i) := by
  obtain ⟨idle, trig, reg0, reg1, reg2⟩ := triggered
  refine ⟨left_load s high.1 idle trig, ?_, ?_⟩
  · simp [dataEdge, reg2]
  · simp [dataEdge, high.1, high.2, reg0, reg1]

theorem loaded_step (loaded : Loaded s) (high : Commands true i) : Loaded (dataEdge s i) := by
  obtain ⟨trig, reg0, reg1, reg2⟩ := loaded
  refine ⟨?_, ?_⟩
  · simp [dataEdge, reg2]
  · simp [dataEdge, high.1, high.2, reg0, reg1]

theorem loaded_run {is : List (DataIn n)} (loaded : Loaded s) (high : ∀ i ∈ is, Commands true i) :
    Along dataEdge NoTrigger s is ∧ Loaded (run dataEdge s is) := by
  have along : Along dataEdge (fun _ i => Commands true i) s is := along_of_inputs high
  have keep : ∀ (s : DataSide n c) i, Loaded s → Commands true i → Loaded (dataEdge s i) := fun _ _ => loaded_step
  exact ⟨along_invariant keep (fun _ _ loaded high => ⟨high.1, loaded.trig⟩) loaded along,
    run_invariant keep loaded along⟩

/-- Where the trigger comes, it comes once: at the fourth edge of the command. -/
theorem start_run {level : Bool} {low high : List (DataIn n)} (resting : Resting level s)
    (lows : ∀ i ∈ low, Commands false i) (highs : ∀ i ∈ high, Commands true i)
    (started : ¬ Along dataEdge NoTrigger s (low ++ high)) :
    ∃ before load rest, low ++ high = before ++ load :: rest ∧ load ∈ high ∧
      Along dataEdge NoTrigger s before ∧ Triggered (run dataEdge s before) ∧
      Along dataEdge NoTrigger (dataEdge (run dataEdge s before) load) rest ∧
      Loaded (run dataEdge s (low ++ high)) := by
  obtain ⟨quiet, armed | ⟨rfl, rfl⟩⟩ := rest_run resting lows
  · rw [along_append] at started
    match high with
    | [] => exact absurd ⟨quiet, trivial⟩ started
    | [i₁] =>
      have first := highs i₁ (by simp)
      obtain ⟨rising, -⟩ := trigger_run armed first first first
      exact absurd ⟨quiet, rising.1, trivial⟩ started
    | [i₁, i₂] =>
      have first := highs i₁ (by simp)
      have second := highs i₂ (by simp)
      obtain ⟨rising, -⟩ := trigger_run armed first second second
      exact absurd ⟨quiet, rising.1, rising.2.1, trivial⟩ started
    | [i₁, i₂, i₃] =>
      obtain ⟨rising, -⟩ := trigger_run armed (highs i₁ (by simp)) (highs i₂ (by simp)) (highs i₃ (by simp))
      exact absurd ⟨quiet, rising⟩ started
    | i₁ :: i₂ :: i₃ :: load :: rest =>
      simp only [List.forall_mem_cons] at highs
      obtain ⟨first, second, third, fourth, others⟩ := highs
      obtain ⟨rising, triggered⟩ := trigger_run armed first second third
      obtain ⟨-, loaded⟩ := load_step triggered fourth
      obtain ⟨still, stays⟩ := loaded_run loaded others
      have split : low ++ i₁ :: i₂ :: i₃ :: load :: rest = (low ++ [i₁, i₂, i₃]) ++ load :: rest := by simp
      refine ⟨low ++ [i₁, i₂, i₃], load, rest, split, by simp, (along_append _ _).mpr ⟨quiet, rising⟩, ?_, ?_, ?_⟩
      · rw [run_append]
        exact triggered
      · rw [run_append]
        exact still
      · rw [split, run_append, run_append]
        exact stays
  · -- The command has been high all the time.
    exact absurd (loaded_run ⟨resting.trig, resting.regs⟩ highs).1 started

theorem Loaded.resting (loaded : Loaded s) (idle : s.capturing = false) : Resting true s :=
  ⟨idle, loaded.trig, loaded.high⟩

end BpmAcquisition.DmaIf
