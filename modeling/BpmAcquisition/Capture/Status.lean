import BpmAcquisition.Capture.Size
import BpmAcquisition.Hardware.StatusRegister

/-!
# The overflow bit over a history of captures

`capture_samples` clears the STATUS register before it starts a capture, and `dma_if` clears
its overflow counter when the capture starts, so that the level of the capture before is still
there when the bit is cleared. `overflow_bit_exact` says for every history in which of its
captures the bit tells whether that capture overflowed.
-/

namespace BpmAcquisition.Capture

open Machine DmaIf Server UserLogic

variable {n c : Nat}

/-! ### One capture on the data side -/

theorem idle_lossless {s : DataSide n c} {is : List (DataIn n)} (idle : s.capturing = false)
    (quiet : Along dataEdge NoTrigger s is) : Along dataEdge NoOverflow s is := by
  have keep : ∀ (s : DataSide n c) i, s.capturing = false → NoTrigger s i → (dataEdge s i).capturing = false :=
    fun _ _ idle quiet => ended_step quiet idle
  have none : ∀ (s : DataSide n c) i, s.capturing = false → NoTrigger s i → NoOverflow s i := by
    intro s i idle _
    simp [NoOverflow, sFifoOvf, idle]
  exact along_invariant keep none idle quiet

/-- Whatever the level was before, after a capture it tells whether the capture overflowed. -/
theorem capture_overflow {s : DataSide n c} {level : Bool} {hold low high : List (DataIn n)}
    (resting : Resting level s) (holds : ∀ i ∈ hold, Commands level i) (lows : ∀ i ∈ low, Commands false i)
    (highs : ∀ i ∈ high, Commands true i) (started : ¬ Along dataEdge NoTrigger s (hold ++ (low ++ high))) :
    ((run dataEdge s (hold ++ (low ++ high))).dmaOvfO = false ↔
        Along dataEdge NoOverflow s (hold ++ (low ++ high))) ∧
      Loaded (run dataEdge s (hold ++ (low ++ high))) := by
  obtain ⟨still, rested⟩ := resting_run resting holds
  rw [along_append] at started
  have starts : ¬ Along dataEdge NoTrigger (run dataEdge s hold) (low ++ high) := fun quiet => started ⟨still, quiet⟩
  obtain ⟨before, load, rest, split, -, quiet, triggered, after, loaded⟩ := start_run rested lows highs starts
  rw [run_append, along_append]
  rw [split] at loaded ⊢
  refine ⟨?_, loaded⟩
  have none : NoOverflow (run dataEdge (run dataEdge s hold) before) load := by
    simp [NoOverflow, sFifoOvf, triggered.idle]
  rw [run_append, run_cons, ovf_run after, along_append, along_cons]
  constructor
  · rintro ⟨-, lossless⟩
    exact ⟨idle_lossless resting.idle still, idle_lossless rested.idle quiet, none, lossless⟩
  · rintro ⟨-, -, -, lossless⟩
    exact ⟨ovf_load _ triggered.trig, lossless⟩

/-! ### The level and the bit between two captures -/

section
variable {map : RegisterMap} {s : Pcore n c} {e : ClockEdge n} {es : List (ClockEdge n)}

/-- The edge's sample, if it has one, does not overflow. -/
def Lossless (s : Pcore n c) (e : ClockEdge n) : Prop := ∀ i ∈ dataInputs s e, NoOverflow s.data i

def Untriggered (s : Pcore n c) (e : ClockEdge n) : Prop := ∀ i ∈ dataInputs s e, NoTrigger s.data i

theorem output_clean (lossless : Lossless s e) (low : s.data.dmaOvfO = false) :
    (tick map s e).data.dmaOvfO = false := by
  cases e with
  | bus i => exact low
  | data i =>
    have none := lossless (s.dataIn i) (by simp [dataInputs])
    show (dataEdge s.data (s.dataIn i)).dmaOvfO = false
    cases trig : s.data.startAcqTrig with
    | true => exact ovf_load s.data trig
    | false => rw [ovf_step trig, low, none, Bool.or_false]

theorem output_held (quiet : Untriggered s e) (high : s.data.dmaOvfO = true) :
    (tick map s e).data.dmaOvfO = true := by
  cases e with
  | bus i => exact high
  | data i =>
    have calm := quiet (s.dataIn i) (by simp [dataInputs])
    show (dataEdge s.data (s.dataIn i)).dmaOvfO = true
    rw [ovf_step calm.2, high, Bool.true_or]

theorem high_run (held : Level true s) (noReset : ∀ e ∈ es, e.NoReset)
    (quiet : Along (tick map) Untriggered s es) : Level true (run (tick map) s es) := by
  have both := along_and quiet (along_of_inputs noReset)
  exact run_invariant (fun s e held ok => level_step held ok.2 (output_held ok.1 held.output)) held both

theorem low_run (low : Level false s) (noReset : ∀ e ∈ es, e.NoReset)
    (lossless : Along (tick map) Lossless s es) : Level false (run (tick map) s es) := by
  have both := along_and lossless (along_of_inputs noReset)
  exact run_invariant (fun s e low ok => level_step low ok.2 (output_clean ok.1 low.output)) low both

theorem clean_run (low : Level false s) (clear : s.bus.synch.dmaOvfSynchGlue = false)
    (noReset : ∀ e ∈ es, e.NoReset) (lossless : Along (tick map) Lossless s es) :
    (run (tick map) s es).bus.synch.dmaOvfSynchGlue = false := by
  have both := along_and lossless (along_of_inputs noReset)
  have keep : ∀ (s : Pcore n c) e, Level false s ∧ s.bus.synch.dmaOvfSynchGlue = false →
      Lossless s e ∧ e.NoReset →
      Level false (tick map s e) ∧ (tick map s e).bus.synch.dmaOvfSynchGlue = false := by
    rintro s e ⟨low, clear⟩ ⟨lossless, noReset⟩
    exact ⟨level_step low noReset (output_clean lossless low.output), glue_clean noReset low clear⟩
  exact (run_invariant keep ⟨low, clear⟩ both).2

theorem held_run (set : s.bus.synch.dmaOvfSynchGlue = true) (noReset : ∀ e ∈ es, e.NoReset)
    (other : ∀ e ∈ es, ∀ value, e.write map ≠ some (.status, value)) :
    (run (tick map) s es).bus.synch.dmaOvfSynchGlue = true := by
  have both : ∀ e ∈ es, e.NoReset ∧ ∀ value, e.write map ≠ some (.status, value) :=
    fun e member => ⟨noReset e member, other e member⟩
  have keep : ∀ (s : Pcore n c) e, s.bus.synch.dmaOvfSynchGlue = true →
      (e.NoReset ∧ ∀ value, e.write map ≠ some (.status, value)) → (tick map s e).bus.synch.dmaOvfSynchGlue = true :=
    fun _ _ set ok => glue_held ok.1 ok.2 set
  exact run_invariant keep set (along_of_inputs both)

end

/-! ### One capture -/

def registers : Channel → RegisterMap
  | .adc => fmc150
  | .ddc => bpmDdc

def coreBase : Channel → UInt32
  | .adc => fmc150Baseaddr
  | .ddc => bpmDdcBaseaddr

def address (ch : Channel) : Register → UInt32
  | .samples => coreBase ch + UInt32.ofNat (registers ch).samplesReg * 4
  | .status => coreBase ch + UInt32.ofNat (registers ch).statusReg * 4

def coreWrite (ch : Channel) : Effect → Option (Register × BitVec 32)
  | .out32 addr value =>
    if addr = address ch .samples then some (.samples, value.toBitVec)
    else if addr = address ch .status then some (.status, value.toBitVec)
    else none
  | _ => none

def reads (ch : Channel) (s : Pcore n c) (es : List (ClockEdge n)) : List (DataIn n) :=
  trace (tick (registers ch)) dataInputs s es

def Raised (ch : Channel) (s : Pcore n c) (es : List (ClockEdge n)) : Prop :=
  ¬ Along dataEdge NoOverflow s.data (reads ch s es)

/-- A capture that `capture_samples` starts, until it is over and the synchroniser has settled:
the bus writes the registers as the software does, and the trigger comes. -/
structure CaptureRound (ch : Channel) (s : Pcore n c) (es : List (ClockEdge n)) : Prop where
  noReset : ∀ e ∈ es, e.NoReset
  software : ∃ drv qwCount b, (captureSamples drv qwCount ch b).1 = success ∧
    es.filterMap (ClockEdge.write (registers ch)) = (startEffects drv qwCount ch b).filterMap (coreWrite ch)
  started : ¬ Along dataEdge NoTrigger s.data (reads ch s es)
  ended : (run (tick (registers ch)) s es).data.capturing = false
  settled : Settled (run (tick (registers ch)) s es)

/-- Between two captures. -/
structure Ready (s : Pcore n c) : Prop where
  resting : Resting (startAcq s.bus.samplesReg) s.data
  settled : Settled s

section
variable {ch : Channel} {s : Pcore n c} {es : List (ClockEdge n)} {map : RegisterMap}

theorem coreWrites_eq {drv : Driver} {qwCount : UInt32} {b : Board}
    (agreed : (captureSamples drv qwCount ch b).1 = success) :
    (startEffects drv qwCount ch b).filterMap (coreWrite ch) =
      [(.status, 0), (.samples, 0), (.samples, (ch.captureCtl qwCount).toBitVec)] := by
  have status : ch.statusAddr = address ch .status := by cases ch <;> decide
  have samples : ch.baseaddr = address ch .samples := by cases ch <;> decide
  have apart : address ch .status ≠ address ch .samples := by cases ch <;> decide
  rw [startEffects_eq agreed, status, samples]
  simp [List.filterMap_cons, coreWrite, apart]

theorem round_split {value : BitVec 32} (high : startAcq value = true) (noReset : ∀ e ∈ es, e.NoReset)
    (writes : es.filterMap (ClockEdge.write map) = [(.status, 0), (.samples, 0), (.samples, value)]) :
    ∃ gap clear rest hold low up, es = gap ++ clear :: rest ∧ clear.write map = some (.status, 0) ∧
      (∀ e ∈ gap, e.write map = none) ∧ (∀ e ∈ rest, ∀ value, e.write map ≠ some (.status, value)) ∧
      trace (tick map) dataInputs s es = hold ++ (low ++ up) ∧
      (∀ i ∈ hold, Commands (startAcq s.bus.samplesReg) i) ∧ (∀ i ∈ low, Commands false i) ∧
      (∀ i ∈ up, Commands true i) ∧ startAcq (run (tick map) s es).bus.samplesReg = true := by
  obtain ⟨gap₀, clear, rest, rfl, none₀, write₀, writes⟩ := List.filterMap_eq_cons_iff.mp writes
  obtain ⟨gap₁, zero, rest, rfl, none₁, write₁, writes⟩ := List.filterMap_eq_cons_iff.mp writes
  obtain ⟨gap₂, start, gap₃, rfl, none₂, write₂, writes⟩ := List.filterMap_eq_cons_iff.mp writes
  have none₃ := List.filterMap_eq_nil_iff.mp writes
  obtain ⟨s₁, run₁, reads₁, hold₁, samples₁⟩ := gap_write s noReset none₀ write₀
  have noReset₁ := (List.forall_mem_cons.mp (List.forall_mem_append.mp noReset).2).2
  obtain ⟨s₂, run₂, reads₂, hold₂, samples₂⟩ := gap_write s₁ noReset₁ none₁ write₁
  have noReset₂ := (List.forall_mem_cons.mp (List.forall_mem_append.mp noReset₁).2).2
  obtain ⟨s₃, run₃, reads₃, low, samples₃⟩ := gap_write s₂ noReset₂ none₂ write₂
  have noReset₃ := (List.forall_mem_cons.mp (List.forall_mem_append.mp noReset₂).2).2
  obtain ⟨samples₄, up⟩ := idle_inputs (s := s₃) noReset₃ none₃
  simp only [reduceCtorEq, if_false, if_true] at samples₁ samples₂ samples₃
  rw [samples₁] at hold₂
  rw [samples₂] at low
  rw [samples₃] at up samples₄
  refine ⟨gap₀, clear, _, trace (tick map) dataInputs s gap₀ ++ trace (tick map) dataInputs s₁ gap₁,
    trace (tick map) dataInputs s₂ gap₂, trace (tick map) dataInputs s₃ gap₃, rfl, write₀, none₀, ?_, ?_, ?_, ?_, ?_, ?_⟩
  · intro e member value' same
    simp only [List.mem_append, List.mem_cons] at member
    rcases member with gap | rfl | gap | rfl | gap
    · simp [none₁ e gap] at same
    · simp [write₁] at same
    · simp [none₂ e gap] at same
    · simp [write₂] at same
    · simp [none₃ e gap] at same
  · rw [reads₁, reads₂, reads₃, ← List.append_assoc]
  · refine List.forall_mem_append.mpr ⟨fun i member => ?_, fun i member => ?_⟩
    · obtain ⟨clocked, command⟩ := hold₁ i member
      exact ⟨clocked, congrArg startAcq command⟩
    · obtain ⟨clocked, command⟩ := hold₂ i member
      exact ⟨clocked, congrArg startAcq command⟩
  · intro i member
    obtain ⟨clocked, command⟩ := low i member
    refine ⟨clocked, ?_⟩
    rw [command]
    rfl
  · intro i member
    obtain ⟨clocked, command⟩ := up i member
    exact ⟨clocked, command ▸ high⟩
  · rw [run₁, run₂, run₃, samples₄]
    exact high

theorem glue_after_clear {gap rest : List (ClockEdge n)} {clear : ClockEdge n} (settled : Settled s)
    (noReset : ∀ e ∈ gap ++ clear :: rest, e.NoReset) (write : clear.write map = some (.status, 0))
    (other : ∀ e ∈ rest, ∀ value, e.write map ≠ some (.status, value))
    (quiet : Along (tick map) Untriggered s gap) :
    (s.data.dmaOvfO = true →
        (run (tick map) s (gap ++ clear :: rest)).bus.synch.dmaOvfSynchGlue = true) ∧
      (s.data.dmaOvfO = false → Along (tick map) Lossless s (gap ++ clear :: rest) →
        (run (tick map) s (gap ++ clear :: rest)).bus.synch.dmaOvfSynchGlue = false) := by
  simp only [List.forall_mem_append, List.forall_mem_cons] at noReset
  obtain ⟨before, clocked, after⟩ := noReset
  rw [run_append, run_cons, along_append, along_cons]
  refine ⟨fun high => ?_, fun low lossless => ?_⟩
  · have held := high_run (settled.level high) before quiet
    exact held_run (glue_written clocked held write) after other
  · have held := low_run (settled.level low) before lossless.1
    have cleared := glue_written clocked held write
    exact clean_run (level_step held clocked (output_clean lossless.2.1 held.output)) cleared after lossless.2.2

/-- After a capture the level tells whether it overflowed, and the bit tells whether it did or
the level was high when software cleared the bit. -/
theorem round_bit (ready : Ready s) (round : CaptureRound ch s es) :
    Ready (run (tick (registers ch)) s es) ∧
      ((run (tick (registers ch)) s es).data.dmaOvfO = true ↔ Raised ch s es) ∧
      ((run (tick (registers ch)) s es).bus.dmaOvfBit = true ↔ Raised ch s es ∨ s.data.dmaOvfO = true) := by
  obtain ⟨noReset, ⟨drv, qwCount, b, agreed, writes⟩, started, ended, settled⟩ := round
  rw [coreWrites_eq agreed] at writes
  obtain ⟨gap, clear, rest, hold, low, up, split, write, none, other, inputs, holds, lows, highs, command⟩ :=
    round_split captureCtl_start noReset writes
  unfold Raised reads at *
  rw [inputs] at started
  obtain ⟨level, loaded⟩ := capture_overflow ready.resting holds lows highs started
  rw [← inputs, ← run_data] at level loaded
  have after : (run (tick (registers ch)) s es).data.dmaOvfO = true ↔
      ¬ Along dataEdge NoOverflow s.data (trace (tick (registers ch)) dataInputs s es) := by
    rw [← level, Bool.not_eq_false]
  refine ⟨⟨?_, settled⟩, after, ?_⟩
  · rw [command]
    exact loaded.resting ended
  · have gapReset := (List.forall_mem_append.mp (split ▸ noReset)).1
    obtain ⟨-, gapReads⟩ := idle_inputs (s := s) gapReset none
    obtain ⟨quiet, -⟩ := resting_run ready.resting fun i member =>
      ⟨(gapReads i member).1, congrArg startAcq (gapReads i member).2⟩
    obtain ⟨again, gone⟩ := glue_after_clear ready.settled (split ▸ noReset) write other (along_data.mpr quiet)
    rw [← split] at again gone
    rw [settled.bit, ← after]
    constructor
    · intro set
      by_cases raised : (run (tick (registers ch)) s es).data.dmaOvfO = true
      · exact Or.inl raised
      · apply Or.inr
        apply eq_true_of_ne_false
        intro low
        have lossless := along_data.mpr (level.mp (eq_false_of_ne_true raised))
        exact absurd ((gone low lossless).symm.trans set) Bool.false_ne_true
    · rintro (raised | high)
      · exact settled.glue raised
      · exact again high

end

/-! ### Every history -/

/-- The bit is set exactly if this capture overflowed. -/
def BitTells (ch : Channel) (s : Pcore n c) (es : List (ClockEdge n)) : Prop :=
  (run (tick (registers ch)) s es).bus.dmaOvfBit = true ↔ Raised ch s es

/-- The capture overflows, or `dma_ovf_o` is low when it is asked for. -/
def LevelLow (ch : Channel) (s : Pcore n c) (es : List (ClockEdge n)) : Prop :=
  Raised ch s es ∨ s.data.dmaOvfO = false

theorem powerUp_ready : Ready (Pcore.powerUp : Pcore n c) := by
  have low : (Pcore.powerUp : Pcore n c).data.dmaOvfO = false := by simp [DataSide.dmaOvfO, Pcore.powerUp, DataSide.powerUp]
  have command : startAcq (Pcore.powerUp : Pcore n c).bus.samplesReg = false := by
    simp [startAcq, Pcore.powerUp, BusSide.reset]
  have idle : (Pcore.powerUp : Pcore n c).data.capturing = false := by
    simp [DataSide.capturing, Pcore.powerUp, DataSide.powerUp]
  refine ⟨?_, ⟨low.symm, low.symm, low.symm, ?_, rfl⟩⟩
  · rw [command]
    exact ⟨idle, rfl, rfl, rfl, rfl⟩
  · intro high
    exact absurd (low.symm.trans high) Bool.false_ne_true

/-- For every history of captures from power-up, with any interleaving of the two clocks: after
each capture `dma_ovf_o` tells whether it overflowed, and the bit does after all of them exactly
if every capture that does not overflow is asked for while `dma_ovf_o` is low, that is after
one that did not overflow either. -/
theorem overflow_bit_exact {ch : Channel} {rounds : List (List (ClockEdge n))}
    (history : Along (run (tick (registers ch))) (CaptureRound ch) (Pcore.powerUp : Pcore n c) rounds) :
    Along (run (tick (registers ch)))
        (fun s es => (run (tick (registers ch)) s es).data.dmaOvfO = true ↔ Raised ch s es)
        (Pcore.powerUp : Pcore n c) rounds ∧
      (Along (run (tick (registers ch))) (BitTells ch) (Pcore.powerUp : Pcore n c) rounds ↔
        Along (run (tick (registers ch))) (LevelLow ch) (Pcore.powerUp : Pcore n c) rounds) := by
  have keep : ∀ (s : Pcore n c) es, Ready s → CaptureRound ch s es → Ready (run (tick (registers ch)) s es) :=
    fun _ _ ready round => (round_bit ready round).1
  refine ⟨?_, ?_⟩
  · exact along_invariant keep (fun _ _ ready round => (round_bit ready round).2.1) powerUp_ready history
  · refine along_iff keep (fun s es ready round => ?_) powerUp_ready history
    obtain ⟨-, -, bit⟩ := round_bit ready round
    unfold BitTells LevelLow
    rw [bit]
    cases s.data.dmaOvfO <;> simp

def adcWrite (index : Nat) (value : BitVec 32) : ClockEdge 32 :=
  .bus { busRegWriteSel := select index, bus2IpData := value }

def adcSample (full : Bool) : ClockEdge 32 := .data { dataI := 0, dataValidI := true, captureCtlI := 0, fifoFull := full }

/-- A capture of one word, which meets a full FIFO first or not. -/
def adcRound (full : Bool) : List (ClockEdge 32) :=
  [adcWrite fmc150.statusReg 0, adcWrite fmc150.samplesReg 0, adcSample false] ++
    [adcWrite fmc150.samplesReg 0x00200001] ++ List.replicate 4 (adcSample false) ++
    [adcSample full, adcSample false] ++ List.replicate 5 (.bus {})

def afterOverflow : Pcore 32 10 := run (tick (registers .adc)) Pcore.powerUp (adcRound true)

theorem adcRound_software (full : Bool) :
    (adcRound full).filterMap (ClockEdge.write (registers .adc)) =
      (startEffects readyDriver 1 .adc Board.boot).filterMap (coreWrite .adc) := by
  cases full <;> decide

theorem overflow_history : Along (run (tick (registers .adc))) (CaptureRound .adc) (Pcore.powerUp : Pcore 32 10)
    [adcRound true, adcRound false] := by
  refine ⟨⟨by decide, ?_, by decide +kernel, by decide +kernel, ?_⟩,
    ⟨by decide, ?_, by decide +kernel, by decide +kernel, ?_⟩, trivial⟩
  · exact ⟨readyDriver, 1, Board.boot, by decide, adcRound_software true⟩
  · exact ⟨by decide +kernel, by decide +kernel, by decide +kernel, by decide +kernel, by decide +kernel⟩
  · exact ⟨readyDriver, 1, Board.boot, by decide, adcRound_software false⟩
  · exact ⟨by decide +kernel, by decide +kernel, by decide +kernel, by decide +kernel, by decide +kernel⟩

/-- The first capture overflows and the second does not, and the bit is set after both. -/
theorem overflow_bit_stale :
    Along (run (tick (registers .adc))) (CaptureRound .adc) (Pcore.powerUp : Pcore 32 10)
        [adcRound true, adcRound false] ∧
      Raised .adc (Pcore.powerUp : Pcore 32 10) (adcRound true) ∧ ¬ Raised .adc afterOverflow (adcRound false) ∧
      (run (tick (registers .adc)) afterOverflow (adcRound false)).bus.dmaOvfBit = true ∧
      ¬ Along (run (tick (registers .adc))) (BitTells .adc) (Pcore.powerUp : Pcore 32 10)
        [adcRound true, adcRound false] := by
  have raised : Raised .adc (Pcore.powerUp : Pcore 32 10) (adcRound true) := by
    unfold Raised
    decide +kernel
  have clear : ¬ Raised .adc afterOverflow (adcRound false) := by
    unfold Raised
    decide +kernel
  have set : (run (tick (registers .adc)) afterOverflow (adcRound false)).bus.dmaOvfBit = true := by decide +kernel
  refine ⟨overflow_history, raised, clear, set, ?_⟩
  rintro ⟨-, second, -⟩
  exact clear (second.mp set)

theorem overflow_bit_exact_stale :
    Along (run (tick (registers .adc)))
        (fun s es => (run (tick (registers .adc)) s es).data.dmaOvfO = true ↔ Raised .adc s es)
        (Pcore.powerUp : Pcore 32 10) [adcRound true, adcRound false] ∧
      (Along (run (tick (registers .adc))) (BitTells .adc) (Pcore.powerUp : Pcore 32 10)
          [adcRound true, adcRound false] ↔
        Along (run (tick (registers .adc))) (LevelLow .adc) (Pcore.powerUp : Pcore 32 10)
          [adcRound true, adcRound false]) :=
  overflow_bit_exact overflow_history

end BpmAcquisition.Capture
