import BpmAcquisition.Hardware.WriteStream

/-!
# The overflow flag

`p_dma_overflow` counts the edges at which a valid sample of a running capture meets a full
FIFO. The write that a full FIFO refuses is the one of the sample before, which is registered,
so the flag and the replaced word are decided at different edges. `overflow_flag_exact` says
for every capture when a clear flag means that the FIFO holds the captured samples.
-/

namespace BpmAcquisition.DmaIf

open Machine

variable {n c : Nat}

def validSamples (is : List (DataIn n)) : List (BitVec n) :=
  (is.filter (·.dataValidI)).map (·.dataI)

def NoOverflow (s : DataSide n c) (i : DataIn n) : Prop := sFifoOvf s i = false

instance (s : DataSide n c) (i : DataIn n) : Decidable (NoOverflow s i) := inferInstanceAs (Decidable (_ = _))

/-! ### The flag over a run -/

theorem ovf_load (s : DataSide n c) {i : DataIn n} (trig : s.startAcqTrig = true) :
    (dataEdge s i).dmaOvfO = false := by
  simp [DataSide.dmaOvfO, dataEdge, pDmaOverflow, trig]

theorem ovf_step {s : DataSide n c} {i : DataIn n} (quiet : s.startAcqTrig = false) :
    (dataEdge s i).dmaOvfO = (s.dmaOvfO || sFifoOvf s i) := by
  cases ovf : sFifoOvf s i <;> simp [DataSide.dmaOvfO, dataEdge, pDmaOverflow, quiet, ovf]

theorem ovf_run {s : DataSide n c} {is : List (DataIn n)} (quiet : Along dataEdge NoTrigger s is) :
    (run dataEdge s is).dmaOvfO = false ↔ s.dmaOvfO = false ∧ Along dataEdge NoOverflow s is := by
  induction is generalizing s with
  | nil => simp
  | cons i rest ih =>
    rw [run_cons, ih quiet.2, ovf_step quiet.1.2]
    simp only [Bool.or_eq_false_iff, along_cons, NoOverflow, and_assoc]

/-! ### The captured samples -/

theorem counted_valid {s : DataSide n c} {is : List (DataIn n)} {k : Nat} (left : s.Left k)
    (quiet : Along dataEdge NoTrigger s is) (lossless : Along dataEdge NoOverflow s is) :
    (trace dataEdge counted s is).map Prod.fst = (validSamples is).take (k + 1) := by
  induction is generalizing s k with
  | nil => simp [validSamples]
  | cons i rest ih =>
    cases valid : i.dataValidI with
    | false =>
      have none : (s.capturing && i.dataValidI && !i.fifoFull) = false := by simp [valid]
      simpa [counted_none none, validSamples, valid] using
        ih (left_hold quiet.1 left none) quiet.2 lossless.2
    | true =>
      have free : i.fifoFull = false := by
        simpa [NoOverflow, sFifoOvf, valid, left.capturing] using lossless.1
      rcases count_step quiet.1.1 left valid free with ⟨rfl, done⟩ | ⟨m, rfl, more⟩
      · have nothing := (ended_run done quiet.2).1
        simp [counted, left.capturing, valid, free, nothing, validSamples]
      · simpa [counted, left.capturing, valid, free, validSamples] using ih more quiet.2 lossless.2

def dataEdges (s : DataSide n c) (is : List (DataIn n)) : List (WriteRegister.Edge (BitVec n)) :=
  (writeEdges s is).map (WriteRegister.Edge.map Prod.fst)

theorem offer_map (e : WriteRegister.Edge (BitVec n × Bool)) :
    WriteRegister.offer (WriteRegister.Edge.map Prod.fst e) = (WriteRegister.offer e).map Prod.fst := by
  cases offered : (e.take && !e.full) <;> simp [WriteRegister.offer, WriteRegister.Edge.map, offered]

theorem fifo_data_exact (s : DataSide n c) {is : List (DataIn n)} (empty : s.fifoWren = false)
    (clocked : ∀ i ∈ is, Clocked i) (written : (run dataEdge s is).fifoWren = false) :
    (trace dataEdge fifoWrite s is).map Prod.fst = (trace dataEdge counted s is).map Prod.fst ↔
      WriteRegister.Settled (dataEdges s is) := by
  rw [fifo_stored_ended s empty clocked written, counted_offered s clocked, ← WriteRegister.stored_eq_offered, dataEdges,
    WriteRegister.stored_map, List.flatMap_map, List.map_flatMap]
  simp only [offer_map]

/-- A capture of `N` words started on an idle `dma_if`, for every pattern of valid samples and
full FIFO, once no write is pending: a clear overflow flag means that the FIFO got the first
`N` valid samples after the load of the counter, in order, exactly when some valid sample of
the capture met a full FIFO (the flag is then set), or every counted sample is on `data_i`
again at the last edge of the full stretch that directly follows it, if there is one. -/
theorem overflow_flag_exact (s : DataSide n c) (load : DataIn n) (is : List (DataIn n))
    (idle : s.capturing = false) (empty : s.fifoWren = false) (clocked : Clocked load)
    (trig : s.startAcqTrig = true) (quiet : Along dataEdge NoTrigger (dataEdge s load) is)
    (written : (run dataEdge (dataEdge s load) is).fifoWren = false) :
    ((run dataEdge (dataEdge s load) is).dmaOvfO = false →
        (trace dataEdge fifoWrite (dataEdge s load) is).map Prod.fst =
          (validSamples is).take ((loadCount load).toNat + 1)) ↔
      ¬ Along dataEdge NoOverflow (dataEdge s load) is ∨
        WriteRegister.Settled (dataEdges (dataEdge s load) is) := by
  have left := left_load s clocked idle trig
  have resets := inputs_of_along (along_mono (fun _ _ h => h.1) quiet)
  have still : (dataEdge s load).fifoWren = false := by simp [dataEdge, pFifoWrEn, idle, empty]
  have data := fifo_data_exact (dataEdge s load) still resets written
  rw [ovf_run quiet, ← data]
  constructor
  · intro h
    by_cases lossless : Along dataEdge NoOverflow (dataEdge s load) is
    · refine Or.inr ?_
      rw [counted_valid left quiet lossless]
      exact h ⟨ovf_load s trig, lossless⟩
    · exact Or.inl lossless
  · rintro (lossy | same) ⟨-, lossless⟩
    · exact absurd lossless lossy
    · rw [same, counted_valid left quiet lossless]

def unnoticedRefusal : List (DataIn 32) :=
  [{ dataI := 5, dataValidI := true, captureCtlI := 0x00200001#32 },
    { dataI := 9, dataValidI := false, captureCtlI := 0x00200001#32, fifoFull := true },
    { dataI := 7, dataValidI := false, captureCtlI := 0x00200001#32 }]

def triggered : DataSide 32 10 :=
  { DataSide.powerUp with startAcqReg0 := true, startAcqReg1 := true, startAcqReg2 := true, startAcqTrig := true }

def triggerEdge : DataIn 32 := { dataI := 3, dataValidI := true, captureCtlI := 0x00200001#32 }

/-- The flag stays clear and the FIFO holds 9 in the place of the captured 5. -/
theorem clear_flag_corrupt_word :
    (run dataEdge (dataEdge triggered triggerEdge) unnoticedRefusal).dmaOvfO = false ∧
      (run dataEdge (dataEdge triggered triggerEdge) unnoticedRefusal).capturing = false ∧
      (run dataEdge (dataEdge triggered triggerEdge) unnoticedRefusal).fifoWren = false ∧
      validSamples unnoticedRefusal = [5] ∧ (loadCount triggerEdge).toNat + 1 = 1 ∧
      (trace dataEdge fifoWrite (dataEdge triggered triggerEdge) unnoticedRefusal).map Prod.fst = [9] := by
  decide

theorem overflow_flag_exact_refusal :
    ((run dataEdge (dataEdge triggered triggerEdge) unnoticedRefusal).dmaOvfO = false →
        (trace dataEdge fifoWrite (dataEdge triggered triggerEdge) unnoticedRefusal).map Prod.fst =
          (validSamples unnoticedRefusal).take ((loadCount triggerEdge).toNat + 1)) ↔
      ¬ Along dataEdge NoOverflow (dataEdge triggered triggerEdge) unnoticedRefusal ∨
        WriteRegister.Settled (dataEdges (dataEdge triggered triggerEdge) unnoticedRefusal) :=
  overflow_flag_exact triggered triggerEdge unnoticedRefusal (by decide) (by decide) rfl rfl
    (by decide) (by decide)

end BpmAcquisition.DmaIf
