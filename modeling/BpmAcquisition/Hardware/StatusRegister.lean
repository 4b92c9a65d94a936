import BpmAcquisition.Hardware.Overflow

/-!
# The STATUS register

`user_logic.vhd` of both cores as far as captures go: the capture control register, the
`dma_status_reg_synch` that brings `dma_complete_o` and `dma_ovf_o` to the bus clock, and the
two bits of the STATUS register. A `Pcore` steps at the rising edges of two clocks, so a list
of edges is one way in which they interleave; a flip-flop takes the value its input has.
-/

namespace BpmAcquisition.UserLogic

open Machine DmaIf

/-- The one-hot code of a register on the write enables. -/
def select (index : Nat) : BitVec 10 := BitVec.ofNat 10 (2 ^ (10 - 1 - index))

structure RegisterMap where
  samplesReg : Nat
  statusReg : Nat
  apart : select samplesReg ≠ select statusReg

def fmc150 : RegisterMap := ⟨8, 9, by decide⟩

def bpmDdc : RegisterMap := ⟨0, 1, by decide⟩

structure BusIn where
  busRstN : Bool := true
  busRegWriteSel : BitVec 10 := 0
  bus2IpData : BitVec 32 := 0
  dmaComplete : Bool := false

structure StatusSynch where
  sDmaCompleteD1 : Bool
  sDmaCompleteD2 : Bool
  sDmaCompleteD3 : Bool
  sDmaCompleteStatus : Bool
  sDmaOvfD1 : Bool
  sDmaOvfD2 : Bool
  sDmaOvfStatus : Bool
  dmaCompleteSynchGlue : Bool
  dmaOvfSynchGlue : Bool

structure BusSide where
  samplesReg : BitVec 32
  dmaCompleteBit : Bool
  dmaOvfBit : Bool
  synch : StatusSynch

structure Pcore (n c : Nat) where
  data : DataSide n c
  bus : BusSide

inductive ClockEdge (n : Nat) where
  | bus (i : BusIn)
  | data (i : DataIn n)

def StatusSynch.reset : StatusSynch :=
  ⟨false, false, false, false, false, false, false, false, false⟩

def BusSide.reset : BusSide := ⟨0, false, false, StatusSynch.reset⟩

/-- A condition sets the bit, and software clears it; the condition has priority. -/
def pDmaStatusReg (status selected written glue : Bool) : Bool :=
  if status then true else if selected && glue then written else glue

variable {n c : Nat} (map : RegisterMap)

def synchEdge (s : StatusSynch) (i : BusIn) (dmaOvf : Bool) : StatusSynch :=
  if !i.busRstN then StatusSynch.reset
  else
    { sDmaCompleteD1 := i.dmaComplete
      sDmaCompleteD2 := s.sDmaCompleteD1
      sDmaCompleteD3 := s.sDmaCompleteD2
      sDmaCompleteStatus := s.sDmaCompleteD3 ^^ s.sDmaCompleteD2
      sDmaOvfD1 := dmaOvf
      sDmaOvfD2 := s.sDmaOvfD1
      sDmaOvfStatus := s.sDmaOvfD2
      dmaCompleteSynchGlue :=
        pDmaStatusReg s.sDmaCompleteStatus (i.busRegWriteSel == select map.statusReg) (i.bus2IpData.getLsbD 0)
          s.dmaCompleteSynchGlue
      dmaOvfSynchGlue :=
        pDmaStatusReg s.sDmaOvfStatus (i.busRegWriteSel == select map.statusReg) (i.bus2IpData.getLsbD 1)
          s.dmaOvfSynchGlue }

-- A write to the STATUS register reaches the synchroniser only; its bits are copied from there.
def busEdge (s : BusSide) (i : BusIn) (dmaOvf : Bool) : BusSide :=
  if !i.busRstN then BusSide.reset
  else
    { samplesReg := if i.busRegWriteSel = select map.samplesReg then i.bus2IpData else s.samplesReg
      dmaCompleteBit := s.synch.dmaCompleteSynchGlue
      dmaOvfBit := s.synch.dmaOvfSynchGlue
      synch := synchEdge map s.synch i dmaOvf }

def Pcore.dataIn (s : Pcore n c) (i : DataIn n) : DataIn n := { i with captureCtlI := s.bus.samplesReg }

def tick (s : Pcore n c) : ClockEdge n → Pcore n c
  | .bus i => { s with bus := busEdge map s.bus i s.data.dmaOvfO }
  | .data i => { s with data := dataEdge s.data (s.dataIn i) }

def Pcore.powerUp : Pcore n c := ⟨DataSide.powerUp, BusSide.reset⟩

/-! ### The two clocks apart -/

def ClockEdge.NoReset : ClockEdge n → Prop
  | .bus i => i.busRstN = true
  | .data i => Clocked i

instance : (e : ClockEdge n) → Decidable e.NoReset
  | .bus i => inferInstanceAs (Decidable (i.busRstN = true))
  | .data i => inferInstanceAs (Decidable (i.dataClkRst = false))

inductive Register where
  | samples
  | status
deriving DecidableEq

def ClockEdge.write : ClockEdge n → Option (Register × BitVec 32)
  | .bus i =>
    if i.busRegWriteSel = select map.samplesReg then some (.samples, i.bus2IpData)
    else if i.busRegWriteSel = select map.statusReg then some (.status, i.bus2IpData)
    else none
  | .data _ => none

def dataInputs (s : Pcore n c) : ClockEdge n → List (DataIn n)
  | .bus _ => []
  | .data i => [s.dataIn i]

variable {map} {s : Pcore n c} {e : ClockEdge n} {es : List (ClockEdge n)}

theorem run_data : (run (tick map) s es).data = run dataEdge s.data (trace (tick map) dataInputs s es) := by
  induction es generalizing s with
  | nil => rfl
  | cons e rest ih =>
    rw [run_cons, trace_cons, run_append, ih]
    cases e <;> rfl

theorem along_data {P : DataSide n c → DataIn n → Prop} :
    Along (tick map) (fun s e => ∀ i ∈ dataInputs s e, P s.data i) s es ↔
      Along dataEdge P s.data (trace (tick map) dataInputs s es) := by
  induction es generalizing s with
  | nil => exact Iff.rfl
  | cons e rest ih =>
    rw [along_cons, trace_cons, along_append, ih]
    cases e with
    | bus i => simp [dataInputs, tick]
    | data i => simp [dataInputs, tick]

theorem write_edge {w : Register × BitVec 32} (writes : e.write map = some w) :
    ∃ i, e = .bus i ∧ i.bus2IpData = w.2 ∧
      (w.1 = .samples ∧ i.busRegWriteSel = select map.samplesReg ∨
        w.1 = .status ∧ i.busRegWriteSel = select map.statusReg) := by
  cases e with
  | data i => exact absurd writes (by simp [ClockEdge.write])
  | bus i =>
    refine ⟨i, rfl, ?_⟩
    simp only [ClockEdge.write] at writes
    split at writes
    case isTrue samples =>
      cases writes
      exact ⟨rfl, Or.inl ⟨rfl, samples⟩⟩
    case isFalse =>
      split at writes
      case isTrue status =>
        cases writes
        exact ⟨rfl, Or.inr ⟨rfl, status⟩⟩
      case isFalse => exact absurd writes (by simp)

theorem write_inputs {w : Register × BitVec 32} (writes : e.write map = some w) :
    dataInputs s e = [] ∧ (tick map s e).data = s.data := by
  obtain ⟨i, rfl, -⟩ := write_edge writes
  exact ⟨rfl, rfl⟩

theorem write_samples {value : BitVec 32} (noReset : e.NoReset) (writes : e.write map = some (.samples, value)) :
    (tick map s e).bus.samplesReg = value := by
  obtain ⟨i, rfl, data, ⟨-, selected⟩ | ⟨status, -⟩⟩ := write_edge writes
  · have clocked : i.busRstN = true := noReset
    simp [tick, busEdge, clocked, selected, data]
  · exact Register.noConfusion status

theorem other_samples (noReset : e.NoReset) (other : ∀ value, e.write map ≠ some (.samples, value)) :
    (tick map s e).bus.samplesReg = s.bus.samplesReg := by
  cases e with
  | data i => rfl
  | bus i =>
    have unselected : i.busRegWriteSel ≠ select map.samplesReg := fun same =>
      other i.bus2IpData (by simp [ClockEdge.write, same])
    have clocked : i.busRstN = true := noReset
    simp [tick, busEdge, clocked, unselected]

theorem idle_inputs (noReset : ∀ e ∈ es, e.NoReset) (none : ∀ e ∈ es, e.write map = none) :
    (run (tick map) s es).bus.samplesReg = s.bus.samplesReg ∧
      ∀ i ∈ trace (tick map) dataInputs s es, Clocked i ∧ i.captureCtlI = s.bus.samplesReg := by
  induction es generalizing s with
  | nil => exact ⟨rfl, by simp⟩
  | cons e rest ih =>
    simp only [List.forall_mem_cons] at noReset none
    have kept := @other_samples n c map s e noReset.1 fun value => by simp [none.1]
    obtain ⟨samples, inputs⟩ := ih noReset.2 none.2 (s := tick map s e)
    rw [kept] at samples inputs
    refine ⟨samples, ?_⟩
    rw [trace_cons, List.forall_mem_append]
    refine ⟨?_, inputs⟩
    cases e with
    | bus i => simp [dataInputs]
    | data i =>
      simp only [dataInputs, List.forall_mem_singleton]
      exact ⟨noReset.1, rfl⟩

/-- Up to a write the data side reads the old command, and behind it the new one. -/
theorem gap_write {w : Register × BitVec 32} {gap rest : List (ClockEdge n)} (s : Pcore n c)
    (noReset : ∀ e' ∈ gap ++ e :: rest, e'.NoReset) (none : ∀ e' ∈ gap, e'.write map = none)
    (writes : e.write map = some w) :
    ∃ t, run (tick map) s (gap ++ e :: rest) = run (tick map) t rest ∧
      trace (tick map) dataInputs s (gap ++ e :: rest) =
        trace (tick map) dataInputs s gap ++ trace (tick map) dataInputs t rest ∧
      (∀ i ∈ trace (tick map) dataInputs s gap, Clocked i ∧ i.captureCtlI = s.bus.samplesReg) ∧
      t.bus.samplesReg = if w.1 = .samples then w.2 else s.bus.samplesReg := by
  simp only [List.forall_mem_append, List.forall_mem_cons] at noReset
  obtain ⟨quiet, clocked, -⟩ := noReset
  obtain ⟨kept, reads⟩ := idle_inputs (s := s) quiet none
  obtain ⟨nothing, -⟩ := @write_inputs n c map (run (tick map) s gap) e w writes
  refine ⟨tick map (run (tick map) s gap) e, ?_, ?_, reads, ?_⟩
  · rw [run_append, run_cons]
  · rw [trace_append, trace_cons, nothing, List.nil_append]
  · obtain ⟨register, value⟩ := w
    cases register with
    | samples =>
      rw [write_samples clocked writes]
      rfl
    | status =>
      rw [other_samples clocked fun value' same => by simp [writes] at same, kept]
      rfl

/-! ### The overflow bit -/

/-- Further edges of the bus clock change nothing about the overflow. -/
structure Settled (s : Pcore n c) : Prop where
  d1 : s.bus.synch.sDmaOvfD1 = s.data.dmaOvfO
  d2 : s.bus.synch.sDmaOvfD2 = s.data.dmaOvfO
  status : s.bus.synch.sDmaOvfStatus = s.data.dmaOvfO
  glue : s.data.dmaOvfO = true → s.bus.synch.dmaOvfSynchGlue = true
  bit : s.bus.dmaOvfBit = s.bus.synch.dmaOvfSynchGlue

/-- The overflow, its synchroniser and what it is copied to are at `level`. -/
structure Level (level : Bool) (s : Pcore n c) : Prop where
  output : s.data.dmaOvfO = level
  d1 : s.bus.synch.sDmaOvfD1 = level
  d2 : s.bus.synch.sDmaOvfD2 = level
  status : s.bus.synch.sDmaOvfStatus = level

theorem Settled.level {level : Bool} (settled : Settled s) (output : s.data.dmaOvfO = level) : Level level s :=
  ⟨output, settled.d1.trans output, settled.d2.trans output, settled.status.trans output⟩

theorem level_step {level : Bool} (held : Level level s) (noReset : e.NoReset)
    (output : (tick map s e).data.dmaOvfO = level) : Level level (tick map s e) := by
  obtain ⟨source, d1, d2, status⟩ := held
  cases e with
  | data i => exact ⟨output, d1, d2, status⟩
  | bus i =>
    have clocked : i.busRstN = true := noReset
    refine ⟨output, ?_, ?_, ?_⟩
    · simp [tick, busEdge, synchEdge, clocked, source]
    · simp [tick, busEdge, synchEdge, clocked, d1]
    · simp [tick, busEdge, synchEdge, clocked, d2]

theorem glue_step (noReset : e.NoReset) :
    (tick map s e).bus.synch.dmaOvfSynchGlue =
      match e with
      | .bus i => pDmaStatusReg s.bus.synch.sDmaOvfStatus (i.busRegWriteSel == select map.statusReg)
          (i.bus2IpData.getLsbD 1) s.bus.synch.dmaOvfSynchGlue
      | .data _ => s.bus.synch.dmaOvfSynchGlue := by
  cases e with
  | data i => rfl
  | bus i =>
    have clocked : i.busRstN = true := noReset
    simp [tick, busEdge, synchEdge, clocked]

theorem glue_held (noReset : e.NoReset) (other : ∀ value, e.write map ≠ some (.status, value))
    (set : s.bus.synch.dmaOvfSynchGlue = true) : (tick map s e).bus.synch.dmaOvfSynchGlue = true := by
  rw [glue_step noReset]
  cases e with
  | data i => exact set
  | bus i =>
    have unselected : (i.busRegWriteSel == select map.statusReg) = false := by
      rw [beq_eq_false_iff_ne]
      intro same
      refine other i.bus2IpData ?_
      simp [ClockEdge.write, same, Ne.symm map.apart]
    cases status : s.bus.synch.sDmaOvfStatus <;> simp [pDmaStatusReg, unselected, set]

theorem glue_clean (noReset : e.NoReset) (low : Level false s) (clear : s.bus.synch.dmaOvfSynchGlue = false) :
    (tick map s e).bus.synch.dmaOvfSynchGlue = false := by
  rw [glue_step noReset]
  cases e with
  | data i => exact clear
  | bus i => simp [pDmaStatusReg, low.status, clear]

theorem glue_written {level : Bool} (noReset : e.NoReset) (held : Level level s)
    (writes : e.write map = some (.status, 0)) : (tick map s e).bus.synch.dmaOvfSynchGlue = level := by
  rw [glue_step noReset]
  obtain ⟨i, rfl, data, ⟨samples, -⟩ | ⟨-, selected⟩⟩ := write_edge writes
  · exact Register.noConfusion samples
  · cases level <;> simp [pDmaStatusReg, held.status, selected, data]

/-! ### Settling -/

theorem bus_step (map : RegisterMap) (s : Pcore n c) {i : BusIn} (noReset : i.busRstN = true)
    (other : i.busRegWriteSel ≠ select map.statusReg) :
    (tick map s (.bus i)).data = s.data ∧
      (tick map s (.bus i)).bus.synch.sDmaOvfD1 = s.data.dmaOvfO ∧
      (tick map s (.bus i)).bus.synch.sDmaOvfD2 = s.bus.synch.sDmaOvfD1 ∧
      (tick map s (.bus i)).bus.synch.sDmaOvfStatus = s.bus.synch.sDmaOvfD2 ∧
      (tick map s (.bus i)).bus.synch.dmaOvfSynchGlue = (s.bus.synch.sDmaOvfStatus || s.bus.synch.dmaOvfSynchGlue) ∧
      (tick map s (.bus i)).bus.dmaOvfBit = s.bus.synch.dmaOvfSynchGlue := by
  have unselected : (i.busRegWriteSel == select map.statusReg) = false := beq_eq_false_iff_ne.mpr other
  cases status : s.bus.synch.sDmaOvfStatus <;>
    simp [tick, busEdge, synchEdge, pDmaStatusReg, noReset, unselected, status]

theorem settled_step {i : BusIn} (settled : Settled s) (noReset : i.busRstN = true)
    (other : i.busRegWriteSel ≠ select map.statusReg) : Settled (tick map s (.bus i)) := by
  obtain ⟨data, d1, d2, status, glue, bit⟩ := bus_step map s noReset other
  have set : (s.bus.synch.sDmaOvfStatus || s.bus.synch.dmaOvfSynchGlue) = s.bus.synch.dmaOvfSynchGlue := by
    cases high : s.data.dmaOvfO with
    | false => rw [settled.status, high, Bool.false_or]
    | true => rw [settled.glue high, Bool.or_true]
  rw [set] at glue
  refine ⟨d1.trans (congrArg _ data.symm), ?_, ?_, ?_, bit.trans glue.symm⟩
  · rw [d2, data, settled.d1]
  · rw [status, data, settled.d2]
  · rw [data, glue]
    exact settled.glue

theorem settled_run {is : List BusIn} (settled : Settled s) (noReset : ∀ i ∈ is, i.busRstN = true)
    (other : ∀ i ∈ is, i.busRegWriteSel ≠ select map.statusReg) : Settled (run (tick map) s (is.map .bus)) := by
  induction is generalizing s with
  | nil => exact settled
  | cons i rest ih =>
    simp only [List.forall_mem_cons] at noReset other
    exact ih (settled_step settled noReset.1 other.1) noReset.2 other.2

/-- Five edges of the bus clock settle the synchroniser while the data side stands still. -/
theorem settles {i₁ i₂ i₃ i₄ i₅ : BusIn} {is : List BusIn}
    (noReset : ∀ i ∈ i₁ :: i₂ :: i₃ :: i₄ :: i₅ :: is, i.busRstN = true)
    (other : ∀ i ∈ i₁ :: i₂ :: i₃ :: i₄ :: i₅ :: is, i.busRegWriteSel ≠ select map.statusReg) :
    Settled (run (tick map) s ((i₁ :: i₂ :: i₃ :: i₄ :: i₅ :: is).map .bus)) := by
  simp only [List.forall_mem_cons] at noReset other
  obtain ⟨reset₁, reset₂, reset₃, reset₄, reset₅, resets⟩ := noReset
  obtain ⟨other₁, other₂, other₃, other₄, other₅, others⟩ := other
  simp only [List.map_cons, run_cons]
  refine settled_run ?_ resets others
  obtain ⟨data₁, first₁, -⟩ := bus_step map s reset₁ other₁
  generalize tick map s (.bus i₁) = s₁ at data₁ first₁ ⊢
  obtain ⟨data₂, first₂, second₂, -⟩ := bus_step map s₁ reset₂ other₂
  generalize tick map s₁ (.bus i₂) = s₂ at data₂ first₂ second₂ ⊢
  obtain ⟨data₃, first₃, second₃, third₃, -⟩ := bus_step map s₂ reset₃ other₃
  generalize tick map s₂ (.bus i₃) = s₃ at data₃ first₃ second₃ third₃ ⊢
  obtain ⟨data₄, first₄, second₄, third₄, glue₄, -⟩ := bus_step map s₃ reset₄ other₄
  generalize tick map s₃ (.bus i₄) = s₄ at data₄ first₄ second₄ third₄ glue₄ ⊢
  obtain ⟨data₅, first₅, second₅, third₅, glue₅, bit₅⟩ := bus_step map s₄ reset₅ other₅
  have status₃ : s₃.bus.synch.sDmaOvfStatus = s.data.dmaOvfO := third₃.trans (second₂.trans first₁)
  have status₄ : s₄.bus.synch.sDmaOvfStatus = s.data.dmaOvfO := by rw [third₄, second₃, first₂, data₁]
  have same : (tick map s₄ (.bus i₅)).data.dmaOvfO = s.data.dmaOvfO := by rw [data₅, data₄, data₃, data₂, data₁]
  -- From the fourth edge on the bit holds what the status register gives it.
  have kept : (tick map s₄ (.bus i₅)).bus.synch.dmaOvfSynchGlue = s₄.bus.synch.dmaOvfSynchGlue := by
    rw [glue₅, status₄, glue₄, status₃, ← Bool.or_assoc, Bool.or_self]
  refine ⟨?_, ?_, ?_, fun high => ?_, bit₅.trans kept.symm⟩
  · rw [first₅, data₅]
  · rw [second₅, first₄, same, data₃, data₂, data₁]
  · rw [third₅, second₄, first₃, same, data₂, data₁]
  · rw [glue₅, status₄, ← same, high, Bool.true_or]

end BpmAcquisition.UserLogic
