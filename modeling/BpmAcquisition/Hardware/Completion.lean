import BpmAcquisition.Hardware.ReadSide
import BpmAcquisition.Hardware.StatusRegister
import Mathlib.Data.Nat.Bits

/-!
# The completion bit

`p_dma_complete` of `dma_if.vhd` turns its level over at the last beat of a transfer, and
`dma_status_reg_synch.vhd` takes the level through three registers to the bus clock, makes a
pulse of each change and sets the completion bit with it. A `Crossing` steps once for each edge of the
bus clock, with all edges of `dma_clk_i` since the one before. `completion_exact` says which bus
edges set the bit, and when it reads 1.
-/

namespace BpmAcquisition.UserLogic

open Machine DmaIf

/-- The edges of `dma_clk_i` between two edges of the bus clock, and the second of these. -/
structure Period (n : Nat) where
  dma : List (DmaIn n)
  bus : BusIn
  dmaOvf : Bool := false

structure Crossing (n : Nat) where
  dma : DmaSide n
  bus : BusSide

variable {n : Nat} (map : RegisterMap)

def cross (s : Crossing n) (p : Period n) : Crossing n :=
  let dma := run dmaEdge s.dma p.dma
  ⟨dma, busEdge map s.bus { p.bus with dmaComplete := dma.dmaComplete } p.dmaOvf⟩

structure Period.NoReset (p : Period n) : Prop where
  dma : ∀ i ∈ p.dma, i.dmaClkRst = false
  bus : p.bus.busRstN = true

/-- The beats that end a transfer: valid, ready and last. -/
def endBeats (s : DmaSide n) (is : List (DmaIn n)) : List (BitVec n × Bool) :=
  (trace dmaEdge transferred s is).filter (·.2)

def AtMostOne (s : Crossing n) (p : Period n) : Prop := (endBeats s.dma p.dma).length ≤ 1

instance (s : Crossing n) (p : Period n) : Decidable (AtMostOne s p) := inferInstanceAs (Decidable (_ ≤ 1))

def ended (s : Crossing n) (p : Period n) : List Bool := [!(endBeats s.dma p.dma).isEmpty]

def setEvent (s : Crossing n) (_ : Period n) : List Bool := [s.bus.synch.sDmaCompleteStatus]

def Sets (s : Crossing n) (_ : Period n) : Prop := s.bus.synch.sDmaCompleteStatus = true

def Period.Clears (p : Period n) : Prop :=
  p.bus.busRegWriteSel = select map.statusReg ∧ p.bus.bus2IpData.getLsbD 0 = false

variable {map} {s : Crossing n} {p : Period n}

/-! ### The level and its changes -/

theorem complete_step (s : DmaSide n) {i : DmaIn n} (clocked : i.dmaClkRst = false) :
    (dmaEdge s i).dmaComplete = (s.dmaComplete ^^ ((transferred s i).filter (·.2)).length.bodd) := by
  cases valid : s.dmaValidGlue <;> cases ready : i.dmaReadyI <;> cases last : s.dmaLastGlue <;>
    simp [dmaEdge, dmaLastS, transferred, clocked, valid, ready, last]

theorem complete_run (s : DmaSide n) {is : List (DmaIn n)} (clocked : ∀ i ∈ is, i.dmaClkRst = false) :
    (run dmaEdge s is).dmaComplete = (s.dmaComplete ^^ (endBeats s is).length.bodd) := by
  induction is generalizing s with
  | nil => simp [endBeats]
  | cons i rest ih =>
    obtain ⟨now, later⟩ := List.forall_mem_cons.mp clocked
    have next := ih (dmaEdge s i) later
    have here := complete_step s now
    simp only [endBeats] at next ⊢
    rw [run_cons, next, here, trace_cons, List.filter_append, List.length_append, Nat.bodd_add, Bool.xor_assoc]

theorem complete_period (clocked : ∀ i ∈ p.dma, i.dmaClkRst = false) (single : AtMostOne s p) :
    (run dmaEdge s.dma p.dma).dmaComplete = (s.dma.dmaComplete ^^ !(endBeats s.dma p.dma).isEmpty) := by
  rw [complete_run s.dma clocked]
  unfold AtMostOne at single
  cases beats : endBeats s.dma p.dma with
  | nil => simp
  | cons beat others =>
    rw [beats] at single
    have none : others = [] := List.eq_nil_of_length_eq_zero (by simpa using single)
    simp [none]

/-! ### The registers -/

/-- The set events of the next three edges are in the registers, and the first register has
followed the level. -/
structure Pending (s : Crossing n) (events : List Bool) : Prop where
  followed : s.bus.synch.sDmaCompleteD1 = s.dma.dmaComplete
  content : events = [s.bus.synch.sDmaCompleteStatus,
    s.bus.synch.sDmaCompleteD3 ^^ s.bus.synch.sDmaCompleteD2,
    s.bus.synch.sDmaCompleteD2 ^^ s.bus.synch.sDmaCompleteD1]

theorem pending_step (s : Crossing n) (p : Period n) (events : List Bool) (pending : Pending s events)
    (sound : p.NoReset ∧ AtMostOne s p) :
    ∃ next, Pending (cross map s p) next ∧ events ++ ended s p = setEvent s p ++ next := by
  obtain ⟨followed, content⟩ := pending
  obtain ⟨noReset, single⟩ := sound
  have level := complete_period noReset.dma single
  have clocked := noReset.bus
  refine ⟨_, ⟨?_, rfl⟩, ?_⟩
  · simp [cross, busEdge, synchEdge, clocked]
  · subst content
    -- A change of the level is what the first register and the new level differ by.
    have change : (s.bus.synch.sDmaCompleteD1 ^^ (run dmaEdge s.dma p.dma).dmaComplete) =
        !(endBeats s.dma p.dma).isEmpty := by
      rw [level, followed, ← Bool.xor_assoc, Bool.xor_self, Bool.false_xor]
    simp [cross, busEdge, synchEdge, clocked, setEvent, ended, change]

theorem pending_reset (d : DmaSide n) {reset : DmaIn n} (rst : reset.dmaClkRst = true) :
    Pending ⟨dmaEdge d reset, BusSide.reset⟩ [false, false, false] := by
  refine ⟨?_, rfl⟩
  simp [dmaEdge, rst, BusSide.reset, StatusSynch.reset]

theorem setEvent_length (s : Crossing n) (ps : List (Period n)) :
    (trace (cross map) setEvent s ps).length = ps.length := by
  induction ps generalizing s with
  | nil => rfl
  | cons p rest ih =>
    rw [trace_cons, List.length_append, ih, List.length_cons, Nat.add_comm]
    rfl

/-- The set events are the ends of transfers, each three edges of the bus clock later. -/
theorem events_delayed {ps : List (Period n)} {events : List Bool} (pending : Pending s events)
    (noReset : ∀ p ∈ ps, p.NoReset) (single : Along (cross map) AtMostOne s ps) :
    trace (cross map) setEvent s ps = (events ++ trace (cross map) ended s ps).take ps.length := by
  obtain ⟨rest, -, conserved⟩ := trace_conserved pending_step pending (along_and (along_of_inputs noReset) single)
  rw [conserved, List.take_left' (setEvent_length s ps)]

/-! ### The bit -/

theorem complete_bit_step (noReset : p.NoReset) :
    (cross map s p).bus.synch.dmaCompleteSynchGlue = true ↔
      Sets s p ∨ s.bus.synch.dmaCompleteSynchGlue = true ∧ ¬ p.Clears map := by
  have clocked := noReset.bus
  have rule : (cross map s p).bus.synch.dmaCompleteSynchGlue =
      pDmaStatusReg s.bus.synch.sDmaCompleteStatus (p.bus.busRegWriteSel == select map.statusReg)
        (p.bus.bus2IpData.getLsbD 0) s.bus.synch.dmaCompleteSynchGlue := by
    simp [cross, busEdge, synchEdge, clocked]
  rw [rule]
  unfold pDmaStatusReg Sets Period.Clears
  cases set : s.bus.synch.sDmaCompleteStatus with
  | true => simp
  | false =>
    cases high : s.bus.synch.dmaCompleteSynchGlue with
    | false => simp
    | true =>
      by_cases selected : p.bus.busRegWriteSel = select map.statusReg <;> simp [selected]

/-- From a common reset, for every sequence of transfers, writes and interleavings of the two clocks
with at most one end of a transfer between two edges of the bus clock: the set events are the ends of
transfers, each three bus edges later; the completion bit reads 1 exactly if no write of the
STATUS register with a 0 in it came after the last set event; and STATUS has the bit one edge later. -/
theorem completion_exact (map : RegisterMap) (d : DmaSide n) (reset : DmaIn n) (ps : List (Period n))
    (rst : reset.dmaClkRst = true) (noReset : ∀ p ∈ ps, p.NoReset)
    (single : Along (cross map) AtMostOne ⟨dmaEdge d reset, BusSide.reset⟩ ps) :
    let start : Crossing n := ⟨dmaEdge d reset, BusSide.reset⟩
    let now := run (cross map) start ps
    trace (cross map) setEvent start ps =
        ([false, false, false] ++ trace (cross map) ended start ps).take ps.length ∧
      (now.bus.synch.dmaCompleteSynchGlue = true ↔ SetSince (cross map) Sets (Period.Clears map) start ps) ∧
      ∀ p : Period n, p.NoReset → (cross map now p).bus.dmaCompleteBit = now.bus.synch.dmaCompleteSynchGlue := by
  intro start now
  refine ⟨events_delayed (pending_reset d rst) noReset single, ?_, fun p clocked => ?_⟩
  · have along : Along (cross map) (fun _ (p : Period n) => p.NoReset) start ps := along_of_inputs noReset
    have low : start.bus.synch.dmaCompleteSynchGlue = false := rfl
    rw [sticky_run (fun s => s.bus.synch.dmaCompleteSynchGlue) (fun s p => complete_bit_step) along]
    simp [low]
  · have clocked := clocked.bus
    simp [cross, busEdge, clocked]

-- One transfer of one word, and software clears the bit at the very edge that sets it.
def clearedAtSet : List (Period 32) :=
  let edge (empty : Bool) : DmaIn 32 :=
    { dmaReadyI := true, fifoEmpty := empty, fifoHead := (5, true), fifoIdle := (0, false) }
  let idle : Period 32 := ⟨[], {}, false⟩
  [⟨[edge false, edge true, edge true, edge true], {}, false⟩, idle, idle,
    ⟨[], { busRegWriteSel := select bpmDdc.statusReg }, false⟩]

def resetSide : DmaSide 32 := ⟨fun _ => ⟨7, true, true⟩, true, 3, 1, 7, true, true, 0, true, (7, true)⟩

def resetEdge : DmaIn 32 := ⟨true, false, true, (0, false), (0, false)⟩

theorem completion_exact_cleared_at_set :
    trace (cross bpmDdc) setEvent ⟨dmaEdge resetSide resetEdge, BusSide.reset⟩ clearedAtSet =
        [false, false, false, true] ∧
      (run (cross bpmDdc) ⟨dmaEdge resetSide resetEdge, BusSide.reset⟩ clearedAtSet).bus.synch.dmaCompleteSynchGlue =
        true := by
  have noReset : ∀ p ∈ clearedAtSet, p.NoReset := by
    simp only [clearedAtSet, List.forall_mem_cons]
    exact ⟨⟨by decide, rfl⟩, ⟨by simp, rfl⟩, ⟨by simp, rfl⟩, ⟨by simp, rfl⟩, by simp⟩
  obtain ⟨events, bit, -⟩ :=
    completion_exact bpmDdc resetSide resetEdge clearedAtSet rfl noReset (by decide)
  have last : SetSince (cross bpmDdc) Sets (Period.Clears bpmDdc)
      ⟨dmaEdge resetSide resetEdge, BusSide.reset⟩ clearedAtSet :=
    ⟨clearedAtSet.take 3, _, [], rfl, rfl, by simp⟩
  exact ⟨events.trans (by decide), bit.mpr last⟩

end BpmAcquisition.UserLogic
