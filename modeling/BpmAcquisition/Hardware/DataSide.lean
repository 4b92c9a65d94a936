import Mathlib.Algebra.Ring.Nat
import BpmAcquisition.Library.WriteRegister

/-!
# The write side of `dma_if`

The processes of `dma_if.vhd` clocked by `data_clk_i`: the trigger detector, the samples
counter, the last-data flag, the FIFO write enable and the overflow counter. A rising edge is
one step; the ports read at the edge are its input. All FIFO lanes are written in lockstep,
so the FIFO is one queue of (data, last) words that ignores a write while it is full.
-/

namespace BpmAcquisition.DmaIf

open Machine

structure DataIn (n : Nat) where
  dataClkRst : Bool := false
  dataI : BitVec n
  dataValidI : Bool
  captureCtlI : BitVec 32
  fifoFull : Bool := false

/-- The registers clocked by `data_clk_i`: `n` data bits, `c` overflow counter bits. -/
structure DataSide (n c : Nat) where
  startAcqReg0 : Bool
  startAcqReg1 : Bool
  startAcqReg2 : Bool
  startAcqTrig : Bool
  captureCtlReg : BitVec 22
  lastDataReg : Bool
  fifoWren : Bool
  dataID1 : BitVec n
  fifoOvfC : BitVec (c + 1)

variable {n c : Nat}

def DataSide.powerUp : DataSide n c where
  startAcqReg0 := false
  startAcqReg1 := false
  startAcqReg2 := false
  startAcqTrig := false
  captureCtlReg := 0
  lastDataReg := false
  fifoWren := false
  dataID1 := 0
  fifoOvfC := 0

def startAcq (ctl : BitVec 32) : Bool := ctl.getLsbD 21

/-- `capture_ctl_reg(21)`: a capture is running. -/
def DataSide.capturing (s : DataSide n c) : Bool := s.captureCtlReg.msb

def sLastData (s : DataSide n c) (i : DataIn n) : Bool :=
  s.captureCtlReg == 0b1000000000000000000000#22 && i.dataValidI

def sFifoOvf (s : DataSide n c) (i : DataIn n) : Bool :=
  i.fifoFull && i.dataValidI && s.capturing

def loadCount (i : DataIn n) : BitVec 21 :=
  if i.dataValidI then i.captureCtlI.extractLsb' 0 21 - 1#21 else i.captureCtlI.extractLsb' 0 21

def pSamplesCounter (s : DataSide n c) (i : DataIn n) : BitVec 22 :=
  if i.dataClkRst then 0
  else if s.capturing && i.dataValidI && !i.fifoFull then s.captureCtlReg - 1#22
  else if s.startAcqTrig then .cons true (loadCount i)
  else s.captureCtlReg

def pFifoWrEn (s : DataSide n c) (i : DataIn n) : Bool :=
  if i.dataClkRst then false
  else if !i.fifoFull then s.capturing && i.dataValidI
  else s.fifoWren

-- The trigger's clear has priority over a count, and there is no reset.
def pDmaOverflow (s : DataSide n c) (i : DataIn n) : BitVec (c + 1) :=
  if s.startAcqTrig then 0
  else if sFifoOvf s i then .cons true (s.fifoOvfC.setWidth c + 1#c)
  else s.fifoOvfC

/-- All processes of the write side at one rising edge of `data_clk_i`. -/
def dataEdge (s : DataSide n c) (i : DataIn n) : DataSide n c where
  startAcqReg0 := !i.dataClkRst && startAcq i.captureCtlI
  startAcqReg1 := !i.dataClkRst && s.startAcqReg0
  startAcqReg2 := !i.dataClkRst && s.startAcqReg1
  startAcqTrig := !i.dataClkRst && (!s.startAcqReg2 && s.startAcqReg1)
  captureCtlReg := pSamplesCounter s i
  lastDataReg := !i.dataClkRst && sLastData s i
  fifoWren := pFifoWrEn s i
  dataID1 := i.dataI
  fifoOvfC := pDmaOverflow s i

def DataSide.dmaOvfO (s : DataSide n c) : Bool := s.fifoOvfC.msb

def fifoWrite (s : DataSide n c) (i : DataIn n) : List (BitVec n × Bool) :=
  if s.fifoWren && !i.fifoFull then [(s.dataID1, s.lastDataReg)] else []

/-- The sample the capture counter counts at the edge, and whether the capture ends with it. -/
def counted (s : DataSide n c) (i : DataIn n) : List (BitVec n × Bool) :=
  if s.capturing && i.dataValidI && !i.fifoFull then
    [(i.dataI, !(dataEdge s i).capturing)]
  else []

def DataSide.waiting (s : DataSide n c) : Option (BitVec n × Bool) :=
  if s.fifoWren then some (s.dataID1, s.lastDataReg) else none

abbrev Clocked (i : DataIn n) : Prop := i.dataClkRst = false

def NoTrigger (s : DataSide n c) (i : DataIn n) : Prop :=
  Clocked i ∧ s.startAcqTrig = false

instance (s : DataSide n c) (i : DataIn n) : Decidable (NoTrigger s i) :=
  inferInstanceAs (Decidable (_ ∧ _))

/-! ### The samples counter -/

/-- A capture is running and `k` more samples follow the next one. -/
def DataSide.Left (s : DataSide n c) (k : Nat) : Prop :=
  k < 2 ^ 21 ∧ s.captureCtlReg.toNat = 2 ^ 21 + k

theorem capturing_iff (s : DataSide n c) :
    s.capturing = true ↔ 2 ^ 21 ≤ s.captureCtlReg.toNat := by
  simp [DataSide.capturing, BitVec.msb_eq_decide]

theorem DataSide.Left.capturing {s : DataSide n c} {k : Nat} (h : s.Left k) : s.capturing = true :=
  (capturing_iff s).mpr (by rw [h.2]; omega)

theorem capturing_left {s : DataSide n c} (h : s.capturing = true) : ∃ k, s.Left k := by
  have above := (capturing_iff s).mp h
  have below := s.captureCtlReg.isLt
  exact ⟨s.captureCtlReg.toNat - 2 ^ 21, by omega, by omega⟩

theorem left_load (s : DataSide n c) {i : DataIn n} (clocked : Clocked i)
    (idle : s.capturing = false) (trig : s.startAcqTrig = true) :
    (dataEdge s i).Left (loadCount i).toNat := by
  have below := (loadCount i).isLt
  refine ⟨by omega, ?_⟩
  simp only [dataEdge, pSamplesCounter, clocked, idle, trig, Bool.false_and, Bool.false_eq_true,
    if_false, if_true, BitVec.toNat_cons']
  rfl

theorem count_step {s : DataSide n c} {i : DataIn n} {k : Nat} (clocked : Clocked i)
    (left : s.Left k) (valid : i.dataValidI = true) (free : i.fifoFull = false) :
    (k = 0 ∧ (dataEdge s i).capturing = false) ∨ (∃ m, k = m + 1 ∧ (dataEdge s i).Left m) := by
  have value : (dataEdge s i).captureCtlReg.toNat = 2 ^ 21 + k - 1 := by
    have bound := left.1
    simp only [dataEdge, pSamplesCounter, clocked, left.capturing, valid, free, Bool.not_false,
      Bool.and_self, if_true, Bool.false_eq_true, if_false]
    rw [BitVec.toNat_sub, left.2]
    simp only [BitVec.toNat_ofNat]
    omega
  cases k with
  | zero =>
    refine Or.inl ⟨rfl, Bool.eq_false_iff.mpr fun running => ?_⟩
    have above := (capturing_iff _).mp running
    omega
  | succ m => exact Or.inr ⟨m, rfl, by have := left.1; omega, by rw [value]; omega⟩

theorem hold_step {s : DataSide n c} {i : DataIn n} (quiet : NoTrigger s i)
    (none : (s.capturing && i.dataValidI && !i.fifoFull) = false) :
    (dataEdge s i).captureCtlReg = s.captureCtlReg := by
  simp [dataEdge, pSamplesCounter, quiet.1, quiet.2, none]

theorem sLastData_eq {s : DataSide n c} {i : DataIn n} (clocked : Clocked i)
    (count : (s.capturing && i.dataValidI && !i.fifoFull) = true) :
    sLastData s i = !(dataEdge s i).capturing := by
  simp only [Bool.and_eq_true, Bool.not_eq_eq_eq_not, Bool.not_true] at count
  obtain ⟨⟨running, valid⟩, free⟩ := count
  obtain ⟨k, left⟩ := capturing_left running
  have zero : s.captureCtlReg = 0b1000000000000000000000#22 ↔ k = 0 := by
    rw [BitVec.toNat_inj.symm, left.2]
    simp only [BitVec.toNat_ofNat]
    omega
  rcases count_step clocked left valid free with ⟨rfl, done⟩ | ⟨m, rfl, more⟩
  · simp [sLastData, valid, done, zero]
  · simp [sLastData, more.capturing, zero]

end BpmAcquisition.DmaIf
