import BpmAcquisition.Hardware.StatusRegister

/-!
# The register file

`p_reg_write` and `p_reg_read` of `user_logic.vhd`. Software writes seven of the ten registers; the others
are copied from signals of the core at every edge. `FLAGS_PULSE_0` is cleared by an edge that writes none of the
seven. The `BusSide` of the STATUS register is a part of this register file.
-/

namespace BpmAcquisition.Fmc150

open Machine UserLogic

inductive Reg where
  | flagsPulse0
  | flagsIn0
  | flagsOut0
  | addr
  | datain
  | dataout
  | chipselect
  | adcDelay
  | samplesReg
  | statusReg
  deriving DecidableEq

namespace Reg

def index : Reg → Nat
  | flagsPulse0 => 0
  | flagsIn0 => 1
  | flagsOut0 => 2
  | addr => 3
  | datain => 4
  | dataout => 5
  | chipselect => 6
  | adcDelay => 7
  | samplesReg => 8
  | statusReg => 9

def all : List Reg :=
  [flagsPulse0, flagsIn0, flagsOut0, addr, datain, dataout, chipselect, adcDelay, samplesReg, statusReg]

def readWrite : List Reg := [flagsPulse0, flagsIn0, addr, datain, chipselect, adcDelay, samplesReg]

/-- The register of a one-hot code. -/
def coded (rs : List Reg) (sel : BitVec 10) : Option Reg := rs.find? fun r => sel == select r.index

theorem coded_all (r : Reg) : coded all (select r.index) = some r := by
  cases r <;> decide

theorem coded_readWrite (r : Reg) : coded readWrite (select r.index) = if r ∈ readWrite then some r else none := by
  cases r <;> decide

theorem coded_select {rs : List Reg} {sel : BitVec 10} {r : Reg} (found : coded rs sel = some r) :
    r ∈ rs ∧ sel = select r.index := by
  unfold coded at found
  have same := List.find?_some found
  exact ⟨List.mem_of_find?_eq_some found, beq_iff_eq.mp same⟩

end Reg

abbrev Registers := Reg → BitVec 32

/-- What an edge of `Bus2IP_Clk` finds beside the registers. -/
structure RegIn where
  resetn : Bool := true
  writeSel : BitVec 10 := 0
  data : BitVec 32 := 0
  sOdata : BitVec 32
  sBusy : Bool
  pllStatus : Bool
  mmcmAdcLocked : Bool
  prsntM2cL : Bool
  dmaComplete : Bool
  dmaOvf : Bool

def RegIn.written (i : RegIn) : Option Reg := Reg.coded Reg.readWrite i.writeSel

def pRegWrite (s : Registers) (i : RegIn) : Registers :=
  if !i.resetn then fun _ => 0
  else fun
    | .flagsPulse0 =>
      match i.written with
      | some .flagsPulse0 => i.data
      | some _ => s .flagsPulse0
      | none => 0
    | .dataout => i.sOdata
    | .flagsOut0 =>
      (s .flagsOut0).extractLsb' 4 28 ++ BitVec.ofBool i.prsntM2cL ++ BitVec.ofBool i.mmcmAdcLocked ++
        BitVec.ofBool i.pllStatus ++ BitVec.ofBool i.sBusy
    | .statusReg => (s .statusReg).extractLsb' 2 30 ++ BitVec.ofBool i.dmaOvf ++ BitVec.ofBool i.dmaComplete
    | r => if i.written = some r then i.data else s r

/-- What a read shows; nothing is selected by a code that is not one-hot. -/
def pRegRead (s : Registers) (readSel : BitVec 10) : BitVec 32 := (Reg.coded Reg.all readSel).elim 0 s

theorem read_select (s : Registers) (r : Reg) : pRegRead s (select r.index) = s r := by
  rw [pRegRead, Reg.coded_all]
  rfl

/-! ### What software writes -/

/-- The registers that keep what software has written. -/
def Reg.Kept (r : Reg) : Prop := r ∈ readWrite ∧ r ≠ flagsPulse0

def RegIn.write (i : RegIn) (r : Reg) : List (BitVec 32) := if i.written = some r then [i.data] else []

section
variable {s : Registers} {i : RegIn} {r : Reg}

theorem kept_edge (kept : r.Kept) (running : i.resetn = true) :
    pRegWrite s i r = if i.written = some r then i.data else s r := by
  obtain ⟨member, other⟩ := kept
  unfold pRegWrite
  rw [running]
  cases r with
  | flagsPulse0 => exact absurd rfl other
  | flagsOut0 => exact absurd member (by decide)
  | dataout => exact absurd member (by decide)
  | statusReg => exact absurd member (by decide)
  | flagsIn0 => rfl
  | addr => rfl
  | datain => rfl
  | chipselect => rfl
  | adcDelay => rfl
  | samplesReg => rfl

theorem pulse_edge (running : i.resetn = true) :
    pRegWrite s i .flagsPulse0 =
      if i.written = some .flagsPulse0 then i.data else if i.written = none then 0 else s .flagsPulse0 := by
  unfold pRegWrite
  rw [running]
  cases written : i.written with
  | none => rfl
  | some w => cases w <;> rfl

theorem dataout_edge (running : i.resetn = true) : pRegWrite s i .dataout = i.sOdata := by
  simp [pRegWrite, running]

theorem low_flag {n : Nat} (v : BitVec n) (b : Bool) : (v ++ BitVec.ofBool b).getLsbD 0 = b := by
  rw [BitVec.getLsbD_append]
  simp

theorem next_flag {n : Nat} (v : BitVec n) (b : Bool) (k : Nat) : (v ++ BitVec.ofBool b).getLsbD (k + 1) = v.getLsbD k := by
  simp [BitVec.getLsbD_append]

theorem busy_edge (running : i.resetn = true) : (pRegWrite s i .flagsOut0).getLsbD 0 = i.sBusy := by
  rw [pRegWrite, running]
  exact low_flag _ _

theorem locked_edge (running : i.resetn = true) : (pRegWrite s i .flagsOut0).getLsbD 2 = i.mmcmAdcLocked := by
  rw [pRegWrite, running]
  exact (next_flag _ _ 1).trans ((next_flag _ _ 0).trans (low_flag _ _))

theorem status_edge (running : i.resetn = true) :
    (pRegWrite s i .statusReg).getLsbD 0 = i.dmaComplete ∧ (pRegWrite s i .statusReg).getLsbD 1 = i.dmaOvf := by
  rw [pRegWrite, running]
  exact ⟨low_flag _ _, (next_flag _ _ 0).trans (low_flag _ _)⟩

/-- A register that is kept shows the last word that was written to it, whatever else is written and whatever the core
does meanwhile. -/
theorem last_write (kept : r.Kept) {is : List RegIn} (running : ∀ i ∈ is, i.resetn = true) :
    pRegRead (run pRegWrite s is) (select r.index) = ((is.flatMap (·.write r)).getLast?).getD (s r) := by
  rw [read_select]
  induction is generalizing s with
  | nil => rfl
  | cons i rest ih =>
    obtain ⟨here, later⟩ := List.forall_mem_cons.mp running
    rw [run_cons, ih later, kept_edge kept here, List.flatMap_cons, RegIn.write, List.getLast?_append]
    cases (rest.flatMap (·.write r)).getLast? with
    | some w => rfl
    | none => split <;> rfl

end

/-- `ADDR` is written twice, with `DATAIN` between. -/
def threeWrites : List RegIn :=
  [⟨true, select Reg.addr.index, 3, 0, false, false, false, false, false, false⟩,
   ⟨true, select Reg.datain.index, 5, 7, true, false, false, false, false, false⟩,
   ⟨true, select Reg.addr.index, 4, 7, false, false, false, false, true, false⟩]

theorem threeWrites_last : pRegRead (run pRegWrite (fun _ => 0) threeWrites) (select Reg.addr.index) = 4 :=
  (last_write ⟨by decide, by decide⟩ (by decide)).trans (by decide)

/-! ### The STATUS register -/

/-- What `BusSide` is of the register file and the synchroniser. -/
def busSide (s : Registers) (synch : StatusSynch) : BusSide :=
  ⟨s .samplesReg, (s .statusReg).getLsbD 0, (s .statusReg).getLsbD 1, synch⟩

/-- The register file at an edge at which the synchroniser takes `b`. -/
structure SameEdge (i : RegIn) (b : BusIn) (synch : StatusSynch) : Prop where
  resetn : i.resetn = b.busRstN
  writeSel : i.writeSel = b.busRegWriteSel
  data : i.data = b.bus2IpData
  dmaComplete : i.dmaComplete = synch.dmaCompleteSynchGlue
  dmaOvf : i.dmaOvf = synch.dmaOvfSynchGlue

theorem samples_written (i : RegIn) : i.written = some .samplesReg ↔ i.writeSel = select fmc150.samplesReg := by
  constructor
  · intro written
    exact (Reg.coded_select written).2
  · intro same
    rw [RegIn.written, same]
    rfl

theorem busSide_edge (s : Registers) {i : RegIn} {b : BusIn} {synch : StatusSynch} (same : SameEdge i b synch) (ovf : Bool) :
    busSide (pRegWrite s i) (synchEdge fmc150 synch b ovf) = UserLogic.busEdge fmc150 (busSide s synch) b ovf := by
  obtain ⟨resetn, writeSel, data, dmaComplete, dmaOvf⟩ := same
  unfold UserLogic.busEdge busSide
  cases running : i.resetn with
  | false =>
    rw [← resetn, running]
    simp [pRegWrite, synchEdge, ← resetn, running, BusSide.reset]
  | true =>
    obtain ⟨complete, ended⟩ := status_edge (s := s) running
    rw [← resetn, running, kept_edge ⟨by decide, by decide⟩ running, complete, ended, dmaComplete, dmaOvf]
    simp only [samples_written, writeSel, data]
    rfl

end BpmAcquisition.Fmc150
