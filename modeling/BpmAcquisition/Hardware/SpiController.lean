import BpmAcquisition.Hardware.SpiDevice

/-!
# A controller of a chip

`cdce72010_ctrl.vhd`, `ads62p49_ctrl.vhd`, `dac3283_ctrl.vhd` and `amc7823_ctrl.vhd` as machines of two
clocks: a `Tick` is an edge of `clk` with a command packet, or one of `serial_clk` with what the chip sends,
in any order. `fmc150_stellar_cmd` turns the packet into a register access, the process at `clk` into
an instruction or an access of the global register, and the serial machine into frames; what a frame
reads goes the same way back.
-/

namespace BpmAcquisition.SpiCtrl

open Machine Pulse2pulse StellarCmd

variable {d : Device}

/-- The process at `clk`. -/
structure ClkSide (d : Device) where
  initDone : Bool := false
  initDoneTmp : Bool := false
  initDonePrev : Bool := false
  init : Bool := false
  control : BitVec 3 := d.controlReset
  inRegVal : Bool := false
  inReg : Word := 0
  instVal : Bool := false
  ins : Instruction d.instBits d.dataBits := {}

/-- The processes at `serial_clk` and the output registers of the initialization memories. -/
structure SerialSide (d : Device) where
  initTmp : Bool := false
  initReg : Bool := false
  fsm : Fsm := {}
  shiftReg : BitVec d.frameBits := 0
  initAddress : BitVec d.romAddr := 0
  doneSclk : Bool := false
  initDoneSclk : Bool := false
  readByteVal : Bool := false
  dataRead : BitVec d.readBits := 0
  initData : Bool → BitVec d.romBits := fun _ => 0

structure Ctrl (d : Device) where
  stellar : Stellar := {}
  clk : ClkSide d := {}
  inst : Link := {}
  serial : SerialSide d := {}
  data : Link := {}

/-- The initialization memory, by the clock source that it is for. -/
abbrev Rom (d : Device) := Bool → BitVec d.romAddr → BitVec d.romBits

/-- What an edge of `clk` finds at the ports; `pin` is `pll_status` or `mon_n_int`. -/
structure Command where
  initEna : Bool := false
  inCmdVal : Bool := false
  inCmd : BitVec 64 := 0
  pin : Bool := false

inductive Tick where
  | clk (i : Command)
  | serial (sdi external : Bool)

def generics : Generics := ⟨0x0000000, 0xFFFFFFF⟩

def SerialSide.busy (s : SerialSide d) : Bool := !(s.fsm.shState == .idle && !s.initReg)

/-! ### The process at `clk` -/

/-- What it finds of the other processes. -/
structure ClkIn (d : Device) where
  initEna : Bool
  doneSclk : Bool
  initDoneSclk : Bool
  busy : Bool
  pin : Bool
  outRegVal : Bool
  outRegAddr : Address
  outReg : Word
  inRegReq : Bool
  inRegAddr : Address
  dataReadVal : Bool
  dataRead : BitVec d.readBits

def ClkIn.writesGlobal (i : ClkIn d) : Bool := i.outRegVal && i.outRegAddr == d.addrGlobal
def ClkIn.readsGlobal (i : ClkIn d) : Bool := i.inRegReq && i.inRegAddr == d.addrGlobal
def ClkIn.writes (i : ClkIn d) : Bool := i.outRegVal && decide (i.outRegAddr ≤ d.addrMaxWr)
def ClkIn.reads (i : ClkIn d) : Bool := i.inRegReq && decide (i.inRegAddr ≤ d.addrMaxRd)

def nextInit (s : ClkSide d) (i : ClkIn d) : Bool :=
  if s.initDoneTmp && !s.initDonePrev then false
  else if i.initEna && !s.initDoneTmp then true
  else if i.writesGlobal then i.outReg.getLsbD 0
  else s.init

/-- The instruction that is written with `inst_val`. -/
def nextInstruction (s : ClkSide d) (i : ClkIn d) : Option (Instruction d.instBits d.dataBits) :=
  if i.writes then some ⟨false, d.writeInst i.outRegAddr, d.writeData i.outReg⟩
  else if i.reads then some ⟨true, d.readInst i.inRegAddr, d.readData i.inRegAddr s.ins.data⟩
  else none

def nextInRegVal (i : ClkIn d) : Bool :=
  if i.readsGlobal then true else if i.inRegAddr ≤ d.addrMaxRd then i.dataReadVal else false

def nextInReg (s : ClkSide d) (i : ClkIn d) : Word :=
  if i.readsGlobal then d.status i.busy i.pin s.initDonePrev s.control
  else if i.inRegAddr ≤ d.addrMaxRd then d.readBack i.inRegAddr i.dataRead
  else s.inReg

def clkEdge (s : ClkSide d) (i : ClkIn d) : ClkSide d where
  initDone := i.initDoneSclk
  initDoneTmp := i.doneSclk
  initDonePrev := s.initDoneTmp
  init := nextInit s i
  control := d.control s.control (if i.writesGlobal then some i.outReg else none)
  inRegVal := nextInRegVal i
  inReg := nextInReg s i
  instVal := (nextInstruction s i).isSome
  ins := (nextInstruction s i).getD s.ins

/-! ### The processes at `serial_clk` -/

structure SerialIn (d : Device) where
  init : Bool
  instRegVal : Bool
  ins : Instruction d.instBits d.dataBits
  sdi : Bool
  external : Bool

/-- A word of the initialization memory is loaded. -/
def SerialSide.loads (s : SerialSide d) : Bool := s.initReg && !s.fsm.shifting

def serialEdge (rom : Rom d) (s : SerialSide d) (i : SerialIn d) : SerialSide d where
  initTmp := i.init
  initReg := s.initTmp
  fsm := d.fsm s.fsm (i.instRegVal || s.initReg) (i.ins.rw && !s.initReg)
  shiftReg :=
    if s.loads then d.initFrame (s.initData i.external)
    else if i.instRegVal && !s.initReg then d.frame i.ins
    else d.shifted s.fsm s.shiftReg i.sdi
  initAddress :=
    if s.loads then if d.lastInit (s.initData i.external) then 0 else s.initAddress + 1 else s.initAddress
  doneSclk := if s.loads then d.lastInit (s.initData i.external) else s.doneSclk
  initDoneSclk := if !s.doneSclk then false else if s.fsm.shState = .idle then true else s.initDoneSclk
  readByteVal := s.fsm.shState == .dataValid
  dataRead := if s.fsm.shState = .dataValid then d.received s.shiftReg else s.dataRead
  initData external := rom external s.initAddress

/-! ### The controller -/

def Ctrl.clkIn (s : Ctrl d) (i : Command) : ClkIn d where
  initEna := i.initEna
  doneSclk := s.serial.doneSclk
  initDoneSclk := s.serial.initDoneSclk
  busy := s.serial.busy
  pin := i.pin
  outRegVal := s.stellar.p2p0.pulseout
  outRegAddr := s.stellar.outRegAddr
  outReg := s.stellar.outReg
  inRegReq := s.stellar.p2p1.pulseout
  inRegAddr := s.stellar.inRegAddrSig
  dataReadVal := s.data.pulseout
  dataRead := s.serial.dataRead

def Ctrl.cmdIn (s : Ctrl d) (i : Command) : CmdIn := ⟨i.inCmdVal, i.inCmd, s.clk.inReg, 0⟩

/-- `clk` is both clocks of the command interface. -/
def Ctrl.clockEdges (s : Ctrl d) (i : Command) : ClockEdges := ⟨some (s.cmdIn i), some ⟨s.clk.inRegVal, false⟩⟩

def tick (rom : Rom d) (s : Ctrl d) : Tick → Ctrl d
  | .clk i =>
    { s with
      stellar := stellarEdge generics s.stellar (s.clockEdges i)
      clk := clkEdge s.clk (s.clkIn i)
      inst := edge s.inst ⟨some s.clk.instVal, false, false⟩
      data := edge s.data ⟨none, true, false⟩ }
  | .serial sdi external =>
    { s with
      inst := edge s.inst ⟨none, true, false⟩
      serial := serialEdge rom s.serial ⟨s.clk.init, s.inst.pulseout, s.clk.ins, sdi, external⟩
      data := edge s.data ⟨some s.serial.readByteVal, false, false⟩ }

def Ctrl.ncs (s : Ctrl d) : Bool := s.serial.fsm.ncsInt

def Ctrl.sdo (s : Ctrl d) : Option Bool := d.sdo s.serial.fsm s.serial.shiftReg

/-- A controller, and the samples that the chip has taken since it was selected. -/
structure Watched (d : Device) where
  ctrl : Ctrl d := {}
  samples : List Sample := []

def watch (rom : Rom d) (s : Watched d) (t : Tick) : Watched d where
  ctrl := tick rom s.ctrl t
  samples :=
    match t with
    | .clk _ => s.samples
    | .serial sdi _ => if s.ctrl.ncs || (tick rom s.ctrl t).ncs then [] else s.samples ++ [(s.ctrl.sdo, sdi)]

/-- A frame is whole when the chip is released. -/
def frames (rom : Rom d) (s : Watched d) (t : Tick) : List (List Sample) :=
  match t with
  | .clk _ => []
  | .serial sdi _ => if !s.ctrl.ncs && (tick rom s.ctrl t).ncs then [s.samples ++ [(s.ctrl.sdo, sdi)]] else []

/-- The acknowledge packets that are written to `out_cmd`. -/
def replies (s : Watched d) : Tick → List (BitVec 64)
  | .clk i => if s.ctrl.stellar.p2p2.pulseout then [answer generics s.ctrl.stellar (s.ctrl.cmdIn i)] else []
  | .serial _ _ => []

/-! ### The crossings of a controller -/

def Ctrl.writes (s : Ctrl d) : Crossing (Address × Word) := s.stellar.writes

def Ctrl.reads (s : Ctrl d) : Crossing Address := s.stellar.reads

def Ctrl.instructions (s : Ctrl d) : Crossing (Instruction d.instBits d.dataBits) := ⟨s.clk.ins, s.clk.instVal, s.inst⟩

def Ctrl.received (s : Ctrl d) : Crossing (BitVec d.readBits) := ⟨s.serial.dataRead, s.serial.readByteVal, s.data⟩

def Ctrl.answers (s : Ctrl d) : Crossing Unit := ⟨(), s.clk.inRegVal, s.stellar.p2p2⟩

section
variable {rom : Rom d} (s : Ctrl d) (i : Command) (sdi external : Bool)

theorem writes_clk : (tick rom s (.clk i)).writes = cross s.writes ⟨some ((s.cmdIn i).write generics), true⟩ :=
  writes_edge generics s.stellar (s.clockEdges i)

theorem reads_clk : (tick rom s (.clk i)).reads = cross s.reads ⟨some ((s.cmdIn i).read generics), true⟩ :=
  reads_edge generics s.stellar (s.clockEdges i)

theorem instructions_clk :
    (tick rom s (.clk i)).instructions = cross s.instructions ⟨some (nextInstruction s.clk (s.clkIn i)), false⟩ := by
  cases next : nextInstruction s.clk (s.clkIn i) <;>
    simp [tick, Ctrl.instructions, clkEdge, cross, Crossing.edges, next]

theorem answers_clk :
    (tick rom s (.clk i)).answers =
      cross s.answers ⟨some (if nextInRegVal (s.clkIn i) then some () else none), true⟩ := by
  cases next : nextInRegVal (s.clkIn i) <;>
    simp [tick, Ctrl.answers, clkEdge, cross, Crossing.edges, next, stellarEdge, Ctrl.clockEdges]

theorem instructions_serial :
    (tick rom s (.serial sdi external)).instructions = cross s.instructions ⟨none, true⟩ := rfl

theorem received_serial :
    (tick rom s (.serial sdi external)).received =
      cross s.received ⟨some (if s.serial.fsm.shState = .dataValid then some (d.received s.serial.shiftReg) else none),
        false⟩ := by
  by_cases valid : s.serial.fsm.shState = .dataValid <;>
    simp [tick, Ctrl.received, serialEdge, cross, Crossing.edges, valid]

end

end BpmAcquisition.SpiCtrl
