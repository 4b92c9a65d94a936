import BpmAcquisition.Hardware.StellarCommand
import BpmAcquisition.Library.ShiftRegister

/-!
# The serial machines of the four chips

`cdce72010_ctrl.vhd`, `ads62p49_ctrl.vhd`, `dac3283_ctrl.vhd` and `amc7823_ctrl.vhd` are one design:
a process at `clk` that turns register accesses into instructions, and two at `serial_clk`, a state machine
and a shift register, that send them. `Device` has what the four differ in. Three of them
send an instruction and its data most significant bit first and read the data back in the same frame;
`cdce72010_ctrl` sends least significant bit first, and reads in a second frame.
-/

namespace BpmAcquisition.SpiCtrl

open StellarCmd

/-- The states of both kinds of machine. -/
inductive ShState where
  | idle
  | instruct
  | dataIo
  | regWrite
  | startRegRead
  | regRead
  | dataValid
  deriving DecidableEq

structure Fsm where
  shState : ShState := .idle
  shCounter : Nat := 0
  shifting : Bool := false
  readNWrite : Bool := false
  ncsInt : Bool := true
  deriving DecidableEq

/-- The state machine of `ads62p49_ctrl`, `dac3283_ctrl` and `amc7823_ctrl`: `header` bits, then `dataBits`. -/
def frameMachine (header dataBits : Nat) (s : Fsm) (start rw : Bool) : Fsm :=
  match s.shState with
  | .idle =>
    if start then
      { shState := .instruct, shCounter := header - 1, shifting := true, readNWrite := rw, ncsInt := false }
    else { s with shCounter := header - 1, shifting := false, ncsInt := true }
  | .instruct =>
    if s.shCounter = 0 then { s with shCounter := dataBits - 1, shState := .dataIo }
    else { s with shCounter := s.shCounter - 1 }
  | .dataIo =>
    if s.shCounter = 0 then
      { s with
        shCounter := header - 1
        shifting := false
        ncsInt := true
        shState := if s.readNWrite then .dataValid else .idle }
    else { s with shCounter := s.shCounter - 1 }
  | .dataValid => { s with shState := .idle }
  | _ => { s with shState := .idle }

/-- The state machine of `cdce72010_ctrl`: a frame of `length` bits, and for a read a second one. -/
def twoFrameMachine (length : Nat) (s : Fsm) (start rw : Bool) : Fsm :=
  match s.shState with
  | .idle =>
    if start then
      { shState := .regWrite, shCounter := length - 1, shifting := true, readNWrite := rw, ncsInt := false }
    else { s with shCounter := length - 1, shifting := false, ncsInt := true }
  | .regWrite =>
    if s.shCounter = 0 then
      { s with
        shCounter := length - 1
        shifting := false
        ncsInt := true
        shState := if s.readNWrite then .startRegRead else .idle }
    else { s with shCounter := s.shCounter - 1 }
  | .startRegRead => { s with shCounter := length - 1, shifting := true, ncsInt := false, shState := .regRead }
  | .regRead =>
    if s.shCounter = 0 then
      { s with shCounter := length - 1, shifting := false, ncsInt := true, shState := .dataValid }
    else { s with shCounter := s.shCounter - 1 }
  | .dataValid => { s with shState := .idle }
  | _ => { s with shState := .idle }

/-- `inst_rw`, `inst_reg` (after `page_reg`, where there is one) and `data_reg`. -/
structure Instruction (a b : Nat) where
  rw : Bool := false
  inst : BitVec a := 0
  data : BitVec b := 0

structure Device where
  instBits : Nat
  dataBits : Nat
  readBits : Nat
  frameBits : Nat
  romBits : Nat
  romAddr : Nat
  addrGlobal : Address
  addrMaxWr : Address
  addrMaxRd : Address
  writeInst : Address → BitVec instBits
  writeData : Word → BitVec dataBits
  readInst : Address → BitVec instBits
  /-- What a read leaves in `data_reg`. -/
  readData : Address → BitVec dataBits → BitVec dataBits
  fsm : Fsm → Bool → Bool → Fsm
  /-- What is shifted out of an instruction, and of a word of the initialization memory. -/
  frame : Instruction instBits dataBits → BitVec frameBits
  initFrame : BitVec romBits → BitVec frameBits
  lastInit : BitVec romBits → Bool
  shiftIn : BitVec frameBits → Bool → BitVec frameBits
  shiftOut : BitVec frameBits → Bool
  /-- The state in which `spi_sdo` is left to the chip. -/
  released : Fsm → Bool
  received : BitVec frameBits → BitVec readBits
  readBack : Address → BitVec readBits → Word
  controlReset : BitVec 3
  /-- The direct control bits, out of bits 1 to 3 of a write of the global register. -/
  control : BitVec 3 → Option Word → BitVec 3
  status : (busy pin initDone : Bool) → BitVec 3 → Word

/-- The devices that send a header and then data, or leave the line to the chip for the data. -/
def framed (header dataBits instBits romBits : Nat) (addrGlobal addrMaxWr addrMaxRd : Address)
    (inst : Address → BitVec instBits) (frame : Instruction instBits dataBits → BitVec (header + dataBits))
    (initFrame : BitVec romBits → BitVec (header + dataBits)) (lastInit : BitVec romBits → Bool)
    (controlReset : BitVec 3) (control : BitVec 3 → Option Word → BitVec 3)
    (status : (busy pin initDone : Bool) → BitVec 3 → Word) : Device where
  instBits := instBits
  dataBits := dataBits
  readBits := dataBits
  frameBits := header + dataBits
  romBits := romBits
  romAddr := 5
  addrGlobal := addrGlobal
  addrMaxWr := addrMaxWr
  addrMaxRd := addrMaxRd
  writeInst := inst
  writeData w := w.setWidth dataBits
  readInst := inst
  readData _ data := data
  fsm := frameMachine header dataBits
  frame := frame
  initFrame := initFrame
  lastInit := lastInit
  shiftIn := ShiftRegister.left
  shiftOut r := r.msb
  released s := s.shState == .dataIo && s.readNWrite
  received r := r.extractLsb' 0 dataBits
  readBack _ data := data.setWidth 32
  controlReset := controlReset
  control := control
  status := status

/-- `reset` follows bit 1 of a write of the global register for one period. -/
def resetPulse (w : Option Word) : BitVec 3 := w.elim 0 fun w => (w.extractLsb' 1 1).setWidth 3

def ads62p49 : Device :=
  framed 8 8 8 16 0x77 0x76 0x76
    (fun addr => addr.extractLsb' 0 8)
    (fun i => i.inst ++ i.data)
    (fun w => w)
    (fun w => w.extractLsb' 8 8 == 0x76)
    1
    (fun _ w => resetPulse w)
    (fun busy _ initDone c =>
      BitVec.setWidth 32 (BitVec.ofBool busy ++ (0 : BitVec 1) ++ c.extractLsb' 0 1 ++ BitVec.ofBool initDone))

def dac3283 : Device :=
  framed 8 8 5 16 0x20 0x1F 0x1F
    (fun addr => addr.extractLsb' 0 5)
    (fun i => BitVec.ofBool i.rw ++ (0 : BitVec 2) ++ i.inst ++ i.data)
    (fun w => (0 : BitVec 1) ++ (0 : BitVec 2) ++ w.extractLsb' 0 13)
    (fun w => w.extractLsb' 8 5 == 0x1F)
    0
    (fun _ _ => 0)
    (fun busy _ initDone _ => BitVec.setWidth 32 (BitVec.ofBool busy ++ (0 : BitVec 2) ++ BitVec.ofBool initDone))

/-- `inst_reg` is behind the two bits of `page_reg`. -/
def amc7823 : Device :=
  framed 16 16 7 32 0x320 0x115 0x11E
    (fun addr => addr.extractLsb' 8 2 ++ addr.extractLsb' 0 5)
    (fun i =>
      BitVec.ofBool i.rw ++ (0 : BitVec 1) ++ i.inst.extractLsb' 5 2 ++ (0 : BitVec 1) ++ i.inst.extractLsb' 0 5 ++
        (0 : BitVec 1) ++ i.inst.extractLsb' 0 5 ++ i.data)
    (fun w =>
      (0 : BitVec 1) ++ w.extractLsb' 24 3 ++ w.extractLsb' 16 6 ++ w.extractLsb' 16 6 ++ w.extractLsb' 0 16)
    (fun w => w.extractLsb' 16 16 == 0x115)
    1
    (fun _ w => resetPulse w)
    (fun busy monNInt initDone c =>
      BitVec.setWidth 32
        (BitVec.ofBool busy ++ BitVec.ofBool (!monNInt) ++ c.extractLsb' 0 1 ++ BitVec.ofBool initDone))

def cdce72010 : Device where
  instBits := 4
  dataBits := 28
  readBits := 28
  frameBits := 32
  romBits := 32
  romAddr := 4
  addrGlobal := 0x10
  addrMaxWr := 0xC
  addrMaxRd := 0xC
  writeInst addr := addr.extractLsb' 0 4
  writeData w := w.extractLsb' 4 28
  readInst _ := 0b1110
  readData addr _ := (0 : BitVec 24) ++ addr.extractLsb' 0 4
  fsm := twoFrameMachine 32
  frame i := i.data ++ i.inst
  initFrame w := w
  lastInit w := w.extractLsb' 0 4 == 0xC
  shiftIn := ShiftRegister.right
  shiftOut r := r.getLsbD 0
  released s := s.shState == .regRead
  received r := r.extractLsb' 4 28
  readBack addr data := data ++ addr.extractLsb' 0 4
  controlReset := 0
  control c w := w.elim (c.extractLsb' 1 2 ++ (0 : BitVec 1)) fun w => w.extractLsb' 1 3
  status busy pllStatus initDone c :=
    BitVec.setWidth 32 (BitVec.ofBool busy ++ BitVec.ofBool pllStatus ++ c ++ BitVec.ofBool initDone)

/-! ### What is on the line -/

namespace Device

def sdo (d : Device) (f : Fsm) (r : BitVec d.frameBits) : Option Bool :=
  if d.released f then none else some (d.shiftOut r)

def shifted (d : Device) (f : Fsm) (r : BitVec d.frameBits) (sdi : Bool) : BitVec d.frameBits :=
  if f.shifting then d.shiftIn r sdi else r

end Device

/-- A period of the line with the chip selected: what the machine sends, nothing where it leaves the
line to the chip, and what it reads. -/
abbrev Sample := Option Bool × Bool

/-- The frames that the machine of a device sends for an access, and how it goes through them. -/
structure Serializer (d : Device) where
  /-- A word of the shift register on the line. -/
  bits : BitVec d.frameBits → List (Option Bool)
  writeFrames : Address → Word → List (List (Option Bool))
  readFrames : Address → List (List (Option Bool))
  /-- What a frame reads from the chip, if it is one that reads. -/
  reads : List Sample → Option (BitVec d.readBits)
  /-- The samples of the frame so far, and the frames that are to come, this one first. -/
  Sends : Fsm → BitVec d.frameBits → List Sample → List (List (Option Bool)) → Prop
  start_write : ∀ f addr w, f.shState = .idle →
    Sends (d.fsm f true false) (d.frame ⟨false, d.writeInst addr, d.writeData w⟩) [] (writeFrames addr w)
  start_read : ∀ f addr data, f.shState = .idle →
    Sends (d.fsm f true true) (d.frame ⟨true, d.readInst addr, d.readData addr data⟩) [] (readFrames addr)
  active : ∀ {f r bits frames}, Sends f r bits frames → f.shState ≠ .idle ∧ f.shState ≠ .dataValid
  /-- A period is a gap, one within a frame, or the last of one. -/
  sends_step : ∀ {f r bits frames}, Sends f r bits frames → ∀ (rw sdi : Bool),
    let f' := d.fsm f false rw
    let r' := d.shifted f r sdi
    let samples := bits ++ [(d.sdo f r, sdi)]
    f.ncsInt = true ∧ f'.ncsInt = false ∧ Sends f' r' [] frames ∨
    f.ncsInt = false ∧ f'.ncsInt = false ∧ Sends f' r' samples frames ∨
    f.ncsInt = false ∧ f'.ncsInt = true ∧ ∃ rest, frames = samples.map Prod.fst :: rest ∧
      (rest = [] ∧ f'.shState = .idle ∧ f.readNWrite = false ∧ reads samples = none ∨
        rest = [] ∧ f'.shState = .dataValid ∧ f.readNWrite = true ∧ reads samples = some (d.received r') ∨
        reads samples = none ∧ Sends f' r' [] rest)
  idle_step : ∀ f rw, f.shState = .idle → (d.fsm f false rw).shState = .idle ∧ (d.fsm f false rw).ncsInt = true
  valid_step : ∀ f rw, f.shState = .dataValid →
    (d.fsm f false rw).shState = .idle ∧ (d.fsm f false rw).ncsInt = f.ncsInt
  select : ∀ f rw, f.shState = .idle → (d.fsm f true rw).ncsInt = false ∧ (d.fsm f true rw).readNWrite = rw
  start_word : ∀ f word, f.shState = .idle → Sends (d.fsm f true false) word [] [bits word]
  bits_length : ∀ word, (bits word).length = d.frameBits
  some_frame : ∀ {f r samples}, ¬ Sends f r samples []
  shifting : ∀ {f r samples frames}, Sends f r samples frames → f.ncsInt = false → f.shifting = true
  idle_shifting : ∀ f rw, f.shState = .idle → (d.fsm f false rw).shifting = false
  end_shifting : ∀ {f r samples frames}, Sends f r samples frames → ∀ rw, (d.fsm f false rw).shState = .idle →
    (d.fsm f false rw).shifting = false
  /-- A machine at work does not look at what would start it. -/
  deaf : ∀ f start rw rw', f.shState ≠ .idle → d.fsm f start rw = d.fsm f false rw'
  long : 4 ≤ d.frameBits
  /-- A read stays one. -/
  direction : ∀ {f r bits frames}, Sends f r bits frames → ∀ rw, (d.fsm f false rw).readNWrite = f.readNWrite
  apart : d.addrMaxRd < d.addrGlobal
  short : ∀ {f r samples frames}, Sends f r samples frames → f.ncsInt = false → samples.length < d.frameBits
  /-- The periods until the machine is idle. -/
  rank : Fsm → Nat
  periods : Nat
  rank_step : ∀ f rw, f.shState ≠ .idle → rank (d.fsm f false rw) < rank f
  rank_valid : ∀ f, f.shState = .dataValid → rank f ≤ periods
  rank_sends : ∀ {f r samples frames}, Sends f r samples frames → rank f ≤ periods
  /-- The frames of a write read nothing, and one of those of a read does. -/
  write_reads : ∀ addr w (taken : List (List Sample)), taken.map (·.map Prod.fst) = writeFrames addr w →
    taken.filterMap reads = []
  read_reads : ∀ addr (taken : List (List Sample)), taken.map (·.map Prod.fst) = readFrames addr →
    ∃ y, taken.filterMap reads = [y]

end BpmAcquisition.SpiCtrl
