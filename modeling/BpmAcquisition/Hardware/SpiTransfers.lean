import BpmAcquisition.Hardware.SpiController
import BpmAcquisition.Hardware.SpiFrames

/-!
# From command packets to frames and back

A controller that is given its commands while it is quiet has one access under way at most. `Place`
says where it is: in the command interface, between the clocks, in the shift register or on the way
back. `moves_tick` follows it over every edge of either clock, and from it the frames that the chip takes
are those of the commands, and the acknowledge packets carry their addresses and what the frames have read.
-/

namespace BpmAcquisition.SpiCtrl

open Machine Pulse2pulse StellarCmd

variable {d : Device} (S : Serializer d) (rom : Rom d)

/-- The initialization is over and its flag released. -/
structure Settled (s : Ctrl d) : Prop where
  init : s.clk.init = false
  initTmp : s.serial.initTmp = false
  initReg : s.serial.initReg = false
  doneTmp : s.clk.initDoneTmp = true
  done : s.serial.doneSclk = true

/-- The serial machine waits, and the chip is not selected. -/
structure Rest (s : Watched d) : Prop where
  idle : s.ctrl.serial.fsm.shState = .idle
  ncs : s.ctrl.ncs = true
  samples : s.samples = []

/-- Nothing is under way, and every link is ready for a pulse. -/
structure Quiet (s : Watched d) : Prop where
  settled : Settled s.ctrl
  rest : Rest s
  writes : s.ctrl.writes.Ready
  reads : s.ctrl.reads.Ready
  instructions : s.ctrl.instructions.Ready
  received : s.ctrl.received.Ready
  answers : s.ctrl.answers.Ready

def Command.write (i : Command) : Option (Address × Word) := CmdIn.write generics ⟨i.inCmdVal, i.inCmd, 0, 0⟩

def Command.read (i : Command) : Option Address := CmdIn.read generics ⟨i.inCmdVal, i.inCmd, 0, 0⟩

/-- Nothing is commanded. -/
def Command.Silent (i : Command) : Prop := i.write = none ∧ i.read = none

def Tick.Silent : Tick → Prop
  | .clk i => i.Silent
  | .serial _ _ => True

def writeFrames (addr : Address) (w : Word) : List (List (Option Bool)) :=
  if addr ≤ d.addrMaxWr then S.writeFrames addr w else []

def readFrames (addr : Address) : List (List (Option Bool)) :=
  if addr ≤ d.addrMaxRd then S.readFrames addr else []

/-- The frames that a command stands for: none for an address that the chip does not have. -/
def commanded (_ : Watched d) : Tick → List (List (Option Bool))
  | .clk i =>
    match i.write with
    | some (addr, w) => writeFrames S addr w
    | none => i.read.elim [] (readFrames S)
  | .serial _ _ => []

/-- What the chip takes of each frame. -/
def sent (s : Watched d) (t : Tick) : List (List (Option Bool)) := (frames rom s t).map (·.map Prod.fst)

def reply (addr : Address) (w : Word) : BitVec 64 := cmdRdAck ++ addr ++ w

def Ctrl.addr (s : Ctrl d) : Address := s.stellar.inRegAddrSig

/-- The address of a read that is to be acknowledged: of a register of the chip, or the global one. -/
def asked (_ : Watched d) : Tick → List Address
  | .clk i => (i.read.filter fun addr => addr ≤ d.addrMaxRd ∨ addr = d.addrGlobal).toList
  | .serial _ _ => []

/-- What a frame has read, or what the global register shows. -/
inductive Reading (d : Device) where
  | bits (y : BitVec d.readBits)
  | status (w : Word)

def readings (s : Watched d) : Tick → List (Reading d)
  | .clk i => if (s.ctrl.clkIn i).readsGlobal then [.status (nextInReg s.ctrl.clk (s.ctrl.clkIn i))] else []
  | .serial sdi external => ((frames rom s (.serial sdi external)).filterMap S.reads).map .bits

def acknowledge (addr : Address) : Reading d → BitVec 64
  | .bits y => reply addr (d.readBack addr y)
  | .status w => reply addr w

/-- What reads of these addresses are acknowledged with, by what was read for them. -/
def acknowledged (addrs : List Address) (ys : List (Reading d)) : List (BitVec 64) := List.zipWith acknowledge addrs ys

/-- The packets that acknowledge what is read, with the address that is at `in_reg_addr`. -/
def toAnswer (s : Watched d) (t : Tick) : List (BitVec 64) := (readings S rom s t).map (acknowledge s.ctrl.addr)

/-- The controller is quiet at a command, and the command does not restart the initialization. -/
def Spaced (s : Watched d) : Tick → Prop
  | .clk i =>
    (i.write ≠ none ∨ i.read ≠ none → Quiet s) ∧
      ∀ w, i.write = some (d.addrGlobal, w) → w.getLsbD 0 = false
  | .serial _ _ => True

/-! ### Where the access is -/

inductive Place (d : Device) where
  | resting
  | writing (addr : Address) (w : Word)
  | reading (addr : Address)
  | instructing (frames : List (List (Option Bool)))
  | sending (frames : List (List (Option Bool)))
  | handing (y : BitVec d.readBits)
  | returning (y : BitVec d.readBits)
  | answering

def framesOwed : Place d → List (List (Option Bool))
  | .writing addr w => writeFrames S addr w
  | .reading addr => readFrames S addr
  | .instructing frames | .sending frames => frames
  | _ => []

def repliesOwed (s : Watched d) : Place d → List (BitVec 64)
  | .handing y | .returning y => [reply s.ctrl.addr (d.readBack s.ctrl.addr y)]
  | .answering => [reply s.ctrl.addr s.ctrl.clk.inReg]
  | _ => []

/-- The address of a read that nothing has been read for yet. -/
def asksOwed (s : Watched d) : Place d → List Address
  | .reading addr => if addr ≤ d.addrMaxRd ∨ addr = d.addrGlobal then [addr] else []
  | .instructing _ => if s.ctrl.clk.ins.rw then [s.ctrl.addr] else []
  | .sending _ => if s.ctrl.serial.fsm.readNWrite then [s.ctrl.addr] else []
  | _ => []

/-- The instruction of a write, or that of a read of the address at `in_reg_addr`. -/
def Stands (s : Ctrl d) (ins : Instruction d.instBits d.dataBits) (frames : List (List (Option Bool))) : Prop :=
  (∃ addr w, ins = ⟨false, d.writeInst addr, d.writeData w⟩ ∧ frames = S.writeFrames addr w) ∨
    s.addr ≤ d.addrMaxRd ∧
      ∃ data, ins = ⟨true, d.readInst s.addr, d.readData s.addr data⟩ ∧ frames = S.readFrames s.addr

/-- The access has left the command interface; the way back is clear for what it reads. -/
structure Under (s : Ctrl d) : Prop where
  writes : s.writes.Empty
  reads : s.reads.Empty
  received : s.received.Ready
  answers : s.answers.Ready

def At (s : Watched d) : Place d → Prop
  | .resting =>
    s.ctrl.writes.Empty ∧ s.ctrl.reads.Empty ∧ s.ctrl.instructions.Empty ∧ Rest s ∧ s.ctrl.received.Empty ∧
      s.ctrl.answers.Empty
  | .writing addr w =>
    s.ctrl.writes.Carries (addr, w) ∧ s.ctrl.reads.Empty ∧ s.ctrl.instructions.Ready ∧ Rest s ∧
      s.ctrl.received.Ready ∧ s.ctrl.answers.Ready ∧ (addr = d.addrGlobal → w.getLsbD 0 = false)
  | .reading addr =>
    s.ctrl.writes.Empty ∧ s.ctrl.reads.Carries addr ∧ s.ctrl.instructions.Ready ∧ Rest s ∧
      s.ctrl.received.Ready ∧ s.ctrl.answers.Ready
  | .instructing frames =>
    Under s.ctrl ∧ Rest s ∧ ∃ ins, s.ctrl.instructions.Carries ins ∧ Stands S s.ctrl ins frames
  | .sending frames =>
    Under s.ctrl ∧ s.ctrl.instructions.Empty ∧
      S.Sends s.ctrl.serial.fsm s.ctrl.serial.shiftReg s.samples frames ∧
      (s.ctrl.serial.fsm.readNWrite = true → s.ctrl.addr ≤ d.addrMaxRd)
  | .handing y =>
    Under s.ctrl ∧ s.ctrl.instructions.Empty ∧ s.ctrl.serial.fsm.shState = .dataValid ∧ s.ctrl.ncs = true ∧
      s.samples = [] ∧ d.received s.ctrl.serial.shiftReg = y ∧ s.ctrl.addr ≤ d.addrMaxRd
  | .returning y =>
    s.ctrl.writes.Empty ∧ s.ctrl.reads.Empty ∧ s.ctrl.instructions.Empty ∧ Rest s ∧ s.ctrl.received.Carries y ∧
      s.ctrl.answers.Ready ∧ s.ctrl.addr ≤ d.addrMaxRd
  | .answering =>
    s.ctrl.writes.Empty ∧ s.ctrl.reads.Empty ∧ s.ctrl.instructions.Empty ∧ Rest s ∧ s.ctrl.received.Empty ∧
      s.ctrl.answers.Carries () ∧
      (s.ctrl.addr ≤ d.addrMaxRd → s.ctrl.clk.inReg = d.readBack s.ctrl.addr s.ctrl.serial.dataRead)

/-! ### Edges of `clk` -/

section
variable {s : Watched d} {c : Ctrl d} {i : Command} {sdi external : Bool}

theorem not_found {α : Type} {x : Crossing α} {g : Option (Option α)} (none : found x ⟨g, true⟩ = []) :
    x.link.pulseout = false := by
  refine Bool.eq_false_iff.mpr fun out => ?_
  simp [found, out] at none

theorem is_found {α : Type} {x : Crossing α} {a : α} {g : Option (Option α)} (one : found x ⟨g, true⟩ = [a]) :
    x.link.pulseout = true ∧ x.data = a := by
  cases out : x.link.pulseout with
  | false => simp [found, out] at one
  | true => exact ⟨rfl, by simpa [found, out] using one⟩

theorem empty_pulse {α : Type} {x : Crossing α} (empty : x.Empty) : x.link.pulseout = false :=
  not_found (g := none) (empty_found empty _)

theorem settled_clk (settled : Settled c)
    (restart : c.stellar.p2p0.pulseout = true → c.stellar.outRegAddr = d.addrGlobal → c.stellar.outReg.getLsbD 0 = false) :
    Settled (tick rom c (.clk i)) := by
  refine ⟨?_, settled.initTmp, settled.initReg, settled.done, settled.done⟩
  show nextInit c.clk (c.clkIn i) = false
  have global : (c.clkIn i).writesGlobal = true → (c.clkIn i).outReg.getLsbD 0 = false := by
    intro writes
    simp only [ClkIn.writesGlobal, Bool.and_eq_true, beq_iff_eq] at writes
    exact restart writes.1 writes.2
  unfold nextInit
  rw [settled.doneTmp, settled.init]
  simp only [Bool.not_true, Bool.and_false, Bool.true_and]
  split
  case isTrue => rfl
  case isFalse =>
    simp only [Bool.false_eq_true, if_false]
    split
    case isTrue writes => exact global writes
    case isFalse => rfl

theorem no_write (quiet : c.writes.link.pulseout = false) :
    (c.clkIn i).writes = false ∧ (c.clkIn i).writesGlobal = false := by
  have outRegVal : (c.clkIn i).outRegVal = false := quiet
  simp [ClkIn.writes, ClkIn.writesGlobal, outRegVal]

theorem no_read (quiet : c.reads.link.pulseout = false) :
    (c.clkIn i).reads = false ∧ (c.clkIn i).readsGlobal = false := by
  have inRegReq : (c.clkIn i).inRegReq = false := quiet
  simp [ClkIn.reads, ClkIn.readsGlobal, inRegReq]

theorem no_answer (global : (c.clkIn i).readsGlobal = false) (quiet : c.received.link.pulseout = false) :
    nextInRegVal (c.clkIn i) = false := by
  have dataReadVal : (c.clkIn i).dataReadVal = false := quiet
  simp [nextInRegVal, global, dataReadVal]

theorem no_instruction (writes : (c.clkIn i).writes = false) (reads : (c.clkIn i).reads = false) :
    nextInstruction c.clk (c.clkIn i) = none := by
  simp [nextInstruction, writes, reads]

theorem rest_clk (rest : Rest s) : Rest (watch rom s (.clk i)) := ⟨rest.idle, rest.ncs, rest.samples⟩

/-- Without a command nothing enters the command interface. -/
theorem writes_still (silent : i.write = none) : (tick rom c (.clk i)).writes = cross c.writes ⟨some none, true⟩ := by
  rw [writes_clk]
  exact congrArg (fun w => cross c.writes ⟨some w, true⟩) silent

theorem reads_still (silent : i.read = none) : (tick rom c (.clk i)).reads = cross c.reads ⟨some none, true⟩ := by
  rw [reads_clk]
  exact congrArg (fun a => cross c.reads ⟨some a, true⟩) silent

theorem addr_still (silent : i.read = none) : (tick rom c (.clk i)).addr = c.addr :=
  congrArg Crossing.data (reads_still rom silent)

theorem instructions_still (silent : nextInstruction c.clk (c.clkIn i) = none) :
    (tick rom c (.clk i)).instructions = cross c.instructions ⟨some none, false⟩ := by
  rw [instructions_clk, silent]

theorem answers_still (silent : nextInRegVal (c.clkIn i) = false) :
    (tick rom c (.clk i)).answers = cross c.answers ⟨some none, true⟩ := by
  rw [answers_clk, silent]
  rfl

/-- The access goes on: to another place or not, with the frames, replies and reads that are still owed. -/
def Moves (s : Watched d) (t : Tick) (p : Place d) : Prop :=
  ∃ p', Settled (watch rom s t).ctrl ∧ At S (watch rom s t) p' ∧
    framesOwed S p ++ commanded S s t = sent rom s t ++ framesOwed S p' ∧
    repliesOwed s p ++ toAnswer S rom s t = replies s t ++ repliesOwed (watch rom s t) p' ∧
    asksOwed s p ++ asked s t = (readings S rom s t).map (fun _ => s.ctrl.addr) ++ asksOwed (watch rom s t) p'

/-- Neither a write nor a read is found at `clk`. -/
structure Idle (c : Ctrl d) (i : Command) : Prop where
  write : i.write = none
  read : i.read = none
  noWrite : c.writes.link.pulseout = false
  noRead : c.reads.link.pulseout = false

theorem idle_instruction (idle : Idle c i) : nextInstruction c.clk (c.clkIn i) = none :=
  no_instruction (no_write idle.noWrite).1 (no_read idle.noRead).1

theorem idle_settled (settled : Settled c) (idle : Idle c i) : Settled (tick rom c (.clk i)) :=
  settled_clk rom settled fun out => absurd out (Bool.eq_false_iff.mp idle.noWrite)

theorem silent_commanded (write : i.write = none) (read : i.read = none) : commanded S s (.clk i) = [] := by
  simp only [commanded, write, read, Option.elim]

theorem silent_readings (silent : s.ctrl.reads.link.pulseout = false) : readings S rom s (.clk i) = [] := by
  simp [readings, no_read silent]

theorem silent_toAnswer (silent : s.ctrl.reads.link.pulseout = false) : toAnswer S rom s (.clk i) = [] := by
  rw [toAnswer, silent_readings S rom silent, List.map_nil]

theorem silent_asked (read : i.read = none) : asked s (.clk i) = [] := by
  simp only [asked, read, Option.filter_none, Option.toList_none]

/-- Without a command, and with nothing found at `clk`, the reads that are owed stay. -/
theorem asks_clk {asks asks' : List Address} (silent : s.ctrl.reads.link.pulseout = false) (read : i.read = none)
    (same : asks = asks') : asks ++ asked s (.clk i) = (readings S rom s (.clk i)).map (fun _ => s.ctrl.addr) ++ asks' := by
  rw [silent_asked read, silent_readings S rom silent, same, List.append_nil]
  rfl

theorem ins_still (silent : nextInstruction c.clk (c.clkIn i) = none) : (tick rom c (.clk i)).clk.ins = c.clk.ins := by
  show (nextInstruction c.clk (c.clkIn i)).getD c.clk.ins = _
  rw [silent]
  rfl

theorem silent_replies (silent : s.ctrl.answers.link.pulseout = false) : replies s (.clk i) = [] := by
  have none : s.ctrl.stellar.p2p2.pulseout = false := silent
  simp [replies, none]

theorem empty_still {α : Type} {x : Crossing α} (empty : x.Empty) (inClk : Option Unit) (outClk : Bool) :
    (cross x ⟨inClk.map fun _ => none, outClk⟩).Empty := by
  refine empty_cross empty ?_
  cases inClk <;> rfl

theorem ready_still {α : Type} {x : Crossing α} (ready : x.Ready) (inClk : Option Unit) (outClk : Bool) :
    (cross x ⟨inClk.map fun _ => none, outClk⟩).Ready := by
  refine ready_cross ready ?_
  cases inClk <;> rfl

/-- An access that has left the command interface stays where it is, as far as `clk` is concerned. -/
theorem under_clk (under : Under c) (write : i.write = none) (read : i.read = none) :
    Idle c i ∧ Under (tick rom c (.clk i)) := by
  have idle : Idle c i := ⟨write, read, empty_pulse under.writes, empty_pulse under.reads⟩
  have answer := no_answer (no_read idle.noRead).2 (empty_pulse under.received.empty) (i := i)
  refine ⟨idle, ?_, ?_, ready_still under.received none true, ?_⟩
  · rw [writes_still rom write]
    exact empty_still under.writes (some ()) true
  · rw [reads_still rom read]
    exact empty_still under.reads (some ()) true
  · rw [answers_still rom answer]
    exact ready_still under.answers (some ()) true

theorem resting_clk (settled : Settled s.ctrl) (here : At S s .resting) (write : i.write = none) (read : i.read = none) :
    Moves S rom s (.clk i) .resting := by
  obtain ⟨writes, reads, instructions, rest, received, answers⟩ := here
  have idle : Idle s.ctrl i := ⟨write, read, empty_pulse writes, empty_pulse reads⟩
  have answer := no_answer (no_read idle.noRead).2 (empty_pulse received) (i := i)
  refine ⟨.resting, idle_settled rom settled idle, ⟨?_, ?_, ?_, rest_clk rom rest, empty_still received none true, ?_⟩, ?_, ?_,
    asks_clk S rom idle.noRead read rfl⟩
  · show (tick rom s.ctrl (.clk i)).writes.Empty
    rw [writes_still rom write]
    exact empty_still writes (some ()) true
  · show (tick rom s.ctrl (.clk i)).reads.Empty
    rw [reads_still rom read]
    exact empty_still reads (some ()) true
  · show (tick rom s.ctrl (.clk i)).instructions.Empty
    rw [instructions_still rom (idle_instruction idle)]
    exact empty_still instructions (some ()) false
  · show (tick rom s.ctrl (.clk i)).answers.Empty
    rw [answers_still rom answer]
    exact empty_still answers (some ()) true
  · rw [silent_commanded S write read]
    rfl
  · rw [silent_toAnswer S rom idle.noRead, silent_replies (empty_pulse answers)]
    rfl

theorem instructing_clk {fs : List (List (Option Bool))} (settled : Settled s.ctrl) (here : At S s (.instructing fs))
    (write : i.write = none) (read : i.read = none) : Moves S rom s (.clk i) (.instructing fs) := by
  obtain ⟨under, rest, ins, carries, stands⟩ := here
  obtain ⟨idle, under'⟩ := under_clk rom under write read
  refine ⟨.instructing fs, idle_settled rom settled idle, ⟨under', rest_clk rom rest, ins, ?_, ?_⟩, ?_, ?_,
    asks_clk S rom idle.noRead read ?_⟩
  · show (tick rom s.ctrl (.clk i)).instructions.Carries ins
    rw [instructions_still rom (idle_instruction idle)]
    rcases carries_cross carries (g := ⟨some none, false⟩) rfl with ⟨-, next⟩ | ⟨out, -⟩
    · exact next
    · simp [found] at out
  · show Stands S (tick rom s.ctrl (.clk i)) ins fs
    unfold Stands
    rw [addr_still rom read]
    exact stands
  · rw [silent_commanded S write read, List.append_nil]
    rfl
  · rw [silent_toAnswer S rom idle.noRead, silent_replies (empty_pulse under.answers.empty)]
    rfl
  · show _ = if (tick rom s.ctrl (.clk i)).clk.ins.rw then [(tick rom s.ctrl (.clk i)).addr] else []
    rw [ins_still rom (idle_instruction idle), addr_still rom read]
    rfl

/-- Where only the serial machine works, an edge of `clk` leaves the access where it is. -/
theorem serial_clk {p : Place d} (settled : Settled s.ctrl) (under : Under s.ctrl) (instructions : s.ctrl.instructions.Empty)
    (write : i.write = none) (read : i.read = none)
    (kept : Under (tick rom s.ctrl (.clk i)) → (tick rom s.ctrl (.clk i)).instructions.Empty →
      (tick rom s.ctrl (.clk i)).addr = s.ctrl.addr → At S (watch rom s (.clk i)) p)
    (owed : repliesOwed (watch rom s (.clk i)) p = repliesOwed s p)
    (asks : asksOwed (watch rom s (.clk i)) p = asksOwed s p) : Moves S rom s (.clk i) p := by
  obtain ⟨idle, under'⟩ := under_clk rom under write read
  refine ⟨p, idle_settled rom settled idle, kept under' ?_ (addr_still rom read), ?_, ?_,
    asks_clk S rom idle.noRead read asks.symm⟩
  · rw [instructions_still rom (idle_instruction idle)]
    exact empty_still instructions (some ()) false
  · rw [silent_commanded S write read, List.append_nil]
    rfl
  · rw [silent_toAnswer S rom idle.noRead, silent_replies (empty_pulse under.answers.empty), owed, List.append_nil]
    rfl

theorem sending_clk {fs : List (List (Option Bool))} (settled : Settled s.ctrl) (here : At S s (.sending fs))
    (write : i.write = none) (read : i.read = none) : Moves S rom s (.clk i) (.sending fs) := by
  obtain ⟨under, instructions, sends, direction⟩ := here
  refine serial_clk S rom settled under instructions write read (fun under' instructions' addr => ?_) rfl ?_
  · refine ⟨under', instructions', sends, fun reading => ?_⟩
    show (tick rom s.ctrl (.clk i)).addr ≤ d.addrMaxRd
    rw [addr]
    exact direction reading
  · show (if s.ctrl.serial.fsm.readNWrite then [(tick rom s.ctrl (.clk i)).addr] else []) = _
    rw [addr_still rom read]
    rfl

theorem handing_clk {y : BitVec d.readBits} (settled : Settled s.ctrl) (here : At S s (.handing y))
    (write : i.write = none) (read : i.read = none) : Moves S rom s (.clk i) (.handing y) := by
  obtain ⟨under, instructions, valid, ncs, samples, received, within⟩ := here
  have addr : (watch rom s (.clk i)).ctrl.addr = s.ctrl.addr := addr_still rom read
  refine serial_clk S rom settled under instructions write read (fun under' instructions' _ => ?_) ?_ rfl
  · refine ⟨under', instructions', valid, ncs, samples, received, ?_⟩
    rw [addr]
    exact within
  · simp only [repliesOwed, addr]

theorem returning_clk {y : BitVec d.readBits} (settled : Settled s.ctrl) (here : At S s (.returning y))
    (write : i.write = none) (read : i.read = none) : Moves S rom s (.clk i) (.returning y) := by
  obtain ⟨writes, reads, instructions, rest, carries, answers, within⟩ := here
  have idle : Idle s.ctrl i := ⟨write, read, empty_pulse writes, empty_pulse reads⟩
  have noGlobal := (no_read idle.noRead (i := i)).2
  have addr : (tick rom s.ctrl (.clk i)).addr = s.ctrl.addr := addr_still rom read
  have writes' : (tick rom s.ctrl (.clk i)).writes.Empty := by
    rw [writes_still rom write]
    exact empty_still writes (some ()) true
  have reads' : (tick rom s.ctrl (.clk i)).reads.Empty := by
    rw [reads_still rom read]
    exact empty_still reads (some ()) true
  have instructions' : (tick rom s.ctrl (.clk i)).instructions.Empty := by
    rw [instructions_still rom (idle_instruction idle)]
    exact empty_still instructions (some ()) false
  have frames : framesOwed S (.returning y : Place d) ++ commanded S s (.clk i) = [] := by
    rw [silent_commanded S write read]
    rfl
  have replies : repliesOwed s (.returning y) ++ toAnswer S rom s (.clk i) =
      [reply s.ctrl.addr (d.readBack s.ctrl.addr y)] := by
    rw [silent_toAnswer S rom idle.noRead]
    rfl
  have none := silent_replies (s := s) (i := i) (empty_pulse answers.empty)
  have inAddr : (s.ctrl.clkIn i).inRegAddr ≤ d.addrMaxRd := within
  rcases carries_cross carries (g := ⟨Option.none, true⟩) rfl with ⟨silent, next⟩ | ⟨one, next⟩
  · have answer := no_answer noGlobal (not_found silent)
    refine ⟨.returning y, idle_settled rom settled idle, ⟨writes', reads', instructions', rest_clk rom rest, next, ?_, ?_⟩,
      frames, ?_, asks_clk S rom idle.noRead read rfl⟩
    · show (tick rom s.ctrl (.clk i)).answers.Ready
      rw [answers_still rom answer]
      exact ready_still answers (some ()) true
    · show (tick rom s.ctrl (.clk i)).addr ≤ d.addrMaxRd
      rw [addr]
      exact within
    · rw [replies, none]
      show _ = [reply (tick rom s.ctrl (.clk i)).addr (d.readBack (tick rom s.ctrl (.clk i)).addr y)]
      rw [addr]
  · obtain ⟨pulse, data⟩ := is_found one
    have val : nextInRegVal (s.ctrl.clkIn i) = true := by
      have dataReadVal : (s.ctrl.clkIn i).dataReadVal = true := pulse
      simp [nextInRegVal, noGlobal, inAddr, dataReadVal]
    have inReg : (tick rom s.ctrl (.clk i)).clk.inReg = d.readBack s.ctrl.addr y := by
      have dataRead : (s.ctrl.clkIn i).dataRead = y := data
      show nextInReg s.ctrl.clk (s.ctrl.clkIn i) = _
      simp only [nextInReg, noGlobal, Bool.false_eq_true, if_false, if_pos inAddr, dataRead]
      rfl
    refine ⟨.answering, idle_settled rom settled idle, ⟨writes', reads', instructions', rest_clk rom rest, next, ?_, ?_⟩,
      frames, ?_, asks_clk S rom idle.noRead read rfl⟩
    · show (tick rom s.ctrl (.clk i)).answers.Carries ()
      rw [answers_clk, val]
      exact ready_given answers rfl
    · intro _
      show (tick rom s.ctrl (.clk i)).clk.inReg = d.readBack (tick rom s.ctrl (.clk i)).addr s.ctrl.serial.dataRead
      rw [addr, inReg]
      exact congrArg _ data.symm
    · rw [replies, none]
      show _ = [reply (tick rom s.ctrl (.clk i)).addr (tick rom s.ctrl (.clk i)).clk.inReg]
      rw [addr, inReg]

theorem answering_clk (settled : Settled s.ctrl) (here : At S s .answering) (write : i.write = none) (read : i.read = none) :
    Moves S rom s (.clk i) .answering := by
  obtain ⟨writes, reads, instructions, rest, received, carries, shown⟩ := here
  have idle : Idle s.ctrl i := ⟨write, read, empty_pulse writes, empty_pulse reads⟩
  have noGlobal := (no_read idle.noRead (i := i)).2
  have noVal := no_answer noGlobal (empty_pulse received)
  have addr : (tick rom s.ctrl (.clk i)).addr = s.ctrl.addr := addr_still rom read
  have writes' : (tick rom s.ctrl (.clk i)).writes.Empty := by
    rw [writes_still rom write]
    exact empty_still writes (some ()) true
  have reads' : (tick rom s.ctrl (.clk i)).reads.Empty := by
    rw [reads_still rom read]
    exact empty_still reads (some ()) true
  have instructions' : (tick rom s.ctrl (.clk i)).instructions.Empty := by
    rw [instructions_still rom (idle_instruction idle)]
    exact empty_still instructions (some ()) false
  have received' : (tick rom s.ctrl (.clk i)).received.Empty := empty_still received none true
  have frames : framesOwed S (.answering : Place d) ++ commanded S s (.clk i) = [] := by
    rw [silent_commanded S write read]
    rfl
  have owed : repliesOwed s .answering ++ toAnswer S rom s (.clk i) = [reply s.ctrl.addr s.ctrl.clk.inReg] := by
    rw [silent_toAnswer S rom idle.noRead]
    rfl
  -- `in_reg` follows `data_read`, which no longer changes.
  have inReg : (tick rom s.ctrl (.clk i)).clk.inReg = s.ctrl.clk.inReg := by
    show nextInReg s.ctrl.clk (s.ctrl.clkIn i) = _
    by_cases within : s.ctrl.addr ≤ d.addrMaxRd
    · have inAddr : (s.ctrl.clkIn i).inRegAddr ≤ d.addrMaxRd := within
      simp only [nextInReg, noGlobal, Bool.false_eq_true, if_false, if_pos inAddr]
      exact (shown within).symm
    · have inAddr : ¬ (s.ctrl.clkIn i).inRegAddr ≤ d.addrMaxRd := within
      simp only [nextInReg, noGlobal, Bool.false_eq_true, if_false, if_neg inAddr]
  have next := carries_cross carries (g := ⟨some none, true⟩) rfl
  rw [← answers_still rom noVal] at next
  rcases next with ⟨silent, next⟩ | ⟨one, next⟩
  · refine ⟨.answering, idle_settled rom settled idle,
      ⟨writes', reads', instructions', rest_clk rom rest, received', next, ?_⟩, frames, ?_,
      asks_clk S rom idle.noRead read rfl⟩
    · show (tick rom s.ctrl (.clk i)).addr ≤ d.addrMaxRd →
        (tick rom s.ctrl (.clk i)).clk.inReg = d.readBack (tick rom s.ctrl (.clk i)).addr s.ctrl.serial.dataRead
      rw [addr, inReg]
      exact shown
    · rw [owed, silent_replies (not_found silent)]
      show _ = [reply (tick rom s.ctrl (.clk i)).addr (tick rom s.ctrl (.clk i)).clk.inReg]
      rw [addr, inReg]
  · refine ⟨.resting, idle_settled rom settled idle,
      ⟨writes', reads', instructions', rest_clk rom rest, received', next⟩, frames, ?_,
      asks_clk S rom idle.noRead read rfl⟩
    have pulse : s.ctrl.stellar.p2p2.pulseout = true := (is_found one).1
    rw [owed]
    simp only [replies, pulse, if_true]
    have packet : answer generics s.ctrl.stellar (s.ctrl.cmdIn i) = reply s.ctrl.addr s.ctrl.clk.inReg := by
      have zero : s.ctrl.addr + 0 = s.ctrl.addr := by simp
      show cmdRdAck ++ (s.ctrl.addr + 0) ++ s.ctrl.clk.inReg = _
      rw [zero]
      rfl
    rw [packet]
    rfl

theorem writing_clk {addr : Address} {w : Word} (settled : Settled s.ctrl) (here : At S s (.writing addr w))
    (write : i.write = none) (read : i.read = none) : Moves S rom s (.clk i) (.writing addr w) := by
  obtain ⟨carries, reads, instructions, rest, received, answers, restart⟩ := here
  have noRead := no_read (empty_pulse reads) (i := i)
  have noVal := no_answer noRead.2 (empty_pulse received.empty)
  have reads' : (tick rom s.ctrl (.clk i)).reads.Empty := by
    rw [reads_still rom read]
    exact empty_still reads (some ()) true
  have received' : (tick rom s.ctrl (.clk i)).received.Ready := ready_still received none true
  have answers' : (tick rom s.ctrl (.clk i)).answers.Ready := by
    rw [answers_still rom noVal]
    exact ready_still answers (some ()) true
  have frames : framesOwed S (.writing addr w) ++ commanded S s (.clk i) = writeFrames S addr w := by
    rw [silent_commanded S write read, List.append_nil]
    rfl
  have replies : repliesOwed s (.writing addr w) ++ toAnswer S rom s (.clk i) = replies s (.clk i) ++ [] := by
    rw [silent_toAnswer S rom (empty_pulse reads), silent_replies (empty_pulse answers.empty)]
    rfl
  have next := carries_cross carries (g := ⟨some none, true⟩) rfl
  rw [← writes_still rom write] at next
  rcases next with ⟨silent, next⟩ | ⟨one, next⟩
  · have noWrite := no_write (not_found silent) (i := i)
    have settled' : Settled (tick rom s.ctrl (.clk i)) :=
      settled_clk rom settled fun out => absurd out (Bool.eq_false_iff.mp (not_found silent))
    refine ⟨.writing addr w, settled', ⟨next, reads', ?_, rest_clk rom rest, received', answers', restart⟩, frames, replies,
      asks_clk S rom (empty_pulse reads) read rfl⟩
    show (tick rom s.ctrl (.clk i)).instructions.Ready
    rw [instructions_still rom (no_instruction noWrite.1 noRead.1)]
    exact ready_still instructions (some ()) false
  · obtain ⟨pulse, data⟩ := is_found one
    obtain ⟨same, same'⟩ := Prod.mk.inj data
    have settled' : Settled (tick rom s.ctrl (.clk i)) :=
      settled_clk rom settled fun _ global => by
        rw [show s.ctrl.stellar.outReg = w from same']
        exact restart (same.symm.trans global)
    by_cases within : addr ≤ d.addrMaxWr
    · have writes : (s.ctrl.clkIn i).writes = true := by
        have outRegVal : (s.ctrl.clkIn i).outRegVal = true := pulse
        have outRegAddr : (s.ctrl.clkIn i).outRegAddr = addr := same
        simp [ClkIn.writes, outRegVal, outRegAddr, within]
      have instruction : nextInstruction s.ctrl.clk (s.ctrl.clkIn i) = some ⟨false, d.writeInst addr, d.writeData w⟩ := by
        have outRegAddr : (s.ctrl.clkIn i).outRegAddr = addr := same
        have outReg : (s.ctrl.clkIn i).outReg = w := same'
        simp [nextInstruction, writes, outRegAddr, outReg]
      refine ⟨.instructing (S.writeFrames addr w), settled',
        ⟨⟨next, reads', received', answers'⟩, rest_clk rom rest, _, ?_, Or.inl ⟨addr, w, rfl, rfl⟩⟩, ?_, replies,
        asks_clk S rom (empty_pulse reads) read ?_⟩
      · show (tick rom s.ctrl (.clk i)).instructions.Carries _
        rw [instructions_clk, instruction]
        exact ready_given instructions rfl
      · rw [frames]
        exact if_pos within
      · have ins : (tick rom s.ctrl (.clk i)).clk.ins = ⟨false, d.writeInst addr, d.writeData w⟩ := by
          show (nextInstruction s.ctrl.clk (s.ctrl.clkIn i)).getD s.ctrl.clk.ins = _
          rw [instruction]
          rfl
        show [] = if (tick rom s.ctrl (.clk i)).clk.ins.rw then [(tick rom s.ctrl (.clk i)).addr] else []
        rw [ins, if_neg Bool.false_ne_true]
    · have writes : (s.ctrl.clkIn i).writes = false := by
        have outRegAddr : (s.ctrl.clkIn i).outRegAddr = addr := same
        simp [ClkIn.writes, outRegAddr, within]
      refine ⟨.resting, settled',
        ⟨next, reads', ?_, rest_clk rom rest, received'.empty, answers'.empty⟩, ?_, replies,
        asks_clk S rom (empty_pulse reads) read rfl⟩
      · show (tick rom s.ctrl (.clk i)).instructions.Empty
        rw [instructions_still rom (no_instruction writes noRead.1)]
        exact empty_still instructions.empty (some ()) false
      · rw [frames]
        exact if_neg within

theorem reading_clk {addr : Address} (settled : Settled s.ctrl) (here : At S s (.reading addr))
    (write : i.write = none) (read : i.read = none) : Moves S rom s (.clk i) (.reading addr) := by
  obtain ⟨writes, carries, instructions, rest, received, answers⟩ := here
  have noWrite := no_write (empty_pulse writes) (i := i)
  have settled' : Settled (tick rom s.ctrl (.clk i)) :=
    settled_clk rom settled fun out => absurd out (Bool.eq_false_iff.mp (empty_pulse writes))
  have writes' : (tick rom s.ctrl (.clk i)).writes.Empty := by
    rw [writes_still rom write]
    exact empty_still writes (some ()) true
  have received' : (tick rom s.ctrl (.clk i)).received.Ready := ready_still received none true
  have frames : framesOwed S (.reading addr) ++ commanded S s (.clk i) = readFrames S addr := by
    rw [silent_commanded S write read, List.append_nil]
    rfl
  have none := silent_replies (s := s) (i := i) (empty_pulse answers.empty)
  have here : s.ctrl.addr = addr := carries.data
  have addr' : (tick rom s.ctrl (.clk i)).addr = addr := (addr_still rom read).trans here
  have inRegAddr : (s.ctrl.clkIn i).inRegAddr = addr := here
  have next := carries_cross carries (g := ⟨some Option.none, true⟩) rfl
  rw [← reads_still rom read] at next
  rcases next with ⟨silent, next⟩ | ⟨one, next⟩
  · have noRead := no_read (not_found silent) (i := i)
    have noVal := no_answer noRead.2 (empty_pulse received.empty)
    refine ⟨.reading addr, settled', ⟨writes', next, ?_, rest_clk rom rest, received', ?_⟩, frames, ?_,
      asks_clk S rom (not_found silent) read rfl⟩
    · show (tick rom s.ctrl (.clk i)).instructions.Ready
      rw [instructions_still rom (no_instruction noWrite.1 noRead.1)]
      exact ready_still instructions (some ()) false
    · show (tick rom s.ctrl (.clk i)).answers.Ready
      rw [answers_still rom noVal]
      exact ready_still answers (some ()) true
    · rw [silent_toAnswer S rom (not_found silent), none]
      rfl
  · obtain ⟨pulse, -⟩ := is_found one
    have inRegReq : (s.ctrl.clkIn i).inRegReq = true := pulse
    by_cases within : addr ≤ d.addrMaxRd
    · -- The chip has the register: the read is an instruction.
      have noGlobal : (s.ctrl.clkIn i).readsGlobal = false := by
        have apart : addr ≠ d.addrGlobal := fun same => absurd (same ▸ within) (BitVec.not_le.mpr S.apart)
        simp [ClkIn.readsGlobal, inRegAddr, apart]
      have reads : (s.ctrl.clkIn i).reads = true := by simp [ClkIn.reads, inRegReq, inRegAddr, within]
      have instruction : nextInstruction s.ctrl.clk (s.ctrl.clkIn i) =
          some ⟨true, d.readInst addr, d.readData addr s.ctrl.clk.ins.data⟩ := by
        simp [nextInstruction, noWrite.1, reads, inRegAddr]
      have noVal := no_answer noGlobal (empty_pulse received.empty)
      refine ⟨.instructing (S.readFrames addr), settled', ⟨⟨writes', next, received', ?_⟩, rest_clk rom rest,
        ⟨true, d.readInst addr, d.readData addr s.ctrl.clk.ins.data⟩, ?_, ?_⟩, ?_, ?_, ?_⟩
      · show (tick rom s.ctrl (.clk i)).answers.Ready
        rw [answers_still rom noVal]
        exact ready_still answers (some ()) true
      · show (tick rom s.ctrl (.clk i)).instructions.Carries _
        rw [instructions_clk, instruction]
        exact ready_given instructions rfl
      · show Stands S (tick rom s.ctrl (.clk i)) _ _
        unfold Stands
        rw [addr']
        exact Or.inr ⟨within, _, rfl, rfl⟩
      · rw [frames]
        exact if_pos within
      · rw [none]
        simp only [toAnswer, readings, noGlobal, Bool.false_eq_true, if_false]
        rfl
      · have ins : (tick rom s.ctrl (.clk i)).clk.ins = ⟨true, d.readInst addr, d.readData addr s.ctrl.clk.ins.data⟩ := by
          show (nextInstruction s.ctrl.clk (s.ctrl.clkIn i)).getD s.ctrl.clk.ins = _
          rw [instruction]
          rfl
        have owed : asksOwed (watch rom s (.clk i)) (.instructing (S.readFrames addr)) = [addr] := by
          show (if (tick rom s.ctrl (.clk i)).clk.ins.rw then [(tick rom s.ctrl (.clk i)).addr] else []) = _
          rw [ins, addr', if_pos rfl]
        rw [owed, silent_asked read]
        simp [asksOwed, readings, noGlobal, within]
    · have reads : (s.ctrl.clkIn i).reads = false := by simp [ClkIn.reads, inRegAddr, within]
      have instructions' : (tick rom s.ctrl (.clk i)).instructions.Empty := by
        rw [instructions_still rom (no_instruction noWrite.1 reads)]
        exact empty_still instructions.empty (some ()) false
      by_cases global : addr = d.addrGlobal
      · -- The global register is answered at once.
        have readsGlobal : (s.ctrl.clkIn i).readsGlobal = true := by
          simp [ClkIn.readsGlobal, inRegReq, inRegAddr, global]
        have val : nextInRegVal (s.ctrl.clkIn i) = true := by simp [nextInRegVal, readsGlobal]
        refine ⟨.answering, settled', ⟨writes', next, instructions', rest_clk rom rest, received'.empty, ?_, ?_⟩, ?_, ?_, ?_⟩
        · show (tick rom s.ctrl (.clk i)).answers.Carries ()
          rw [answers_clk, val]
          exact ready_given answers rfl
        · intro inside
          have inside : (tick rom s.ctrl (.clk i)).addr ≤ d.addrMaxRd := inside
          rw [addr'] at inside
          exact absurd inside within
        · rw [frames]
          exact if_neg within
        · rw [none]
          simp only [toAnswer, readings, readsGlobal, if_true, repliesOwed, List.nil_append, List.map_cons, List.map_nil]
          show _ = [reply (tick rom s.ctrl (.clk i)).addr _]
          rw [addr', here]
          rfl
        · rw [silent_asked read]
          simp [asksOwed, readings, readsGlobal, global, here]
      · have noGlobal : (s.ctrl.clkIn i).readsGlobal = false := by simp [ClkIn.readsGlobal, inRegAddr, global]
        have noVal := no_answer noGlobal (empty_pulse received.empty)
        refine ⟨.resting, settled', ⟨writes', next, instructions', rest_clk rom rest, received'.empty, ?_⟩, ?_, ?_, ?_⟩
        · show (tick rom s.ctrl (.clk i)).answers.Empty
          rw [answers_still rom noVal]
          exact empty_still answers.empty (some ()) true
        · rw [frames]
          exact if_neg within
        · rw [none]
          simp only [toAnswer, readings, noGlobal, Bool.false_eq_true, if_false]
          rfl
        · rw [silent_asked read]
          simp [asksOwed, readings, noGlobal, within, global]

/-! ### Commands -/

theorem quiet_at (quiet : Quiet s) : At S s .resting :=
  ⟨quiet.writes.empty, quiet.reads.empty, quiet.instructions.empty, quiet.rest, quiet.received.empty,
    quiet.answers.empty⟩

/-- A packet is a write or a read, not both. -/
theorem write_no_read {x : Address × Word} (write : i.write = some x) : i.read = none := by
  unfold Command.write CmdIn.write at write
  unfold Command.read CmdIn.read
  split at write
  case isFalse => cases write
  case isTrue hit =>
    refine if_neg fun hit' => ?_
    simp only [CmdIn.hits, Bool.and_eq_true, beq_iff_eq] at hit hit'
    exact absurd (hit.1.1.2.symm.trans hit'.1.1.2) (by decide)

/-- At a quiet controller a command enters the command interface. -/
theorem command_clk (quiet : Quiet s) (spaced : ∀ w, i.write = some (d.addrGlobal, w) → w.getLsbD 0 = false) :
    Moves S rom s (.clk i) .resting := by
  have noWrite := no_write (empty_pulse quiet.writes.empty) (i := i)
  have noRead := no_read (empty_pulse quiet.reads.empty) (i := i)
  have noVal := no_answer noRead.2 (empty_pulse quiet.received.empty)
  have settled' : Settled (tick rom s.ctrl (.clk i)) :=
    settled_clk rom quiet.settled fun out => absurd out (Bool.eq_false_iff.mp (empty_pulse quiet.writes.empty))
  have instructions' : (tick rom s.ctrl (.clk i)).instructions.Ready := by
    rw [instructions_still rom (no_instruction noWrite.1 noRead.1)]
    exact ready_still quiet.instructions (some ()) false
  have received' : (tick rom s.ctrl (.clk i)).received.Ready := ready_still quiet.received none true
  have answers' : (tick rom s.ctrl (.clk i)).answers.Ready := by
    rw [answers_still rom noVal]
    exact ready_still quiet.answers (some ()) true
  have replies : repliesOwed s .resting ++ toAnswer S rom s (.clk i) = replies s (.clk i) ++ [] := by
    rw [silent_toAnswer S rom (empty_pulse quiet.reads.empty), silent_replies (empty_pulse quiet.answers.empty)]
    rfl
  cases write : i.write with
  | some x =>
    obtain ⟨addr, w⟩ := x
    have read := write_no_read write
    refine ⟨.writing addr w, settled', ⟨?_, ?_, instructions', rest_clk rom quiet.rest, received', answers', ?_⟩, ?_, replies,
      asks_clk S rom (empty_pulse quiet.reads.empty) read rfl⟩
    · show (tick rom s.ctrl (.clk i)).writes.Carries (addr, w)
      rw [writes_clk]
      exact ready_given quiet.writes (congrArg some write)
    · show (tick rom s.ctrl (.clk i)).reads.Empty
      rw [reads_still rom read]
      exact empty_still quiet.reads.empty (some ()) true
    · rintro rfl
      exact spaced w write
    · simp only [commanded, write]
      rfl
  | none =>
    have writes' : (tick rom s.ctrl (.clk i)).writes.Empty := by
      rw [writes_still rom write]
      exact empty_still quiet.writes.empty (some ()) true
    cases read : i.read with
    | none => exact resting_clk S rom quiet.settled (quiet_at S quiet) write read
    | some addr =>
      refine ⟨.reading addr, settled', ⟨writes', ?_, instructions', rest_clk rom quiet.rest, received', answers'⟩, ?_,
        replies, ?_⟩
      · show (tick rom s.ctrl (.clk i)).reads.Carries addr
        rw [reads_clk]
        exact ready_given quiet.reads (congrArg some read)
      · simp only [commanded, write, read]
        rfl
      · rw [silent_readings S rom (empty_pulse quiet.reads.empty)]
        simp only [asked, read, asksOwed, List.nil_append, List.map_nil, Option.filter_some, decide_eq_true_eq]
        split <;> rfl

theorem moves_clk {p : Place d} (settled : Settled s.ctrl) (here : At S s p) (write : i.write = none) (read : i.read = none) :
    Moves S rom s (.clk i) p := by
  cases p with
  | resting => exact resting_clk S rom settled here write read
  | writing addr w => exact writing_clk S rom settled here write read
  | reading addr => exact reading_clk S rom settled here write read
  | instructing fs => exact instructing_clk S rom settled here write read
  | sending fs => exact sending_clk S rom settled here write read
  | handing y => exact handing_clk S rom settled here write read
  | returning y => exact returning_clk S rom settled here write read
  | answering => exact answering_clk S rom settled here write read

end

/-! ### Edges of `serial_clk` -/

section
variable {s : Watched d} {c : Ctrl d} (sdi external : Bool)

theorem settled_serial (settled : Settled c) : Settled (tick rom c (.serial sdi external)) := by
  refine ⟨settled.init, settled.init, settled.initTmp, settled.doneTmp, ?_⟩
  show (if c.serial.loads then d.lastInit (c.serial.initData external) else c.serial.doneSclk) = true
  rw [SerialSide.loads, settled.initReg, Bool.false_and, if_neg Bool.false_ne_true]
  exact settled.done

/-- Once the initialization is over, only an instruction starts the machine. -/
theorem serial_fsm (settled : Settled c) :
    (tick rom c (.serial sdi external)).serial.fsm = d.fsm c.serial.fsm c.inst.pulseout c.clk.ins.rw := by
  show d.fsm c.serial.fsm (c.inst.pulseout || c.serial.initReg) (c.clk.ins.rw && !c.serial.initReg) = _
  rw [settled.initReg, Bool.or_false, Bool.not_false, Bool.and_true]

theorem serial_register (settled : Settled c) :
    (tick rom c (.serial sdi external)).serial.shiftReg =
      if c.inst.pulseout then d.frame c.clk.ins else d.shifted c.serial.fsm c.serial.shiftReg sdi := by
  show (if c.serial.loads then _ else if c.inst.pulseout && !c.serial.initReg then _ else _) = _
  rw [SerialSide.loads, settled.initReg, Bool.false_and, if_neg Bool.false_ne_true, Bool.not_false, Bool.and_true]

theorem received_still (working : c.serial.fsm.shState ≠ .dataValid) :
    (tick rom c (.serial sdi external)).received = cross c.received ⟨some none, false⟩ := by
  rw [received_serial, if_neg working]

include S in
/-- An idle machine without an instruction waits on. -/
theorem rest_serial (settled : Settled s.ctrl) (rest : Rest s) (silent : s.ctrl.inst.pulseout = false) :
    Rest (watch rom s (.serial sdi external)) ∧ frames rom s (.serial sdi external) = [] := by
  have fsm := serial_fsm rom sdi external settled
  rw [silent] at fsm
  obtain ⟨idle, ncs⟩ := S.idle_step s.ctrl.serial.fsm s.ctrl.clk.ins.rw rest.idle
  rw [← fsm] at idle ncs
  refine ⟨⟨idle, ncs, ?_⟩, ?_⟩
  · simp [watch, rest.ncs]
  · simp [frames, rest.ncs]

theorem rest_received (rest : Rest s) :
    (tick rom s.ctrl (.serial sdi external)).received = cross s.ctrl.received ⟨some none, false⟩ :=
  received_still rom sdi external (by rw [rest.idle]; decide)

/-- Where the machine waits, nothing moves but the links. -/
theorem waiting_serial {p : Place d} (settled : Settled s.ctrl) (rest : Rest s) (silent : s.ctrl.inst.pulseout = false)
    (here : At S (watch rom s (.serial sdi external)) p)
    (owed : repliesOwed (watch rom s (.serial sdi external)) p = repliesOwed s p)
    (asks : asksOwed (watch rom s (.serial sdi external)) p = asksOwed s p) :
    Moves S rom s (.serial sdi external) p := by
  obtain ⟨-, none⟩ := rest_serial S rom sdi external settled rest silent
  refine ⟨p, settled_serial rom sdi external settled, here, ?_, ?_, ?_⟩
  · simp [commanded, sent, none]
  · simp [toAnswer, readings, none, replies, owed]
  · simp [asked, readings, none, asks]

theorem instructing_serial {fs : List (List (Option Bool))} (settled : Settled s.ctrl)
    (here : At S s (.instructing fs)) : Moves S rom s (.serial sdi external) (.instructing fs) := by
  obtain ⟨under, rest, ins, carries, stands⟩ := here
  have received' : (tick rom s.ctrl (.serial sdi external)).received.Ready := by
    rw [rest_received rom sdi external rest]
    exact ready_still under.received (some ()) false
  have under' : Under (tick rom s.ctrl (.serial sdi external)) := ⟨under.writes, under.reads, received', under.answers⟩
  rcases carries_cross carries (g := ⟨none, true⟩) rfl with ⟨silent, next⟩ | ⟨one, next⟩
  · obtain ⟨rest', -⟩ := rest_serial S rom sdi external settled rest (not_found silent)
    exact waiting_serial S rom sdi external settled rest (not_found silent) ⟨under', rest', ins, next, stands⟩ rfl rfl
  · obtain ⟨pulse, data⟩ := is_found one
    have pulse : s.ctrl.inst.pulseout = true := pulse
    have data : s.ctrl.clk.ins = ins := data
    have fsm := serial_fsm rom sdi external settled
    have register := serial_register rom sdi external settled
    rw [pulse, data] at fsm
    rw [if_pos pulse, data] at register
    obtain ⟨selected, direction⟩ := S.select s.ctrl.serial.fsm ins.rw rest.idle
    rw [← fsm] at selected direction
    have samples : (watch rom s (.serial sdi external)).samples = [] := by simp [watch, rest.ncs]
    have none : frames rom s (.serial sdi external) = [] := by simp [frames, rest.ncs]
    refine ⟨.sending fs, settled_serial rom sdi external settled, ⟨under', next, ?_, ?_⟩, ?_, ?_, ?_⟩
    · rw [samples]
      show S.Sends (tick rom s.ctrl (.serial sdi external)).serial.fsm _ [] fs
      rw [fsm]
      show S.Sends _ (tick rom s.ctrl (.serial sdi external)).serial.shiftReg [] fs
      rw [register]
      rcases stands with ⟨addr, w, rfl, rfl⟩ | ⟨-, old, rfl, rfl⟩
      · exact S.start_write _ addr w rest.idle
      · exact S.start_read _ _ old rest.idle
    · intro reading
      rcases stands with ⟨addr, w, rfl, -⟩ | ⟨within, -⟩
      · exact absurd (direction.symm.trans reading) Bool.false_ne_true
      · exact within
    · simp only [commanded, sent, none, List.map_nil, List.append_nil, List.nil_append]
      rfl
    · simp [toAnswer, readings, none, replies, repliesOwed]
    · have same : (watch rom s (.serial sdi external)).ctrl.serial.fsm.readNWrite = s.ctrl.clk.ins.rw := by
        rw [data]
        exact direction
      simp only [asked, asksOwed, readings, none, same, List.filterMap_nil, List.map_nil, List.append_nil, List.nil_append]
      rfl

theorem sending_serial {fs : List (List (Option Bool))} (settled : Settled s.ctrl) (here : At S s (.sending fs)) :
    Moves S rom s (.serial sdi external) (.sending fs) := by
  obtain ⟨under, instructions, sends, direction⟩ := here
  have quiet : s.ctrl.inst.pulseout = false := empty_pulse instructions
  have fsm := serial_fsm rom sdi external settled
  have register := serial_register rom sdi external settled
  rw [quiet] at fsm register
  simp only [Bool.false_eq_true, if_false] at register
  obtain ⟨active, notValid⟩ := S.active sends
  have received' : (tick rom s.ctrl (.serial sdi external)).received.Ready := by
    rw [received_still rom sdi external notValid]
    exact ready_still under.received (some ()) false
  have under' : Under (tick rom s.ctrl (.serial sdi external)) := ⟨under.writes, under.reads, received', under.answers⟩
  have instructions' : (tick rom s.ctrl (.serial sdi external)).instructions.Empty := empty_still instructions none true
  have kept := S.direction sends s.ctrl.clk.ins.rw
  rw [← fsm] at kept
  have step := S.sends_step sends s.ctrl.clk.ins.rw sdi
  simp only at step
  rw [← fsm, ← register] at step
  have direction' : (tick rom s.ctrl (.serial sdi external)).serial.fsm.readNWrite = true →
      (tick rom s.ctrl (.serial sdi external)).addr ≤ d.addrMaxRd := fun reading => direction (kept.symm.trans reading)
  have asks : (if s.ctrl.serial.fsm.readNWrite then [s.ctrl.addr] else []) =
      if (tick rom s.ctrl (.serial sdi external)).serial.fsm.readNWrite then [s.ctrl.addr] else [] := by
    rw [kept]
  rcases step with ⟨before, after, next⟩ | ⟨before, after, next⟩ | ⟨before, after, rest, split, ends⟩
  · have samples : (watch rom s (.serial sdi external)).samples = [] := by simp [watch, Ctrl.ncs, before]
    have none : frames rom s (.serial sdi external) = [] := by simp [frames, Ctrl.ncs, before]
    refine ⟨.sending fs, settled_serial rom sdi external settled, ⟨under', instructions', ?_, direction'⟩, ?_, ?_, ?_⟩
    · rw [samples]
      exact next
    · simp only [commanded, sent, none, List.map_nil, List.append_nil, List.nil_append]
    · simp [toAnswer, readings, none, replies, repliesOwed]
    · simp only [asked, readings, none, List.filterMap_nil, List.map_nil, List.append_nil, List.nil_append]
      exact asks
  · have samples : (watch rom s (.serial sdi external)).samples = s.samples ++ [(s.ctrl.sdo, sdi)] := by
      simp [watch, Ctrl.ncs, before, after]
    have none : frames rom s (.serial sdi external) = [] := by simp [frames, Ctrl.ncs, after]
    refine ⟨.sending fs, settled_serial rom sdi external settled, ⟨under', instructions', ?_, direction'⟩, ?_, ?_, ?_⟩
    · rw [samples]
      exact next
    · simp only [commanded, sent, none, List.map_nil, List.append_nil, List.nil_append]
    · simp [toAnswer, readings, none, replies, repliesOwed]
    · simp only [asked, readings, none, List.filterMap_nil, List.map_nil, List.append_nil, List.nil_append]
      exact asks
  · have samples : (watch rom s (.serial sdi external)).samples = [] := by simp [watch, Ctrl.ncs, after]
    have whole : frames rom s (.serial sdi external) = [s.samples ++ [(s.ctrl.sdo, sdi)]] := by
      simp [frames, Ctrl.ncs, before, after]
    have taken : framesOwed S (.sending fs) ++ commanded S s (.serial sdi external) =
        sent rom s (.serial sdi external) ++ rest := by
      simp only [commanded, sent, whole, framesOwed, List.map_cons, List.map_nil, List.append_nil]
      rw [split]
      rfl
    rcases ends with ⟨rfl, idle, writing, read⟩ | ⟨rfl, valid, reading, read⟩ | ⟨read, next⟩
    · refine ⟨.resting, settled_serial rom sdi external settled, ⟨under'.writes, under'.reads, instructions', ⟨idle, after, samples⟩,
        received'.empty, under'.answers.empty⟩, taken, ?_⟩
      have nothing : S.reads (s.samples ++ [(s.ctrl.sdo, sdi)]) = none := read
      simp [toAnswer, readings, whole, replies, repliesOwed, nothing, asked, asksOwed, writing]
    · refine ⟨.handing _, settled_serial rom sdi external settled,
        ⟨under', instructions', valid, after, samples, rfl, direction reading⟩, taken, ?_⟩
      have data : S.reads (s.samples ++ [(s.ctrl.sdo, sdi)]) =
          some (d.received (tick rom s.ctrl (.serial sdi external)).serial.shiftReg) := read
      constructor
      · simp only [toAnswer, readings, whole, replies, repliesOwed, List.filterMap_cons, List.filterMap_nil, data, List.map_cons,
          List.map_nil, List.nil_append]
        rfl
      · simp [readings, whole, data, asked, asksOwed, reading]
    · have nothing : S.reads (s.samples ++ [(s.ctrl.sdo, sdi)]) = none := read
      refine ⟨.sending rest, settled_serial rom sdi external settled, ⟨under', instructions', ?_, direction'⟩, taken, ?_, ?_⟩
      · rw [samples]
        exact next
      · simp [toAnswer, readings, whole, replies, repliesOwed, nothing]
      · simp only [asked, readings, whole, nothing, List.filterMap_cons, List.filterMap_nil, List.map_nil, List.append_nil,
          List.nil_append]
        exact asks

theorem handing_serial {y : BitVec d.readBits} (settled : Settled s.ctrl) (here : At S s (.handing y)) :
    Moves S rom s (.serial sdi external) (.handing y) := by
  obtain ⟨under, instructions, valid, ncs, samples, received, within⟩ := here
  have quiet : s.ctrl.inst.pulseout = false := empty_pulse instructions
  have fsm := serial_fsm rom sdi external settled
  rw [quiet] at fsm
  obtain ⟨idle, kept⟩ := S.valid_step s.ctrl.serial.fsm s.ctrl.clk.ins.rw valid
  rw [← fsm] at idle kept
  have rest' : Rest (watch rom s (.serial sdi external)) := ⟨idle, kept.trans ncs, by simp [watch, ncs]⟩
  have none : frames rom s (.serial sdi external) = [] := by simp [frames, ncs]
  refine ⟨.returning y, settled_serial rom sdi external settled, ⟨under.writes, under.reads, empty_still instructions Option.none true,
    rest', ?_, under.answers, within⟩, ?_, ?_, ?_⟩
  · show (tick rom s.ctrl (.serial sdi external)).received.Carries y
    rw [received_serial, if_pos valid, received]
    exact ready_given under.received rfl
  · simp [commanded, sent, none, framesOwed]
  · simp only [toAnswer, readings, none, replies, repliesOwed, List.filterMap_nil, List.map_nil, List.append_nil,
      List.nil_append]
    rfl
  · simp [asked, readings, none, asksOwed]

theorem moves_serial {p : Place d} (settled : Settled s.ctrl) (here : At S s p) :
    Moves S rom s (.serial sdi external) p := by
  cases p with
  | resting =>
    obtain ⟨writes, reads, instructions, rest, received, answers⟩ := here
    have silent : s.ctrl.inst.pulseout = false := empty_pulse instructions
    obtain ⟨rest', -⟩ := rest_serial S rom sdi external settled rest silent
    refine waiting_serial S rom sdi external settled rest silent
      ⟨writes, reads, empty_still instructions none true, rest', ?_, answers⟩ rfl rfl
    show (tick rom s.ctrl (.serial sdi external)).received.Empty
    rw [rest_received rom sdi external rest]
    exact empty_still received (some ()) false
  | writing addr w =>
    obtain ⟨writes, reads, instructions, rest, received, answers, restart⟩ := here
    have silent : s.ctrl.inst.pulseout = false := empty_pulse instructions.empty
    obtain ⟨rest', -⟩ := rest_serial S rom sdi external settled rest silent
    refine waiting_serial S rom sdi external settled rest silent
      ⟨writes, reads, ready_still instructions none true, rest', ?_, answers, restart⟩ rfl rfl
    show (tick rom s.ctrl (.serial sdi external)).received.Ready
    rw [rest_received rom sdi external rest]
    exact ready_still received (some ()) false
  | reading addr =>
    obtain ⟨writes, reads, instructions, rest, received, answers⟩ := here
    have silent : s.ctrl.inst.pulseout = false := empty_pulse instructions.empty
    obtain ⟨rest', -⟩ := rest_serial S rom sdi external settled rest silent
    refine waiting_serial S rom sdi external settled rest silent
      ⟨writes, reads, ready_still instructions none true, rest', ?_, answers⟩ rfl rfl
    show (tick rom s.ctrl (.serial sdi external)).received.Ready
    rw [rest_received rom sdi external rest]
    exact ready_still received (some ()) false
  | instructing fs => exact instructing_serial S rom sdi external settled here
  | sending fs => exact sending_serial S rom sdi external settled here
  | handing y => exact handing_serial S rom sdi external settled here
  | returning y =>
    obtain ⟨writes, reads, instructions, rest, carries, answers, within⟩ := here
    have silent : s.ctrl.inst.pulseout = false := empty_pulse instructions
    obtain ⟨rest', -⟩ := rest_serial S rom sdi external settled rest silent
    refine waiting_serial S rom sdi external settled rest silent
      ⟨writes, reads, empty_still instructions none true, rest', ?_, answers, within⟩ rfl rfl
    show (tick rom s.ctrl (.serial sdi external)).received.Carries y
    rw [rest_received rom sdi external rest]
    rcases carries_cross carries (g := ⟨some none, false⟩) rfl with ⟨-, next⟩ | ⟨one, -⟩
    · exact next
    · simp [found] at one
  | answering =>
    obtain ⟨writes, reads, instructions, rest, received, carries, shown⟩ := here
    have silent : s.ctrl.inst.pulseout = false := empty_pulse instructions
    obtain ⟨rest', -⟩ := rest_serial S rom sdi external settled rest silent
    have data : (tick rom s.ctrl (.serial sdi external)).serial.dataRead = s.ctrl.serial.dataRead :=
      congrArg Crossing.data (rest_received rom sdi external rest)
    refine waiting_serial S rom sdi external settled rest silent
      ⟨writes, reads, empty_still instructions none true, rest', ?_, carries, fun within => ?_⟩ rfl rfl
    · show (tick rom s.ctrl (.serial sdi external)).received.Empty
      rw [rest_received rom sdi external rest]
      exact empty_still received (some ()) false
    · show s.ctrl.clk.inReg = d.readBack s.ctrl.addr (tick rom s.ctrl (.serial sdi external)).serial.dataRead
      rw [data]
      exact shown within

end

/-! ### Runs -/

section
variable {s : Watched d} {ts : List Tick}

theorem ready_carries {α : Type} {x : Crossing α} {a : α} (ready : x.Ready) (carries : x.Carries a) : False := by
  rcases carries.token with ⟨val, -⟩ | ⟨-, flight⟩
  · exact Bool.false_ne_true (ready.val.symm.trans val)
  · exact Bool.false_ne_true (ready.free.symm.trans (inFlight_inbusy flight))

theorem quiet_resting {p : Place d} (quiet : Quiet s) (here : At S s p) : p = .resting := by
  have idle := quiet.rest.idle
  cases p with
  | resting => rfl
  | writing addr w => exact (ready_carries quiet.writes here.1).elim
  | reading addr => exact (ready_carries quiet.reads here.2.1).elim
  | instructing fs =>
    obtain ⟨-, -, ins, carries, -⟩ := here
    exact (ready_carries quiet.instructions carries).elim
  | sending fs => exact ((S.active here.2.2.1).1 idle).elim
  | handing y => exact absurd (idle.symm.trans here.2.2.1) (by decide)
  | returning y => exact (ready_carries quiet.received here.2.2.2.2.1).elim
  | answering => exact (ready_carries quiet.answers here.2.2.2.2.2.1).elim

theorem moves_tick {p : Place d} {t : Tick} (settled : Settled s.ctrl) (here : At S s p) (spaced : Spaced s t) :
    Moves S rom s t p := by
  cases t with
  | serial sdi external => exact moves_serial S rom sdi external settled here
  | clk i =>
    by_cases silent : i.write = none ∧ i.read = none
    · exact moves_clk S rom settled here silent.1 silent.2
    · have quiet := spaced.1 (by
        rw [not_and_or] at silent
        exact silent)
      rw [quiet_resting S quiet here]
      exact command_clk S rom quiet spaced.2

/-- An access is under way or none is, with what it still owes. -/
def Owes (s : Watched d) (frames : List (List (Option Bool))) (replies : List (BitVec 64)) : Prop :=
  ∃ p, Settled s.ctrl ∧ At S s p ∧ frames = framesOwed S p ∧ replies = repliesOwed s p

theorem owes_quiet (quiet : Quiet s) : Owes S s [] [] := ⟨.resting, quiet.settled, quiet_at S quiet, rfl, rfl⟩

theorem quiet_owes {frames : List (List (Option Bool))} {replies : List (BitVec 64)} (quiet : Quiet s)
    (owes : Owes S s frames replies) : frames = [] ∧ replies = [] := by
  obtain ⟨p, -, here, rfl, rfl⟩ := owes
  rw [quiet_resting S quiet here]
  exact ⟨rfl, rfl⟩

def OwesFrames (s : Watched d) (frames : List (List (Option Bool))) : Prop := ∃ replies, Owes S s frames replies

def OwesReplies (s : Watched d) (replies : List (BitVec 64)) : Prop := ∃ frames, Owes S s frames replies

theorem frames_tick (s : Watched d) (t : Tick) (owed : List (List (Option Bool))) (owes : OwesFrames S s owed)
    (spaced : Spaced s t) :
    ∃ next, OwesFrames S (watch rom s t) next ∧ owed ++ commanded S s t = sent rom s t ++ next := by
  obtain ⟨answers, p, settled, here, rfl, rfl⟩ := owes
  obtain ⟨p', settled', here', frames, -⟩ := moves_tick S rom settled here spaced
  exact ⟨framesOwed S p', ⟨_, p', settled', here', rfl, rfl⟩, frames⟩

theorem replies_tick (s : Watched d) (t : Tick) (owed : List (BitVec 64)) (owes : OwesReplies S s owed)
    (spaced : Spaced s t) :
    ∃ next, OwesReplies S (watch rom s t) next ∧ owed ++ toAnswer S rom s t = replies s t ++ next := by
  obtain ⟨frames, p, settled, here, rfl, rfl⟩ := owes
  obtain ⟨p', settled', here', -, replies, -⟩ := moves_tick S rom settled here spaced
  exact ⟨repliesOwed _ p', ⟨_, p', settled', here', rfl, rfl⟩, replies⟩

/-- The reads that nothing has been read for. -/
def OwesAsks (s : Watched d) (asks : List Address) : Prop := ∃ p, Settled s.ctrl ∧ At S s p ∧ asks = asksOwed s p

theorem asks_tick (s : Watched d) (t : Tick) (owed : List Address) (owes : OwesAsks S s owed) (spaced : Spaced s t) :
    ∃ next, OwesAsks S (watch rom s t) next ∧
      owed ++ asked s t = (readings S rom s t).map (fun _ => s.ctrl.addr) ++ next := by
  obtain ⟨p, settled, here, rfl⟩ := owes
  obtain ⟨p', settled', here', -, -, asks⟩ := moves_tick S rom settled here spaced
  exact ⟨asksOwed _ p', ⟨p', settled', here', rfl⟩, asks⟩

/-- What is sent on the way from a quiet state is what was commanded, but for what is still owed. -/
theorem frames_from_quiet (quiet : Quiet s) (spaced : Along (watch rom) Spaced s ts) :
    ∃ rest, OwesFrames S (run (watch rom) s ts) rest ∧
      trace (watch rom) (commanded S) s ts = trace (watch rom) (sent rom) s ts ++ rest := by
  obtain ⟨rest, owes, conserved⟩ := trace_conserved (frames_tick S rom) ⟨[], owes_quiet S quiet⟩ spaced
  exact ⟨rest, owes, conserved⟩

theorem replies_from_quiet (quiet : Quiet s) (spaced : Along (watch rom) Spaced s ts) :
    ∃ rest, OwesReplies S (run (watch rom) s ts) rest ∧
      trace (watch rom) (toAnswer S rom) s ts = trace (watch rom) replies s ts ++ rest := by
  obtain ⟨rest, owes, conserved⟩ := trace_conserved (replies_tick S rom) ⟨[], owes_quiet S quiet⟩ spaced
  exact ⟨rest, owes, conserved⟩

theorem frames_when_quiet (quiet : Quiet s) (spaced : Along (watch rom) Spaced s ts) (final : Quiet (run (watch rom) s ts)) :
    trace (watch rom) (sent rom) s ts = trace (watch rom) (commanded S) s ts := by
  obtain ⟨rest, ⟨answers, owes⟩, conserved⟩ := frames_from_quiet S rom quiet spaced
  rw [conserved, (quiet_owes S final owes).1, List.append_nil]

theorem replies_when_quiet (quiet : Quiet s) (spaced : Along (watch rom) Spaced s ts) (final : Quiet (run (watch rom) s ts)) :
    trace (watch rom) replies s ts = trace (watch rom) (toAnswer S rom) s ts := by
  obtain ⟨rest, ⟨frames, owes⟩, conserved⟩ := replies_from_quiet S rom quiet spaced
  rw [conserved, (quiet_owes S final owes).2, List.append_nil]

theorem acknowledged_pairs (pairs : List (Address × Reading d)) (rest : List Address) :
    acknowledged (pairs.map Prod.fst ++ rest) (pairs.map Prod.snd) = pairs.map fun x => acknowledge x.1 x.2 := by
  induction pairs with
  | nil => simp [acknowledged]
  | cons x pairs ih => exact congrArg (acknowledge x.1 x.2 :: ·) ih

/-- The reads of a run with what was read for each, in their order. -/
theorem readings_from_quiet (quiet : Quiet s) (spaced : Along (watch rom) Spaced s ts) :
    ∃ pairs : List (Address × Reading d), ∃ rest, OwesAsks S (run (watch rom) s ts) rest ∧
      trace (watch rom) asked s ts = pairs.map Prod.fst ++ rest ∧
      trace (watch rom) (readings S rom) s ts = pairs.map Prod.snd ∧
      trace (watch rom) (toAnswer S rom) s ts = pairs.map fun x => acknowledge x.1 x.2 := by
  have owes : OwesAsks S s [] := ⟨.resting, quiet.settled, quiet_at S quiet, rfl⟩
  obtain ⟨rest, owes', conserved⟩ := trace_conserved (asks_tick S rom) owes spaced
  let pair (s : Watched d) (t : Tick) : List (Address × Reading d) := (readings S rom s t).map fun y => (s.ctrl.addr, y)
  have first : trace (watch rom) (fun s t => (pair s t).map Prod.fst) s ts = _ := trace_map pair Prod.fst ts
  have second : trace (watch rom) (fun s t => (pair s t).map Prod.snd) s ts = _ := trace_map pair Prod.snd ts
  have both : trace (watch rom) (fun s t => (pair s t).map fun x => acknowledge x.1 x.2) s ts = _ :=
    trace_map pair (fun x => acknowledge x.1 x.2) ts
  simp only [pair, List.map_map, Function.comp_def, List.map_id'] at first second both
  refine ⟨trace (watch rom) pair s ts, rest, owes', ?_, second, both⟩
  exact Eq.trans conserved (congrArg (· ++ rest) first)

/-- The packets that are on their way or out carry the addresses of the reads, in their order. -/
theorem toAnswer_acknowledged (quiet : Quiet s) (spaced : Along (watch rom) Spaced s ts) :
    trace (watch rom) (toAnswer S rom) s ts =
      acknowledged (trace (watch rom) asked s ts) (trace (watch rom) (readings S rom) s ts) := by
  obtain ⟨pairs, rest, -, first, second, both⟩ := readings_from_quiet S rom quiet spaced
  rw [both, first, second, acknowledged_pairs]

theorem readings_when_quiet (quiet : Quiet s) (spaced : Along (watch rom) Spaced s ts) (final : Quiet (run (watch rom) s ts)) :
    (trace (watch rom) (readings S rom) s ts).length = (trace (watch rom) asked s ts).length := by
  obtain ⟨pairs, rest, ⟨p, -, here, owed⟩, first, second, -⟩ := readings_from_quiet S rom quiet spaced
  have none : rest = [] := by
    rw [owed, quiet_resting S final here]
    rfl
  rw [first, second, none, List.append_nil, List.length_map, List.length_map]

end

theorem silent_spaced {s : Watched d} {t : Tick} (silent : t.Silent) : Spaced s t := by
  cases t with
  | clk i =>
    obtain ⟨write, read⟩ := silent
    refine ⟨fun some => absurd some (by simp [write, read]), fun w given => ?_⟩
    rw [write] at given
    cases given
  | serial sdi external => trivial

/-! ### The four controllers -/

inductive Chip where
  | cdce72010
  | ads62p49
  | dac3283
  | amc7823
  deriving DecidableEq

def Chip.device : Chip → Device
  | .cdce72010 => SpiCtrl.cdce72010
  | .ads62p49 => SpiCtrl.ads62p49
  | .dac3283 => SpiCtrl.dac3283
  | .amc7823 => SpiCtrl.amc7823

def Chip.serializer : (c : Chip) → Serializer c.device
  | .cdce72010 => cdceSerializer
  | .ads62p49 => adsSerializer
  | .dac3283 => dacSerializer
  | .amc7823 => amcSerializer

/-- A controller after its initialization. -/
def initialized (d : Device) : Watched d :=
  { ctrl := {
      clk := { initDone := true, initDoneTmp := true, initDonePrev := true }
      serial := { doneSclk := true, initDoneSclk := true } } }

theorem ready_reset {α : Type} (data : α) : Crossing.Ready ⟨data, false, {}⟩ := ⟨sound_reset, rfl, rfl⟩

theorem quiet_initialized (d : Device) : Quiet (initialized d) :=
  ⟨⟨rfl, rfl, rfl, rfl, rfl⟩, ⟨rfl, rfl, rfl⟩, ready_reset _, ready_reset _, ready_reset _, ready_reset _, ready_reset _⟩

/-- Whatever the order of the edges of the two clocks, and whatever the chip sends: the frames that
the chip takes are those of the commands, in their order and each once, as far as they are through; all of
them are when the controller is quiet again. -/
theorem commands_reach_chip (c : Chip) (rom : Rom c.device) {s : Watched c.device} (quiet : Quiet s) {ts : List Tick}
    (spaced : Along (watch rom) Spaced s ts) :
    trace (watch rom) (sent rom) s ts <+: trace (watch rom) (commanded c.serializer) s ts ∧
      (Quiet (run (watch rom) s ts) →
        trace (watch rom) (sent rom) s ts = trace (watch rom) (commanded c.serializer) s ts) := by
  obtain ⟨rest, -, conserved⟩ := frames_from_quiet c.serializer rom quiet spaced
  exact ⟨⟨rest, conserved.symm⟩, frames_when_quiet c.serializer rom quiet spaced⟩

/-- A write of register 3 of `dac3283`, and thirty edges of both clocks. -/
def oneWrite : List Tick :=
  .clk { inCmdVal := true, inCmd := packet cmdWr 3 0x55 } :: (List.replicate 30 [.clk {}, .serial true false]).flatten

def blank (d : Device) : Rom d := fun _ _ => 0

theorem oneWrite_spaced : Along (watch (blank dac3283)) Spaced (initialized dac3283) oneWrite := by
  refine ⟨⟨fun _ => quiet_initialized _, fun w given => ?_⟩, along_of_all fun s t member => silent_spaced ?_⟩
  · have write : Command.write { inCmdVal := true, inCmd := packet cmdWr 3 0x55 } = some (3, 0x55) := by decide
    rw [write] at given
    cases given
  · obtain ⟨r, inRounds, inRound⟩ := List.mem_flatten.mp member
    obtain rfl := List.eq_of_mem_replicate inRounds
    rcases List.mem_pair.mp inRound with rfl | rfl
    · exact ⟨rfl, rfl⟩
    · trivial

theorem oneWrite_reaches_chip :
    trace (watch (blank dac3283)) (sent (blank dac3283)) (initialized dac3283) oneWrite <+:
        trace (watch (blank dac3283)) (commanded Chip.dac3283.serializer) (initialized dac3283) oneWrite ∧
      (Quiet (run (watch (blank dac3283)) (initialized dac3283) oneWrite) →
        trace (watch (blank dac3283)) (sent (blank dac3283)) (initialized dac3283) oneWrite =
          trace (watch (blank dac3283)) (commanded Chip.dac3283.serializer) (initialized dac3283) oneWrite) :=
  commands_reach_chip .dac3283 (blank dac3283) (quiet_initialized dac3283) oneWrite_spaced

/-- Each command that reads a register of the chip or the global register is acknowledged once and in
order, with its own address and with the bits that the chip sent for it or with what the register shows; all of
them are when the controller is quiet again. -/
theorem reads_are_acknowledged (c : Chip) (rom : Rom c.device) {s : Watched c.device} (quiet : Quiet s) {ts : List Tick}
    (spaced : Along (watch rom) Spaced s ts) :
    let asks := trace (watch rom) asked s ts
    let read := trace (watch rom) (readings c.serializer rom) s ts
    trace (watch rom) replies s ts <+: acknowledged asks read ∧
      (Quiet (run (watch rom) s ts) →
        read.length = asks.length ∧ trace (watch rom) replies s ts = acknowledged asks read) := by
  intro asks read
  have whole : trace (watch rom) (toAnswer c.serializer rom) s ts = acknowledged asks read :=
    toAnswer_acknowledged c.serializer rom quiet spaced
  rw [← whole]
  constructor
  · obtain ⟨rest, -, conserved⟩ := replies_from_quiet c.serializer rom quiet spaced
    exact ⟨rest, conserved.symm⟩
  · intro final
    exact ⟨readings_when_quiet c.serializer rom quiet spaced final, replies_when_quiet c.serializer rom quiet spaced final⟩

/-- A read of register 3 of `ads62p49`. -/
def oneRead : List Tick :=
  .clk { inCmdVal := true, inCmd := packet cmdRd 3 0 } :: (List.replicate 40 [.clk {}, .serial true false]).flatten

theorem oneRead_is_acknowledged :
    let asks := trace (watch (blank ads62p49)) asked (initialized ads62p49) oneRead
    let read := trace (watch (blank ads62p49)) (readings Chip.ads62p49.serializer (blank ads62p49)) (initialized ads62p49) oneRead
    trace (watch (blank ads62p49)) replies (initialized ads62p49) oneRead <+: acknowledged asks read ∧
      (Quiet (run (watch (blank ads62p49)) (initialized ads62p49) oneRead) →
        read.length = asks.length ∧
          trace (watch (blank ads62p49)) replies (initialized ads62p49) oneRead = acknowledged asks read) := by
  refine reads_are_acknowledged .ads62p49 (blank ads62p49) (quiet_initialized ads62p49) ?_
  refine ⟨⟨fun _ => quiet_initialized _, fun w given => ?_⟩, along_of_all fun s t member => silent_spaced ?_⟩
  · have write : Command.write { inCmdVal := true, inCmd := packet cmdRd 3 0 } = none := by decide
    rw [write] at given
    cases given
  · obtain ⟨r, inRounds, inRound⟩ := List.mem_flatten.mp member
    obtain rfl := List.eq_of_mem_replicate inRounds
    rcases List.mem_pair.mp inRound with rfl | rfl
    · exact ⟨rfl, rfl⟩
    · trivial

end BpmAcquisition.SpiCtrl
