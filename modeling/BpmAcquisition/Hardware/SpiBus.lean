import BpmAcquisition.Hardware.SpiInit
import BpmAcquisition.Hardware.SpiProgress

/-!
# The four controllers on one bus

`fmc150_spi_ctrl.vhd` turns a level change of one of the `valid` inputs into a command packet for its
controller, lets the initializations follow one another and puts the controllers on one `spi_sclk` and
`spi_sdata`. Each controller divides `clk` to its `serial_clk`, so that the whole is a machine of `clk`: what
a controller sees at an edge of `clk` is that edge, and an edge of `serial_clk` where the divider rises.
-/

namespace BpmAcquisition.SpiCtrl

open Machine Pulse2pulse StellarCmd

/-- `clk_div` and the registers behind its most significant bit. -/
structure Divider where
  clkDiv : BitVec 4 := 0
  sclkExt : Bool := false
  serialClk : Bool := false

/-- `ads62p49_ctrl` has `sclk_ext` after `serial_clk`, the others before it. -/
def Divider.edge (c : Chip) (s : Divider) : Divider :=
  match c with
  | .ads62p49 => { clkDiv := s.clkDiv + 1, serialClk := (s.clkDiv + 1).msb, sclkExt := s.serialClk }
  | _ => { clkDiv := s.clkDiv + 1, sclkExt := (s.clkDiv + 1).msb, serialClk := s.sclkExt }

def Divider.rises (c : Chip) (s : Divider) : Bool := !s.serialClk && (s.edge c).serialClk

def Divider.falls (c : Chip) (s : Divider) : Bool := s.serialClk && !(s.edge c).serialClk

/-- What an edge of `clk` finds at the ports. -/
structure Ports where
  rdNWr : Bool
  addr : BitVec 16
  idata : Word
  valid : Chip → Bool
  sdo : Chip → Bool
  pllStatus : Bool
  monNInt : Bool
  externalClock : Bool

/-- In the order in which they are initialized. -/
def chips : List Chip := [.cdce72010, .ads62p49, .dac3283, .amc7823]

structure Bus where
  validPrev : Chip → Bool
  inCmdVal : Chip → Bool
  inCmd : BitVec 64
  busy : Bool
  odata : Word
  divider : Chip → Divider
  /-- `spi_sdi` at the last falling edge of `serial_clk`. -/
  frozen : Chip → Bool
  chip : (c : Chip) → Watched c.device

/-- The initialization memories of the four. -/
abbrev Roms := (c : Chip) → Rom c.device

namespace Ports

def command (p : Ports) : BitVec 64 := packet (if p.rdNWr then cmdRd else cmdWr) ((0 : BitVec 12) ++ p.addr) p.idata

def pin (p : Ports) : Chip → Bool
  | .cdce72010 => p.pllStatus
  | .amc7823 => p.monNInt
  | _ => false

end Ports

/-- Of the controllers that have a value, the first. -/
def firstOf {α : Type} (value : Chip → Option α) : Option α :=
  value .cdce72010 <|> value .ads62p49 <|> value .dac3283 <|> value .amc7823

/-- The data of the packet at `out_cmd`. -/
def Ctrl.shown {d : Device} (s : Ctrl d) : Option Word :=
  if s.stellar.outCmdVal then some (s.stellar.outCmd.extractLsb' 0 32) else none

namespace Bus

def ctrl (s : Bus) (c : Chip) : Ctrl c.device := (s.chip c).ctrl

/-- A controller starts when the one before it is done. -/
def initEna (s : Bus) : Chip → Bool
  | .cdce72010 => true
  | .ads62p49 => (s.ctrl .cdce72010).clk.initDone
  | .dac3283 => (s.ctrl .ads62p49).clk.initDone
  | .amc7823 => (s.ctrl .dac3283).clk.initDone

def toController (s : Bus) (p : Ports) (c : Chip) : Command where
  initEna := s.initEna c
  inCmdVal := s.inCmdVal c
  inCmd := s.inCmd
  pin := p.pin c

/-- `amc7823_ctrl` takes `spi_sdi` as it is: its falling-edge process is commented out. -/
def sdi (s : Bus) (p : Ports) : Chip → Bool
  | .amc7823 => p.sdo .amc7823
  | c => s.frozen c

def ticks (s : Bus) (p : Ports) (c : Chip) : List Tick :=
  afterClk (s.toController p c) ((s.divider c).rises c) (s.sdi p c) p.externalClock

def cmdBusy (s : Bus) (c : Chip) : Bool := (s.ctrl c).serial.busy

/-- The word of the first controller with an answer. -/
def answered (s : Bus) : Option Word := firstOf fun c => (s.ctrl c).shown

end Bus

def busEdge (roms : Roms) (s : Bus) (p : Ports) : Bus where
  validPrev := p.valid
  inCmdVal c := xor (p.valid c) (s.validPrev c)
  inCmd := p.command
  busy := s.cmdBusy .cdce72010 || s.cmdBusy .ads62p49 || s.cmdBusy .dac3283 || s.cmdBusy .amc7823
  odata := s.answered.getD s.odata
  divider c := (s.divider c).edge c
  frozen c := if (s.divider c).falls c then p.sdo c else s.frozen c
  chip c := run (watch (roms c)) (s.chip c) (s.ticks p c)

/-- Three controllers shift in what their chips sent at the falling edge before, and not what they send now. -/
theorem ticks_frozen (s : Bus) (p : Ports) (sdo : Chip → Bool) {c : Chip} (other : c ≠ .amc7823) :
    s.ticks { p with sdo := sdo } c = s.ticks p c := by
  cases c with
  | amc7823 => exact absurd rfl other
  | _ => rfl

/-- `amc7823_ctrl` shifts in what its chip sends now, whatever it sent at the falling edge. -/
theorem ticks_amc7823 (s : Bus) (p : Ports) (frozen : Chip → Bool) :
    Bus.ticks { s with frozen := frozen } p .amc7823 = s.ticks p .amc7823 := rfl

/-- The frames that the chips have taken at an edge. -/
def busFrames (roms : Roms) (s : Bus) (p : Ports) : List (Chip × List (Option Bool)) :=
  chips.flatMap fun c => (trace (watch (roms c)) (sent (roms c)) (s.chip c) (s.ticks p c)).map (c, ·)

/-! ### The lines of the bus -/

namespace Bus

def sdo (s : Bus) (c : Chip) : Option Bool := if (s.ctrl c).ncs then none else (s.ctrl c).sdo

/-- Only `ads62p49` has `sclk_ext` as it is. -/
def sclk (s : Bus) (c : Chip) : Option Bool :=
  if (s.ctrl c).ncs then none else some (xor (c != .ads62p49) (s.divider c).sclkExt)

def spiSdata (s : Bus) : Bool := (firstOf s.sdo).getD false

def spiSclk (s : Bus) : Bool := (firstOf s.sclk).getD false

end Bus

theorem firstOf_alone {α : Type} {value : Chip → Option α} {c : Chip} (alone : ∀ b, b ≠ c → value b = none) :
    firstOf value = value c := by
  cases c with
  | cdce72010 => simp [firstOf, alone .ads62p49, alone .dac3283, alone .amc7823]
  | ads62p49 => simp [firstOf, alone .cdce72010, alone .dac3283, alone .amc7823]
  | dac3283 => simp [firstOf, alone .cdce72010, alone .ads62p49, alone .amc7823]
  | amc7823 => simp [firstOf, alone .cdce72010, alone .ads62p49, alone .dac3283]

/-- While the other controllers do not select their chips, the bus is that of one. -/
theorem lines_alone {s : Bus} {c : Chip} (alone : ∀ b, b ≠ c → (s.ctrl b).ncs = true) :
    s.spiSdata = (s.sdo c).getD false ∧ s.spiSclk = (s.sclk c).getD false := by
  constructor
  · rw [Bus.spiSdata, firstOf_alone fun b other => by rw [Bus.sdo, if_pos (alone b other)]]
  · rw [Bus.spiSclk, firstOf_alone fun b other => by rw [Bus.sclk, if_pos (alone b other)]]

/-! ### What the controllers show -/

section
variable {d : Device} (rom : Rom d) {w : Watched d}

/-- No controller of the bus has a mailbox. -/
structure Unmailed (c : Ctrl d) : Prop where
  link : c.stellar.p2p3 = {}
  received : c.stellar.mbxReceived = false

theorem unmailed_tick (unmailed : Unmailed w.ctrl) (t : Tick) : Unmailed (watch rom w t).ctrl := by
  cases t with
  | clk i =>
    constructor
    · show edge w.ctrl.stellar.p2p3 ⟨some false, true, false⟩ = {}
      rw [unmailed.link]
      rfl
    · simp only [watch, tick, stellarEdge, Ctrl.clockEdges, cmdEdge, unmailed.link, unmailed.received, Option.elim]
      cases w.ctrl.stellar.p2p2.pulseout <;> rfl
  | serial sdi external => exact ⟨unmailed.link, unmailed.received⟩

def data (packet : BitVec 64) : Word := packet.extractLsb' 0 32

/-- `out_cmd` shows the packet that has just been sent, and nothing else. -/
theorem shown_clk (unmailed : Unmailed w.ctrl) (i : Command) :
    ((watch rom w (.clk i)).ctrl.shown).toList = (replies w (.clk i)).map data := by
  have quiet : w.ctrl.stellar.p2p3.pulseout = false := by
    rw [unmailed.link]
    rfl
  cases out : w.ctrl.stellar.p2p2.pulseout <;>
    simp [watch, tick, Ctrl.shown, stellarEdge, Ctrl.clockEdges, cmdEdge, replies, out, quiet, unmailed.received, data]

theorem unmailed_run (unmailed : Unmailed w.ctrl) (ts : List Tick) : Unmailed (run (watch rom) w ts).ctrl := by
  induction ts generalizing w with
  | nil => exact unmailed
  | cons t rest ih => exact ih (unmailed_tick rom unmailed t)

theorem shown_afterClk (unmailed : Unmailed w.ctrl) (i : Command) (rises sdi external : Bool) :
    ((run (watch rom) w (afterClk i rises sdi external)).ctrl.shown).toList =
      (trace (watch rom) replies w (afterClk i rises sdi external)).map data := by
  have clk := shown_clk rom unmailed i
  cases rises with
  | false =>
    simp only [afterClk, Bool.false_eq_true, if_false, run_cons, run_nil, trace_cons, trace_nil, List.append_nil]
    exact clk
  | true =>
    simp only [afterClk, if_true, run_cons, run_nil, trace_cons, trace_nil, List.append_nil]
    have same : (watch rom (watch rom w (.clk i)) (.serial sdi external)).ctrl.shown = (watch rom w (.clk i)).ctrl.shown := rfl
    rw [same, clk]
    simp [replies]

end

/-- No level changes, and no change is on its way to a controller. -/
structure Steady (levels : Chip → Bool) (s : Bus) : Prop where
  validPrev : s.validPrev = levels
  silent : ∀ c, s.inCmdVal c = false

theorem steady_edge {roms : Roms} {s : Bus} {levels : Chip → Bool} {p : Ports} (steady : Steady levels s) (still : p.valid = levels) :
    Steady levels (busEdge roms s p) := by
  refine ⟨still, fun c => ?_⟩
  show xor (p.valid c) (s.validPrev c) = false
  rw [still, steady.validPrev, Bool.xor_self]

/-- Nothing is under way anywhere on the bus. -/
structure AtRest (levels : Chip → Bool) (s : Bus) : Prop where
  steady : Steady levels s
  quiet : ∀ c, Quiet (s.chip c)
  unmailed : ∀ c, Unmailed (s.ctrl c)
  shown : ∀ c, (s.ctrl c).shown = none

/-! ### The divided clocks -/

/-- The edges of `clk` before the one at which `serial_clk` rises. -/
def untilRise (c : Chip) : Nat → Divider → Nat
  | 0, _ => 0
  | fuel + 1, s => if s.rises c then 0 else untilRise c fuel (s.edge c) + 1

def untilEdge (c : Chip) (s : Divider) : Nat := untilRise c 18 s

theorem untilEdge_step (c : Chip) (s : Divider) :
    if s.rises c then untilEdge c (s.edge c) ≤ 17 else untilEdge c s = untilEdge c (s.edge c) + 1 := by
  obtain ⟨clkDiv, sclkExt, serialClk⟩ := s
  cases c <;> revert clkDiv sclkExt serialClk <;> decide

theorem untilEdge_lt (c : Chip) (s : Divider) : untilEdge c s < 18 := by
  obtain ⟨clkDiv, sclkExt, serialClk⟩ := s
  cases c <;> revert clkDiv sclkExt serialClk <;> decide

end BpmAcquisition.SpiCtrl
