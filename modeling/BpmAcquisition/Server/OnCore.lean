import BpmAcquisition.Hardware.Fmc150
import BpmAcquisition.Server.LowLevel

/-!
# Software on the core

`read_fmc150_register` and `write_fmc150_register` of `low_level_op.c`, with the time that they take: each `XIo_In32` and
`XIo_Out32` is an edge of the core after some others, and a `delay` is at least as many edges as its loop has passes. `Outside`
has what the program does not decide, so that a statement for every `Outside` is one for every timing and for whatever
the chips send.
-/

namespace BpmAcquisition.OnCore

open Machine StellarCmd SpiCtrl Fmc150 Server

structure Outside where
  roms : Roms
  /-- The pins at each time. -/
  pins : Nat → Pins
  /-- The edges before the access of an address that comes next, and those of a delay beyond its count. -/
  pace : UInt32 → Nat → Nat
  slack : Nat → Nat

/-- The core, the frames that the chips have taken, the delays that have been loaded and what software has written. -/
structure World where
  core : Core
  time : Nat := 0
  taken : List (Chip × List Sample) := []
  loaded : List Taps := []
  log : List Effect := []

/-- A function that may not come to its end is `none` there. -/
abbrev Soft := StateT World Option

/-- The chip enable of a register of the core. -/
def chipEnable (addr : UInt32) : BitVec 10 := UserLogic.select ((addr - fmc150Baseaddr) / 4).toNat

variable (o : Outside)

namespace World

def pass (w : World) (is : List CoreIn) : World where
  core := run (coreEdge o.roms) w.core is
  time := w.time + is.length
  taken := w.taken ++ trace (coreEdge o.roms) (Fmc150.taken o.roms) w.core is
  loaded := w.loaded ++ trace (coreEdge o.roms) Fmc150.loaded w.core is
  log := w.log

def elapse (w : World) (n : Nat) : World := w.pass o ((List.range' w.time n).map fun t => { pins := o.pins t })

/-- The world that an access meets. -/
def met (w : World) (addr : UInt32) : World := w.elapse o (o.pace addr w.time)

def in32 (w : World) (addr : UInt32) : World := (w.met o addr).elapse o 1

def shown (w : World) (addr : UInt32) : UInt32 := ⟨pRegRead (w.met o addr).core.registers (chipEnable addr)⟩

def out32 (w : World) (addr value : UInt32) : World :=
  { (w.met o addr).pass o [⟨o.pins (w.met o addr).time, chipEnable addr, value.toBitVec⟩] with
    log := w.log ++ [.out32 addr value] }

def delay (w : World) (counts : Nat) : World := w.elapse o (counts * 10000 + o.slack w.time)

end World

def xioIn32 (addr : UInt32) : Soft UInt32 := fun w => some (w.shown o addr, w.in32 o addr)

def xioOut32 (addr value : UInt32) : Soft Unit := fun w => some ((), w.out32 o addr value)

def delay (counts : Nat) : Soft Unit := fun w => some ((), w.delay o counts)

/-- What `read_fmc150_register` does where the bus is not busy. -/
def readIdle (chipselect addr : UInt32) : Soft (Int × UInt32) := do
  let auxValue ← xioIn32 o (fmc150Reg offsetFmc150FlagsIn0)
  xioOut32 o (fmc150Reg offsetFmc150FlagsIn0) (auxValue ||| maskOrFlagsin0SpiRead)
  xioOut32 o (fmc150Reg offsetFmc150Addr) addr
  let auxValue ← xioIn32 o (fmc150Reg offsetFmc150Chipselect)
  xioOut32 o (fmc150Reg offsetFmc150Chipselect) (auxValue ^^^ chipselect)
  delay o 10
  let value ← xioIn32 o (fmc150Reg offsetFmc150Dataout)
  return (success, value)

-- The second component is `*value`, which keeps its old content on an error.
def readFmc150Register (chipselect addr value : UInt32) : Soft (Int × UInt32) := do
  let flags ← xioIn32 o (fmc150Reg offsetFmc150FlagsOut0)
  if flags &&& maskAndFlagsout0SpiBusy ≠ maskAndFlagsout0SpiBusy then readIdle o chipselect addr
  else return (error, value)

def writeFmc150Register (chipselect addr value : UInt32) : Soft Int := do
  let auxValue ← xioIn32 o (fmc150Reg offsetFmc150FlagsIn0)
  xioOut32 o (fmc150Reg offsetFmc150FlagsIn0) (auxValue &&& maskAndFlagsin0SpiWrite)
  xioOut32 o (fmc150Reg offsetFmc150Addr) addr
  xioOut32 o (fmc150Reg offsetFmc150Datain) value
  let auxValue ← xioIn32 o (fmc150Reg offsetFmc150Chipselect)
  xioOut32 o (fmc150Reg offsetFmc150Chipselect) (auxValue ^^^ chipselect)
  return success

def updateFmc150AdcDelay (adcStrobeDelay adcChaDelay adcChbDelay : UInt8) : Soft Int := do
  let auxValue := adcStrobeDelay.toUInt32 + (adcChaDelay.toUInt32 <<< 8) + (adcChbDelay.toUInt32 <<< 16)
  xioOut32 o (fmc150Reg offsetFmc150AdcDelay) auxValue
  xioOut32 o (fmc150Reg offsetFmc150FlagsPulse0) 0x1
  return success

section
variable {o : Outside} {w : World} {α β : Type}

theorem bind_run {x : Soft α} {f : α → Soft β} {a : α} {w' : World} (first : x w = some (a, w')) : (x >>= f) w = f a w' := by
  show (x w).bind _ = _
  rw [first]
  rfl

theorem xioIn32_run (addr : UInt32) : xioIn32 o addr w = some (w.shown o addr, w.in32 o addr) := rfl

theorem delay_run (counts : Nat) : delay o counts w = some ((), w.delay o counts) := rfl

end

/-! ### Registers by address -/

def address (r : Reg) : UInt32 := fmc150Reg (UInt32.ofNat r.index)

theorem chipEnable_address (r : Reg) : chipEnable (address r) = UserLogic.select r.index := by
  cases r <;> decide

section
variable {o : Outside} {w : World} {r r' : Reg} {is : List CoreIn}

theorem elapse_written (w : World) (n : Nat) :
    ∀ i ∈ (List.range' w.time n).map fun t => ({ pins := o.pins t } : CoreIn), i.written = none := by
  intro i member
  obtain ⟨t, -, rfl⟩ := List.mem_map.mp member
  rfl

theorem elapse_others {n : Nat} (r : Reg) :
    ∀ i ∈ (List.range' w.time n).map fun t => ({ pins := o.pins t } : CoreIn), i.written ≠ some r := by
  intro i member
  rw [elapse_written w n i member]
  exact Option.some_ne_none r |>.symm

theorem elapse_register (kept : r.Kept) (n : Nat) : (w.elapse o n).core.registers r = w.core.registers r :=
  keeps_register_run kept (elapse_others r)

theorem shown_address (w : World) (r : Reg) : w.shown o (address r) = ⟨(w.met o (address r)).core.registers r⟩ := by
  rw [World.shown, chipEnable_address, read_select]

theorem shown_kept (kept : r.Kept) : w.shown o (address r) = ⟨w.core.registers r⟩ := by
  rw [shown_address, World.met, elapse_register kept]

theorem in32_register {addr : UInt32} (kept : r.Kept) : (w.in32 o addr).core.registers r = w.core.registers r := by
  rw [World.in32, elapse_register kept, World.met, elapse_register kept]

theorem out32_written (pins : Pins) (member : r ∈ Reg.readWrite) (v : Word) :
    CoreIn.written ⟨pins, chipEnable (address r), v⟩ = some r := by
  rw [CoreIn.written, chipEnable_address, Reg.coded_readWrite, if_pos member]

theorem out32_register (kept : r.Kept) (v : UInt32) : (w.out32 o (address r) v).core.registers r = v.toBitVec :=
  writes_register kept (out32_written _ kept.1 _)

theorem out32_other (kept : r.Kept) (member : r' ∈ Reg.readWrite) (other : r' ≠ r) (v : UInt32) :
    (w.out32 o (address r') v).core.registers r = w.core.registers r := by
  have written : CoreIn.written ⟨o.pins (w.met o (address r')).time, chipEnable (address r'), v.toBitVec⟩ ≠ some r := by
    rw [out32_written _ member]
    exact fun same => other (Option.some.inj same)
  show (coreEdge o.roms (w.met o (address r')).core _).registers r = _
  rw [keeps_register kept written, World.met, elapse_register kept]

/-! ### A board at rest -/

/-- No access and no update of the delays is under way. -/
structure Settled (levels : Chip → Bool) (w : World) : Prop where
  ready : Ready levels w.core
  calm : Calm w.core

/-- From one settled state to another nothing has come of the time between. -/
structure Idles (levels : Chip → Bool) (w w' : World) : Prop where
  settled : Settled levels w'
  taken : w'.taken = w.taken
  loaded : w'.loaded = w.loaded
  dataout : w'.core.registers .dataout = w.core.registers .dataout

variable {levels : Chip → Bool} {w' w'' : World}

theorem idles_trans (first : Idles levels w w') (second : Idles levels w' w'') : Idles levels w w'' :=
  ⟨second.settled, second.taken.trans first.taken, second.loaded.trans first.loaded, second.dataout.trans first.dataout⟩

theorem idles_pass (settled : Settled levels w) (levels_stay : ∀ i ∈ is, i.written ≠ some .chipselect)
    (no_pulse : ∀ i ∈ is, i.written ≠ some .flagsPulse0) : Idles levels w (w.pass o is) := by
  obtain ⟨ready, same, none⟩ := ready_run o.roms settled.ready levels_stay
  obtain ⟨calm, unloaded⟩ := calm_run o.roms settled.calm no_pulse
  refine ⟨⟨ready, calm⟩, ?_, ?_, ?_⟩
  · rw [World.pass, none, List.append_nil]
  · rw [World.pass, unloaded, List.append_nil]
  · exact ready.dataout.trans (same.trans settled.ready.dataout.symm)

theorem idles_elapse (settled : Settled levels w) (n : Nat) : Idles levels w (w.elapse o n) :=
  idles_pass settled (elapse_others _) (elapse_others _)

theorem idles_met {a : UInt32} (settled : Settled levels w) : Idles levels w (w.met o a) := idles_elapse settled _

theorem idles_in32 {a : UInt32} (settled : Settled levels w) : Idles levels w (w.in32 o a) :=
  idles_trans (idles_met settled) (idles_elapse (idles_met settled).settled 1)

theorem idles_out32 (settled : Settled levels w) (member : r ∈ Reg.readWrite) (stay : r ≠ .chipselect)
    (no_pulse : r ≠ .flagsPulse0) (v : UInt32) : Idles levels w (w.out32 o (address r) v) := by
  let i : CoreIn := ⟨o.pins (w.met o (address r)).time, chipEnable (address r), v.toBitVec⟩
  have written : ∀ j ∈ [i], j.written = some r := by
    intro j one
    obtain rfl := List.mem_singleton.mp one
    exact out32_written _ member _
  have passed : Idles levels (w.met o (address r)) ((w.met o (address r)).pass o [i]) := by
    refine idles_pass (idles_met settled).settled (fun i one => ?_) fun i one => ?_
    · rw [written i one]
      exact fun same => stay (Option.some.inj same)
    · rw [written i one]
      exact fun same => no_pulse (Option.some.inj same)
  exact idles_trans (idles_met settled)
    ⟨⟨passed.settled.ready, passed.settled.calm⟩, passed.taken, passed.loaded, passed.dataout⟩

/-! ### The access of a chip -/

/-- `CHIPSELECT_CDCE72010` and the others. -/
def mask : Chip → UInt32
  | .cdce72010 => 0x1
  | .ads62p49 => 0x2
  | .dac3283 => 0x4
  | .amc7823 => 0x8

theorem mask_bit (c b : Chip) : (mask c).toBitVec.getLsbD (chipselect b) = decide (b = c) := by
  cases c <;> cases b <;> decide

theorem select_changes (s : BitVec 32) (c b : Chip) :
    (s ^^^ (mask c).toBitVec).getLsbD (chipselect b) = changed c (fun b => s.getLsbD (chipselect b)) b := by
  rw [BitVec.getLsbD_xor, mask_bit]
  by_cases same : b = c <;> simp [changed, same]

/-- The command of an access is about to be given. -/
structure Pending (c : Chip) (levels : Chip → Bool) (w : World) : Prop where
  selected : Selected c levels w.core
  calm : Calm w.core

/-- The write of `CHIPSELECT` that begins an access. -/
def World.select (o : Outside) (w : World) (c : Chip) : World :=
  w.out32 o (address .chipselect) (⟨w.core.registers .chipselect⟩ ^^^ mask c)

theorem select_pending (settled : Settled levels w) (c : Chip) :
    Pending c levels (w.select o c) ∧ (w.select o c).taken = w.taken ∧ (w.select o c).loaded = w.loaded ∧
      (w.select o c).core.bus.odata = w.core.registers .dataout := by
  let addr := address .chipselect
  have met : Idles levels w (w.met o addr) := idles_met settled
  obtain ⟨atRest, -, same, none⟩ :=
    rest_edge o.roms met.settled.ready.atRest met.settled.ready.valid
      ⟨o.pins (w.met o addr).time, chipEnable addr, ((⟨w.core.registers .chipselect⟩ ^^^ mask c : UInt32)).toBitVec⟩
  have pulse : CoreIn.written
      ⟨o.pins (w.met o addr).time, chipEnable addr,
        ((⟨w.core.registers .chipselect⟩ ^^^ mask c : UInt32)).toBitVec⟩ ≠ some .flagsPulse0 := by
    rw [out32_written _ (by decide)]
    decide
  obtain ⟨calm, unloaded⟩ := calm_edge o.roms met.settled.calm pulse
  refine ⟨⟨⟨atRest, ?_⟩, calm⟩, ?_, ?_, ?_⟩
  · funext b
    show ((w.select o c).core.registers .chipselect).getLsbD (chipselect b) = _
    rw [World.select, out32_register chipselect_kept, UInt32.toBitVec_xor, select_changes]
    exact congrArg (changed c · b) settled.ready.valid
  · show (w.met o addr).taken ++ trace (coreEdge o.roms) (Fmc150.taken o.roms) (w.met o addr).core [_] = w.taken
    rw [trace_cons, none, met.taken]
    exact List.append_nil _
  · show (w.met o addr).loaded ++ trace (coreEdge o.roms) Fmc150.loaded (w.met o addr).core [_] = w.loaded
    rw [trace_cons, unloaded, met.loaded]
    exact List.append_nil _
  · show (coreEdge o.roms (w.met o addr).core _).bus.odata = _
    rw [same, ← met.settled.ready.dataout, met.dataout]

/-- The edges of a stretch of time in which software does nothing. -/
def elapsing (o : Outside) (w : World) (n : Nat) : List CoreIn := (List.range' w.time n).map fun t => { pins := o.pins t }

theorem pending_settles {c : Chip} (pending : Pending c levels w) {n : Nat}
    (settles : Settles o.roms c levels w.core (elapsing o w n)) :
    Settled (changed c levels) (w.elapse o n) ∧ (w.elapse o n).loaded = w.loaded ∧ ∃ fs,
      (w.elapse o n).taken = w.taken ++ fs.map (c, ·) ∧ Outcome c w.core (w.elapse o n).core fs := by
  obtain ⟨ready, fs, taken, outcome⟩ := settles
  obtain ⟨calm, unloaded⟩ := calm_run o.roms pending.calm (elapse_others (o := o) (w := w) (n := n) .flagsPulse0)
  refine ⟨⟨ready, calm⟩, ?_, fs, ?_, outcome⟩
  · rw [World.elapse, World.pass, unloaded, List.append_nil]
  · show w.taken ++ trace (coreEdge o.roms) (Fmc150.taken o.roms) w.core (elapsing o w n) = _
    rw [taken]

theorem elapsing_length (w : World) (n : Nat) : (elapsing o w n).length = n := by
  rw [elapsing, List.length_map, List.length_range']

/-- Any delay is long enough for an access of any chip. -/
theorem settles_later {c : Chip} (pending : Pending c levels w) (plain : w.core.Plain c) {n : Nat} (enough : 10000 ≤ n) :
    Settles o.roms c levels w.core (elapsing o w n) := by
  have most : accessEdges c + 2 ≤ 10000 := by cases c <;> decide
  exact access_core o.roms _ pending.selected plain (elapse_others _) (by rw [elapsing_length]; omega)

theorem delay_register (kept : r.Kept) (counts : Nat) : (w.delay o counts).core.registers r = w.core.registers r :=
  elapse_register kept _

/-! ### The register functions -/

/-- A function has given its command: where it stands, and what the registers ask for. -/
structure Commands (c : Chip) (levels : Chip → Bool) (w w' : World) (reading : Bool) (addr : UInt32) : Prop where
  pending : Pending c levels w'
  taken : w'.taken = w.taken
  loaded : w'.loaded = w.loaded
  odata : w'.core.bus.odata = w.core.registers .dataout
  reading : w'.core.reading = reading
  addr : w'.core.registers .addr = addr.toBitVec
  others : ∀ r, r.Kept → r ∉ [Reg.flagsIn0, .addr, .datain, .chipselect] → w'.core.registers r = w.core.registers r

/-- What is selected after a read of `CHIPSELECT`. -/
theorem select_after_in32 (w : World) (c : Chip) :
    (w.in32 o (address .chipselect)).out32 o (address .chipselect) (w.shown o (address .chipselect) ^^^ mask c) =
      (w.in32 o (address .chipselect)).select o c := by
  rw [World.select, shown_kept chipselect_kept, in32_register chipselect_kept]

/-- The last steps of both functions. -/
theorem commands_select {c : Chip} {w₁ : World} {reading : Bool} {addr : UInt32} (idles : Idles levels w w₁)
    (flags : w₁.core.reading = reading) (addressed : w₁.core.registers .addr = addr.toBitVec)
    (others : ∀ r, r.Kept → r ∉ [Reg.flagsIn0, .addr, .datain, .chipselect] →
      w₁.core.registers r = w.core.registers r) :
    Commands c levels w ((w₁.in32 o (address .chipselect)).select o c) reading addr ∧
      ((w₁.in32 o (address .chipselect)).select o c).core.registers .datain = w₁.core.registers .datain := by
  have idles' := idles_trans idles (idles_in32 (o := o) (a := address .chipselect) idles.settled)
  obtain ⟨pending, taken, loaded, odata⟩ := select_pending (o := o) idles'.settled c
  have same : ∀ r, r.Kept → r ≠ .chipselect →
      ((w₁.in32 o (address .chipselect)).select o c).core.registers r = w₁.core.registers r := by
    intro r kept other
    rw [World.select, out32_other kept chipselect_kept.1 other.symm, in32_register kept]
  refine ⟨⟨pending, taken.trans idles'.taken, loaded.trans idles'.loaded, odata.trans idles'.dataout, ?_, ?_, ?_⟩, ?_⟩
  · rw [Core.reading, same .flagsIn0 ⟨by decide, by decide⟩ (by decide)]
    exact flags
  · rw [same .addr ⟨by decide, by decide⟩ (by decide)]
    exact addressed
  · intro r kept apart
    rw [same r kept fun eq => apart (by simp [eq])]
    exact others r kept apart
  · exact same .datain ⟨by decide, by decide⟩ (by decide)

theorem write_run (settled : Settled levels w) (c : Chip) (addr value : UInt32) :
    ∃ w', writeFmc150Register o (mask c) addr value w = some (success, w') ∧ Commands c levels w w' false addr ∧
      w'.core.registers .datain = value.toBitVec := by
  have flags : Reg.Kept .flagsIn0 := ⟨by decide, by decide⟩
  have addrs : Reg.Kept .addr := ⟨by decide, by decide⟩
  have datas : Reg.Kept .datain := ⟨by decide, by decide⟩
  let old : UInt32 := w.shown o (address .flagsIn0)
  let w₁ := w.in32 o (address .flagsIn0)
  let w₂ := w₁.out32 o (address .flagsIn0) (old &&& maskAndFlagsin0SpiWrite)
  let w₃ := w₂.out32 o (address .addr) addr
  let w₄ := w₃.out32 o (address .datain) value
  have idles₁ : Idles levels w w₁ := idles_in32 settled
  have idles₂ : Idles levels w w₂ :=
    idles_trans idles₁ (idles_out32 idles₁.settled flags.1 (by decide) (by decide) _)
  have idles₃ : Idles levels w w₃ := idles_trans idles₂ (idles_out32 idles₂.settled addrs.1 (by decide) (by decide) _)
  have idles₄ : Idles levels w w₄ := idles_trans idles₃ (idles_out32 idles₃.settled datas.1 (by decide) (by decide) _)
  refine ⟨(w₄.in32 o (address .chipselect)).select o c, ?_, ?_⟩
  · rw [← select_after_in32]
    rfl
  · have low : w₄.core.reading = false := by
      rw [Core.reading, out32_other flags datas.1 (by decide), out32_other flags addrs.1 (by decide), out32_register flags,
        UInt32.toBitVec_and, BitVec.getLsbD_and]
      exact Bool.and_false _
    have addressed : w₄.core.registers .addr = addr.toBitVec := by
      rw [out32_other addrs datas.1 (by decide), out32_register addrs]
    obtain ⟨commands, data⟩ := commands_select (o := o) (c := c) idles₄ low addressed fun r kept apart => by
      simp only [List.mem_cons, List.not_mem_nil, or_false, not_or] at apart
      rw [out32_other kept datas.1 (Ne.symm apart.2.2.1), out32_other kept addrs.1 (Ne.symm apart.2.1),
        out32_other kept flags.1 (Ne.symm apart.1), in32_register kept]
    exact ⟨commands, data.trans (out32_register datas _)⟩

/-- The address that is given to the controllers. -/
def chipAddress (addr : UInt32) : Address := (0 : BitVec 12) ++ addr.toBitVec.extractLsb' 0 16

/-- What a read has done: the frames that the chip has taken, and the value that it has given back. -/
structure Reads (c : Chip) (levels : Chip → Bool) (w w' : World) (addr : UInt32) (fs : List (List Sample))
    (value : UInt32) : Prop where
  settled : Settled (changed c levels) w'
  taken : w'.taken = w.taken ++ fs.map (c, ·)
  loaded : w'.loaded = w.loaded
  frames : fs.map (·.map Prod.fst) = readFrames c.serializer (chipAddress addr)
  value : chipAddress addr ≤ c.device.addrMaxRd →
    ∃ y, fs.filterMap c.serializer.reads = [y] ∧ value.toBitVec = c.device.readBack (chipAddress addr) y
  others : ∀ r, r.Kept → r ∉ [Reg.flagsIn0, .addr, .datain, .chipselect] → w'.core.registers r = w.core.registers r

theorem masked_bit {mask : UInt32} {k : Nat} (one : mask.toBitVec = BitVec.twoPow 32 k) (flags : UInt32) :
    flags &&& mask = if flags.toBitVec.getLsbD k then mask else 0 := by
  apply UInt32.toBitVec_inj.mp
  rw [UInt32.toBitVec_and, one, BitVec.and_twoPow]
  split
  · exact one.symm
  · rfl

theorem not_busy {flags : UInt32} (low : flags.toBitVec.getLsbD 0 = false) :
    flags &&& maskAndFlagsout0SpiBusy ≠ maskAndFlagsout0SpiBusy := by
  rw [masked_bit (k := 0) (by decide), low]
  decide

theorem commands_reading {c : Chip} {addr : UInt32} (commands : Commands c levels w w' true addr) :
    w'.core.Plain c ∧ w'.core.asked c = readFrames c.serializer (chipAddress addr) ∧ w'.core.address = chipAddress addr := by
  have address : w'.core.address = chipAddress addr := by rw [Core.address, commands.addr, chipAddress]
  refine ⟨fun writing => absurd (commands.reading.symm.trans writing) (by decide), ?_, address⟩
  rw [Core.asked, if_pos commands.reading, address]

theorem readIdle_run (settled : Settled levels w) (c : Chip) (addr : UInt32) :
    ∃ w' fs v, readIdle o (mask c) addr w = some ((success, v), w') ∧ Reads c levels w w' addr fs v := by
  have flags : Reg.Kept .flagsIn0 := ⟨by decide, by decide⟩
  have addrs : Reg.Kept .addr := ⟨by decide, by decide⟩
  let old : UInt32 := w.shown o (address .flagsIn0)
  let w₁ := w.in32 o (address .flagsIn0)
  let w₂ := w₁.out32 o (address .flagsIn0) (old ||| maskOrFlagsin0SpiRead)
  let w₃ := w₂.out32 o (address .addr) addr
  have idles₁ : Idles levels w w₁ := idles_in32 settled
  have idles₂ : Idles levels w w₂ :=
    idles_trans idles₁ (idles_out32 idles₁.settled flags.1 (by decide) (by decide) _)
  have idles₃ : Idles levels w w₃ := idles_trans idles₂ (idles_out32 idles₂.settled addrs.1 (by decide) (by decide) _)
  have high : w₃.core.reading = true := by
    rw [Core.reading, out32_other flags addrs.1 (by decide), out32_register flags, UInt32.toBitVec_or, BitVec.getLsbD_or]
    exact Bool.or_true _
  obtain ⟨commands, -⟩ := commands_select (o := o) (c := c) idles₃ high (out32_register addrs _) fun r kept apart => by
    simp only [List.mem_cons, List.not_mem_nil, or_false, not_or] at apart
    rw [out32_other kept addrs.1 (Ne.symm apart.2.1), out32_other kept flags.1 (Ne.symm apart.1), in32_register kept]
  obtain ⟨plain, asked, addressed⟩ := commands_reading commands
  let w₅ := (w₃.in32 o (address .chipselect)).select o c
  let w₆ := w₅.delay o 10
  obtain ⟨settled₆, loaded, fs, taken, outcome⟩ : Settled (changed c levels) w₆ ∧ w₆.loaded = w₅.loaded ∧ ∃ fs : List (List Sample),
      w₆.taken = w₅.taken ++ fs.map (c, ·) ∧ Outcome c w₅.core w₆.core fs :=
    pending_settles (n := 10 * 10000 + o.slack w₅.time) commands.pending (settles_later commands.pending plain (by omega))
  have idles₇ : Idles (changed c levels) w₆ (w₆.in32 o (address .dataout)) := idles_in32 settled₆
  refine ⟨w₆.in32 o (address .dataout), fs, w₆.shown o (address .dataout), ?_, ?_⟩
  · let given := (w₃.in32 o (address .chipselect)).out32 o (address .chipselect) (w₃.shown o (address .chipselect) ^^^ mask c)
    show some ((success, (given.delay o 10).shown o (address .dataout)), (given.delay o 10).in32 o (address .dataout)) = _
    rw [show given = w₅ from select_after_in32 w₃ c]
  · refine ⟨idles₇.settled, ?_, ?_, outcome.asked.trans asked, fun within => ?_, fun r kept apart => ?_⟩
    · rw [idles₇.taken, taken, commands.taken]
    · rw [idles₇.loaded, loaded, commands.loaded]
    · obtain ⟨y, read, word⟩ := outcome.read commands.reading (addressed ▸ within)
      refine ⟨y, read, ?_⟩
      rw [shown_address, ← addressed]
      exact (idles_met settled₆).dataout.trans word
    · rw [in32_register kept]
      exact (delay_register kept _).trans (commands.others r kept apart)

theorem reads_after {c : Chip} {addr v : UInt32} {fs : List (List Sample)} (idles : Idles levels w w')
    (same : ∀ r : Reg, r.Kept → w'.core.registers r = w.core.registers r) (reads : Reads c levels w' w'' addr fs v) :
    Reads c levels w w'' addr fs v :=
  ⟨reads.settled, by rw [reads.taken, idles.taken], reads.loaded.trans idles.loaded, reads.frames, reads.value,
    fun r kept apart => (reads.others r kept apart).trans (same r kept)⟩

/-- The flag is low at the poll, and the bus at rest. -/
theorem unbusy_run (met : Settled levels (w.met o (address .flagsOut0))) (c : Chip) (addr value : UInt32) :
    ∃ w' fs v, readFmc150Register o (mask c) addr value w = some ((success, v), w') ∧
      Reads c levels (w.met o (address .flagsOut0)) w' addr fs v := by
  have idles : Idles levels _ (w.in32 o (address .flagsOut0)) := idles_elapse met 1
  obtain ⟨w', fs, v, ran, reads⟩ := readIdle_run (o := o) idles.settled c addr
  refine ⟨w', fs, v, ?_, reads_after idles (fun r kept => elapse_register kept 1) reads⟩
  have low : (w.shown o (fmc150Reg offsetFmc150FlagsOut0)).toBitVec.getLsbD 0 = false := by
    have shown := shown_address (o := o) w .flagsOut0
    show (w.shown o (address .flagsOut0)).toBitVec.getLsbD 0 = false
    rw [shown]
    exact met.ready.unflagged
  unfold readFmc150Register
  rw [bind_run (xioIn32_run _), if_pos (not_busy low)]
  exact ran

theorem read_run (settled : Settled levels w) (c : Chip) (addr value : UInt32) :
    ∃ w' fs v, readFmc150Register o (mask c) addr value w = some ((success, v), w') ∧
      Reads c levels w w' addr fs v := by
  have idles : Idles levels w (w.met o (address .flagsOut0)) := idles_met settled
  obtain ⟨w', fs, v, ran, reads⟩ := unbusy_run idles.settled c addr value
  exact ⟨w', fs, v, ran, reads_after idles (fun r kept => elapse_register kept _) reads⟩

/-- What a write has done once it has been waited for. -/
structure Writes (c : Chip) (levels : Chip → Bool) (w w' : World) (addr value : UInt32) (fs : List (List Sample)) : Prop where
  settled : Settled (changed c levels) w'
  taken : w'.taken = w.taken ++ fs.map (c, ·)
  loaded : w'.loaded = w.loaded
  frames : fs.map (·.map Prod.fst) = writeFrames c.serializer (chipAddress addr) value.toBitVec
  dataout : w'.core.registers .dataout = w.core.registers .dataout
  others : ∀ r, r.Kept → r ∉ [Reg.flagsIn0, .addr, .datain, .chipselect] → w'.core.registers r = w.core.registers r

/-- It is no write of the global register that restarts the initialization. -/
def PlainWrite (c : Chip) (addr value : UInt32) : Prop :=
  chipAddress addr = c.device.addrGlobal → value.toBitVec.getLsbD 0 = false

/-- The write is over some time after its command. -/
theorem writes_over {c : Chip} {addr value : UInt32} {w₁ : World} {n : Nat} (commands : Commands c levels w w₁ false addr)
    (data : w₁.core.registers .datain = value.toBitVec)
    (settles : Settles o.roms c levels w₁.core (elapsing o w₁ n)) : ∃ fs, Writes c levels w (w₁.elapse o n) addr value fs := by
  obtain ⟨settled, loaded, fs, taken, outcome⟩ := pending_settles commands.pending settles
  have address : w₁.core.address = chipAddress addr := by rw [Core.address, commands.addr, chipAddress]
  refine ⟨fs, settled, ?_, ?_, ?_, ?_, fun r kept apart => ?_⟩
  · rw [taken, commands.taken]
  · rw [loaded, commands.loaded]
  · have writing : w₁.core.reading ≠ true := by
      rw [commands.reading]
      decide
    rw [outcome.asked, Core.asked, if_neg writing, address, data]
  · rw [outcome.kept commands.reading, commands.odata]
  · rw [elapse_register kept, commands.others r kept apart]

theorem commands_plain {c : Chip} {addr value : UInt32} {w₁ : World} (plain : PlainWrite c addr value)
    (commands : Commands c levels w w₁ false addr) (data : w₁.core.registers .datain = value.toBitVec) :
    w₁.core.Plain c := fun _ global => by
  rw [data]
  refine plain (Eq.trans ?_ global)
  rw [Core.address, commands.addr, chipAddress]

theorem write_delay_run (settled : Settled levels w) {c : Chip} {addr value : UInt32} (plain : PlainWrite c addr value)
    {counts : Nat} (some_time : 0 < counts) :
    ∃ w₁, writeFmc150Register o (mask c) addr value w = some (success, w₁) ∧
      ∃ fs, Writes c levels w (w₁.delay o counts) addr value fs := by
  obtain ⟨w₁, ran, commands, data⟩ := write_run (o := o) settled c addr value
  exact ⟨w₁, ran, writes_over commands data
    (settles_later commands.pending (commands_plain plain commands data) (by omega))⟩

/-! ### The functions without the time that they take -/

/-- The registers as the function finds them, and `DATAOUT` as it is in the end. -/
def World.driver (o : Outside) (w : World) (dataout : UInt32) : Driver :=
  ⟨xstSuccess, fun _ => false, fun a => if a = address .dataout then dataout else w.shown o a⟩

theorem driver_dataout (w : World) (dataout : UInt32) : (w.driver o dataout).in32 (address .dataout) = dataout := by
  simp [World.driver]

theorem driver_other (dataout : UInt32) (other : r ≠ .dataout) :
    (w.driver o dataout).in32 (address r) = w.shown o (address r) := by
  refine if_neg fun same => other ?_
  revert same
  cases r <;> decide

theorem write_agrees {select addr value : UInt32} {status : Int} {w' : World}
    (ran : writeFmc150Register o select addr value w = some (status, w')) (dataout : UInt32)
    (handler : Channel → LowLevelHandler) :
    Server.writeFmc150Register (w.driver o dataout) select addr value ⟨handler, w.log⟩ = (status, ⟨handler, w'.log⟩) := by
  have flags : Reg.Kept .flagsIn0 := ⟨by decide, by decide⟩
  have addrs : Reg.Kept .addr := ⟨by decide, by decide⟩
  have datas : Reg.Kept .datain := ⟨by decide, by decide⟩
  let w₂ := (w.in32 o (address .flagsIn0)).out32 o (address .flagsIn0) (w.shown o (address .flagsIn0) &&& maskAndFlagsin0SpiWrite)
  let w₄ := (w₂.out32 o (address .addr) addr).out32 o (address .datain) value
  have selected : w₄.shown o (address .chipselect) = w.shown o (address .chipselect) := by
    rw [shown_kept chipselect_kept, shown_kept chipselect_kept, out32_other chipselect_kept datas.1 (by decide),
      out32_other chipselect_kept addrs.1 (by decide), out32_other chipselect_kept flags.1 (by decide),
      in32_register chipselect_kept]
  have found := driver_other (o := o) (w := w) (r := .flagsIn0) dataout (by decide)
  have levels := driver_other (o := o) (w := w) (r := .chipselect) dataout (by decide)
  obtain ⟨rfl, rfl⟩ := Prod.mk.inj (Option.some.inj ran)
  show Server.writeFmc150Register (w.driver o dataout) select addr value ⟨handler, w.log⟩ =
    (success, ⟨handler, ((w₄.in32 o (address .chipselect)).out32 o (address .chipselect)
      (w₄.shown o (address .chipselect) ^^^ select)).log⟩)
  rw [selected, ← levels]
  show _ = (success, Board.mk handler ((((w.log ++ [Effect.out32 (address .flagsIn0)
    (w.shown o (address .flagsIn0) &&& maskAndFlagsin0SpiWrite)]) ++ [.out32 (address .addr) addr]) ++
      [.out32 (address .datain) value]) ++ [.out32 (address .chipselect) _]))
  rw [← found]
  rfl

/-- On any board, at rest or not, the function writes what it writes in the model without time. -/
theorem write_effects (w : World) (select addr value dataout : UInt32) (handler : Channel → LowLevelHandler) :
    ∃ w', writeFmc150Register o select addr value w = some (success, w') ∧
      Server.writeFmc150Register (w.driver o dataout) select addr value ⟨handler, w.log⟩ =
        (success, ⟨handler, w'.log⟩) :=
  ⟨_, rfl, write_agrees rfl dataout handler⟩

theorem readIdle_agrees {select addr value v : UInt32} {status : Int} {w' : World}
    (idle : w.shown o (address .flagsOut0) &&& maskAndFlagsout0SpiBusy ≠ maskAndFlagsout0SpiBusy)
    (ran : readIdle o select addr (w.in32 o (address .flagsOut0)) = some ((status, v), w'))
    (handler : Channel → LowLevelHandler) :
    Server.readFmc150Register (w.driver o v) select addr value ⟨handler, w.log⟩ = (status, ⟨handler, w'.log⟩, v) := by
  have flags : Reg.Kept .flagsIn0 := ⟨by decide, by decide⟩
  have addrs : Reg.Kept .addr := ⟨by decide, by decide⟩
  let w₁ := w.in32 o (address .flagsOut0)
  let w₂ := (w₁.in32 o (address .flagsIn0)).out32 o (address .flagsIn0) (w₁.shown o (address .flagsIn0) ||| maskOrFlagsin0SpiRead)
  let w₃ := w₂.out32 o (address .addr) addr
  let w₅ := (w₃.in32 o (address .chipselect)).out32 o (address .chipselect) (w₃.shown o (address .chipselect) ^^^ select)
  have first : w₁.shown o (address .flagsIn0) = w.shown o (address .flagsIn0) := by
    rw [shown_kept flags, shown_kept flags, in32_register flags]
  have selected : w₃.shown o (address .chipselect) = w.shown o (address .chipselect) := by
    rw [shown_kept chipselect_kept, shown_kept chipselect_kept, out32_other chipselect_kept addrs.1 (by decide),
      out32_other chipselect_kept flags.1 (by decide), in32_register chipselect_kept, in32_register chipselect_kept]
  have found := driver_other (o := o) (w := w) (r := .flagsIn0) v (by decide)
  have levels := driver_other (o := o) (w := w) (r := .chipselect) v (by decide)
  have unflagged : (w.driver o v).in32 (fmc150Reg offsetFmc150FlagsOut0) = _ :=
    driver_other (o := o) (w := w) (r := .flagsOut0) v (by decide)
  have answered : (w.driver o v).in32 (fmc150Reg offsetFmc150Dataout) = _ := driver_dataout (o := o) w v
  obtain ⟨given, rfl⟩ := Prod.mk.inj (Option.some.inj ran)
  obtain ⟨rfl, -⟩ := Prod.mk.inj given
  have log : w₅.log = ((w.log ++ [Effect.out32 (address .flagsIn0)
      (w₁.shown o (address .flagsIn0) ||| maskOrFlagsin0SpiRead)]) ++ [.out32 (address .addr) addr]) ++
      [.out32 (address .chipselect) (w₃.shown o (address .chipselect) ^^^ select)] := rfl
  unfold Server.readFmc150Register
  rw [unflagged, if_pos idle, answered]
  show _ = (success, Board.mk handler w₅.log, v)
  rw [log, first, selected, ← found, ← levels]
  rfl

theorem read_agrees {select addr value v : UInt32} {status : Int} {w' : World}
    (ran : readFmc150Register o select addr value w = some ((status, v), w')) (handler : Channel → LowLevelHandler) :
    Server.readFmc150Register (w.driver o v) select addr value ⟨handler, w.log⟩ = (status, ⟨handler, w'.log⟩, v) := by
  unfold readFmc150Register at ran
  rw [bind_run (xioIn32_run _)] at ran
  by_cases idle : w.shown o (address .flagsOut0) &&& maskAndFlagsout0SpiBusy ≠ maskAndFlagsout0SpiBusy
  · exact readIdle_agrees idle ((congrFun (if_pos idle) _).symm.trans ran) handler
  · have kept : (pure (error, value) : Soft _) (w.in32 o (address .flagsOut0)) = some ((status, v), w') :=
      (congrFun (if_neg idle) _).symm.trans ran
    obtain ⟨given, rfl⟩ := Prod.mk.inj (Option.some.inj kept)
    obtain ⟨rfl, rfl⟩ := Prod.mk.inj given
    unfold Server.readFmc150Register
    have found : (w.driver o value).in32 (fmc150Reg offsetFmc150FlagsOut0) = _ :=
      driver_other (o := o) (w := w) (r := .flagsOut0) value (by decide)
    rw [found, if_neg idle]
    rfl

end

end BpmAcquisition.OnCore
