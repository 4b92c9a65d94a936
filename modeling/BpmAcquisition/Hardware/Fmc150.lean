import BpmAcquisition.Hardware.RegisterFile
import BpmAcquisition.Hardware.SpiPolling

/-!
# The core behind its registers

`user_logic.vhd` of the `fmc150_if_dma` core: the register file, the SPI controllers that it is wired to, and the update of the
input delays, all at one clock. A command is given to a controller by a change of its bit of `CHIPSELECT`, so
an access of the bus is one write of that register: `access_core` says what comes of it.
-/

namespace BpmAcquisition.Fmc150

open Machine Pulse2pulse StellarCmd SpiCtrl

/-- The delays that `iodelaye1` loads for the strobe and for the two channels. -/
structure Taps where
  str : BitVec 5
  cha : BitVec 5
  chb : BitVec 5
  deriving DecidableEq

/-- `adc_str_cntvaluein_i`, `adc_cha_cntvaluein_i` and `adc_chb_cntvaluein_i`. -/
def Taps.of (adcDelay : Word) : Taps :=
  ⟨adcDelay.extractLsb' 0 5, adcDelay.extractLsb' 8 5, adcDelay.extractLsb' 16 5⟩

structure Pins where
  sdo : Chip → Bool
  pllStatus : Bool
  monNInt : Bool
  mmcmAdcLocked : Bool
  prsntM2cL : Bool
  dmaComplete : Bool
  dmaOvf : Bool

structure Core where
  registers : Registers
  bus : Bus
  /-- The `pulse2pulse` of bit 0 of `FLAGS_PULSE_0`. -/
  delayUpdate : Link
  taps : Taps

structure CoreIn where
  pins : Pins
  writeSel : BitVec 10 := 0
  data : Word := 0

/-- The bit of `CHIPSELECT` and of the masks of software. -/
def chipselect : Chip → Nat
  | .cdce72010 => 0
  | .ads62p49 => 1
  | .dac3283 => 2
  | .amc7823 => 3

namespace Core

def regIn (s : Core) (i : CoreIn) : RegIn where
  writeSel := i.writeSel
  data := i.data
  sOdata := s.bus.odata
  sBusy := s.bus.busy
  pllStatus := i.pins.pllStatus
  mmcmAdcLocked := i.pins.mmcmAdcLocked
  prsntM2cL := i.pins.prsntM2cL
  dmaComplete := i.pins.dmaComplete
  dmaOvf := i.pins.dmaOvf

def valid (s : Core) (c : Chip) : Bool := (s.registers .chipselect).getLsbD (chipselect c)

def ports (s : Core) (p : Pins) : Ports where
  rdNWr := (s.registers .flagsIn0).getLsbD 0
  addr := (s.registers .addr).extractLsb' 0 16
  idata := s.registers .datain
  valid := s.valid
  sdo := p.sdo
  pllStatus := p.pllStatus
  monNInt := p.monNInt
  externalClock := (s.registers .flagsIn0).getLsbD 1

end Core

def coreEdge (roms : Roms) (s : Core) (i : CoreIn) : Core where
  registers := pRegWrite s.registers (s.regIn i)
  bus := busEdge roms s.bus (s.ports i.pins)
  delayUpdate := edge s.delayUpdate ⟨some ((s.registers .flagsPulse0).getLsbD 0), true, false⟩
  taps := if s.delayUpdate.pulseout then Taps.of (s.registers .adcDelay) else s.taps

/-- The frames of an edge with what the chips have sent in them. -/
def busTaken (roms : Roms) (s : Bus) (p : Ports) : List (Chip × List Sample) :=
  chips.flatMap fun c => (trace (watch (roms c)) (frames (roms c)) (s.chip c) (s.ticks p c)).map (c, ·)

def taken (roms : Roms) (s : Core) (i : CoreIn) : List (Chip × List Sample) := busTaken roms s.bus (s.ports i.pins)

/-- The delays that are loaded at an edge. -/
def loaded (s : Core) (_ : CoreIn) : List Taps :=
  if s.delayUpdate.pulseout then [Taps.of (s.registers .adcDelay)] else []

def CoreIn.written (i : CoreIn) : Option Reg := Reg.coded Reg.readWrite i.writeSel

/-! ### Frames by chip -/

section
variable {roms : Roms} {s : Bus} {ps : List Ports}

def line (f : Chip × List Sample) : Chip × List (Option Bool) := (f.1, f.2.map Prod.fst)

variable (roms) in
theorem taken_line (s : Bus) (ps : List Ports) :
    trace (busEdge roms) (busFrames roms) s ps = (trace (busEdge roms) (busTaken roms) s ps).map line := by
  rw [← trace_map]
  refine trace_congr (fun s p _ => ?_) (along_always (busEdge roms) s ps)
  unfold busFrames busTaken
  rw [List.map_flatMap]
  refine List.flatMap_congr fun c _ => ?_
  rw [sent_frames, List.map_map, List.map_map]
  rfl

def ofChip (c : Chip) (f : Chip × List Sample) : Option (List Sample) := if f.1 = c then some f.2 else none

theorem ofChip_map (b c : Chip) (fs : List (List Sample)) :
    (fs.map (b, ·)).filterMap (ofChip c) = if b = c then fs else [] := by
  rw [List.filterMap_map]
  by_cases same : b = c
  · simp [ofChip, same]
  · simp [ofChip, Function.comp_def, same]

theorem taken_ofChip (c : Chip) (s : Bus) (ps : List Ports) :
    (trace (busEdge roms) (busTaken roms) s ps).filterMap (ofChip c) =
      trace (watch (roms c)) (frames (roms c)) (s.chip c) (ticksOf roms c s ps) := by
  induction ps generalizing s with
  | nil => rfl
  | cons p rest ih =>
    have here : (busTaken roms s p).filterMap (ofChip c) =
        trace (watch (roms c)) (frames (roms c)) (s.chip c) (s.ticks p c) := by
      simp only [busTaken, chips, List.flatMap_cons, List.flatMap_nil, List.filterMap_append, ofChip_map]
      cases c <;> simp
    rw [trace_cons, List.filterMap_append, here, ih, ticksOf_cons, trace_append]
    rfl

/-- Where only one chip has taken frames, all of them are its. -/
theorem taken_alone {c : Chip} {fs : List (List (Option Bool))}
    (alone : trace (busEdge roms) (busFrames roms) s ps = fs.map (c, ·)) :
    ∃ own, own = trace (watch (roms c)) (frames (roms c)) (s.chip c) (ticksOf roms c s ps) ∧
      trace (busEdge roms) (busTaken roms) s ps = own.map (c, ·) ∧ own.map (·.map Prod.fst) = fs := by
  rw [taken_line] at alone
  rw [← taken_ofChip]
  have each : ∀ f ∈ trace (busEdge roms) (busTaken roms) s ps, f.1 = c := by
    intro f member
    have inside : line f ∈ fs.map (c, ·) := alone ▸ List.mem_map_of_mem member
    obtain ⟨g, -, same⟩ := List.mem_map.mp inside
    exact (congrArg Prod.fst same).symm
  have whole : ∀ taken : List (Chip × List Sample), (∀ f ∈ taken, f.1 = c) →
      taken = (taken.filterMap (ofChip c)).map (c, ·) := by
    intro taken each
    induction taken with
    | nil => rfl
    | cons f rest ih =>
      obtain ⟨here, others⟩ := List.forall_mem_cons.mp each
      obtain ⟨b, samples⟩ := f
      obtain rfl : b = c := here
      rw [List.filterMap_cons, ofChip, if_pos rfl]
      exact congrArg ((b, samples) :: ·) (ih others)
  have split := whole _ each
  refine ⟨_, rfl, split, ?_⟩
  rw [split] at alone
  have second := congrArg (List.map Prod.snd) alone
  simpa [List.map_map, Function.comp_def, line] using second

end

/-! ### The core at rest -/

/-- Nothing is under way, and the registers show it. -/
structure Ready (levels : Chip → Bool) (s : Core) : Prop where
  atRest : AtRest levels s.bus
  idle : s.bus.busy = false
  valid : s.valid = levels
  unflagged : (s.registers .flagsOut0).getLsbD 0 = false
  dataout : s.registers .dataout = s.bus.odata

section
variable {roms : Roms} {levels : Chip → Bool} {s : Core} {i : CoreIn}

theorem regIn_written (s : Core) (i : CoreIn) : (s.regIn i).written = i.written := rfl

theorem keeps_register {r : Reg} (kept : r.Kept) (other : i.written ≠ some r) :
    (coreEdge roms s i).registers r = s.registers r := by
  show pRegWrite s.registers (s.regIn i) r = s.registers r
  rw [kept_edge kept rfl, regIn_written, if_neg other]

theorem writes_register {r : Reg} (kept : r.Kept) (written : i.written = some r) :
    (coreEdge roms s i).registers r = i.data := by
  show pRegWrite s.registers (s.regIn i) r = i.data
  rw [kept_edge kept rfl, regIn_written, if_pos written]
  rfl

theorem keeps_register_run {r : Reg} (kept : r.Kept) {is : List CoreIn} (others : ∀ i ∈ is, i.written ≠ some r) :
    (run (coreEdge roms) s is).registers r = s.registers r := by
  induction is generalizing s with
  | nil => rfl
  | cons i rest ih =>
    obtain ⟨here, later⟩ := List.forall_mem_cons.mp others
    rw [run_cons, ih later, keeps_register kept here]

theorem chipselect_kept : Reg.Kept .chipselect := ⟨by decide, by decide⟩

theorem keeps_valid (other : i.written ≠ some .chipselect) : (coreEdge roms s i).valid = s.valid := by
  unfold Core.valid
  rw [keeps_register chipselect_kept other]

theorem keeps_valid_run {is : List CoreIn} (others : ∀ i ∈ is, i.written ≠ some .chipselect) :
    (run (coreEdge roms) s is).valid = s.valid := by
  unfold Core.valid
  rw [keeps_register_run chipselect_kept others]

variable (roms) in
/-- What an edge makes of a bus at rest, whatever software writes meanwhile. -/
theorem rest_edge (atRest : AtRest levels s.bus) (valid : s.valid = levels) (i : CoreIn) :
    AtRest levels (coreEdge roms s i).bus ∧ (coreEdge roms s i).bus.busy = false ∧
      (coreEdge roms s i).bus.odata = s.bus.odata ∧ taken roms s i = [] := by
  have apart : Apart .cdce72010 s.bus :=
    ⟨atRest.unmailed, fun b _ => atRest.quiet b, fun b _ => atRest.shown b⟩
  obtain ⟨settled, idle⟩ :=
    settle_edge roms (p := s.ports i.pins) atRest.steady apart (atRest.quiet .cdce72010) valid
  obtain ⟨-, frames, -⟩ := apart_edge roms apart (fun b _ => atRest.steady.silent b) (s.ports i.pins)
  obtain ⟨-, none, -⟩ := quiet_ticks Chip.cdce72010.serializer (roms .cdce72010) (atRest.quiet .cdce72010)
    (afterClk_silent (silent_toController (s := s.bus) (p := s.ports i.pins) (atRest.steady.silent .cdce72010))
      ((s.bus.divider .cdce72010).rises .cdce72010) (s.bus.sdi (s.ports i.pins) .cdce72010) (s.ports i.pins).externalClock)
  refine ⟨settled, idle, ?_, ?_⟩
  · have answered : s.bus.answered = (s.bus.ctrl .cdce72010).shown := firstOf_alone fun b _ => atRest.shown b
    show s.bus.answered.getD s.bus.odata = s.bus.odata
    rw [answered, atRest.shown]
    rfl
  · have lines : (taken roms s i).map line = [] := by
      have all := taken_line roms s.bus [s.ports i.pins]
      rw [trace_cons, trace_cons, trace_nil, trace_nil, List.append_nil, List.append_nil] at all
      rw [taken, ← all, frames]
      exact List.map_eq_nil_iff.mpr none
    exact List.map_eq_nil_iff.mp lines

variable (roms) in
/-- One edge after the bus has come to rest the registers show it. -/
theorem shown_edge (atRest : AtRest levels s.bus) (idle : s.bus.busy = false) (valid : s.valid = levels)
    (other : i.written ≠ some .chipselect) :
    Ready levels (coreEdge roms s i) ∧ (coreEdge roms s i).bus.odata = s.bus.odata ∧ taken roms s i = [] := by
  obtain ⟨atRest', idle', same, none⟩ := rest_edge roms atRest valid i
  refine ⟨⟨atRest', idle', (keeps_valid other).trans valid, ?_, ?_⟩, same, none⟩
  · show (pRegWrite s.registers (s.regIn i) .flagsOut0).getLsbD 0 = false
    rw [busy_edge rfl]
    exact idle
  · show pRegWrite s.registers (s.regIn i) .dataout = _
    rw [dataout_edge rfl, same]
    rfl

variable (roms) in
theorem ready_edge (ready : Ready levels s) (other : i.written ≠ some .chipselect) :
    Ready levels (coreEdge roms s i) ∧ (coreEdge roms s i).bus.odata = s.bus.odata ∧ taken roms s i = [] :=
  shown_edge _ ready.atRest ready.idle ready.valid other

variable (roms) in
theorem ready_run {is : List CoreIn} (ready : Ready levels s) (others : ∀ i ∈ is, i.written ≠ some .chipselect) :
    Ready levels (run (coreEdge roms) s is) ∧ (run (coreEdge roms) s is).bus.odata = s.bus.odata ∧
      trace (coreEdge roms) (taken roms) s is = [] := by
  induction is generalizing s with
  | nil => exact ⟨ready, rfl, rfl⟩
  | cons i rest ih =>
    obtain ⟨here, later⟩ := List.forall_mem_cons.mp others
    obtain ⟨ready', same, none⟩ := ready_edge roms ready here
    obtain ⟨final, same', none'⟩ := ih ready' later
    refine ⟨final, same'.trans same, ?_⟩
    rw [trace_cons, none, none', List.append_nil]

/-! ### One access -/

def portsOf (roms : Roms) (s : Core) (is : List CoreIn) : List Ports :=
  trace (coreEdge roms) (fun s i => [s.ports i.pins]) s is

theorem bus_run (s : Core) (is : List CoreIn) :
    (run (coreEdge roms) s is).bus = run (busEdge roms) s.bus (portsOf roms s is) :=
  run_simulates (fun _ _ _ => rfl) (along_always (coreEdge roms) s is)

theorem bus_taken (s : Core) (is : List CoreIn) :
    trace (coreEdge roms) (taken roms) s is = trace (busEdge roms) (busTaken roms) s.bus (portsOf roms s is) := by
  have steps : ∀ (s : Core) (i : CoreIn), True → (coreEdge roms s i).bus = busEdge roms s.bus (s.ports i.pins) :=
    fun _ _ _ => rfl
  exact trace_simulates steps (fun _ _ _ => rfl) (along_always (coreEdge roms) s is)

variable (roms) in
theorem portsOf_still {is : List CoreIn} (others : ∀ i ∈ is, i.written ≠ some .chipselect) :
    (portsOf roms s is).length = is.length ∧ ∀ p ∈ portsOf roms s is, p.valid = s.valid := by
  induction is generalizing s with
  | nil => simp [portsOf]
  | cons i rest ih =>
    obtain ⟨here, later⟩ := List.forall_mem_cons.mp others
    obtain ⟨count, still⟩ := ih (s := coreEdge roms s i) later
    rw [keeps_valid here] at still
    refine ⟨congrArg (· + 1) count, ?_⟩
    rintro p (_ | ⟨_, member⟩)
    · rfl
    · exact still p member

/-- A write of `CHIPSELECT` has changed the level of one chip, and the bus has not seen it yet. -/
structure Selected (c : Chip) (levels : Chip → Bool) (s : Core) : Prop where
  atRest : AtRest levels s.bus
  valid : s.valid = changed c levels

def Core.reading (s : Core) : Bool := (s.registers .flagsIn0).getLsbD 0

def Core.address (s : Core) : Address := (0 : BitVec 12) ++ (s.registers .addr).extractLsb' 0 16

/-- The frames of the access that the registers ask for. -/
def Core.asked (s : Core) (c : Chip) : List (List (Option Bool)) :=
  if s.reading then readFrames c.serializer s.address else writeFrames c.serializer s.address (s.registers .datain)

/-- It is no write that restarts the initialization. -/
def Core.Plain (s : Core) (c : Chip) : Prop :=
  s.reading = false → s.address = c.device.addrGlobal → (s.registers .datain).getLsbD 0 = false

/-- What comes of the access: the frames of the chip, and the word that is left in `DATAOUT`. -/
structure Outcome (c : Chip) (s t : Core) (fs : List (List Sample)) : Prop where
  asked : fs.map (·.map Prod.fst) = s.asked c
  kept : s.reading = false → t.registers .dataout = s.bus.odata
  read : s.reading = true → s.address ≤ c.device.addrMaxRd →
    ∃ y, fs.filterMap c.serializer.reads = [y] ∧ t.registers .dataout = c.device.readBack s.address y

/-- What comes of the access, and that the registers show it. -/
def Settles (roms : Roms) (c : Chip) (levels : Chip → Bool) (s : Core) (is : List CoreIn) : Prop :=
  Ready (changed c levels) (run (coreEdge roms) s is) ∧ ∃ fs,
    trace (coreEdge roms) (taken roms) s is = fs.map (c, ·) ∧ Outcome c s (run (coreEdge roms) s is) fs

variable (roms) in
/-- Two edges after the chip has become quiet the registers show what has come of the access. -/
theorem access_shown {c : Chip} {i j : CoreIn} {middle : List CoreIn} (y z : CoreIn) (selected : Selected c levels s)
    (plain : s.Plain c) (others : ∀ k ∈ i :: j :: (middle ++ [y, z]), k.written ≠ some .chipselect)
    (quiet : Quiet ((run (coreEdge roms) s (i :: j :: middle)).bus.chip c)) :
    Settles roms c levels s (i :: j :: (middle ++ [y, z])) := by
  have apart : i :: j :: (middle ++ [y, z]) = (i :: j :: (middle ++ [y])) ++ [z] := by simp
  rw [apart, List.forall_mem_append] at others
  obtain ⟨early, last⟩ := others
  obtain ⟨here, later⟩ := List.forall_mem_cons.mp early
  obtain ⟨-, still⟩ := portsOf_still roms (s := coreEdge roms s i) later
  rw [keeps_valid here, selected.valid] at still
  let a : Access := ⟨c, s.ports i.pins, portsOf roms (coreEdge roms s i) (j :: (middle ++ [y]))⟩
  have ports : portsOf roms s (i :: j :: (middle ++ [y])) = a.ports :: a.after := rfl
  have split : a.after = (coreEdge roms s i).ports j.pins ::
      (portsOf roms (coreEdge roms (coreEdge roms s i) j) middle ++
        [(run (coreEdge roms) s (i :: j :: middle)).ports y.pins]) :=
    congrArg (_ :: ·) (trace_append ..)
  rw [bus_run] at quiet
  obtain ⟨atRest, idle, sentAll, kept, read⟩ := access_over roms (a := a) selected.atRest selected.valid still plain split quiet
  rw [← ports, ← bus_run] at atRest idle kept
  have valid : (run (coreEdge roms) s (i :: j :: (middle ++ [y]))).valid = changed c levels :=
    (keeps_valid_run early).trans selected.valid
  -- The bus is at rest after the first edges, and the last one brings it to the registers.
  obtain ⟨ready, same, none⟩ := shown_edge roms atRest idle valid (last z (by simp))
  have whole : run (coreEdge roms) s (i :: j :: (middle ++ [y, z])) =
      coreEdge roms (run (coreEdge roms) s (i :: j :: (middle ++ [y]))) z := by
    rw [apart, run_append]
    rfl
  have word : (run (coreEdge roms) s (i :: j :: (middle ++ [y, z]))).registers .dataout =
      (run (coreEdge roms) s (i :: j :: (middle ++ [y]))).bus.odata := by
    rw [whole, ready.dataout, same]
  obtain ⟨fs, own, taken, lines⟩ := taken_alone sentAll
  refine ⟨whole ▸ ready, fs, ?_, lines, fun direction => word.trans (kept direction), fun direction within => ?_⟩
  · have silent : trace (coreEdge roms) (Fmc150.taken roms) (run (coreEdge roms) s (i :: j :: (middle ++ [y]))) [z] = [] := by
      rw [trace_cons, none]
      rfl
    rw [apart, trace_append, silent, List.append_nil, bus_taken, ports]
    exact taken
  · obtain ⟨value, samples, odata⟩ := read direction within
    rw [← ports, ← bus_run] at odata
    exact ⟨value, own ▸ samples, word.trans odata⟩

/-- The first two edges of an access, and the last two. -/
theorem access_edges (is : List CoreIn) (enough : 4 ≤ is.length) :
    ∃ i j middle y z, is = i :: j :: (middle ++ [y, z]) := by
  match is with
  | i :: j :: rest =>
    obtain rfl | ⟨front, z, rfl⟩ := List.eq_nil_or_concat' rest
    · simp at enough
    · obtain rfl | ⟨middle, y, rfl⟩ := List.eq_nil_or_concat' front
      · simp at enough
      · exact ⟨i, j, middle, y, z, by simp⟩

variable (roms) in
theorem access_core {c : Chip} (is : List CoreIn) (selected : Selected c levels s) (plain : s.Plain c)
    (others : ∀ i ∈ is, i.written ≠ some .chipselect) (enough : accessEdges c + 2 ≤ is.length) :
    Settles roms c levels s is := by
  obtain ⟨i, j, middle, y, z, rfl⟩ := access_edges is (by unfold accessEdges at enough; omega)
  refine access_shown roms y z selected plain others ?_
  have early : ∀ k ∈ i :: j :: middle, k.written ≠ some .chipselect := fun k member =>
    others k (by simp only [List.mem_cons, List.mem_append] at member ⊢; tauto)
  obtain ⟨here, later⟩ := List.forall_mem_cons.mp early
  obtain ⟨count, still⟩ := portsOf_still roms (s := coreEdge roms s i) later
  rw [keeps_valid here, selected.valid] at still
  simp only [List.length_cons, List.length_append, List.length_nil] at enough
  let a : Access := ⟨c, s.ports i.pins, portsOf roms (coreEdge roms s i) (j :: middle)⟩
  rw [bus_run]
  refine access_quiet roms (a := a) selected.atRest selected.valid still plain ?_
  show 18 * (75 + c.serializer.periods) ≤ (portsOf roms (coreEdge roms (coreEdge roms s i) j) middle).length
  have long : (portsOf roms (coreEdge roms s i) (j :: middle)).length =
      (portsOf roms (coreEdge roms (coreEdge roms s i) j) middle).length + 1 := rfl
  rw [List.length_cons] at count
  unfold accessEdges at enough
  omega

variable (roms) in
/-- Software that polls `busy` for long enough finds it set, or the access is over. -/
theorem poll_core {c : Chip} (is : List CoreIn) (selected : Selected c levels s) (plain : s.Plain c)
    (writing : s.reading = false) (others : ∀ i ∈ is, i.written ≠ some .chipselect) (enough : pollEdges ≤ is.length) :
    ((run (coreEdge roms) s is).registers .flagsOut0).getLsbD 0 = true ∨ Settles roms c levels s is := by
  obtain ⟨i, j, middle, y, z, rfl⟩ := access_edges is (by unfold pollEdges at enough; omega)
  have early : ∀ k ∈ i :: j :: middle, k.written ≠ some .chipselect := fun k member =>
    others k (by simp only [List.mem_cons, List.mem_append] at member ⊢; tauto)
  obtain ⟨here, later⟩ := List.forall_mem_cons.mp early
  obtain ⟨count, still⟩ := portsOf_still roms (s := coreEdge roms s i) later
  rw [keeps_valid here, selected.valid] at still
  let a : Access := ⟨c, s.ports i.pins, portsOf roms (coreEdge roms s i) (j :: middle)⟩
  have long : (portsOf roms (coreEdge roms s i) (j :: middle)).length =
      (portsOf roms (coreEdge roms (coreEdge roms s i) j) middle).length + 1 := rfl
  simp only [List.length_cons, List.length_append, List.length_nil] at enough count
  unfold pollEdges at enough
  have polled := poll_chip roms (a := a) selected.atRest selected.valid still writing plain
    (show 15 + 90 ≤ (portsOf roms (coreEdge roms (coreEdge roms s i) j) middle).length by omega)
  have bus : run (busEdge roms) s.bus (a.ports :: a.after) = (run (coreEdge roms) s (i :: j :: middle)).bus :=
    (bus_run s (i :: j :: middle)).symm
  rcases polled with busy | quiet
  · left
    have apart : i :: j :: (middle ++ [y, z]) = (i :: j :: middle) ++ [y, z] := by simp
    rw [apart, run_append, run_cons, run_cons, run_nil]
    show (pRegWrite _ _ .flagsOut0).getLsbD 0 = true
    rw [busy_edge rfl]
    have busy' : (run (coreEdge roms) s (i :: j :: middle)).bus.cmdBusy c = true := bus ▸ busy
    generalize run (coreEdge roms) s (i :: j :: middle) = t at busy' ⊢
    show (t.bus.cmdBusy .cdce72010 || t.bus.cmdBusy .ads62p49 || t.bus.cmdBusy .dac3283 || t.bus.cmdBusy .amc7823) = true
    cases c <;> simp [busy']
  · exact Or.inr (access_shown roms y z selected plain others (bus ▸ quiet))

/-- A write that is polled no sooner than `pollEdges` after its command, and then found not to be busy, is over: its chip has taken
its frames, no other chip has taken any, and the next access finds every link ready. -/
theorem polling_is_sound (roms : Roms) {c : Chip} {levels : Chip → Bool} {s : Core} (selected : Selected c levels s)
    (plain : s.Plain c) (writing : s.reading = false) {is : List CoreIn}
    (others : ∀ i ∈ is, i.written ≠ some .chipselect) (enough : pollEdges ≤ is.length)
    (idle : ((run (coreEdge roms) s is).registers .flagsOut0).getLsbD 0 = false) : Settles roms c levels s is :=
  (poll_core roms is selected plain writing others enough).resolve_left (by rw [idle]; decide)

/-- The write of register 1 of `cdce72010` has just been selected. -/
def oneSelected : Core where
  registers
    | .addr => 1
    | .datain => 0x68840041
    | .chipselect => 1
    | _ => 0
  bus := idleBus
  delayUpdate := {}
  taps := ⟨0, 15, 15⟩

theorem oneSelected_selected : Selected .cdce72010 low oneSelected :=
  ⟨idleBus_atRest, funext fun c => by cases c <;> decide⟩

def calmPins : Pins := ⟨fun _ => true, false, true, false, false, false, false⟩

theorem oneSelected_polled :
    Settles oneWord .cdce72010 low oneSelected (List.replicate (accessEdges .cdce72010 + 2) ⟨calmPins, 0, 0⟩) := by
  have plain : oneSelected.Plain .cdce72010 := fun _ global => absurd global (by decide)
  have others : ∀ i ∈ List.replicate (accessEdges .cdce72010 + 2) (CoreIn.mk calmPins 0 0), i.written ≠ some .chipselect := by
    intro i member
    obtain rfl := List.eq_of_mem_replicate member
    decide
  have ended := access_core oneWord _ oneSelected_selected plain others (by rw [List.length_replicate])
  exact polling_is_sound oneWord oneSelected_selected plain (by decide) others (by rw [List.length_replicate]; decide)
    ended.1.unflagged

/-! ### The power-up -/

def Core.pulse (s : Core) : Bool := (s.registers .flagsPulse0).getLsbD 0

/-- An edge of both clocks of the link. -/
def both (pulsein : Bool) : Edges := ⟨some pulsein, true, false⟩

variable (roms) in
theorem pulse_cleared (none : i.written = none) : (coreEdge roms s i).pulse = false := by
  show (pRegWrite s.registers (s.regIn i) .flagsPulse0).getLsbD 0 = false
  rw [pulse_edge rfl, regIn_written, none]
  simp

/-- No pulse is given, and none is on its way. -/
structure Calm (s : Core) : Prop where
  link : s.delayUpdate = {}
  low : s.pulse = false

variable (roms) in
theorem calm_edge (calm : Calm s) (other : i.written ≠ some .flagsPulse0) :
    Calm (coreEdge roms s i) ∧ loaded s i = [] := by
  obtain ⟨link, low⟩ := calm
  refine ⟨⟨?_, ?_⟩, ?_⟩
  · show edge s.delayUpdate ⟨some s.pulse, true, false⟩ = {}
    rw [link, low]
    rfl
  · show (pRegWrite s.registers (s.regIn i) .flagsPulse0).getLsbD 0 = false
    rw [pulse_edge rfl, regIn_written, if_neg other]
    split
    · rfl
    · exact low
  · rw [loaded, link]
    rfl

variable (roms) in
theorem calm_run {is : List CoreIn} (calm : Calm s) (others : ∀ i ∈ is, i.written ≠ some .flagsPulse0) :
    Calm (run (coreEdge roms) s is) ∧ trace (coreEdge roms) loaded s is = [] := by
  induction is generalizing s with
  | nil => exact ⟨calm, rfl⟩
  | cons i rest ih =>
    obtain ⟨here, later⟩ := List.forall_mem_cons.mp others
    obtain ⟨calm', none⟩ := calm_edge roms calm here
    obtain ⟨final, none'⟩ := ih calm' later
    refine ⟨final, ?_⟩
    rw [trace_cons, none, none']
    rfl

variable (roms) in
/-- While nothing is written the link alone goes on. -/
theorem link_run {is : List CoreIn} (silent : ∀ i ∈ is, i.written = none) (low : s.pulse = false) :
    (run (coreEdge roms) s is).pulse = false ∧
      (run (coreEdge roms) s is).delayUpdate = run edge s.delayUpdate (List.replicate is.length (both false)) ∧
      trace (coreEdge roms) loaded s is =
        (trace edge delivered s.delayUpdate (List.replicate is.length (both false))).map
          fun _ => Taps.of (s.registers .adcDelay) := by
  induction is generalizing s with
  | nil => exact ⟨low, rfl, rfl⟩
  | cons i rest ih =>
    obtain ⟨here, later⟩ := List.forall_mem_cons.mp silent
    obtain ⟨low', link, loads⟩ := ih later (pulse_cleared roms (s := s) here)
    have next : (coreEdge roms s i).delayUpdate = edge s.delayUpdate (both false) := by
      show edge s.delayUpdate ⟨some s.pulse, true, false⟩ = _
      rw [low]
      rfl
    have same : (coreEdge roms s i).registers .adcDelay = s.registers .adcDelay :=
      keeps_register ⟨by decide, by decide⟩ (by rw [here]; simp)
    rw [next] at link loads
    rw [same] at loads
    refine ⟨low', link, ?_⟩
    rw [trace_cons, loads, List.length_cons, List.replicate_succ, trace_cons, List.map_append]
    congr 1
    cases out : s.delayUpdate.pulseout <;> simp [loaded, delivered, both, out]

theorem link_idle (n : Nat) :
    run edge {} (List.replicate n (both false)) = {} ∧ trace edge delivered {} (List.replicate n (both false)) = [] := by
  induction n with
  | zero => exact ⟨rfl, rfl⟩
  | succ n ih => exact ih

/-- The edges after which the link is ready for the next pulse. -/
def updateEdges : Nat := 16

theorem link_pulse {n : Nat} (enough : updateEdges ≤ n) :
    run edge (edge {} (both true)) (List.replicate n (both false)) = {} ∧
      trace edge delivered (edge {} (both true)) (List.replicate n (both false)) = [()] := by
  obtain ⟨more, rfl⟩ := Nat.exists_eq_add_of_le enough
  obtain ⟨rest, none⟩ := link_idle more
  have first : run edge (edge {} (both true)) (List.replicate updateEdges (both false)) = {} := by decide
  have once : trace edge delivered (edge {} (both true)) (List.replicate updateEdges (both false)) = [()] := by decide
  rw [List.replicate_add, run_append, trace_append, first, once, rest, none]
  exact ⟨rfl, rfl⟩

variable (roms) in
/-- A pulse loads the delays of `ADC_DELAY` once. -/
theorem update_core (is : List CoreIn) (ready : s.delayUpdate = {}) (pulse : s.pulse = true)
    (silent : ∀ i ∈ is, i.written = none) (enough : updateEdges < is.length) :
    Calm (run (coreEdge roms) s is) ∧ trace (coreEdge roms) loaded s is = [Taps.of (s.registers .adcDelay)] := by
  cases is with
  | nil => exact absurd enough (Nat.not_lt_zero _)
  | cons i rest =>
    obtain ⟨here, later⟩ := List.forall_mem_cons.mp silent
    obtain ⟨low, link, loads⟩ := link_run roms (s := coreEdge roms s i) later (pulse_cleared roms here)
    have next : (coreEdge roms s i).delayUpdate = edge {} (both true) := by
      show edge s.delayUpdate ⟨some s.pulse, true, false⟩ = _
      rw [ready, pulse]
      rfl
    have same : (coreEdge roms s i).registers .adcDelay = s.registers .adcDelay :=
      keeps_register ⟨by decide, by decide⟩ (by rw [here]; simp)
    obtain ⟨again, once⟩ := link_pulse (n := rest.length) (Nat.le_of_lt_succ enough)
    rw [next, again] at link
    rw [next, once, same] at loads
    have none : loaded s i = [] := by
      rw [loaded, ready]
      rfl
    refine ⟨⟨link, low⟩, ?_⟩
    rw [trace_cons, none, loads]
    rfl

/-- The delays are those that were loaded last. -/
theorem taps_run (s : Core) (is : List CoreIn) :
    (run (coreEdge roms) s is).taps = ((trace (coreEdge roms) loaded s is).getLast?).getD s.taps := by
  induction is generalizing s with
  | nil => rfl
  | cons i rest ih =>
    rw [run_cons, ih, trace_cons, List.getLast?_append]
    cases (trace (coreEdge roms) loaded (coreEdge roms s i) rest).getLast? with
    | some taps => rfl
    | none =>
      show (if s.delayUpdate.pulseout then Taps.of (s.registers .adcDelay) else s.taps) = _
      cases out : s.delayUpdate.pulseout <;> simp [loaded, out]

end

end BpmAcquisition.Fmc150
