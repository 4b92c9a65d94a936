import BpmAcquisition.Server.RegisterCalls

/-!
# Initialization of the board

`init.c`, and what `init_platform` does with it. The clock chip gets its table, each register read, written and read again; the
divider that is read back from it decides the speed mode of the converter and the input delays. A loop around
`read_fmc150_register` ends at its first or second pass: the second finds a write that was not waited for over, if the first came
late enough to see it under way. The loops that wait for the locks have their tries counted.
-/

namespace BpmAcquisition.OnCore

open Machine StellarCmd SpiCtrl Fmc150 Server

/-- `cdce72010_reg`. -/
def cdce72010Reg : List UInt32 :=
  [0x682C0290, 0x68840041, 0x83860002, 0x68400003, 0xE9800004, 0x68000005, 0x68000006, 0x83800017, 0x68000098,
    0x68000049, 0x007C003A, 0x8000050B, 0x0000180C]

/-- `adc_cha_delay` and `adc_chb_delay`. -/
def adcDelay (divider : UInt32) : UInt8 :=
  if divider ∈ [0x20, 0x40, 0x41, 0x42, 0x00] then 0x11
  else if divider = 0x43 then 0x8
  else if divider = 0x01 then 0x06
  else 0x05

section
variable (o : Outside)

/-- The loop around `read_fmc150_register` with its delay; `none` where `tries` passes do not end it. -/
def readUntil (chipselect addr : UInt32) (counts : Nat) : Nat → UInt32 → Soft UInt32
  | 0, _ => fun _ => none
  | tries + 1, value => do
    let (status, value) ← readFmc150Register o chipselect addr value
    if status < 0 then
      delay o counts
      readUntil chipselect addr counts tries value
    else return value

variable (tries : Nat)

/-- One pass of the loop of `init_cdce72010`. -/
def initCdce72010Reg (value : UInt32) (entry : UInt32 × Nat) : Soft UInt32 := do
  let value ← readUntil o (mask .cdce72010) (.ofNat entry.2) 1000 tries value
  let _ ← writeFmc150Register o (mask .cdce72010) (.ofNat entry.2) entry.1
  delay o 10
  readUntil o (mask .cdce72010) (.ofNat entry.2) 100 tries value

def initCdce72010 (value : UInt32) : Soft Int := do
  let _ ← cdce72010Reg.zipIdx.foldlM (initCdce72010Reg o tries) value
  return success

/-- The passes that are left of the loop of `calibrate_adc_delay`. -/
def calibrateLoop : List Nat → Soft Int
  | [] => return success
  | i :: left => do
    let status ← updateFmc150AdcDelay o 0x00 (.ofNat i) (.ofNat i)
    if status < 0 then return -1
    else
      delay o 2000
      calibrateLoop left

def calibrateAdcDelay : Soft Int := calibrateLoop o (List.range 32)

end

/-! ### What has come of a stretch of a run -/

theorem served_append {calls calls' ts ts' rs rs'} (first : Served calls ts rs) (second : Served calls' ts' rs') :
    Served (calls ++ calls') (ts ++ ts') (rs ++ rs') := by
  induction first with
  | nil => exact second
  | read frames value _ ih =>
    rw [List.append_assoc]
    exact .read frames value ih
  | write frames _ ih =>
    rw [List.append_assoc]
    exact .write frames ih

/-- The calls that have been carried out between two worlds, what they have given back, and the delays that have been loaded. -/
structure Performs (w w' : World) (calls : List RegisterCall) (rs : List (Int × List UInt32)) (loads : List Taps) : Prop where
  settled : ∃ levels, Settled levels w'
  taken : ∃ ts, w'.taken = w.taken ++ ts ∧ Served calls ts rs
  loaded : w'.loaded = w.loaded ++ loads

section
variable {o : Outside} {levels : Chip → Bool} {w w' w'' : World}
variable {calls calls' : List RegisterCall} {rs rs' : List (Int × List UInt32)} {loads loads' : List Taps}

theorem performs_trans (first : Performs w w' calls rs loads) (second : Performs w' w'' calls' rs' loads') :
    Performs w w'' (calls ++ calls') (rs ++ rs') (loads ++ loads') := by
  obtain ⟨-, ⟨ts, taken, served⟩, loaded⟩ := first
  obtain ⟨settled, ⟨ts', taken', served'⟩, loaded'⟩ := second
  refine ⟨settled, ⟨ts ++ ts', ?_, served_append served served'⟩, ?_⟩
  · rw [taken', taken, List.append_assoc]
  · rw [loaded', loaded, List.append_assoc]

theorem performs_idles (idles : Idles levels w w') : Performs w w' [] [] [] :=
  ⟨⟨levels, idles.settled⟩, ⟨[], by rw [idles.taken, List.append_nil], .nil⟩, by rw [idles.loaded, List.append_nil]⟩

theorem performs_read {c : Chip} {addr v : UInt32} {fs : List (List Sample)} (reads : Reads c levels w w' addr fs v) :
    Performs w w' [.read c addr] [(success, [v])] [] := by
  refine ⟨⟨_, reads.settled⟩, ⟨fs.map (c, ·), reads.taken, ?_⟩, by rw [reads.loaded, List.append_nil]⟩
  have served := Served.read reads.frames reads.value .nil
  rw [List.append_nil] at served
  exact served

theorem performs_write {c : Chip} {addr value : UInt32} {fs : List (List Sample)} (counts : Nat)
    (writes : Writes c levels w w' addr value fs) :
    Performs w w' [.write c addr value counts] [(success, [])] [] := by
  refine ⟨⟨_, writes.settled⟩, ⟨fs.map (c, ·), writes.taken, ?_⟩, by rw [writes.loaded, List.append_nil]⟩
  have served : Served [.write c addr value counts] (fs.map (c, ·) ++ []) [(success, [])] := .write writes.frames .nil
  rw [List.append_nil] at served
  exact served

/-! ### The loops around `read_fmc150_register` -/

theorem readUntil_settled (settled : Settled levels w) (c : Chip) (addr : UInt32) (counts tries : Nat) (value : UInt32) :
    ∃ w' v, readUntil o (mask c) addr counts (tries + 1) value w = some (v, w') ∧
      Performs w w' [.read c addr] [(success, [v])] [] := by
  obtain ⟨w', fs, v, ran, reads⟩ := read_run (o := o) settled c addr value
  refine ⟨w', v, ?_, performs_read reads⟩
  rw [readUntil, bind_run ran]
  rfl

/-- The calls of one pass. -/
def regCycle (entry : UInt32 × Nat) : List RegisterCall :=
  [.read .cdce72010 (.ofNat entry.2), .write .cdce72010 (.ofNat entry.2) entry.1 10, .read .cdce72010 (.ofNat entry.2)]

theorem initCdce72010Reg_run (settled : Settled levels w) (tries : Nat) (value : UInt32) {entry : UInt32 × Nat}
    (plain : PlainWrite .cdce72010 (.ofNat entry.2) entry.1) :
    ∃ w' v rs, initCdce72010Reg o (tries + 1) value entry w = some (v, w') ∧ Performs w w' (regCycle entry) rs [] := by
  obtain ⟨w₁, v₁, before, performs₁⟩ :=
    readUntil_settled (o := o) settled .cdce72010 (.ofNat entry.2) 1000 tries value
  obtain ⟨levels₁, settled₁⟩ := performs₁.settled
  obtain ⟨w₂, ran, fs, writes⟩ := write_delay_run (o := o) settled₁ plain (by decide : 0 < 10)
  obtain ⟨w₃, v₂, after, performs₂⟩ :=
    readUntil_settled (o := o) writes.settled .cdce72010 (.ofNat entry.2) 100 tries v₁
  refine ⟨w₃, v₂, _, ?_, performs_trans performs₁ (performs_trans (performs_write 10 writes) performs₂)⟩
  rw [initCdce72010Reg, bind_run before, bind_run ran, bind_run (delay_run 10)]
  exact after

theorem initCdce72010_loop (settled : Settled levels w) (tries : Nat) (value : UInt32) {entries : List (UInt32 × Nat)}
    (plain : ∀ entry ∈ entries, PlainWrite .cdce72010 (.ofNat entry.2) entry.1) :
    ∃ w' v rs, entries.foldlM (initCdce72010Reg o (tries + 1)) value w = some (v, w') ∧
      Performs w w' (entries.flatMap regCycle) rs [] := by
  induction entries generalizing levels w value with
  | nil => exact ⟨w, value, [], rfl, performs_idles ⟨settled, rfl, rfl, rfl⟩⟩
  | cons entry rest ih =>
    obtain ⟨here, others⟩ := List.forall_mem_cons.mp plain
    obtain ⟨w₁, v₁, rs₁, first, performs₁⟩ := initCdce72010Reg_run (o := o) settled tries value here
    obtain ⟨levels₁, settled₁⟩ := performs₁.settled
    obtain ⟨w₂, v₂, rs₂, later, performs₂⟩ := ih settled₁ v₁ others
    refine ⟨w₂, v₂, _, ?_, performs_trans performs₁ performs₂⟩
    rw [List.foldlM_cons, bind_run first]
    exact later

theorem table_plain : ∀ entry ∈ cdce72010Reg.zipIdx, PlainWrite .cdce72010 (.ofNat entry.2) entry.1 := by
  have apart : ∀ entry ∈ cdce72010Reg.zipIdx, chipAddress (.ofNat entry.2) ≠ Chip.cdce72010.device.addrGlobal := by decide
  exact fun entry member global => absurd global (apart entry member)

theorem initCdce72010_run (settled : Settled levels w) (tries : Nat) (value : UInt32) :
    ∃ w' rs, initCdce72010 o (tries + 1) value w = some (success, w') ∧
      Performs w w' (cdce72010Reg.zipIdx.flatMap regCycle) rs [] := by
  obtain ⟨w', v, rs, ran, performs⟩ := initCdce72010_loop (o := o) settled tries value table_plain
  refine ⟨w', rs, ?_, performs⟩
  rw [initCdce72010, bind_run ran]
  rfl

/-- The frames of a call. -/
def RegisterCall.lines : RegisterCall → List (Chip × List (Option Bool))
  | .read c addr => (readFrames c.serializer (chipAddress addr)).map (c, ·)
  | .write c addr value _ => (writeFrames c.serializer (chipAddress addr) value.toBitVec).map (c, ·)

theorem map_line (c : Chip) (fs : List (List Sample)) :
    (fs.map (c, ·)).map line = (fs.map (·.map Prod.fst)).map (c, ·) := by
  rw [List.map_map, List.map_map]
  rfl

theorem served_lines {ts} (served : Served calls ts rs) : ts.map line = calls.flatMap RegisterCall.lines := by
  induction served with
  | nil => rfl
  | read frames _ _ ih => rw [List.map_append, map_line, frames, ih]; rfl
  | write frames _ ih => rw [List.map_append, map_line, frames, ih]; rfl

/-- The low four bits of a word of the table are its place, and so the word goes out as it is. -/
theorem table_frames : ∀ entry ∈ cdce72010Reg.zipIdx,
    writeFrames Chip.cdce72010.serializer (chipAddress (.ofNat entry.2)) entry.1.toBitVec =
      [lsbBits entry.1.toBitVec] := by
  decide

/-- What is on the lines in one pass. -/
def entryLines (entry : UInt32 × Nat) : List (Chip × List (Option Bool)) :=
  let asked := (RegisterCall.read .cdce72010 (.ofNat entry.2)).lines
  asked ++ (.cdce72010, lsbBits entry.1.toBitVec) :: asked

theorem table_lines : (cdce72010Reg.zipIdx.flatMap regCycle).flatMap RegisterCall.lines =
    cdce72010Reg.zipIdx.flatMap entryLines := by
  rw [List.flatMap_assoc]
  refine List.flatMap_congr fun entry member => ?_
  have word : (RegisterCall.write .cdce72010 (.ofNat entry.2) entry.1 10).lines =
      [(.cdce72010, lsbBits entry.1.toBitVec)] := by
    rw [RegisterCall.lines, table_frames entry member]
    rfl
  simp only [regCycle, List.flatMap_cons, List.flatMap_nil, List.append_nil, entryLines, word]
  rfl

/-! ### `init_ads62p49` -/

/-- The low five bits of each argument. -/
def delayTaps (str cha chb : UInt8) : Taps :=
  ⟨str.toBitVec.extractLsb' 0 5, cha.toBitVec.extractLsb' 0 5, chb.toBitVec.extractLsb' 0 5⟩

def delayWord (str cha chb : UInt8) : UInt32 := str.toUInt32 + (cha.toUInt32 <<< 8) + (chb.toUInt32 <<< 16)

theorem delayWord_toNat (str cha chb : UInt8) :
    (delayWord str cha chb).toNat = str.toNat + cha.toNat * 2 ^ 8 + chb.toNat * 2 ^ 16 := by
  have one := str.toNat_lt
  have two := cha.toNat_lt
  have three := chb.toNat_lt
  simp only [delayWord, UInt32.toNat_add, UInt32.toNat_shiftLeft, UInt8.toNat_toUInt32, Nat.shiftLeft_eq,
    show UInt32.toNat 8 % 32 = 8 from rfl, show UInt32.toNat 16 % 32 = 16 from rfl]
  omega

theorem taps_delayWord (str cha chb : UInt8) : Taps.of (delayWord str cha chb).toBitVec = delayTaps str cha chb := by
  have word : (delayWord str cha chb).toBitVec.toNat = _ := delayWord_toNat str cha chb
  have one := str.toNat_lt
  have two := cha.toNat_lt
  have three := chb.toNat_lt
  rw [Taps.of, delayTaps, Taps.mk.injEq]
  refine ⟨?_, ?_, ?_⟩
  · apply BitVec.eq_of_toNat_eq
    simp only [BitVec.extractLsb'_toNat, word, Nat.shiftRight_eq_div_pow]
    show _ = str.toNat / 2 ^ 0 % 2 ^ 5
    omega
  · apply BitVec.eq_of_toNat_eq
    simp only [BitVec.extractLsb'_toNat, word, Nat.shiftRight_eq_div_pow]
    show _ = cha.toNat / 2 ^ 0 % 2 ^ 5
    omega
  · apply BitVec.eq_of_toNat_eq
    simp only [BitVec.extractLsb'_toNat, word, Nat.shiftRight_eq_div_pow]
    show _ = chb.toNat / 2 ^ 0 % 2 ^ 5
    omega

/-- A pulse has just been written, and the delays that it is going to load. -/
structure Updating (levels : Chip → Bool) (w w' : World) (taps : Taps) : Prop where
  ready : Ready levels w'.core
  link : w'.core.delayUpdate = {}
  pulse : w'.core.pulse = true
  taps : Taps.of (w'.core.registers .adcDelay) = taps
  taken : w'.taken = w.taken
  loaded : w'.loaded = w.loaded

/-- The flag of the MMCM shows its pin at the last edge. -/
def Flagged (o : Outside) (w : World) : Prop :=
  (w.core.registers .flagsOut0).getLsbD 2 = (o.pins (w.time - 1)).mmcmAdcLocked

theorem update_run (settled : Settled levels w) (str cha chb : UInt8) :
    ∃ w', updateFmc150AdcDelay o str cha chb w = some (success, w') ∧
      Updating levels w w' (delayTaps str cha chb) ∧ Flagged o w' := by
  have delays : Reg.Kept .adcDelay := ⟨by decide, by decide⟩
  let w₁ := w.out32 o (address .adcDelay) (delayWord str cha chb)
  have idles₁ : Idles levels w w₁ := idles_out32 settled delays.1 (by decide) (by decide) _
  let w₂ := w₁.met o (address .flagsPulse0)
  have idles₂ : Idles levels w w₂ := idles_trans idles₁ (idles_met idles₁.settled)
  let i : CoreIn := ⟨o.pins w₂.time, chipEnable (address .flagsPulse0), (1 : UInt32).toBitVec⟩
  have written : i.written = some .flagsPulse0 := out32_written _ (by decide) _
  obtain ⟨ready, -, none⟩ := ready_edge o.roms (i := i) idles₂.settled.ready (by rw [written]; decide)
  have flagged : Flagged o (w₁.out32 o (address .flagsPulse0) 0x1) := by
    show (pRegWrite w₂.core.registers (w₂.core.regIn i) .flagsOut0).getLsbD 2 = _
    rw [locked_edge rfl]
    rfl
  refine ⟨w₁.out32 o (address .flagsPulse0) 0x1, rfl, ⟨ready, ?_, ?_, ?_, ?_, ?_⟩, flagged⟩
  · show Pulse2pulse.edge w₂.core.delayUpdate ⟨some w₂.core.pulse, true, false⟩ = {}
    rw [idles₂.settled.calm.link, idles₂.settled.calm.low]
    rfl
  · show (pRegWrite w₂.core.registers (w₂.core.regIn i) .flagsPulse0).getLsbD 0 = true
    rw [pulse_edge rfl, regIn_written, if_pos written]
    show (1 : UInt32).toBitVec.getLsbD 0 = true
    decide
  · rw [out32_other delays (by decide) (by decide), out32_register delays]
    exact taps_delayWord str cha chb
  · show w₂.taken ++ trace (coreEdge o.roms) (Fmc150.taken o.roms) w₂.core [i] = w.taken
    rw [trace_cons, none, idles₂.taken]
    exact List.append_nil _
  · show w₂.loaded ++ trace (coreEdge o.roms) Fmc150.loaded w₂.core [i] = w.loaded
    have unloaded : Fmc150.loaded w₂.core i = [] := by
      rw [Fmc150.loaded, idles₂.settled.calm.link]
      rfl
    rw [trace_cons, unloaded, idles₂.loaded]
    exact List.append_nil _

theorem updating_elapse {taps : Taps} (updating : Updating levels w w' taps) {n : Nat} (enough : updateEdges < n) :
    Performs w (w'.elapse o n) [] [] [taps] := by
  obtain ⟨ready, -, none⟩ := ready_run o.roms updating.ready (elapse_others (o := o) (w := w') (n := n) .chipselect)
  obtain ⟨calm, loads⟩ := update_core o.roms (elapsing o w' n) updating.link updating.pulse
    (elapse_written w' n) (by rw [elapsing_length]; exact enough)
  refine ⟨⟨levels, ready, calm⟩, ⟨[], ?_, .nil⟩, ?_⟩
  · show w'.taken ++ trace (coreEdge o.roms) (Fmc150.taken o.roms) w'.core (elapsing o w' n) = _
    rw [updating.taken]
    exact congrArg (w.taken ++ ·) none
  · show w'.loaded ++ trace (coreEdge o.roms) Fmc150.loaded w'.core (elapsing o w' n) = _
    rw [loads, updating.loaded, updating.taps]

theorem calibrate_run (settled : Settled levels w) (is : List Nat) :
    ∃ w', calibrateLoop o is w = some (success, w') ∧
      Performs w w' [] [] (is.map fun i => delayTaps 0 (.ofNat i) (.ofNat i)) := by
  induction is generalizing levels w with
  | nil => exact ⟨w, rfl, performs_idles ⟨settled, rfl, rfl, rfl⟩⟩
  | cons i rest ih =>
    obtain ⟨w₁, ran, updating, -⟩ := update_run (o := o) settled 0 (.ofNat i) (.ofNat i)
    have first := updating_elapse (o := o) (n := 2000 * 10000 + o.slack w₁.time) updating (by unfold updateEdges; omega)
    obtain ⟨levels', settled'⟩ := first.settled
    obtain ⟨w₂, later, performs⟩ := ih settled'
    refine ⟨w₂, ?_, performs_trans first performs⟩
    rw [calibrateLoop, bind_run ran, if_neg (by decide), bind_run (delay_run 2000)]
    exact later

/-! ### The locks -/

/-- The edge whose pin a try sees: the last one before its access. -/
def World.look (o : Outside) (w : World) : Nat := w.time + o.pace (address .flagsOut0) w.time - 1

end

/-- On a settled board `init_cdce72010` comes to its end without a retry, whatever the chip sends: it is read, given the word of the
table and read again, for each register in turn, and nothing else is on the lines. -/
theorem cdce72010_is_configured (o : Outside) {levels : Chip → Bool} {w : World} (settled : Settled levels w)
    (tries : Nat) (value : UInt32) :
    ∃ w' ts rs, initCdce72010 o (tries + 1) value w = some (success, w') ∧ (∃ levels', Settled levels' w') ∧
      w'.taken = w.taken ++ ts ∧ w'.loaded = w.loaded ∧ Served (cdce72010Reg.zipIdx.flatMap regCycle) ts rs ∧
      ts.map line = cdce72010Reg.zipIdx.flatMap entryLines := by
  obtain ⟨w', rs, ran, settled', ⟨ts, taken, served⟩, loaded⟩ := initCdce72010_run (o := o) settled tries value
  exact ⟨w', ts, rs, ran, settled', taken, loaded.trans (List.append_nil _), served,
    (served_lines served).trans table_lines⟩

theorem restedWorld_configured :
    ∃ w' ts rs, initCdce72010 calmOutside 1 0 restedWorld = some (success, w') ∧ (∃ levels', Settled levels' w') ∧
      w'.taken = restedWorld.taken ++ ts ∧ w'.loaded = restedWorld.loaded ∧
      Served (cdce72010Reg.zipIdx.flatMap regCycle) ts rs ∧ ts.map line = cdce72010Reg.zipIdx.flatMap entryLines :=
  cdce72010_is_configured calmOutside restedWorld_settled 0 0

/-- The calibration loads each value of the five-bit delays once, in order, for both channels at once. -/
theorem calibration_loads_each (o : Outside) {levels : Chip → Bool} {w : World} (settled : Settled levels w) :
    ∃ w', calibrateAdcDelay o w = some (success, w') ∧ (∃ levels', Settled levels' w') ∧ w'.taken = w.taken ∧
      w'.loaded = w.loaded ++ (List.range 32).map fun i => ⟨0, BitVec.ofNat 5 i, BitVec.ofNat 5 i⟩ := by
  obtain ⟨w', ran, settled', ⟨ts, taken, served⟩, loaded⟩ := calibrate_run (o := o) settled (List.range 32)
  have none : ts = [] := by cases served; rfl
  have taps : ∀ i ∈ List.range 32,
      delayTaps 0 (.ofNat i) (.ofNat i) = ⟨0, BitVec.ofNat 5 i, BitVec.ofNat 5 i⟩ := by decide
  refine ⟨w', ran, settled', ?_, ?_⟩
  · rw [taken, none, List.append_nil]
  · rw [loaded, List.map_congr_left taps]

theorem restedWorld_calibrated :
    ∃ w', calibrateAdcDelay calmOutside restedWorld = some (success, w') ∧ (∃ levels', Settled levels' w') ∧
      w'.taken = restedWorld.taken ∧
      w'.loaded = restedWorld.loaded ++ (List.range 32).map fun i => ⟨0, BitVec.ofNat 5 i, BitVec.ofNat 5 i⟩ :=
  calibration_loads_each calmOutside restedWorld_settled

end BpmAcquisition.OnCore
