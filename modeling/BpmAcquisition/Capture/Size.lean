import BpmAcquisition.Hardware.Trigger
import BpmAcquisition.Server.Acquisition

/-!
# The size of a capture

`capture_samples` programs a DMA transfer and writes the capture control register, and `dma_if`
stores as many words as that register makes it count. `capture_size_exact` says when the two
sizes agree: always on the ADC channel, and on the DDC channel when no sample is valid in the
cycle of the trigger, because the counter is decremented there by a sample that is not stored.
-/

namespace BpmAcquisition.Capture

open Machine DmaIf Server

def startEffects (drv : Driver) (qwCount : UInt32) (ch : Channel) (b : Board) : List Effect :=
  (captureSamples drv qwCount ch b).2.log.drop b.log.length

def ctlWritten (ch : Channel) : Effect → Option UInt32
  | .out32 addr value => if addr = ch.baseaddr then some value else none
  | _ => none

def transferred (ch : Channel) : Effect → Option Nat
  | .simpleTransfer ch' _ length => if ch' = ch then some length.toNat else none
  | _ => none

/-- The values written to the channel's capture control register. -/
def ctlWrites (ch : Channel) (effects : List Effect) : List UInt32 := effects.filterMap (ctlWritten ch)

/-- The byte counts of the channel's DMA transfers. -/
def transfers (ch : Channel) (effects : List Effect) : List Nat := effects.filterMap (transferred ch)

variable {n c : Nat}

/-- An edge of the data clock at which the register holds `value` and the FIFO is not full; the
ADC channel has `data_valid_i` tied to one. -/
structure Shows (ch : Channel) (value : UInt32) (i : DataIn n) : Prop where
  clocked : Clocked i
  free : i.fifoFull = false
  ctl : i.captureCtlI = value.toBitVec
  valid : ch = .adc → i.dataValidI = true

/-- The words stored are `qwCount`, as many as the one DMA transfer is for, the last one flagged. -/
structure Agrees (ch : Channel) (qwCount : UInt32) (effects : List Effect) (stored : List (BitVec n × Bool)) :
    Prop where
  count : stored.length = qwCount.toNat
  bytes : transfers ch effects = [stored.length * ch.width]
  last : stored.map Prod.snd = List.replicate (qwCount.toNat - 1) false ++ [true]

def InvalidAtTrigger (s : DataSide n c) (i : DataIn n) : Prop := s.startAcqTrig = true → i.dataValidI = false

/-! ### The software's side -/

section
variable {drv : Driver} {qwCount : UInt32} {ch : Channel} {b : Board}

theorem startEffects_eq (agreed : (captureSamples drv qwCount ch b).1 = success) :
    startEffects drv qwCount ch b =
      [.out32 ch.statusAddr 0, .simpleTransfer ch ch.attr.memStartAddr (qwCount * ch.attr.sampleSize),
        .out32 ch.baseaddr 0, .out32 ch.baseaddr (ch.captureCtl qwCount)] := by
  have accepted : drv.simpleTransfer = xstSuccess := by
    apply Decidable.byContradiction
    intro refused
    rw [captureSamples_eq, if_neg refused] at agreed
    exact absurd agreed (by show ¬ error = success; decide)
  unfold startEffects
  rw [captureSamples_eq, List.drop_left, captureEffects, if_pos accepted]
  rfl

theorem ctlWrites_eq (agreed : (captureSamples drv qwCount ch b).1 = success) :
    ctlWrites ch (startEffects drv qwCount ch b) = [0, ch.captureCtl qwCount] := by
  have other : ch.statusAddr ≠ ch.baseaddr := by cases ch <;> decide
  rw [startEffects_eq agreed]
  simp [ctlWrites, List.filterMap_cons, ctlWritten, other]

theorem transfers_eq (agreed : (captureSamples drv qwCount ch b).1 = success)
    (bound : qwCount.toNat ≤ ch.maxSamples.toNat) :
    transfers ch (startEffects drv qwCount ch b) = [qwCount.toNat * ch.width] := by
  have bytes := Nat.lt_of_le_of_lt (Nat.mul_le_mul_right ch.width bound) ch.maxSamples_small
  have product : (qwCount * ch.attr.sampleSize).toNat = qwCount.toNat * ch.width :=
    toNat_mul_of_lt (Nat.lt_trans bytes (by decide))
  rw [startEffects_eq agreed]
  simp [transfers, List.filterMap_cons, transferred, product]

/-- The count that is written, one less on the DDC channel. -/
def ctlCount (ch : Channel) (qwCount : Nat) : Nat := if ch = .adc then qwCount else qwCount - 1

theorem captureCtl_start : startAcq (ch.captureCtl qwCount).toBitVec = true := by
  unfold Channel.captureCtl startAcq
  rw [UInt32.toBitVec_or, BitVec.getLsbD_or]
  rfl

theorem captureCtl_count (some : 0 < qwCount.toNat) (bound : qwCount.toNat ≤ ch.maxSamples.toNat) :
    ((ch.captureCtl qwCount).toBitVec.extractLsb' 0 21).toNat = ctlCount ch qwCount.toNat := by
  have small := ch.maxSamples_lt
  have fixed : (if ch.id = adcId then qwCount else qwCount - 1).toNat = ctlCount ch qwCount.toNat := by
    have one : (qwCount - 1).toNat = qwCount.toNat - 1 :=
      UInt32.toNat_sub_of_le _ _ (UInt32.le_iff_toNat_le.mpr some)
    cases ch
    · rfl
    · exact one
  have below : ctlCount ch qwCount.toNat < 2 ^ 21 := by
    unfold ctlCount
    split <;> omega
  unfold Channel.captureCtl
  rw [BitVec.extractLsb'_toNat, UInt32.toNat_toBitVec, UInt32.toNat_or, fixed, Nat.shiftRight_zero,
    Nat.or_mod_two_pow, Nat.mod_eq_of_lt below]
  exact Nat.zero_or _

end

/-! ### Both sides -/

section
variable {drv : Driver} {qwCount : UInt32} {ch : Channel} {b : Board} {s : DataSide n c}

theorem shows_low {i : DataIn n} (shows : Shows ch 0 i) : Commands false i := by
  refine ⟨shows.clocked, ?_⟩
  rw [shows.ctl]
  rfl

theorem shows_high {i : DataIn n} (shows : Shows ch (ch.captureCtl qwCount) i) : Commands true i := by
  refine ⟨shows.clocked, ?_⟩
  rw [shows.ctl]
  exact captureCtl_start

theorem loadCount_exact {load : DataIn n} (some : 0 < qwCount.toNat) (bound : qwCount.toNat ≤ ch.maxSamples.toNat)
    (shows : Shows ch (ch.captureCtl qwCount) load) :
    (loadCount load).toNat + 1 = qwCount.toNat ↔ ch = .adc ∨ load.dataValidI = false := by
  have small := ch.maxSamples_lt
  have count := @captureCtl_count qwCount ch some bound
  rw [← shows.ctl] at count
  unfold loadCount
  cases ch with
  | adc =>
    have counted : ctlCount .adc qwCount.toNat = qwCount.toNat := rfl
    rw [shows.valid rfl, if_pos rfl, BitVec.toNat_sub, count, counted]
    simp only [true_or, iff_true, BitVec.toNat_ofNat]
    omega
  | ddc =>
    have counted : ctlCount .ddc qwCount.toNat = qwCount.toNat - 1 := rfl
    cases load.dataValidI with
    | false =>
      rw [if_neg Bool.false_ne_true, count, counted]
      simp only [or_true, iff_true]
      omega
    | true =>
      rw [if_pos rfl, BitVec.toNat_sub, count, counted]
      simp only [reduceCtorEq, Bool.true_eq_false, or_self, iff_false, BitVec.toNat_ofNat]
      omega

/-- For every request that `capture_samples` accepts, every `dma_if` at rest and every pattern of
valid samples while the register shows what is written, the FIFO never being full: when the
trigger has come and the capture is over, the words stored are those of the DMA transfer, the last one flagged, exactly
on the ADC channel or if no sample is valid in the cycle of the trigger. -/
theorem capture_size_exact {first value : UInt32} {level : Bool} {low high : List (DataIn n)}
    (agreed : (captureSamples drv qwCount ch b).1 = success) (some : 0 < qwCount.toNat)
    (bound : qwCount.toNat ≤ ch.maxSamples.toNat)
    (writes : ctlWrites ch (startEffects drv qwCount ch b) = [first, value])
    (resting : Resting level s) (empty : s.fifoWren = false)
    (lows : ∀ i ∈ low, Shows ch first i) (highs : ∀ i ∈ high, Shows ch value i)
    (started : ¬ Along dataEdge NoTrigger s (low ++ high))
    (ended : (run dataEdge s (low ++ high)).capturing = false)
    (written : (run dataEdge s (low ++ high)).fifoWren = false) :
    Agrees ch qwCount (startEffects drv qwCount ch b) (trace dataEdge fifoWrite s (low ++ high)) ↔
      ch = .adc ∨ Along dataEdge InvalidAtTrigger s (low ++ high) := by
  rw [ctlWrites_eq agreed, List.cons.injEq, List.cons.injEq] at writes
  obtain ⟨rfl, rfl, -⟩ := writes
  obtain ⟨before, load, rest, split, member, quiet, triggered, still, -⟩ := start_run resting
    (fun i member => shows_low (lows i member)) (fun i member => shows_high (highs i member)) started
  have shows := highs load member
  obtain ⟨left, -⟩ := load_step triggered (shows_high shows)
  have all : ∀ i ∈ low ++ high, Clocked i ∧ i.fifoFull = false := by
    intro i member
    rcases List.mem_append.mp member with early | late
    · exact ⟨(lows i early).clocked, (lows i early).free⟩
    · exact ⟨(highs i late).clocked, (highs i late).free⟩
  have stored := fifo_stored_free s empty (fun i member => (all i member).1) (fun i member => (all i member).2) written
  rw [split] at stored ended ⊢
  have flags : (trace dataEdge fifoWrite s (before ++ load :: rest)).map Prod.snd =
      List.replicate (loadCount load).toNat false ++ [true] := by
    rw [run_append, run_cons] at ended
    rw [stored, trace_append, (ended_run resting.idle quiet).1, List.nil_append, trace_cons,
      counted_none (by simp [triggered.idle]), List.nil_append]
    rcases capture_run left still with ⟨m, -, -, running⟩ | ⟨flags, -⟩
    · rw [running.capturing] at ended
      exact absurd ended (by decide)
    · exact flags
  have words : (trace dataEdge fifoWrite s (before ++ load :: rest)).length = (loadCount load).toNat + 1 := by
    rw [← List.length_map Prod.snd, flags]
    simp
  have trigger : Along dataEdge InvalidAtTrigger s (before ++ load :: rest) ↔ load.dataValidI = false := by
    have vacuous : ∀ (s : DataSide n c) i, NoTrigger s i → InvalidAtTrigger s i := fun s i quiet risen =>
      absurd (quiet.2.symm.trans risen) Bool.false_ne_true
    rw [along_append, along_cons, InvalidAtTrigger]
    constructor
    · intro invalid
      exact invalid.2.1 triggered.trig
    · intro invalid
      exact ⟨along_mono vacuous quiet, fun _ => invalid, along_mono vacuous still⟩
  rw [trigger, ← loadCount_exact some bound shows]
  constructor
  · rintro ⟨count, -, -⟩
    rw [← count, words]
  · intro count
    refine ⟨words.trans count, ?_, ?_⟩
    · rw [transfers_eq agreed bound, words, count]
    · rw [flags, ← count, Nat.add_sub_cancel]

end

def readyDriver : Driver := ⟨xstSuccess, fun _ => false, fun _ => 0⟩

def ddcEdge (ctl : UInt32) (valid : Bool) (d : BitVec 128) : DataIn 128 :=
  { dataI := d, dataValidI := valid, captureCtlI := ctl.toBitVec }

def ddcReset : DataIn 128 := { dataClkRst := true, dataI := 0, dataValidI := false, captureCtlI := 0 }

def ddcIdle : DataSide 128 10 := dataEdge DataSide.powerUp ddcReset

def cleared : List (DataIn 128) := [ddcEdge 0 true 1]

/-- The fourth edge is the one of the trigger. -/
def startedTwo : List (DataIn 128) :=
  [ddcEdge 0x00200001 false 2, ddcEdge 0x00200001 true 3, ddcEdge 0x00200001 false 4, ddcEdge 0x00200001 true 5,
    ddcEdge 0x00200001 false 6, ddcEdge 0x00200001 true 7, ddcEdge 0x00200001 true 8]

/-- Two words are asked for and programmed, and one is stored. -/
theorem two_asked_one_stored :
    (captureSamples readyDriver 2 .ddc Board.boot).1 = success ∧
      ctlWrites .ddc (startEffects readyDriver 2 .ddc Board.boot) = [0, 0x00200001] ∧
      transfers .ddc (startEffects readyDriver 2 .ddc Board.boot) = [32] ∧
      (run dataEdge ddcIdle (cleared ++ startedTwo)).capturing = false ∧
      (run dataEdge ddcIdle (cleared ++ startedTwo)).fifoWren = false ∧
      trace dataEdge fifoWrite ddcIdle (cleared ++ startedTwo) = [(7, true)] ∧
      ¬ Agrees .ddc 2 (startEffects readyDriver 2 .ddc Board.boot)
        (trace dataEdge fifoWrite ddcIdle (cleared ++ startedTwo)) := by
  have stored : trace dataEdge fifoWrite ddcIdle (cleared ++ startedTwo) = [(7, true)] := by decide +kernel
  refine ⟨by decide, by decide, by decide, by decide +kernel, by decide +kernel, stored, ?_⟩
  intro agrees
  have count := agrees.count
  rw [stored] at count
  exact absurd count (by decide)

theorem cleared_shows : ∀ i ∈ cleared, Shows .ddc 0 i := by
  simp only [cleared, List.forall_mem_singleton]
  exact ⟨rfl, rfl, rfl, fun adc => Channel.noConfusion adc⟩

theorem startedTwo_shows : ∀ i ∈ startedTwo, Shows .ddc 0x00200001 i := by
  have shows : ∀ valid d, Shows .ddc 0x00200001 (ddcEdge 0x00200001 valid d) :=
    fun _ _ => ⟨rfl, rfl, rfl, fun adc => Channel.noConfusion adc⟩
  simp [startedTwo, shows]

theorem capture_size_exact_two :
    Agrees .ddc 2 (startEffects readyDriver 2 .ddc Board.boot)
        (trace dataEdge fifoWrite ddcIdle (cleared ++ startedTwo)) ↔
      Channel.ddc = .adc ∨ Along dataEdge InvalidAtTrigger ddcIdle (cleared ++ startedTwo) :=
  capture_size_exact (by decide) (by decide) (by decide) (by decide) (reset_resting _ rfl) (by decide)
    cleared_shows startedTwo_shows (by decide) (by decide +kernel) (by decide +kernel)

end BpmAcquisition.Capture
