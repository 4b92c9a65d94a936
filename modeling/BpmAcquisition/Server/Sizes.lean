import BpmAcquisition.Server.Failures

/-!
# Sizes that `get_samples` reports

`get_samples` presets its size with 1 and keeps this for a request that fits into what is left;
the counters and the sum it compares them with are 32-bit words. `reported_size_exact` says for
every pair of counters and every request from which of them a successful call reports the size,
the offset and the position that its formula gives.
-/

namespace BpmAcquisition.Server

/-- What is to be reported and left: a part of what is left of the capture, or of a new one. -/
structure Reports (drv : Driver) (size : UInt32) (ch : Channel) (b : Board) (size' offset' : UInt32) (b' : Board) :
    Prop where
  reported : size'.toNat =
    min (min size.toNat (if (b.cursor ch).left = 0 then size.toNat else (b.cursor ch).left)) ch.limit
  offset : offset'.toNat = if (b.cursor ch).left = 0 then 0 else (b.cursor ch).pos * ch.width
  pos : (b'.cursor ch).pos = (if (b.cursor ch).left = 0 then 0 else (b.cursor ch).pos) + size'.toNat
  log : b'.log = b.log ++ if (b.cursor ch).left = 0 then captureEffects drv size ch else []

/-- With nothing left the sum of the position and the request does not wrap. Otherwise the byte
offset does not, and the request is for one sample or for more than the less than `2 ^ 31` that
are left; where the sum wraps, a single one is left. -/
def FormulaHolds (ch : Channel) (c : Cursor) (n : Nat) : Prop :=
  if c.left = 0 then c.pos + n < 2 ^ 32
  else c.pos * ch.width < 2 ^ 32 ∧
    if c.pos + n < 2 ^ 32 then (n ≤ c.left → n = 1) ∧ (c.left < n → c.left < 2 ^ 31) else c.left = 1

section
variable {drv : Driver} {b : Board} {ch : Channel} {tmpSize size byteOffset : UInt32}

theorem asInt_nonpositive (x : UInt32) : asInt x ≤ 0 ↔ x.toNat = 0 ∨ 2 ^ 31 ≤ x.toNat := by
  have bound := x.toNat_lt
  unfold asInt
  rw [BitVec.toInt_eq_toNat_cond, UInt32.toNat_toBitVec]
  split <;> omega

/-- A call starts a capture if the sum of the position and the request passes the end of the
capture and nothing is left, or more than a signed word can hold. -/
theorem recaptures_iff (within : (b.cursor ch).pos ≤ (b.cursor ch).count) (asked : 0 < size.toNat) :
    Recaptures (b.handler ch) size ↔
      (b.cursor ch).count < ((b.cursor ch).pos + size.toNat) % 2 ^ 32 ∧
        ((b.cursor ch).left = 0 ∨ 2 ^ 31 ≤ (b.cursor ch).left) := by
  have nonzero : size ≠ 0 := by
    rintro rfl
    exact absurd asked (by decide)
  unfold Recaptures
  rw [asInt_nonpositive, presetSize_toNat within]
  split
  case isTrue past => simp only [past, nonzero, ne_eq, not_false_eq_true, and_true, true_and]
  case isFalse before => exact iff_of_false (fun h => absurd h.1 (by decide)) fun h => before h.1

theorem deliver_success (passed : (deliver drv tmpSize byteOffset ch b).1 = success) :
    ∃ size' b', deliver drv tmpSize byteOffset ch b =
        (success, size', (b.handler ch).samplesCountPos * ch.attr.sampleSize, b') ∧
      size'.toNat = min ch.limit tmpSize.toNat ∧
      (b'.cursor ch).pos = ((b.cursor ch).pos + size'.toNat) % 2 ^ 32 ∧ b'.log = b.log := by
  unfold deliver at passed ⊢
  cases idle : dmaTimedOut drv with
  | true =>
    rw [idle] at passed
    exact absurd passed (by decide : error ≠ success)
  | false =>
    refine ⟨_, _, rfl, packetSize_toNat ch tmpSize, ?_, rfl⟩
    unfold Board.cursor LowLevelHandler.cursor
    simp only [Board.handler_setHandler, Function.update_self]
    exact UInt32.toNat_add _ _

theorem getSamples_kept (kept : ¬ Recaptures (b.handler ch) size) (asked : 0 < size.toNat) :
    getSamples drv size byteOffset ch b = deliver drv (presetSize (b.handler ch) size) byteOffset ch b := by
  have nonzero : size ≠ 0 := by
    rintro rfl
    exact absurd asked (by decide)
  have some : ¬ asInt (presetSize (b.handler ch) size) ≤ 0 := fun none => kept ⟨none, nonzero⟩
  unfold getSamples ensureCaptured
  rw [if_neg some]
  exact if_neg (by decide)

theorem getSamples_recaptured (recaptures : Recaptures (b.handler ch) size)
    (passed : (getSamples drv size byteOffset ch b).1 = success) :
    getSamples drv size byteOffset ch b = deliver drv size byteOffset ch (captureSamples drv size ch b).2 := by
  by_cases agreed : drv.simpleTransfer = xstSuccess
  case neg =>
    rw [getSamples_refused byteOffset recaptures agreed] at passed
    exact absurd passed (by decide : error ≠ success)
  have captured : (captureSamples drv size ch b).1 = success := by
    rw [captureSamples_eq, if_pos agreed]
  obtain ⟨none, nonzero⟩ := recaptures
  unfold getSamples ensureCaptured
  rw [if_pos none, if_pos nonzero]
  simp only
  rw [captured]
  exact if_neg (by decide)

theorem effects_started (drv : Driver) (size : UInt32) (ch : Channel) (log : List Effect) :
    log ++ captureEffects drv size ch ≠ log := by
  intro same
  have none : captureEffects drv size ch = [] := List.append_cancel_left (same.trans (List.append_nil log).symm)
  unfold captureEffects at none
  cases none

/-- A capture is what the formula asks for exactly if nothing was left. -/
theorem recaptured_reports (within : (b.cursor ch).pos ≤ (b.cursor ch).count) (asked : 0 < size.toNat)
    (recaptures : Recaptures (b.handler ch) size)
    {size' offset' : UInt32} {b' : Board} (sizeValue : size'.toNat = min ch.limit size.toNat)
    (offset : offset' = 0) (pos : (b'.cursor ch).pos = size'.toNat)
    (log : b'.log = b.log ++ captureEffects drv size ch) :
    Reports drv size ch b size' offset' b' ↔ FormulaHolds ch (b.cursor ch) size.toNat := by
  have request : size.toNat < 2 ^ 32 := size.toNat_lt
  have left : (b.cursor ch).left = (b.cursor ch).count - (b.cursor ch).pos := rfl
  obtain ⟨past, none | many⟩ := (recaptures_iff within asked).mp recaptures
  · refine iff_of_true ⟨?_, ?_, ?_, ?_⟩ ?_
    · rw [if_pos none, sizeValue, Nat.min_self, Nat.min_comm]
    · rw [if_pos none, offset]
      rfl
    · rw [if_pos none, pos, Nat.zero_add]
    · rw [if_pos none, log]
    · unfold FormulaHolds
      rw [if_pos none]
      omega
  · have some : ¬ (b.cursor ch).left = 0 := by omega
    refine iff_of_false (fun reports => ?_) ?_
    · have captures := reports.log
      rw [if_neg some, List.append_nil, log] at captures
      exact effects_started drv size ch b.log captures
    · unfold FormulaHolds
      rw [if_neg some]
      rintro ⟨-, holds⟩
      split at holds
      · omega
      · omega

/-- Without a capture the formula is met if something was left, unless the preset size goes out. -/
theorem kept_reports (within : (b.cursor ch).pos ≤ (b.cursor ch).count) (asked : 0 < size.toNat)
    (kept : ¬ Recaptures (b.handler ch) size) {size' : UInt32} {b' : Board}
    (sizeValue : size'.toNat = min ch.limit (presetSize (b.handler ch) size).toNat)
    (pos : (b'.cursor ch).pos = ((b.cursor ch).pos + size'.toNat) % 2 ^ 32) (log : b'.log = b.log) :
    Reports drv size ch b size' ((b.handler ch).samplesCountPos * ch.attr.sampleSize) b' ↔
      FormulaHolds ch (b.cursor ch) size.toNat := by
  have limit : 1 < ch.limit := by cases ch <;> decide
  have small : (b.cursor ch).count < 2 ^ 32 := (b.handler ch).samplesCount.toNat_lt
  have request : size.toNat < 2 ^ 32 := size.toNat_lt
  have left : (b.cursor ch).left = (b.cursor ch).count - (b.cursor ch).pos := rfl
  have offset : ((b.handler ch).samplesCountPos * ch.attr.sampleSize).toNat =
      (b.cursor ch).pos * ch.width % 2 ^ 32 := UInt32.toNat_mul _ _
  rw [recaptures_iff within asked] at kept
  rw [presetSize_toNat within] at sizeValue
  unfold FormulaHolds
  by_cases none : (b.cursor ch).left = 0
  · refine iff_of_false (fun reports => ?_) ?_
    · have captures := reports.log
      rw [if_pos none, log] at captures
      exact effects_started drv size ch b.log captures.symm
    · rw [if_pos none]
      intro
      omega
  · rw [if_neg none]
    generalize bytesRead : (b.cursor ch).pos * ch.width = bytes at offset ⊢
    constructor
    · rintro ⟨reported, same, -, -⟩
      rw [if_neg none] at reported same
      rw [offset, bytesRead] at same
      refine ⟨by omega, ?_⟩
      split at sizeValue <;> split <;> omega
    · rintro ⟨fits, holds⟩
      refine ⟨?_, ?_, ?_, ?_⟩
      · rw [if_neg none]
        split at sizeValue <;> split at holds <;> omega
      · rw [if_neg none, offset, Nat.mod_eq_of_lt fits, bytesRead]
      · rw [if_neg none, pos]
        split at sizeValue <;> omega
      · rw [if_neg none, log, List.append_nil]

/-- For every state of the counters, every request for at least one sample and all results of
the driver calls: a call of `get_samples` that succeeds reports the size, the offset and the
position of the formula, and starts a capture where nothing was left, exactly under `FormulaHolds`. -/
theorem reported_size_exact (drv : Driver) (size byteOffset : UInt32) (ch : Channel) (b : Board)
    (within : (b.handler ch).samplesCountPos ≤ (b.handler ch).samplesCount) (asked : 1 ≤ size)
    (passed : (getSamples drv size byteOffset ch b).1 = success) :
    let (_, size', offset', b') := getSamples drv size byteOffset ch b
    Reports drv size ch b size' offset' b' ↔ FormulaHolds ch (b.cursor ch) size.toNat := by
  have position : (b.cursor ch).pos ≤ (b.cursor ch).count := UInt32.le_iff_toNat_le.mp within
  have some : 0 < size.toNat := UInt32.le_iff_toNat_le.mp asked
  by_cases captures : Recaptures (b.handler ch) size
  · have delivered := getSamples_recaptured captures passed
    rw [delivered] at passed ⊢
    obtain ⟨size', b', equation, sizeValue, pos, log⟩ := deliver_success passed
    rw [equation]
    refine recaptured_reports position some captures sizeValue ?_ ?_ ?_
    · rw [captureSamples_eq]
      simp only [Function.update_self, UInt32.zero_mul]
    · have bound := size'.toNat_lt
      rw [pos, captureSamples_cursor, Nat.zero_add, Nat.mod_eq_of_lt bound]
    · rw [log, captureSamples_eq]
  · rw [getSamples_kept captures some] at passed ⊢
    obtain ⟨size', b', equation, sizeValue, pos, log⟩ := deliver_success passed
    rw [equation]
    exact kept_reports position some captures sizeValue pos log

end

/-- Ten samples, and none of them is read. -/
def tenCaptured : Board := Board.boot.setHandler .adc ⟨10, 0⟩

def idleDriver : Driver := ⟨xstSuccess, fun _ => false, fun _ => 0⟩

/-- A request for five of ten samples succeeds and reports one. -/
theorem fitting_request_reports_one :
    (tenCaptured.handler .adc).samplesCountPos ≤ (tenCaptured.handler .adc).samplesCount ∧
      (getSamples idleDriver 5 0 .adc tenCaptured).1 = success ∧
      (getSamples idleDriver 5 0 .adc tenCaptured).2.1 = 1 ∧
      ¬ Reports idleDriver 5 .adc tenCaptured 1 0 (getSamples idleDriver 5 0 .adc tenCaptured).2.2.2 :=
  ⟨by decide +kernel, by decide +kernel, by decide +kernel,
    fun reports => absurd reports.reported (by decide +kernel)⟩

/-- A request for twenty of the ten samples gets all of them. -/
theorem reported_size_exact_twenty :
    let (_, size', offset', b') := getSamples idleDriver 20 0 .adc tenCaptured
    size' = 10 ∧ (Reports idleDriver 20 .adc tenCaptured size' offset' b' ↔
      FormulaHolds .adc (tenCaptured.cursor .adc) 20) :=
  ⟨by decide +kernel,
    reported_size_exact idleDriver 20 0 .adc tenCaptured (by decide +kernel) (by decide) (by decide +kernel)⟩

end BpmAcquisition.Server
