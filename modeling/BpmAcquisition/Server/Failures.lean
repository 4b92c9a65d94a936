import BpmAcquisition.Server.Acquisition

/-!
# Captures that fail

`capture_samples` sets the counters of the channel before it asks the DMA driver for the
transfer, and does not set them back when the driver refuses. `failed_capture_exact` says for
every state and request what a refused transfer leaves of the counters; `undelivered_samples`
what a later request finds there.
-/

namespace BpmAcquisition.Server

/-- `get_samples` starts a capture: it finds nothing left, and the request is not for zero samples. -/
def Recaptures (h : LowLevelHandler) (size : UInt32) : Prop := asInt (presetSize h size) ≤ 0 ∧ size ≠ 0

section
variable {drv : Driver} {size byteOffset : UInt32} {ch : Channel} {b : Board}

theorem captureSamples_refused (size : UInt32) (ch : Channel) (b : Board) (refused : drv.simpleTransfer ≠ xstSuccess) :
    (captureSamples drv size ch b).1 = error ∧
      (captureSamples drv size ch b).2.handler =
        Function.update b.handler ch { samplesCountPos := 0, samplesCount := size } := by
  rw [captureSamples_eq, if_neg refused]
  exact ⟨rfl, rfl⟩

theorem getSamples_refused (byteOffset : UInt32) (recaptures : Recaptures (b.handler ch) size)
    (refused : drv.simpleTransfer ≠ xstSuccess) :
    getSamples drv size byteOffset ch b = (error, size, byteOffset, (captureSamples drv size ch b).2) := by
  obtain ⟨none, asked⟩ := recaptures
  have failed := (captureSamples_refused size ch b refused).1
  have called : ensureCaptured drv (presetSize (b.handler ch) size) size ch b =
      ((captureSamples drv size ch b).1, size, (captureSamples drv size ch b).2) := by
    unfold ensureCaptured
    rw [if_pos none, if_pos asked]
  unfold getSamples
  rw [called, failed]
  exact if_pos (by decide)

theorem unread_not_recaptured (size : UInt32) : ¬ Recaptures { samplesCountPos := 0, samplesCount := size } size := by
  rintro ⟨none, -⟩
  have fits : presetSize { samplesCountPos := 0, samplesCount := size } size = 1 := by
    unfold presetSize
    rw [UInt32.zero_add]
    exact if_neg (UInt32.lt_irrefl size)
  rw [fits] at none
  exact absurd none (by decide)

/-- For every state, channel and requested count: a `capture_samples` call whose transfer the
driver refuses returns `ERROR` and leaves the counters as they were exactly if they showed a
capture of the same count of which nothing is read; called from inside `get_samples` it never
does. -/
theorem failed_capture_exact (drv : Driver) (size byteOffset : UInt32) (ch : Channel) (b : Board)
    (refused : drv.simpleTransfer ≠ xstSuccess) :
    ((captureSamples drv size ch b).1 = error ∧
        ((captureSamples drv size ch b).2.handler = b.handler ↔
          b.handler ch = { samplesCountPos := 0, samplesCount := size })) ∧
      (Recaptures (b.handler ch) size →
        (getSamples drv size byteOffset ch b).1 = error ∧
          (getSamples drv size byteOffset ch b).2.2.2.handler ≠ b.handler) := by
  obtain ⟨failed, counters⟩ := captureSamples_refused size ch b refused
  have kept : (captureSamples drv size ch b).2.handler = b.handler ↔
      b.handler ch = { samplesCountPos := 0, samplesCount := size } := by
    rw [counters, Function.update_eq_self_iff, eq_comm]
  refine ⟨⟨failed, kept⟩, fun recaptures => ?_⟩
  rw [getSamples_refused byteOffset recaptures refused]
  refine ⟨rfl, fun same => ?_⟩
  have unread := kept.mp same
  rw [unread] at recaptures
  exact unread_not_recaptured size recaptures

end

/-- After a refused capture a request that fits and meets no failure is answered with samples,
although no transfer was started. -/
theorem undelivered_samples {drv later : Driver} {size asked : UInt32} {ch : Channel} {b : Board}
    (byteOffset : UInt32) (valid : b.Valid) (refused : drv.simpleTransfer ≠ xstSuccess)
    (idle : dmaTimedOut later = false) (some : 0 < asked.toNat) (within : asked.toNat ≤ size.toNat)
    (bound : size.toNat ≤ ch.maxSamples.toNat) :
    let b' := (captureSamples drv size ch b).2
    (captureSamples drv size ch b).1 = error ∧ (getSamples later asked byteOffset ch b').1 = success ∧
      (getSamples later asked byteOffset ch b').2.2.2.log = b'.log := by
  intro b'
  have counters : b'.cursor ch = ⟨size.toNat, 0⟩ := captureSamples_cursor drv size ch b
  have bounds : b'.Valid := captureSamples_valid drv valid bound
  rcases getSamples_cases later byteOffset bounds some (Nat.le_trans within bound) with
    ⟨tmpSize, equation, -, room, -⟩ | ⟨drained, -⟩
  · obtain ⟨_, _, _, delivered, -, -, -, -, log⟩ := deliver_eq tmpSize bounds room idle
    rw [equation, delivered]
    exact ⟨(captureSamples_refused size ch b refused).1, rfl, log⟩
  · rw [counters] at drained
    simp only at drained
    omega

def refusingDriver : Driver := ⟨-1, fun _ => false, fun _ => 0⟩

/-- On a board that never captured anything, a refused capture of two samples is followed by a
request for one of them that succeeds. -/
theorem refused_capture_delivers :
    (captureSamples refusingDriver 2 .adc Board.boot).1 = error ∧
      Board.boot.handler .adc = ⟨0, 0⟩ ∧
      (captureSamples refusingDriver 2 .adc Board.boot).2.handler .adc = ⟨2, 0⟩ ∧
      (getSamples refusingDriver 1 0 .adc (captureSamples refusingDriver 2 .adc Board.boot).2).1 = success ∧
      (getSamples refusingDriver 1 0 .adc (captureSamples refusingDriver 2 .adc Board.boot).2).2.1 = 1 := by
  decide +kernel

theorem failed_capture_exact_two :
    ((captureSamples refusingDriver 2 .adc Board.boot).1 = error ∧
        ((captureSamples refusingDriver 2 .adc Board.boot).2.handler = Board.boot.handler ↔
          Board.boot.handler .adc = { samplesCountPos := 0, samplesCount := 2 })) ∧
      (Recaptures (Board.boot.handler .adc) 2 →
        (getSamples refusingDriver 2 0 .adc Board.boot).1 = error ∧
          (getSamples refusingDriver 2 0 .adc Board.boot).2.2.2.handler ≠ Board.boot.handler) :=
  failed_capture_exact refusingDriver 2 0 .adc Board.boot (by decide)

end BpmAcquisition.Server
