import BpmAcquisition.Server.Answers

/-!
# Responses within the DMA buffer

For every order of requests on all connections and every outcome of the driver calls the read
position stays within the capture, and the samples of a response lie within the capture, within
the DMA buffer of the channel and within the packet that `send_response_packet` builds.
-/

namespace BpmAcquisition.Server

open Machine

def Channel.memSize : Channel → UInt32
  | .adc => maxDmaTransferSize
  | .ddc => maxDmaTransferSize

def responsePacketSize : UInt32 := responsePacketHeaderSize + responsePacketBufSize

def recvBufSize : UInt32 := responsePacketSize

def Channel.offset (ch : Channel) (r : ResponsePacket) : Nat := (r.buf - ch.attr.memStartAddr).toNat

/-- The response is a non-empty part of the captured samples and of the DMA buffer, and what it
is packed into fits `send_buf`. -/
structure WithinBuffer (ch : Channel) (h : LowLevelHandler) (r : ResponsePacket) : Prop where
  data : isData r.comm = true
  some : 0 < r.num.toNat
  start : r.buf.toNat = ch.attr.memStartAddr.toNat + ch.offset r
  captured : ch.offset r + r.num.toNat ≤ h.samplesCount.toNat * ch.width
  memory : h.samplesCount.toNat * ch.width ≤ ch.memSize.toNat
  packet : r.num.toNat ≤ responsePacketBufSize.toNat
  sendBuf : ∀ memory, (wireBytes memory r).length ≤ recvBufSize.toNat

theorem Channel.capture_bytes (ch : Channel) : ch.maxSamples.toNat * ch.width ≤ ch.memSize.toNat := by
  cases ch <;> decide

theorem Channel.buffer_fits (ch : Channel) : ch.attr.memStartAddr.toNat + ch.memSize.toNat < 2 ^ 32 := by
  cases ch <;> decide

section
variable {drv : Driver} {b : Board} {ch : Channel} {size byteOffset : UInt32}

/-- A call that succeeds, whatever the drivers do on the way, hands out samples up to the read
position it leaves. -/
theorem getSamples_slice (valid : b.Valid) (asked : 0 < size.toNat) (bound : size.toNat ≤ ch.maxSamples.toNat)
    (passed : ¬ (getSamples drv size byteOffset ch b).1 < 0) :
    ∃ size' offset' b', getSamples drv size byteOffset ch b = (success, size', offset', b') ∧
      0 < size'.toNat ∧ size'.toNat ≤ ch.limit ∧
      offset'.toNat + size'.toNat * ch.width = (b'.cursor ch).pos * ch.width := by
  have delivers := (getSamples_delivers byteOffset valid asked bound).mp passed
  obtain ⟨size', offset', b', equation, sizeValue, offset, cursor, -, -⟩ :=
    getSamples_next byteOffset delivers valid asked bound
  refine ⟨size', offset', b', equation, ?_, ?_, ?_⟩
  · rw [sizeValue]
    exact Cursor.next_size_positive (b.cursor ch) ch.limit_positive asked
  · rw [sizeValue]
    exact Cursor.next_size_le size.toNat (b.cursor ch) ch.limit_positive
  · rw [offset, sizeValue, cursor, ← Nat.add_mul, Cursor.next_read]

theorem slice_within {size' offset' : UInt32} {b' : Board} (comm : UInt32) (data : isData comm = true)
    (valid : b'.Valid) (some : 0 < size'.toNat) (limited : size'.toNat ≤ ch.limit)
    (slice : offset'.toNat + size'.toNat * ch.width = (b'.cursor ch).pos * ch.width) :
    WithinBuffer ch (b'.handler ch) ⟨comm, size' * ch.attr.sampleSize, ch.attr.memStartAddr + offset'⟩ := by
  obtain ⟨within, below⟩ := valid ch
  obtain ⟨bytes, packet⟩ := samples_num limited
  have positive := Nat.mul_pos some ch.width_positive
  have read := Nat.mul_le_mul_right ch.width within
  have capture := Nat.le_trans (Nat.mul_le_mul_right ch.width below) ch.capture_bytes
  have fits := ch.buffer_fits
  have offset : (ch.attr.memStartAddr + offset' - ch.attr.memStartAddr).toNat = offset'.toNat := by
    rw [UInt32.add_comm, UInt32.add_sub_cancel]
  have count : (b'.handler ch).samplesCount.toNat = (b'.cursor ch).count := rfl
  refine ⟨data, ?_, ?_, ?_, ?_, ?_, fun memory => ?_⟩
  · rw [bytes]
    exact positive
  · show (ch.attr.memStartAddr + offset').toNat = _
    unfold Channel.offset
    rw [offset, toNat_add_of_lt (by omega)]
  · unfold Channel.offset
    rw [offset, bytes, count]
    omega
  · rw [count]
    exact capture
  · rw [bytes]
    exact packet
  · unfold wireBytes memcpy
    rw [if_pos data, List.length_append, List.length_map, List.length_range, bytes]
    show 8 + _ ≤ 4104
    omega

theorem handleRequest_slice {c : CommandPacket} (get : CommandType.ofCode c.comm = some ch.getCommand)
    (r : ResponsePacket) (valid : b.Valid) (asked : 0 < c.val.toNat) (bound : c.val.toNat ≤ ch.maxSamples.toNat)
    (passed : ¬ (getSamples drv c.val ch.responseHandler.byteOffset ch b).1 < 0) :
    ∃ r' b', handleRequest drv c r b = (asInt r'.num, r', b') ∧
      (getSamples drv c.val ch.responseHandler.byteOffset ch b).2.2.2 = b' ∧ WithinBuffer ch (b'.handler ch) r' := by
  have inRange : ¬ c.val > ch.maxSamples := UInt32.not_lt.mpr (UInt32.le_iff_toNat_le.mpr bound)
  have counters : (getSamples drv c.val ch.responseHandler.byteOffset ch b).2.2.2.Valid :=
    getSamples_valid valid asked bound
  obtain ⟨size', offset', b', equation, some, limited, slice⟩ := getSamples_slice valid asked bound passed
  rw [equation] at counters ⊢
  rw [handleRequest_get get, handleGetSamples_channel, equation]
  simp only [if_neg inRange]
  refine ⟨_, b', rfl, rfl, slice_within _ ?_ counters some limited slice⟩
  split <;> cases ch <;> rfl

theorem handleRequest_refused {c : CommandPacket} (get : CommandType.ofCode c.comm = some ch.getCommand)
    (r : ResponsePacket)
    (refused : ¬ c.val.toNat ≤ ch.maxSamples.toNat ∨
      (getSamples drv c.val ch.responseHandler.byteOffset ch b).1 < 0) :
    ∃ text b', handleRequest drv c r b = (error, message text { r with comm := messageId } b') ∧
      (b' = b ∨ b' = (getSamples drv c.val ch.responseHandler.byteOffset ch b).2.2.2) := by
  rw [handleRequest_get get, handleGetSamples_channel]
  by_cases above : c.val > ch.maxSamples
  · rw [if_pos above]
    exact ⟨_, b, rfl, Or.inl rfl⟩
  · have bound := UInt32.le_iff_toNat_le.mp (UInt32.not_lt.mp above)
    have failed := refused.resolve_left (not_not_intro bound)
    rw [if_neg above]
    simp only [if_pos failed]
    exact ⟨_, _, rfl, Or.inr rfl⟩

/-- A request for samples that is not answered with an error text is answered with samples
within the buffer. -/
theorem handleRequest_within {c : CommandPacket} (get : CommandType.ofCode c.comm = some ch.getCommand)
    (r : ResponsePacket) (valid : b.Valid) (asked : 0 < c.val.toNat) (passed : 0 ≤ (handleRequest drv c r b).1) :
    WithinBuffer ch ((handleRequest drv c r b).2.2.handler ch) (handleRequest drv c r b).2.1 := by
  by_cases refused : ¬ c.val.toNat ≤ ch.maxSamples.toNat ∨
      (getSamples drv c.val ch.responseHandler.byteOffset ch b).1 < 0
  · obtain ⟨text, b', equation, -⟩ := handleRequest_refused get r refused
    rw [equation] at passed
    exact absurd passed (by decide : ¬ 0 ≤ error)
  · rw [not_or, not_not] at refused
    obtain ⟨r', b', equation, -, within⟩ := handleRequest_slice get r valid asked refused.1 refused.2
    rw [equation]
    exact within

end

/-! ### Every run -/

/-- For every order of commands on all connections and all results of the driver calls: no read
position passes the end of its capture, and every request for samples that succeeds is answered
with a part of the captured samples that fits the packet. -/
theorem response_within_buffer (command : Nat → CommandPacket) (response : Nat → ResponsePacket)
    (es : List Event) :
    let s := run serve (Application.boot command response) es
    (∀ ch, (s.board.handler ch).samplesCountPos ≤ (s.board.handler ch).samplesCount) ∧
      ∀ c ch env, (s.connection c).phase = .responding →
        CommandType.ofCode (s.connection c).command.comm = some ch.getCommand →
        0 ≤ ((s.connection c).handle env s.board).1 →
        WithinBuffer ch (((s.connection c).handle env s.board).2.2.handler ch)
          ((s.connection c).handle env s.board).2.1 := by
  intro s
  have sound : s.Sound := reachable_sound command response es
  refine ⟨fun ch => ?_, fun c ch env busy get passed => ?_⟩
  · exact UInt32.le_iff_toNat_le.mpr (sound.board ch).1
  · exact handleRequest_within get _ sound.board (get_positive get (sound.asked c busy)) passed

/-- A request for two samples after a capture of one is served up to where the loop asks again. -/
theorem response_within_buffer_get_two :
    let s := run serve freshServer (captureOne ++ [.receive 0 getTwo])
    (∀ ch, (s.board.handler ch).samplesCountPos ≤ (s.board.handler ch).samplesCount) ∧
      WithinBuffer .adc (((s.connection 0).handle workingEnv s.board).2.2.handler .adc)
        ((s.connection 0).handle workingEnv s.board).2.1 := by
  obtain ⟨within, slices⟩ := response_within_buffer (fun _ => ⟨0, 0, 0, 0⟩) (fun _ => ⟨0, 0, 0⟩)
    (captureOne ++ [.receive 0 getTwo])
  exact ⟨within, slices 0 .adc workingEnv (by decide +kernel) (by decide +kernel) (by decide +kernel)⟩

end BpmAcquisition.Server
