import BpmAcquisition.Server.Cursor
import BpmAcquisition.Server.Process

/-!
# `get_samples` advances the cursor

The counters of a reachable board are within bounds, so none of the `u32` computations of
`get_samples` wraps and a call that no driver fails is one `Cursor.next`.
-/

namespace BpmAcquisition.Server

open Machine Slices

/-! ### Words as numbers -/

theorem asInt_eq {x : UInt32} (small : x.toNat < 2 ^ 31) : asInt x = x.toNat :=
  BitVec.toInt_eq_toNat_of_lt (by rw [UInt32.toNat_toBitVec]; omega)

theorem toNat_add_of_lt {x y : UInt32} (fits : x.toNat + y.toNat < 2 ^ 32) :
    (x + y).toNat = x.toNat + y.toNat := by
  rw [UInt32.toNat_add, Nat.mod_eq_of_lt fits]

theorem toNat_mul_of_lt {x y : UInt32} (fits : x.toNat * y.toNat < 2 ^ 32) :
    (x * y).toNat = x.toNat * y.toNat := by
  rw [UInt32.toNat_mul, Nat.mod_eq_of_lt fits]

/-! ### Reachable counters -/

def Channel.maxSamples : Channel → UInt32
  | .adc => maxAdcSamplesCount
  | .ddc => maxDdcSamplesCount

def Channel.limit (ch : Channel) : Nat := ch.attr.maxRespBufferPackets.toNat

def Channel.width (ch : Channel) : Nat := ch.attr.sampleSize.toNat

theorem Channel.maxSamples_small (ch : Channel) : ch.maxSamples.toNat * ch.width < 2 ^ 23 := by
  cases ch <;> decide

theorem Channel.limit_bytes (ch : Channel) : ch.limit * ch.width = 4096 := by
  cases ch <;> decide

theorem Channel.width_positive (ch : Channel) : 0 < ch.width := by
  cases ch <;> decide

theorem Channel.limit_positive (ch : Channel) : 0 < ch.limit := by
  cases ch <;> decide

theorem Channel.maxSamples_lt (ch : Channel) : ch.maxSamples.toNat < 2 ^ 21 := by
  cases ch <;> decide

def LowLevelHandler.cursor (h : LowLevelHandler) : Cursor := ⟨h.samplesCount.toNat, h.samplesCountPos.toNat⟩

def Board.cursor (b : Board) (ch : Channel) : Cursor := (b.handler ch).cursor

/-- The read position is within the capture, and the capture within the DMA buffer. -/
def Board.Valid (b : Board) : Prop :=
  ∀ ch, (b.cursor ch).pos ≤ (b.cursor ch).count ∧ (b.cursor ch).count ≤ ch.maxSamples.toNat

structure Driver.Works (drv : Driver) : Prop where
  transfer : drv.simpleTransfer = xstSuccess
  dma : dmaTimedOut drv = false

/-- No driver call fails that a request for samples of the channel makes. -/
def Delivers (ch : Channel) (drv : Driver) (b : Board) : Prop :=
  dmaTimedOut drv = false ∧ ((b.cursor ch).left = 0 → drv.simpleTransfer = xstSuccess)

theorem Driver.Works.delivers {drv : Driver} (works : drv.Works) (ch : Channel) (b : Board) : Delivers ch drv b :=
  ⟨works.dma, fun _ => works.transfer⟩

theorem boot_valid : Board.boot.Valid := fun _ => ⟨Nat.le_refl 0, Nat.zero_le _⟩

theorem valid_setHandler {b : Board} (valid : b.Valid) {ch : Channel} {h : LowLevelHandler}
    (within : h.cursor.pos ≤ h.cursor.count) (bound : h.cursor.count ≤ ch.maxSamples.toNat) :
    (b.setHandler ch h).Valid := by
  intro ch'
  unfold Board.cursor
  rw [Board.handler_setHandler]
  by_cases same : ch' = ch
  · subst same
    rw [Function.update_self]
    exact ⟨within, bound⟩
  · rw [Function.update_of_ne same]
    exact valid ch'

theorem valid_congr {b b' : Board} (same : b'.handler = b.handler) (valid : b.Valid) : b'.Valid := by
  intro ch
  unfold Board.cursor
  rw [same]
  exact valid ch

/-! ### `capture_samples` -/

def Channel.statusAddr : Channel → UInt32
  | .adc => fmc150Baseaddr + fmc150StatusRegOffset
  | .ddc => bpmDdcBaseaddr + bpmDdcStatusRegOffset

def Channel.captureCtl (ch : Channel) (qwCount : UInt32) : UInt32 :=
  0x00200000 ||| if ch.id = adcId then qwCount else qwCount - 1

def captureEffects (drv : Driver) (qwCount : UInt32) (ch : Channel) : List Effect :=
  [.out32 ch.statusAddr 0, .simpleTransfer ch ch.attr.memStartAddr (qwCount * ch.attr.sampleSize)] ++
    if drv.simpleTransfer = xstSuccess then
      [.out32 ch.baseaddr 0, .out32 ch.baseaddr (ch.captureCtl qwCount)]
    else []

theorem captureSamples_eq (drv : Driver) (qwCount : UInt32) (ch : Channel) (b : Board) :
    captureSamples drv qwCount ch b =
      (if drv.simpleTransfer = xstSuccess then success else error,
        { handler := Function.update b.handler ch { samplesCountPos := 0, samplesCount := qwCount }
          log := b.log ++ captureEffects drv qwCount ch }) := by
  unfold captureSamples writeSoftRegister captureEffects
  by_cases agreed : drv.simpleTransfer = xstSuccess <;> cases ch <;>
    simp [agreed, Board.effect, Board.setHandler, Channel.statusAddr, Channel.captureCtl, Channel.id,
      adcId, ddcId]

theorem captureSamples_valid (drv : Driver) {qwCount : UInt32} {ch : Channel} {b : Board}
    (valid : b.Valid) (bound : qwCount.toNat ≤ ch.maxSamples.toNat) :
    (captureSamples drv qwCount ch b).2.Valid := by
  rw [captureSamples_eq]
  exact valid_congr rfl (valid_setHandler valid (Nat.zero_le _) bound)

theorem captureSamples_cursor (drv : Driver) (qwCount : UInt32) (ch : Channel) (b : Board) :
    (captureSamples drv qwCount ch b).2.cursor ch = ⟨qwCount.toNat, 0⟩ := by
  rw [captureSamples_eq]
  unfold Board.cursor
  simp only [Function.update_self]
  rfl

theorem captureSamples_frame (drv : Driver) (qwCount : UInt32) {ch other : Channel} (b : Board)
    (different : other ≠ ch) : (captureSamples drv qwCount ch b).2.cursor other = b.cursor other := by
  rw [captureSamples_eq]
  unfold Board.cursor
  simp only [Function.update_of_ne different]

/-! ### `get_samples` -/

section
variable {b : Board} {ch : Channel} {size tmpSize byteOffset : UInt32} {drv : Driver}

theorem presetSize_toNat (within : (b.cursor ch).pos ≤ (b.cursor ch).count) :
    (presetSize (b.handler ch) size).toNat =
      if (b.cursor ch).count < ((b.cursor ch).pos + size.toNat) % 2 ^ 32 then (b.cursor ch).left else 1 := by
  have sum : (b.handler ch).samplesCount < (b.handler ch).samplesCountPos + size ↔
      (b.cursor ch).count < ((b.cursor ch).pos + size.toNat) % 2 ^ 32 := by
    rw [UInt32.lt_iff_toNat_lt, UInt32.toNat_add]
    exact Iff.rfl
  unfold presetSize
  simp only [gt_iff_lt, sum]
  split
  · exact UInt32.toNat_sub_of_le _ _ (UInt32.le_iff_toNat_le.mpr within)
  · rfl

theorem presetSize_fits (valid : b.Valid)
    (fits : (b.cursor ch).pos + size.toNat ≤ (b.cursor ch).count) : presetSize (b.handler ch) size = 1 := by
  have small := ch.maxSamples_lt
  obtain ⟨within, below⟩ := valid ch
  apply UInt32.toNat_inj.mp
  rw [presetSize_toNat within, if_neg (by omega)]
  rfl

theorem presetSize_trims (valid : b.Valid) (bound : size.toNat ≤ ch.maxSamples.toNat)
    (trims : (b.cursor ch).count < (b.cursor ch).pos + size.toNat) :
    (presetSize (b.handler ch) size).toNat = (b.cursor ch).left := by
  have small := ch.maxSamples_lt
  obtain ⟨within, below⟩ := valid ch
  rw [presetSize_toNat within, if_pos (by omega)]

theorem ensureCaptured_some (some : 0 < tmpSize.toNat) (small : tmpSize.toNat < 2 ^ 31) :
    ensureCaptured drv tmpSize size ch b = (success, tmpSize, b) := by
  unfold ensureCaptured
  rw [if_neg (by rw [asInt_eq small]; omega)]

theorem ensureCaptured_none (none : tmpSize.toNat = 0) (asked : 0 < size.toNat) :
    ensureCaptured drv tmpSize size ch b =
      ((captureSamples drv size ch b).1, size, (captureSamples drv size ch b).2) := by
  have nonzero : size ≠ 0 := by
    rintro rfl
    exact absurd asked (by decide)
  unfold ensureCaptured
  rw [if_pos (by rw [asInt_eq (by omega)]; omega), if_pos nonzero]

theorem packetSize_toNat (ch : Channel) (tmpSize : UInt32) :
    (if tmpSize > ch.attr.maxRespBufferPackets then ch.attr.maxRespBufferPackets else tmpSize).toNat =
      min ch.limit tmpSize.toNat := by
  split
  case isTrue above => exact (Nat.min_eq_left (Nat.le_of_lt (UInt32.lt_iff_toNat_lt.mp above))).symm
  case isFalse below => exact (Nat.min_eq_right (UInt32.le_iff_toNat_le.mp (UInt32.not_lt.mp below))).symm

theorem deliver_eq (tmpSize : UInt32) (valid : b.Valid)
    (room : (b.cursor ch).pos + tmpSize.toNat ≤ (b.cursor ch).count) (works : dmaTimedOut drv = false) :
    ∃ size' offset' b', deliver drv tmpSize byteOffset ch b = (success, size', offset', b') ∧
      size'.toNat = min ch.limit tmpSize.toNat ∧ offset'.toNat = (b.cursor ch).pos * ch.width ∧
      b'.cursor ch = ⟨(b.cursor ch).count, (b.cursor ch).pos + min ch.limit tmpSize.toNat⟩ ∧
      (∀ other, other ≠ ch → b'.cursor other = b.cursor other) ∧ b'.log = b.log := by
  have small := ch.maxSamples_lt
  have bytes := ch.maxSamples_small
  obtain ⟨within, below⟩ := valid ch
  let size' := if tmpSize > ch.attr.maxRespBufferPackets then ch.attr.maxRespBufferPackets else tmpSize
  have size : size'.toNat = min ch.limit tmpSize.toNat := packetSize_toNat ch tmpSize
  have cut : size'.toNat ≤ tmpSize.toNat := by rw [size]; exact Nat.min_le_right _ _
  have position : (b.handler ch).samplesCountPos.toNat = (b.cursor ch).pos := rfl
  refine ⟨size', (b.handler ch).samplesCountPos * ch.attr.sampleSize,
    b.setHandler ch { b.handler ch with samplesCountPos := (b.handler ch).samplesCountPos + size' },
    by unfold deliver; rw [works]; rfl, size, ?_, ?_, ?_, rfl⟩
  · refine toNat_mul_of_lt (Nat.lt_of_le_of_lt (Nat.mul_le_mul_right _ (Nat.le_trans within below)) ?_)
    exact Nat.lt_of_lt_of_le bytes (by decide)
  · unfold Board.cursor LowLevelHandler.cursor
    simp only [Board.handler_setHandler, Function.update_self]
    rw [toNat_add_of_lt (by rw [position]; omega), size]
  · intro other different
    unfold Board.cursor
    rw [Board.handler_setHandler, Function.update_of_ne different]

/-- Samples that are left are delivered, one or up to the end of the capture; a drained channel
is captured first. -/
theorem getSamples_cases (drv : Driver) (byteOffset : UInt32) (valid : b.Valid) (asked : 0 < size.toNat)
    (bound : size.toNat ≤ ch.maxSamples.toNat) :
    (∃ tmpSize, getSamples drv size byteOffset ch b = deliver drv tmpSize byteOffset ch b ∧ 0 < tmpSize.toNat ∧
        (b.cursor ch).pos + tmpSize.toNat ≤ (b.cursor ch).count ∧
        (b.cursor ch).next ch.limit size.toNat =
          (⟨(b.cursor ch).pos, min ch.limit tmpSize.toNat⟩,
            ⟨(b.cursor ch).count, (b.cursor ch).pos + min ch.limit tmpSize.toNat⟩)) ∨
      (b.cursor ch).pos = (b.cursor ch).count ∧
        getSamples drv size byteOffset ch b =
          if (captureSamples drv size ch b).1 < 0 then
            (error, size, byteOffset, (captureSamples drv size ch b).2)
          else deliver drv size byteOffset ch (captureSamples drv size ch b).2 := by
  have small := ch.maxSamples_lt
  obtain ⟨within, below⟩ := valid ch
  unfold getSamples
  by_cases fits : (b.cursor ch).pos + size.toNat ≤ (b.cursor ch).count
  · have one : min ch.limit (1 : UInt32).toNat = 1 := Nat.min_eq_right ch.limit_positive
    rw [presetSize_fits valid fits, ensureCaptured_some (by decide) (by decide), Cursor.next_fits fits]
    refine Or.inl ⟨1, rfl, by decide, ?_, ?_⟩
    · show (b.cursor ch).pos + 1 ≤ (b.cursor ch).count
      omega
    · rw [one]
  · have trims : (b.cursor ch).count < (b.cursor ch).pos + size.toNat := Nat.lt_of_not_le fits
    have trimmed := presetSize_trims valid bound trims
    rcases Nat.eq_or_lt_of_le within with drained | some
    · have none : (b.cursor ch).left = 0 := by unfold Cursor.left; omega
      rw [ensureCaptured_none (by rw [trimmed, none]) asked]
      exact Or.inr ⟨drained, rfl⟩
    · have left : (b.cursor ch).left = (b.cursor ch).count - (b.cursor ch).pos := rfl
      rw [ensureCaptured_some (by omega) (by omega), Cursor.next_trimmed trims some, ← trimmed]
      exact Or.inl ⟨_, rfl, by omega, by omega, rfl⟩

/-- A request within the limits succeeds exactly if none of the driver calls it makes fails. -/
theorem getSamples_delivers (byteOffset : UInt32) (valid : b.Valid) (asked : 0 < size.toNat)
    (bound : size.toNat ≤ ch.maxSamples.toNat) :
    ¬ (getSamples drv size byteOffset ch b).1 < 0 ↔ Delivers ch drv b := by
  have delivered : ∀ tmpSize (b' : Board), ¬ (deliver drv tmpSize byteOffset ch b').1 < 0 ↔ dmaTimedOut drv = false := by
    intro tmpSize b'
    unfold deliver
    cases dmaTimedOut drv <;> simp [error, success]
  unfold Delivers Cursor.left
  rcases getSamples_cases drv byteOffset valid asked bound with ⟨tmpSize, equation, some, room, -⟩ | ⟨drained, equation⟩
  · have left : ¬ (b.cursor ch).count - (b.cursor ch).pos = 0 := by omega
    rw [equation, delivered]
    simp only [left, false_implies, and_true]
  · have none : (b.cursor ch).count - (b.cursor ch).pos = 0 := by omega
    have captured : (captureSamples drv size ch b).1 < 0 ↔ drv.simpleTransfer ≠ xstSuccess := by
      rw [captureSamples_eq]
      by_cases agreed : drv.simpleTransfer = xstSuccess <;> simp [agreed, error, success]
    rw [equation]
    simp only [none, forall_const]
    by_cases refused : (captureSamples drv size ch b).1 < 0
    · rw [if_pos refused]
      exact ⟨fun passed => absurd (by decide : error < 0) passed, fun ok => absurd ok.2 (captured.mp refused)⟩
    · rw [if_neg refused, delivered]
      exact ⟨fun idle => ⟨idle, Classical.not_not.mp (mt captured.mpr refused)⟩, And.left⟩

theorem getSamples_next (byteOffset : UInt32) (delivers : Delivers ch drv b) (valid : b.Valid)
    (asked : 0 < size.toNat) (bound : size.toNat ≤ ch.maxSamples.toNat) :
    ∃ size' offset' b', getSamples drv size byteOffset ch b = (success, size', offset', b') ∧
      size'.toNat = ((b.cursor ch).next ch.limit size.toNat).1.size ∧
      offset'.toNat = ((b.cursor ch).next ch.limit size.toNat).1.start * ch.width ∧
      b'.cursor ch = ((b.cursor ch).next ch.limit size.toNat).2 ∧
      (∀ other, other ≠ ch → b'.cursor other = b.cursor other) ∧
      b'.log = b.log ++ if (b.cursor ch).left = 0 then captureEffects drv size ch else [] := by
  obtain ⟨idle, transfer⟩ := delivers
  unfold Cursor.left at transfer ⊢
  rcases getSamples_cases drv byteOffset valid asked bound with ⟨tmpSize, equation, some, room, next⟩ | ⟨drained, equation⟩
  · rw [equation, next, if_neg (by omega), List.append_nil]
    exact deliver_eq tmpSize valid room idle
  · have agreed : (captureSamples drv size ch b).1 = success := by
      rw [captureSamples_eq, if_pos (transfer (by omega))]
    have fresh := captureSamples_cursor drv size ch b
    rw [equation, agreed, if_neg (by decide), Cursor.next_drained drained asked, if_pos (by omega)]
    obtain ⟨size', offset', b', delivered, sizeValue, offset, cursor, frame, log⟩ :=
      deliver_eq size (captureSamples_valid drv valid bound) (by rw [fresh]; simp) idle
    rw [fresh] at offset cursor
    refine ⟨size', offset', b', delivered, sizeValue, offset, ?_, ?_, ?_⟩
    · rw [cursor, Nat.zero_add]
    · intro other different
      rw [frame other different, captureSamples_frame drv size b different]
    · rw [log, captureSamples_eq]

/-! ### Counters stay valid -/

theorem valid_of_cursor (ch : Channel) {b' : Board} (valid : b.Valid) (within : (b'.cursor ch).pos ≤ (b'.cursor ch).count)
    (bound : (b'.cursor ch).count ≤ ch.maxSamples.toNat)
    (frame : ∀ other, other ≠ ch → b'.cursor other = b.cursor other) : b'.Valid := by
  intro other
  by_cases same : other = ch
  · subst same
    exact ⟨within, bound⟩
  · rw [frame other same]
    exact valid other

theorem deliver_valid (valid : b.Valid) (room : (b.cursor ch).pos + tmpSize.toNat ≤ (b.cursor ch).count) :
    (deliver drv tmpSize byteOffset ch b).2.2.2.Valid := by
  cases works : dmaTimedOut drv with
  | true =>
    unfold deliver
    rw [works]
    exact valid
  | false =>
    obtain ⟨size', offset', b', equation, -, -, cursor, frame, -⟩ := deliver_eq tmpSize valid room works
    have cut := Nat.min_le_right ch.limit tmpSize.toNat
    rw [equation]
    refine valid_of_cursor ch valid ?_ ?_ frame
    · rw [cursor]
      simp only
      omega
    · rw [cursor]
      exact (valid ch).2

theorem getSamples_valid (valid : b.Valid) (asked : 0 < size.toNat)
    (bound : size.toNat ≤ ch.maxSamples.toNat) : (getSamples drv size byteOffset ch b).2.2.2.Valid := by
  rcases getSamples_cases drv byteOffset valid asked bound with ⟨tmpSize, equation, -, room, -⟩ | ⟨-, equation⟩
  · rw [equation]
    exact deliver_valid valid room
  · have captured := captureSamples_valid drv valid bound
    rw [equation]
    split
    · exact captured
    · exact deliver_valid captured (by rw [captureSamples_cursor]; simp)

end

/-! ### `handle_request` -/

section
variable {drv : Driver} {b : Board} {r : ResponsePacket}

@[simp] theorem message_handler (text : String) : (message text r b).2.handler = b.handler := rfl

@[simp] theorem report_handler (failed : Bool) (bad good : String) :
    (report failed bad good r b).2.2.handler = b.handler := rfl

theorem handleCapture_valid {val : UInt32} {ch : Channel} {attr : CommandAttr} {ops : CommandOps}
    (valid : b.Valid) (limit : attr.maxSamples = ch.maxSamples) (channel : ops.captureSamples = channelCapture) :
    (handleCapture drv val ⟨attr, ops⟩ (some ch) r b).2.2.Valid := by
  unfold handleCapture
  split
  case isTrue => exact valid_congr rfl valid
  case isFalse within =>
    rw [limit] at within
    rw [channel]
    exact valid_congr rfl (captureSamples_valid drv valid (UInt32.le_iff_toNat_le.mp (UInt32.not_lt.mp within)))

theorem handleGetSamples_valid {val : UInt32} {ch : Channel} {attr : CommandAttr} {ops : CommandOps}
    {res : ResponseHandler} (valid : b.Valid) (limit : attr.maxSamples = ch.maxSamples)
    (channel : ops.getSamples = channelGet) (asked : 0 < val.toNat) :
    (handleGetSamples drv val ⟨attr, ops⟩ res (some ch) r b).2.2.Valid := by
  unfold handleGetSamples
  split
  case isTrue => exact valid_congr rfl valid
  case isFalse within =>
    rw [limit] at within
    have got : (channelGet drv val res.byteOffset (some ch) b).2.2.2.Valid :=
      getSamples_valid valid asked (UInt32.le_iff_toNat_le.mp (UInt32.not_lt.mp within))
    simp only [channel]
    split
    · exact valid_congr rfl got
    · exact got

theorem handleRead_handler {c : CommandPacket} {h : CommandHandler} {res : ResponseHandler}
    (keeps : ∀ value, (h.commOps.readReg drv c.cs c.addr value b).2.1.handler = b.handler) :
    (handleRead drv c h res r b).2.2.handler = b.handler := by
  unfold handleRead
  simp only
  split <;> exact keeps c.val

theorem handleWrite_handler {c : CommandPacket} {h : CommandHandler}
    (keeps : (h.commOps.writeReg drv c.cs c.addr c.val b).2.handler = b.handler) :
    (handleWrite drv c h r b).2.2.handler = b.handler := keeps

theorem readFmc150Register_handler (cs addr value : UInt32) :
    (readFmc150Register drv cs addr value b).2.1.handler = b.handler := by
  unfold readFmc150Register
  split <;> rfl

theorem writeFmc150Register_handler (cs addr value : UInt32) :
    (writeFmc150Register drv cs addr value b).2.handler = b.handler := rfl

theorem val_positive {c : CommandPacket} {size : UInt32} (asked : 0 < asInt (c.val * size)) :
    0 < c.val.toNat := by
  rcases Nat.eq_zero_or_pos c.val.toNat with none | some
  · have zero : c.val = 0 := UInt32.toNat_inj.mp none
    rw [zero, UInt32.zero_mul] at asked
    exact absurd asked (by decide)
  · exact some

theorem handleCommand_handler {type : CommandType} {c : CommandPacket} {h : CommandHandler}
    {res : ResponseHandler} {low : Option Channel} (found : getCommandHandler (some type) = some h)
    (other : type ≠ .fmc150Capture ∧ type ≠ .ddcCapture ∧ type ≠ .fmc150GetSamples ∧ type ≠ .ddcGetSamples) :
    (handleCommand drv type c h res low r b).2.2.handler = b.handler := by
  cases type <;> simp only [getCommandHandler, reduceCtorEq, Option.some.injEq, ne_eq, not_true_eq_false,
    false_and, and_false] at found other <;> subst found <;> unfold handleCommand
  case fmc150Read => exact handleRead_handler fun _ => readFmc150Register_handler _ _ _
  case softRegRead => exact handleRead_handler fun _ => rfl
  case fmc150Write => exact handleWrite_handler (writeFmc150Register_handler _ _ _)
  case softRegWrite => exact handleWrite_handler rfl
  case ledRead => exact report_handler _ _ _
  case ledWrite => exact report_handler _ _ _

/-- No request that the response loop handles takes the counters out of bounds. -/
theorem handleRequest_valid {c : CommandPacket} (valid : b.Valid) (asked : 0 < prepareToHandle c) :
    (handleRequest drv c r b).2.2.Valid := by
  unfold prepareToHandle at asked
  unfold handleRequest
  cases type : CommandType.ofCode c.comm with
  | none => exact valid
  | some type' =>
    rw [type] at asked
    simp only
    split
    case h_2 => exact valid
    case h_1 h res low found _ lowFound =>
      simp only
      by_cases sampling : type' = .fmc150Capture ∨ type' = .ddcCapture ∨ type' = .fmc150GetSamples ∨
          type' = .ddcGetSamples
      · rcases sampling with rfl | rfl | rfl | rfl <;> cases found <;> cases lowFound
        · exact handleCapture_valid valid rfl rfl
        · exact handleCapture_valid valid rfl rfl
        · exact handleGetSamples_valid valid rfl rfl (val_positive asked)
        · exact handleGetSamples_valid valid rfl rfl (val_positive asked)
      · simp only [not_or] at sampling
        exact valid_congr (handleCommand_handler found sampling) valid

end

end BpmAcquisition.Server
