import BpmAcquisition.Server.Transfer

/-!
# What commands are answered with

A command with a handler is answered with a text, a register value or samples, and nothing of
the answer depends on the packet that was there before; until the answer is written nothing else
is written to memory. A command without a handler leaves the packet as it was.
-/

namespace BpmAcquisition.Server

/-- The address and the number of bytes that `sprintf` and `memcpy` write. -/
def Effect.target : Effect → Option (UInt32 × Nat)
  | .sprintf buf text => some (buf, text.length + 1)
  | .memcpy buf _ => some (buf, 4)
  | _ => none

/-- Nothing is written to memory from `b` to `b'`. -/
def Quiet (b b' : Board) : Prop := ∃ es, b'.log = b.log ++ es ∧ ∀ e ∈ es, e.target = none

def handled (c : CommandPacket) : Bool := (getCommandHandler (CommandType.ofCode c.comm)).isSome

theorem lookups_agree {type : CommandType} {h : CommandHandler} (found : getCommandHandler (some type) = some h) :
    ∃ res low, getResponseHandler (some type) = some res ∧ getLowLevelHandler (some type) = some low := by
  cases type <;> first | exact ⟨_, _, rfl, rfl⟩ | cases found

/-- The answer to a command as a function of the packet that was there before. -/
inductive Answer (type : CommandType) (val : UInt32) (b : Board)
    (answer : ResponsePacket → Bool × ResponsePacket × Board) : Prop
  | text (failed : Bool) (text : String) (b' : Board) (quiet : Quiet b b') (short : text.length < 4096)
    (refused : ∀ ch : Channel, type = ch.getCommand → failed = true)
    (same : ∀ r, answer r = (failed, message text r b'))
  | value (comm value : UInt32) (b' : Board) (quiet : Quiet b b') (other : ∀ ch : Channel, type ≠ ch.getCommand)
    (same : ∀ r, answer r = (false, { r with comm := comm, num := 4 }, b'.effect (.memcpy r.buf value)))
  | samples (ch : Channel) (comm size offset : UInt32) (b' : Board) (get : type = ch.getCommand)
    (bound : val.toNat ≤ ch.maxSamples.toNat) (some : 0 < val.toNat → 0 < size.toNat)
    (limited : size.toNat ≤ ch.limit)
    (same : ∀ r, answer r =
      (false, ⟨comm, size * ch.attr.sampleSize, ch.attr.memStartAddr + offset⟩, b'))

section
variable {drv : Driver} {b b' b'' : Board} {r : ResponsePacket} {ch : Channel} {type : CommandType}
  {val size byteOffset : UInt32} {answer : ResponsePacket → Bool × ResponsePacket × Board}

theorem Quiet.refl (b : Board) : Quiet b b := ⟨[], by simp, by simp⟩

theorem Quiet.effect (b : Board) {e : Effect} (none : e.target = none) : Quiet b (b.effect e) :=
  ⟨[e], rfl, by simpa using none⟩

theorem Quiet.trans (first : Quiet b b') (second : Quiet b' b'') : Quiet b b'' := by
  obtain ⟨es, log, none⟩ := first
  obtain ⟨es', log', none'⟩ := second
  refine ⟨es ++ es', by rw [log', log, List.append_assoc], fun e member => ?_⟩
  rcases List.mem_append.mp member with earlier | later
  · exact none e earlier
  · exact none' e later

theorem captureSamples_quiet (qwCount : UInt32) (ch : Channel) (b : Board) :
    Quiet b (captureSamples drv qwCount ch b).2 := by
  rw [captureSamples_eq]
  refine ⟨captureEffects drv qwCount ch, rfl, ?_⟩
  unfold captureEffects
  split <;> simp [Effect.target]

theorem getSamples_quiet (size byteOffset : UInt32) (ch : Channel) (b : Board) :
    Quiet b (getSamples drv size byteOffset ch b).2.2.2 := by
  have captured : Quiet b (ensureCaptured drv (presetSize (b.handler ch) size) size ch b).2.2 := by
    unfold ensureCaptured
    split
    · split
      · exact captureSamples_quiet size ch b
      · exact Quiet.refl b
    · exact Quiet.refl b
  have delivered : ∀ tmpSize (b' : Board), Quiet b' (deliver drv tmpSize byteOffset ch b').2.2.2 := by
    intro tmpSize b'
    unfold deliver
    simp only
    split
    · exact Quiet.refl b'
    · exact ⟨[], by simp, by simp⟩
  unfold getSamples
  simp only
  split
  · exact captured
  · exact captured.trans (delivered _ _)

theorem readFmc150Register_quiet (cs addr value : UInt32) : Quiet b (readFmc150Register drv cs addr value b).2.1 := by
  unfold readFmc150Register
  split
  · exact ((Quiet.effect b rfl).trans (Quiet.effect _ rfl)).trans (Quiet.effect _ rfl)
  · exact Quiet.refl b

theorem writeFmc150Register_quiet (cs addr value : UInt32) : Quiet b (writeFmc150Register drv cs addr value b).2 :=
  (((Quiet.effect b rfl).trans (Quiet.effect _ rfl)).trans (Quiet.effect _ rfl)).trans (Quiet.effect _ rfl)

/-! ### Texts and samples -/

theorem message_num {text : String} (short : text.length < 4096) :
    (message text r b).1.num.toNat = text.length + 1 := by
  have length : (UInt32.ofNat text.length).toNat = text.length :=
    UInt32.toNat_ofNat_of_lt (Nat.lt_trans short (by decide))
  unfold message
  rw [toNat_add_of_lt (by rw [length]; exact Nat.lt_of_le_of_lt (Nat.succ_le_of_lt short) (by decide)), length]
  rfl

theorem ledValue_short (val : UInt32) : ("Led value: 0x" ++ hex8 val).length < 4096 := by
  have digits : (hex8 val).length = 8 := by
    unfold hex8
    rw [String.length_ofList, List.length_map, List.length_reverse, List.length_range]
  rw [String.length_append, digits]
  decide +kernel

theorem samples_num (limited : size.toNat ≤ ch.limit) :
    (size * ch.attr.sampleSize).toNat = size.toNat * ch.width ∧ size.toNat * ch.width ≤ 4096 := by
  have bytes := Nat.mul_le_mul_right ch.width limited
  rw [ch.limit_bytes] at bytes
  exact ⟨toNat_mul_of_lt (Nat.lt_of_le_of_lt bytes (by decide)), bytes⟩

theorem get_positive {c : CommandPacket} (get : CommandType.ofCode c.comm = some ch.getCommand)
    (asked : 0 < prepareToHandle c) : 0 < c.val.toNat := by
  unfold prepareToHandle at asked
  rw [get] at asked
  cases ch <;> exact val_positive asked

theorem getSamples_progress (passed : ¬ (getSamples drv size byteOffset ch b).1 < 0) :
    (0 < size.toNat → 0 < (getSamples drv size byteOffset ch b).2.1.toNat) ∧
      (getSamples drv size byteOffset ch b).2.1.toNat ≤ ch.limit := by
  have limit := ch.limit_positive
  have taken : ∀ tmpSize (b' : Board),
      (deliver drv tmpSize byteOffset ch b').2.1.toNat = min ch.limit tmpSize.toNat := by
    intro tmpSize b'
    rw [← packetSize_toNat]
    unfold deliver
    simp only
    split <;> rfl
  have preset : 0 < size.toNat →
      0 < (ensureCaptured drv (presetSize (b.handler ch) size) size ch b).2.1.toNat := by
    intro asked
    have nonzero : size ≠ 0 := by
      rintro rfl
      exact absurd asked (by decide)
    generalize presetSize (b.handler ch) size = tmpSize
    unfold ensureCaptured
    split
    case isTrue =>
      simp only
      exact asked
    case isFalse positive =>
      simp only
      refine Nat.pos_of_ne_zero fun none => positive ?_
      rw [asInt_eq (by omega), none]
      decide
  unfold getSamples at passed ⊢
  simp only at passed ⊢
  split at passed
  · exact absurd (by decide : error < 0) passed
  case isFalse captured =>
    rw [if_neg captured, taken]
    exact ⟨fun asked => Nat.lt_min.mpr ⟨limit, preset asked⟩, Nat.min_le_left _ _⟩

theorem report_answer (failed : Bool) {bad good : String} (quiet : Quiet b b') (badShort : bad.length < 4096)
    (goodShort : good.length < 4096) (other : ∀ ch : Channel, type ≠ ch.getCommand)
    (same : ∀ r, answer r = report failed bad good r b') : Answer type val b answer := by
  refine .text failed (if failed then bad else good) b' quiet ?_ (fun ch get => absurd get (other ch)) same
  split
  · exact badShort
  · exact goodShort

theorem handleCapture_answer {attr : CommandAttr} {ops : CommandOps} (channel : ops.captureSamples = channelCapture)
    (short : (invalidValue attr.maxSamples).length < 4096) (other : ∀ ch : Channel, type ≠ ch.getCommand) :
    Answer type val b fun r => handleCapture drv val ⟨attr, ops⟩ (some ch) r b := by
  by_cases above : val > attr.maxSamples
  · refine .text true _ b (Quiet.refl b) short (fun ch get => absurd get (other ch)) fun r => ?_
    unfold handleCapture
    rw [if_pos above]
  · have same : ∀ r, handleCapture drv val ⟨attr, ops⟩ (some ch) r b =
        report (decide ((captureSamples drv val ch b).1 < 0)) "Error acquiring data!"
          "Capture command started successfully!" r (captureSamples drv val ch b).2 := by
      intro r
      unfold handleCapture
      rw [if_neg above, channel]
      rfl
    exact report_answer _ (captureSamples_quiet val ch b) (by decide +kernel) (by decide +kernel) other same

theorem handleRead_answer {c : CommandPacket} {h : CommandHandler} {res : ResponseHandler}
    (quiet : Quiet b (h.commOps.readReg drv c.cs c.addr c.val b).2.1) (other : ∀ ch : Channel, type ≠ ch.getCommand) :
    Answer type val b fun r => handleRead drv c h res r b := by
  by_cases failed : (h.commOps.readReg drv c.cs c.addr c.val b).1 < 0
  · refine .text true "Error reading from register!" _ quiet (by decide +kernel)
      (fun ch get => absurd get (other ch)) fun r => ?_
    unfold handleRead
    simp only
    rw [if_pos failed]
  · refine .value res.newDataId (h.commOps.readReg drv c.cs c.addr c.val b).2.2 _ quiet other fun r => ?_
    unfold handleRead
    simp only
    rw [if_neg failed]

theorem handleWrite_answer {c : CommandPacket} {h : CommandHandler}
    (quiet : Quiet b (h.commOps.writeReg drv c.cs c.addr c.val b).2) (other : ∀ ch : Channel, type ≠ ch.getCommand) :
    Answer type val b fun r => handleWrite drv c h r b :=
  report_answer _ quiet (by decide +kernel) (by decide +kernel) other fun _ => rfl

theorem handleGetSamples_answer (ch : Channel) (get : type = ch.getCommand) :
    Answer type val b fun r =>
      handleGetSamples drv val ch.commandHandler ch.responseHandler (some ch) r b := by
  simp only [handleGetSamples_channel]
  by_cases above : val > ch.maxSamples
  · simp only [if_pos above]
    refine .text true (invalidValue ch.maxSamples) b (Quiet.refl b) ?_ (fun _ _ => rfl) fun _ => rfl
    cases ch <;> decide +kernel
  · have bound := UInt32.le_iff_toNat_le.mp (UInt32.not_lt.mp above)
    have quiet : Quiet b (getSamples drv val ch.responseHandler.byteOffset ch b).2.2.2 := getSamples_quiet _ _ _ _
    simp only [if_neg above]
    by_cases failed : (getSamples drv val ch.responseHandler.byteOffset ch b).1 < 0
    · simp only [if_pos failed]
      exact .text true _ _ quiet (by decide +kernel) (fun _ _ => rfl) fun _ => rfl
    · obtain ⟨some, limited⟩ := getSamples_progress failed
      simp only [if_neg failed]
      exact .samples ch _ _ _ _ get bound some limited fun _ => rfl

theorem handleCommand_other {c : CommandPacket} {h : CommandHandler} {res : ResponseHandler} {low : Option Channel}
    (found : getCommandHandler (some type) = some h) (lowFound : getLowLevelHandler (some type) = some low)
    (other : ∀ ch : Channel, type ≠ ch.getCommand) :
    Answer type c.val b fun r => handleCommand drv type c h res low r b := by
  cases type <;> cases found <;> cases lowFound <;> unfold handleCommand <;> simp only
  case fmc150GetSamples => exact absurd rfl (other .adc)
  case ddcGetSamples => exact absurd rfl (other .ddc)
  case fmc150Capture => exact handleCapture_answer rfl (by decide +kernel) other
  case ddcCapture => exact handleCapture_answer rfl (by decide +kernel) other
  case fmc150Read => exact handleRead_answer (readFmc150Register_quiet _ _ _) other
  case softRegRead => exact handleRead_answer (Quiet.refl b) other
  case fmc150Write => exact handleWrite_answer (writeFmc150Register_quiet _ _ _) other
  case softRegWrite => exact handleWrite_answer (Quiet.effect b rfl) other
  case ledRead => exact report_answer _ (Quiet.refl b) (by decide +kernel) (ledValue_short _) other fun _ => rfl
  case ledWrite =>
    exact report_answer _ (Quiet.effect b rfl) (by decide +kernel) (by decide +kernel) other fun _ => rfl

theorem handleCommand_answer {c : CommandPacket} {h : CommandHandler} {res : ResponseHandler} {low : Option Channel}
    (found : getCommandHandler (some type) = some h) (resFound : getResponseHandler (some type) = some res)
    (lowFound : getLowLevelHandler (some type) = some low) :
    Answer type c.val b fun r => handleCommand drv type c h res low r b := by
  by_cases get : ∃ ch : Channel, type = ch.getCommand
  · obtain ⟨ch, rfl⟩ := get
    cases ch <;> cases found <;> cases resFound <;> cases lowFound
    · exact handleGetSamples_answer .adc rfl
    · exact handleGetSamples_answer .ddc rfl
  · exact handleCommand_other found lowFound fun ch same => get ⟨ch, same⟩

/-- A command with a handler is answered whatever the packet held before. -/
theorem handleRequest_answer (drv : Driver) (b : Board) {c : CommandPacket} (known : handled c = true) :
    ∃ type answer, CommandType.ofCode c.comm = some type ∧ Answer type c.val b answer ∧ ∀ r,
       handleRequest drv c r b =
        let (failed, r, b) := answer { r with comm := messageId }
        (if failed then error else asInt r.num, r, b) := by
  unfold handled at known
  cases code : CommandType.ofCode c.comm with
  | none =>
    rw [code] at known
    cases known
  | some type =>
    rw [code] at known
    obtain ⟨h, found⟩ := Option.isSome_iff_exists.mp known
    obtain ⟨res, low, resFound, lowFound⟩ := lookups_agree found
    refine ⟨type, fun r => handleCommand drv type c h res low r b, rfl,
      handleCommand_answer found resFound lowFound, fun r => ?_⟩
    unfold handleRequest
    simp only [code, found, resFound, lowFound]

theorem handleRequest_unhandled {c : CommandPacket} (unknown : handled c = false) :
    handleRequest drv c r b = (error, r, b) := by
  unfold handled at unknown
  unfold handleRequest
  cases type : CommandType.ofCode c.comm with
  | none => rfl
  | some type' =>
    rw [type, Option.isSome_eq_false_iff, Option.isNone_iff_eq_none] at unknown
    simp only [unknown]

end

end BpmAcquisition.Server
