import BpmAcquisition.Library.Bytes
import BpmAcquisition.Library.Frames
import BpmAcquisition.Server.Wire

/-!
# How the scripts read responses

The receive loop of the Matlab scripts takes a header of eight bytes from the socket and then
as many payload bytes as it names. `framing_exact` says for every sequence of responses when
this reads back what was passed to `send_response_packet`.
-/

namespace BpmAcquisition.Client

open Bytes Server

structure Frame where
  msgType : UInt32
  validBytes : UInt32
  payload : List UInt8
  length : payload.length = validBytes.toNat
deriving DecidableEq

/-- The four bytes of a header word are reversed and cast to `uint32`. -/
def headerWord (bytes : List UInt8) : UInt32 := UInt32.ofNat (value bytes.reverse)

-- The scripts wait until the bytes are available; a stream that ends before gives no packet.
def readPacket (stream : List UInt8) : Option (Frame × List UInt8) :=
  if stream.length < 8 then none
  else
    let msgType := headerWord (stream.take 4)
    let validBytes := headerWord ((stream.drop 4).take 4)
    let rest := stream.drop 8
    if available : validBytes.toNat ≤ rest.length then
      some (⟨msgType, validBytes, rest.take validBytes.toNat, List.length_take_of_le available⟩,
        rest.drop validBytes.toNat)
    else none

def writePacket (f : Frame) : List UInt8 := packi32 f.msgType ++ packi32 f.validBytes ++ f.payload

/-! ### Header words -/

@[simp] theorem packi32_length (i : UInt32) : (packi32 i).length = 4 := rfl

theorem packi32_eq (i : UInt32) : packi32 i = (little 4 i.toNat).reverse := by
  simp only [packi32, little, List.reverse_cons, List.reverse_nil, List.nil_append, List.cons_append,
    List.cons.injEq, and_true]
  refine ⟨?_, ?_, ?_, ?_⟩ <;> apply UInt8.toNat_inj.mp <;>
    simp [UInt32.toNat_shiftRight, Nat.shiftRight_eq_div_pow, Nat.div_div_eq_div_mul]

theorem headerWord_packi32 (i : UInt32) : headerWord (packi32 i) = i := by
  have small : i.toNat % 256 ^ 4 = i.toNat := Nat.mod_eq_of_lt i.toNat_lt
  rw [headerWord, packi32_eq, List.reverse_reverse, value_little, small, UInt32.ofNat_toNat]

theorem packi32_headerWord {bytes : List UInt8} (word : bytes.length = 4) : packi32 (headerWord bytes) = bytes := by
  have small := value_lt bytes.reverse
  have whole := little_value bytes.reverse
  rw [List.length_reverse, word] at small whole
  have same : (UInt32.ofNat (value bytes.reverse)).toNat = value bytes.reverse :=
    UInt32.toNat_ofNat_of_lt (Nat.lt_of_lt_of_le small (by decide))
  rw [packi32_eq, headerWord, same, whole, List.reverse_reverse]

theorem writePacket_length (f : Frame) : (writePacket f).length = 8 + f.validBytes.toNat := by
  simp only [writePacket, List.length_append, packi32_length, f.length]

theorem readPacket_writePacket (f : Frame) (rest : List UInt8) :
    readPacket (writePacket f ++ rest) = some (f, rest) := by
  have enough : ¬ (writePacket f ++ rest).length < 8 := by
    rw [List.length_append, writePacket_length]
    omega
  have stream : writePacket f ++ rest = packi32 f.msgType ++ (packi32 f.validBytes ++ (f.payload ++ rest)) := by
    simp only [writePacket, List.append_assoc]
  have header : (writePacket f ++ rest).drop 8 = f.payload ++ rest := by
    rw [stream]
    rfl
  have type : headerWord ((writePacket f ++ rest).take 4) = f.msgType := by
    rw [stream, List.take_left' (packi32_length _), headerWord_packi32]
  have num : headerWord (((writePacket f ++ rest).drop 4).take 4) = f.validBytes := by
    rw [stream, List.drop_left' (packi32_length _), List.take_left' (packi32_length _), headerWord_packi32]
  have available : f.payload.length ≤ (f.payload ++ rest).length := by
    rw [List.length_append]
    omega
  unfold readPacket
  rw [if_neg enough]
  simp only [header, type, num, ← f.length, List.take_left, List.drop_left]
  exact dif_pos available

theorem readPacket_sound (stream rest : List UInt8) (f : Frame) (h : readPacket stream = some (f, rest)) :
    stream = writePacket f ++ rest := by
  unfold readPacket at h
  split at h
  case isTrue => cases h
  case isFalse enough =>
    simp only at h
    split at h
    case isFalse => cases h
    case isTrue available =>
      cases h
      have first : (stream.take 4).length = 4 := by rw [List.length_take]; omega
      have second : ((stream.drop 4).take 4).length = 4 := by
        rw [List.length_take, List.length_drop]
        omega
      have header : stream.drop 8 = (stream.drop 4).drop 4 := by rw [List.drop_drop]
      simp only [writePacket, packi32_headerWord first, packi32_headerWord second, List.append_assoc,
        List.take_append_drop]
      rw [header, List.take_append_drop, List.take_append_drop]

def packets : Codec Frame UInt8 where
  encode := writePacket
  decode := readPacket
  decode_encode := readPacket_writePacket
  decode_sound := fun stream f rest => readPacket_sound stream rest f
  encode_some f := List.ne_nil_of_length_pos (by rw [writePacket_length]; omega)

/-! ### Responses over a connection -/

structure Sending where
  packet : ResponsePacket
  memory : Memory
  lwipSend : Nat → Int

namespace Sending

def frame (s : Sending) : Frame where
  msgType := s.packet.comm
  validBytes := s.packet.num
  payload := memcpy s.memory s.packet.buf s.packet.num.toNat
  length := by simp [memcpy]

def wire (s : Sending) : List UInt8 := (sendResponsePacket s.memory s.lwipSend s.packet).wire

/-- Data of at most a packet, or a text that `sprintf` has put into the buffer. -/
structure WellFormed (s : Sending) : Prop where
  data : isData s.packet.comm = true → 1 ≤ s.packet.num.toNat ∧ s.packet.num.toNat ≤ 4096
  text : isData s.packet.comm = false →
    s.packet.num.toNat = (cString s.memory addressSpace s.packet.buf).length + 1 ∧
      s.packet.num.toNat + 8 < 2 ^ 31
  network : Accepts s.lwipSend

theorem WellFormed.sent {s : Sending} (h : s.WellFormed) : s.wire = wireBytes s.memory s.packet := by
  have sendable : Sendable s.packet := by
    cases data : isData s.packet.comm with
    | true =>
      obtain ⟨some, bound⟩ := h.data data
      exact sendable_of_bound some (by omega)
    | false =>
      obtain ⟨text, bound⟩ := h.text data
      exact sendable_of_bound (by omega) bound
  exact (sendResponsePacket_accepts h.network s.memory sendable).1

theorem wire_data {s : Sending} (h : s.WellFormed) (data : isData s.packet.comm = true) :
    s.wire = writePacket s.frame := by
  rw [h.sent, wireBytes, if_pos data]
  rfl

/-- A text is sent with its length in front and without the final zero: one byte more than `num`. -/
theorem wire_text_length {s : Sending} (h : s.WellFormed) (text : isData s.packet.comm = false) :
    s.wire.length = (writePacket s.frame).length + 1 := by
  have num := (h.text text).1
  rw [h.sent, writePacket_length, wireBytes, text]
  simp only [Bool.false_eq_true, if_false, List.length_append, packi32_length, packString, packi16,
    List.length_cons, List.length_nil]
  show _ = 8 + s.packet.num.toNat + 1
  omega

end Sending

def stream (ss : List Sending) : List UInt8 := ss.flatMap Sending.wire

theorem stream_length {ss : List Sending} (wf : ∀ s ∈ ss, s.WellFormed) :
    (stream ss).length =
      ((ss.map Sending.frame).flatMap writePacket).length + ss.countP fun s => !isData s.packet.comm := by
  induction ss with
  | nil => rfl
  | cons s rest ih =>
    have others := ih fun s' member => wf s' (List.mem_cons_of_mem s member)
    have first := wf s List.mem_cons_self
    unfold stream at others ⊢
    rw [List.flatMap_cons, List.length_append, others, List.map_cons, List.flatMap_cons, List.length_append,
      List.countP_cons]
    cases data : isData s.packet.comm with
    | true =>
      rw [Sending.wire_data first data]
      simp only [Bool.not_true, Bool.false_eq_true, if_false]
      omega
    | false =>
      rw [Sending.wire_text_length first data]
      simp only [Bool.not_false, if_true]
      omega

/-- For every sequence of responses on a connection: the reader recovers it and leaves no byte
over exactly if it has no text response. -/
theorem framing_exact (ss : List Sending) (wf : ∀ s ∈ ss, s.WellFormed) :
    packets.read (stream ss) = some (ss.map Sending.frame) ↔ ∀ s ∈ ss, isData s.packet.comm = true := by
  rw [Codec.read_iff]
  constructor
  · intro same
    have lengths := stream_length wf
    rw [same] at lengths
    have none : ss.countP (fun s => !isData s.packet.comm) = 0 := Nat.left_eq_add.mp lengths
    intro s member
    simpa using List.countP_eq_zero.mp none s member
  · intro data
    unfold stream
    rw [List.flatMap_map]
    induction ss with
    | nil => rfl
    | cons s rest ih =>
      have others := ih (fun s' member => wf s' (List.mem_cons_of_mem s member))
        fun s' member => data s' (List.mem_cons_of_mem s member)
      rw [List.flatMap_cons, List.flatMap_cons, others,
        Sending.wire_data (wf s List.mem_cons_self) (data s List.mem_cons_self)]
      rfl

def writeOk : Sending where
  packet := ⟨messageId, 22, 0⟩
  memory p := ("Write to register ok!".toList.map fun c => UInt8.ofNat c.toNat).getD p.toNat 0
  lwipSend _ := 4104

theorem writeOk_wellFormed : writeOk.WellFormed where
  data := fun data => Bool.noConfusion data
  text := fun _ => by decide +kernel
  network := fun _ => (by decide : (0 : Int) < 4104)

/-- The reader takes the two length bytes for text and leaves the exclamation mark. -/
theorem text_response_leaves_byte :
    writeOk.WellFormed ∧
      readPacket writeOk.wire = some
        (⟨messageId, 22, 0 :: 21 :: "Write to register ok".toList.map fun c => UInt8.ofNat c.toNat, by decide⟩,
          [33]) ∧
      packets.read (stream [writeOk]) = none :=
  ⟨writeOk_wellFormed, by decide +kernel⟩

theorem framing_exact_write_ok :
    packets.read (stream [writeOk]) = some ([writeOk].map Sending.frame) ↔
      ∀ s ∈ [writeOk], isData s.packet.comm = true :=
  framing_exact [writeOk] (by simp [writeOk_wellFormed])

end BpmAcquisition.Client
