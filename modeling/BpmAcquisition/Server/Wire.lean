import BpmAcquisition.Server.Request

/-!
# Responses on the wire

`pack.c` and `connection_server.c`: the packet of a response is an eight-byte header and a
payload that is copied from memory for data and packed as a string for text; `sendall` hands
the packet to the network in the pieces it accepts.
-/

namespace BpmAcquisition.Server

abbrev Memory := UInt32 → UInt8

def packi16 (i : UInt32) : List UInt8 := [(i >>> 8).toUInt8, i.toUInt8]

def packi32 (i : UInt32) : List UInt8 :=
  [(i >>> 24).toUInt8, (i >>> 16).toUInt8, (i >>> 8).toUInt8, i.toUInt8]

def unpacku32 (b₀ b₁ b₂ b₃ : UInt8) : UInt32 :=
  (b₀.toUInt32 <<< 24) ||| (b₁.toUInt32 <<< 16) ||| (b₂.toUInt32 <<< 8) ||| b₃.toUInt32

/-- `unpack` with the format `LLLL`; fewer than 16 bytes are an error. -/
def prepareToReadCommand : List UInt8 → Option CommandPacket
  | c₀ :: c₁ :: c₂ :: c₃ :: s₀ :: s₁ :: s₂ :: s₃ :: a₀ :: a₁ :: a₂ :: a₃ :: v₀ :: v₁ :: v₂ :: v₃ :: _ =>
    some ⟨unpacku32 c₀ c₁ c₂ c₃, unpacku32 s₀ s₁ s₂ s₃, unpacku32 a₀ a₁ a₂ a₃, unpacku32 v₀ v₁ v₂ v₃⟩
  | _ => none

def memcpy (memory : Memory) (p : UInt32) (n : Nat) : List UInt8 :=
  (List.range n).map fun j => memory (p + UInt32.ofNat j)

theorem memcpy_slice (memory : Memory) (p : UInt32) {a k n : Nat} (within : a + k ≤ n) :
    memcpy memory (p + UInt32.ofNat a) k = ((memcpy memory p n).drop a).take k := by
  apply List.ext_getElem
  · simp only [memcpy, List.length_map, List.length_range, List.length_take, List.length_drop]
    omega
  · intro j _ _
    simp only [memcpy, List.getElem_map, List.getElem_range, List.getElem_take, List.getElem_drop,
      UInt32.ofNat_add, UInt32.add_assoc]

/-- The bytes before the first zero, within the address space. -/
def cString (memory : Memory) : Nat → UInt32 → List UInt8
  | 0, _ => []
  | k + 1, p => if memory p = 0 then [] else memory p :: cString memory k (p + 1)

def addressSpace : Nat := 2 ^ 32

/-- `pack` with a format of digits and `s`: the digits select nothing. -/
def packString (memory : Memory) (s : UInt32) : List UInt8 :=
  packi16 (UInt32.ofNat (cString memory addressSpace s).length) ++ cString memory addressSpace s

/-- The response types whose payload is copied; all others are packed as text. -/
def isData (comm : UInt32) : Bool :=
  comm = fmc150RegValue || comm = fmc150NewData || comm = fmc150RemainingData || comm = ddcNewData ||
    comm = ddcRemainingData || comm = softRegNewData || comm = softRegRemainingData

def prepareToWriteResponse (memory : Memory) (len : Int) (r : ResponsePacket) : Option (List UInt8) :=
  if len ≤ 8 then none
  else
    let payload := if isData r.comm then memcpy memory r.buf r.num.toNat else packString memory r.buf
    some (packi32 r.comm ++ packi32 r.num ++ payload)

/-- The status of `sendall` and the bytes the network accepted. -/
structure Sent where
  status : Int
  wire : List UInt8

-- Every round that goes on takes a byte, so `left.length` rounds suffice.
def sendRounds (lwipSend : Nat → Int) : Nat → Nat → Nat → List UInt8 → Sent
  | 0, _, bytesSent, _ => ⟨bytesSent, []⟩
  | fuel + 1, round, bytesSent, left =>
    if left = [] then ⟨bytesSent, []⟩
    else
      let n := lwipSend round
      if n < 0 then ⟨error, []⟩
      else if n = 0 then ⟨0, []⟩
      else
        let rest := sendRounds lwipSend fuel (round + 1) (bytesSent + n.toNat) (left.drop n.toNat)
        ⟨rest.status, left.take n.toNat ++ rest.wire⟩

def sendall (lwipSend : Nat → Int) (bytes : List UInt8) : Sent :=
  sendRounds lwipSend bytes.length 0 0 bytes

def sendResponsePacket (memory : Memory) (lwipSend : Nat → Int) (r : ResponsePacket) : Sent :=
  match prepareToWriteResponse memory (asInt (r.num + responsePacketHeaderSize)) r with
  | none => ⟨error, []⟩
  | some bytes => sendall lwipSend bytes

/-! ### Sends that go through -/

def Accepts (lwipSend : Nat → Int) : Prop := ∀ round, 0 < lwipSend round

theorem sendRounds_accepts {lwipSend : Nat → Int} (accepts : Accepts lwipSend) (fuel : Nat) :
    ∀ (round bytesSent : Nat) (left : List UInt8), left.length ≤ fuel →
      (sendRounds lwipSend fuel round bytesSent left).wire = left ∧
        (bytesSent : Int) ≤ (sendRounds lwipSend fuel round bytesSent left).status ∧
        (left ≠ [] → 0 < (sendRounds lwipSend fuel round bytesSent left).status) := by
  induction fuel with
  | zero =>
    intro round bytesSent left short
    have nothing : left = [] := List.length_eq_zero_iff.mp (by omega)
    subst nothing
    exact ⟨rfl, Int.le_refl _, fun more => absurd rfl more⟩
  | succ fuel ih =>
    intro round bytesSent left short
    unfold sendRounds
    by_cases done : left = []
    · subst done
      exact ⟨rfl, Int.le_refl _, fun more => absurd rfl more⟩
    · have taken := accepts round
      have some : 0 < left.length := List.length_pos_iff.mpr done
      obtain ⟨wire, status, -⟩ := ih (round + 1) (bytesSent + (lwipSend round).toNat)
        (left.drop (lwipSend round).toNat) (by rw [List.length_drop]; omega)
      rw [if_neg done, if_neg (by omega), if_neg (by omega)]
      refine ⟨?_, ?_, fun _ => ?_⟩
      · show List.take _ left ++ _ = left
        rw [wire, List.take_append_drop]
      · show (bytesSent : Int) ≤ (sendRounds lwipSend fuel (round + 1) _ _).status
        omega
      · show 0 < (sendRounds lwipSend fuel (round + 1) _ _).status
        omega

theorem sendall_accepts {lwipSend : Nat → Int} (accepts : Accepts lwipSend) {bytes : List UInt8}
    (some : bytes ≠ []) :
    (sendall lwipSend bytes).wire = bytes ∧ 0 < (sendall lwipSend bytes).status := by
  obtain ⟨wire, -, status⟩ :=
    sendRounds_accepts accepts bytes.length 0 0 bytes (Nat.le_refl _)
  exact ⟨wire, status some⟩

/-- Nothing is sent exactly if the network does not take a first piece. -/
theorem sendall_nothing (lwipSend : Nat → Int) {bytes : List UInt8} (some : bytes ≠ []) :
    (sendall lwipSend bytes).wire = [] ↔ lwipSend 0 ≤ 0 := by
  obtain ⟨byte, rest, rfl⟩ := List.exists_cons_of_ne_nil some
  unfold sendall
  simp only [List.length_cons, sendRounds, if_neg some]
  rcases Int.lt_trichotomy (lwipSend 0) 0 with below | none | above
  · rw [if_pos below]
    exact iff_of_true rfl (by omega)
  · rw [if_neg (by omega), if_pos none]
    exact iff_of_true rfl (by omega)
  · have one : (lwipSend 0).toNat = (lwipSend 0).toNat - 1 + 1 := by omega
    rw [if_neg (by omega), if_neg (by omega), one, List.take_succ_cons]
    exact iff_of_false (List.cons_ne_nil _ _) (by omega)

/-- The lengths `prepare_to_write_response` does not refuse. -/
def Sendable (r : ResponsePacket) : Prop := 8 < asInt (r.num + responsePacketHeaderSize)

instance (r : ResponsePacket) : Decidable (Sendable r) := inferInstanceAs (Decidable (_ < _))

theorem sendable_of_bound {r : ResponsePacket} (some : 0 < r.num.toNat) (bound : r.num.toNat + 8 < 2 ^ 31) :
    Sendable r := by
  have sum : (r.num + responsePacketHeaderSize).toNat = r.num.toNat + 8 := by
    rw [UInt32.toNat_add]
    exact Nat.mod_eq_of_lt (by show r.num.toNat + 8 < 2 ^ 32; omega)
  have small : asInt (r.num + responsePacketHeaderSize) = (r.num + responsePacketHeaderSize).toNat :=
    BitVec.toInt_eq_toNat_of_lt (by rw [UInt32.toNat_toBitVec, sum]; omega)
  unfold Sendable
  omega

/-- The bytes of a response that can be sent. -/
def wireBytes (memory : Memory) (r : ResponsePacket) : List UInt8 :=
  packi32 r.comm ++ packi32 r.num ++
    if isData r.comm then memcpy memory r.buf r.num.toNat else packString memory r.buf

theorem wireBytes_some (memory : Memory) (r : ResponsePacket) : wireBytes memory r ≠ [] := by
  unfold wireBytes packi32
  exact List.cons_ne_nil _ _

theorem sendResponsePacket_sendable (memory : Memory) (lwipSend : Nat → Int) {r : ResponsePacket}
    (sendable : Sendable r) : sendResponsePacket memory lwipSend r = sendall lwipSend (wireBytes memory r) := by
  have fits : ¬ asInt (r.num + responsePacketHeaderSize) ≤ 8 := by
    unfold Sendable at sendable
    omega
  unfold sendResponsePacket prepareToWriteResponse
  rw [if_neg fits]
  rfl

theorem sendResponsePacket_accepts {lwipSend : Nat → Int} (accepts : Accepts lwipSend) (memory : Memory)
    {r : ResponsePacket} (sendable : Sendable r) :
    (sendResponsePacket memory lwipSend r).wire = wireBytes memory r ∧
      0 < (sendResponsePacket memory lwipSend r).status := by
  rw [sendResponsePacket_sendable memory lwipSend sendable]
  exact sendall_accepts accepts (wireBytes_some memory r)

theorem sendResponsePacket_refused (memory : Memory) (lwipSend : Nat → Int) {r : ResponsePacket}
    (refused : ¬ Sendable r) : sendResponsePacket memory lwipSend r = ⟨error, []⟩ := by
  have short : asInt (r.num + responsePacketHeaderSize) ≤ 8 := by
    unfold Sendable at refused
    omega
  unfold sendResponsePacket prepareToWriteResponse
  rw [if_pos short]

end BpmAcquisition.Server
