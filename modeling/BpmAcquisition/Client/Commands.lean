import BpmAcquisition.Client.Acquire
import BpmAcquisition.Server.Receive

/-!
# Commands over the network

The command packets of the scripts are four big-endian words. `receive_commands` says for every
list of commands sent back to back, and for every way the network cuts the stream, what
successive calls of `recv_command_packet` return.
-/

namespace BpmAcquisition.Client

open Bytes Server

/-- `typecast(uint32(x), 'uint8')`, copied from its last byte to its first. -/
def packWord (x : UInt32) : List UInt8 := (little 4 x.toNat).reverse

def packCommand (c : CommandPacket) : List UInt8 :=
  packWord c.comm ++ packWord c.cs ++ packWord c.addr ++ packWord c.val

theorem commandPacket_eq (ch : Channel) {n : UInt32} :
    commandPacket ch n.toNat = packCommand ⟨(getSamplesComm ch).toUInt32, 0, 0, n⟩ := by
  have zero : packWord 0 = [0, 0, 0, 0] := by decide
  have adc : packWord 3 = [0, 0, 0, 3] := by decide
  have ddc : packWord 7 = [0, 0, 0, 7] := by decide
  cases ch with
  | adc =>
    show _ = packWord 3 ++ packWord 0 ++ packWord 0 ++ packWord n
    rw [adc, zero]
    rfl
  | ddc =>
    show _ = packWord 7 ++ packWord 0 ++ packWord 0 ++ packWord n
    rw [ddc, zero]
    rfl

@[simp] theorem packWord_length (x : UInt32) : (packWord x).length = 4 := by
  rw [packWord, List.length_reverse, little_length]

@[simp] theorem packCommand_length (c : CommandPacket) : (packCommand c).length = commandPacketSize := by
  simp only [packCommand, List.length_append, packWord_length]
  rfl

theorem unpacku32_packWord (x : UInt32) : unpacku32 (UInt8.ofNat (x.toNat / 256 / 256 / 256))
    (UInt8.ofNat (x.toNat / 256 / 256)) (UInt8.ofNat (x.toNat / 256)) (UInt8.ofNat x.toNat) = x := by
  apply UInt32.toNat_inj.mp
  rw [unpacku32_toNat]
  exact (value_little 4 x.toNat).trans (Nat.mod_eq_of_lt x.toNat_lt)

theorem prepareToReadCommand_packCommand (c : CommandPacket) : prepareToReadCommand (packCommand c) = some c := by
  show some (CommandPacket.mk _ _ _ _) = some c
  simp only [unpacku32_packWord]

theorem take_packCommand (c : CommandPacket) (rest : List UInt8) :
    (packCommand c ++ rest).take commandPacketSize = packCommand c ∧
      (packCommand c ++ rest).drop commandPacketSize = rest :=
  ⟨List.take_left' (packCommand_length c), List.drop_left' (packCommand_length c)⟩

/-! ### Streams of commands -/

section
variable (network : Nat → Int) (old : CommandPacket) (calls : Nat)

/-- At the end of the stream a call returns no command, whatever part of a packet is left. -/
theorem receive_rest {rest : List UInt8} (short : rest.length < commandPacketSize) :
    ∃ r, recvCommandPacket network old ⟨rest, calls⟩ = r ∧ r.command? = none ∧
      ((∀ call, 0 ≤ network call) → r.socket.unread = []) := by
  have next := recvCommandPacket_next network old ⟨rest, calls⟩
  refine ⟨_, rfl, ?_⟩
  generalize recvCommandPacket network old ⟨rest, calls⟩ = r at next ⊢
  cases next with
  | failed call failure s' => exact ⟨rfl, fun steady => absurd (steady call) (Int.not_le.mpr failure)⟩
  | packet next enough unpacked calls =>
    simp only at enough
    omega
  | ended short calls => exact ⟨rfl, fun _ => rfl⟩

theorem receive_command (c : CommandPacket) (rest : List UInt8) :
    (∃ call, network call < 0) ∧ (recvCommandPacket network old ⟨packCommand c ++ rest, calls⟩).command? = none ∨
      ∃ calls', recvCommandPacket network old ⟨packCommand c ++ rest, calls⟩ =
        ⟨commandPacketSize, c, ⟨rest, calls'⟩, false⟩ := by
  have next := recvCommandPacket_next network old ⟨packCommand c ++ rest, calls⟩
  obtain ⟨front, behind⟩ := take_packCommand c rest
  generalize recvCommandPacket network old ⟨packCommand c ++ rest, calls⟩ = r at next ⊢
  cases next with
  | failed call failure s' => exact Or.inl ⟨⟨call, failure⟩, rfl⟩
  | packet next enough unpacked calls =>
    simp only [front, prepareToReadCommand_packCommand, Option.some.injEq] at unpacked
    subst unpacked
    simp only [behind]
    exact Or.inr ⟨calls, rfl⟩
  | ended short calls =>
    simp only [List.length_append, packCommand_length] at short
    omega

end

/-- For every list of commands, every part of a packet behind them and every network: as long
as no call fails, so many successive calls return the commands in order, and nothing from then
on; and up to a call that fails they return the first of the commands. -/
theorem receive_commands (network : Nat → Int) (commands : List CommandPacket) (rest : List UInt8)
    (short : rest.length < commandPacketSize) (old : CommandPacket) (calls k : Nat) :
    let results := (successive network k old ⟨commands.flatMap packCommand ++ rest, calls⟩).map (·.command?)
    ((∀ call, 0 ≤ network call) → results = (commands.take k).map some ++ List.replicate (k - commands.length) none) ∧
      results.takeWhile (·.isSome) <+: commands.map some := by
  induction k generalizing commands rest old calls with
  | zero => exact ⟨fun _ => by simp [successive], List.nil_prefix⟩
  | succ k ih =>
    cases commands with
    | nil =>
      obtain ⟨r, call, none, drained⟩ := receive_rest network old calls short
      rw [List.flatMap_nil, List.nil_append, successive, List.map_cons, call, none]
      refine ⟨fun steady => ?_, ?_⟩
      · have socket : r.socket = ⟨[].flatMap packCommand ++ [], r.socket.calls⟩ := by
          rw [← drained steady]
          rfl
        obtain ⟨later, -⟩ := ih [] [] (by decide) r.command r.socket.calls
        rw [socket, later steady, List.take_nil, List.take_nil, List.map_nil, List.nil_append, List.nil_append,
          List.length_nil, Nat.sub_zero, Nat.sub_zero, List.replicate_succ]
      · rw [List.takeWhile_cons_of_neg (by decide)]
        exact List.nil_prefix
    | cons c commands =>
      rw [List.flatMap_cons, List.append_assoc, successive, List.map_cons]
      rcases receive_command network old calls c
        (commands.flatMap packCommand ++ rest) with ⟨⟨call, failure⟩, none⟩ | ⟨calls', received⟩
      · rw [none]
        refine ⟨fun steady => absurd (steady call) (Int.not_le.mpr failure), ?_⟩
        rw [List.takeWhile_cons_of_neg (by decide)]
        exact List.nil_prefix
      · obtain ⟨later, first⟩ := ih commands rest short c calls'
        have command : (Received.mk commandPacketSize c ⟨commands.flatMap packCommand ++ rest, calls'⟩ false).command? =
            some c := rfl
        rw [received, command]
        refine ⟨fun steady => ?_, ?_⟩
        · rw [later steady, List.take_succ_cons, List.map_cons, List.cons_append, List.length_cons, Nat.add_sub_add_right]
        · rw [List.takeWhile_cons_of_pos rfl, List.map_cons]
          exact (List.prefix_cons_inj _).mpr first

/-- Two commands and the beginning of a third, in pieces of five bytes and the one that is left
of each packet. -/
theorem receive_commands_in_pieces :
    (successive (fun _ => 5) 3 ⟨0, 0, 0, 0⟩
        ⟨[⟨2, 0, 0, 1⟩, ⟨3, 0, 0, 2⟩].flatMap packCommand ++ [0, 0, 0], 0⟩).map (·.command?) =
      [some ⟨2, 0, 0, 1⟩, some ⟨3, 0, 0, 2⟩, none] :=
  (receive_commands (fun _ => 5) [⟨2, 0, 0, 1⟩, ⟨3, 0, 0, 2⟩] [0, 0, 0] (by decide) ⟨0, 0, 0, 0⟩ 0 3).1
    fun _ => by decide

end BpmAcquisition.Client
