import BpmAcquisition.Server.Wire

/-!
# Receiving commands

`recvall` asks the network for a packet until it has all of it, `recv_command_packet` unpacks
what it got. What a call of `lwip_recv` returns is up to the network: an error, or at least one
byte and at most what was asked for and is there. At the end of the stream it returns zero.
-/

namespace BpmAcquisition.Server

def commandPacketSize : Nat := 16

structure Socket where
  unread : List UInt8
  calls : Nat

/-- The bytes the network hands out when it has `available` of them and is asked for `len`. -/
def handedOut (wanted : Int) (len available : Nat) : Nat := min (max 1 wanted.toNat) (min len available)

-- `network` is a negative error or the number of bytes the network would like to hand out.
def lwipRecv (network : Nat → Int) (len : Nat) (s : Socket) : Int × List UInt8 × Socket :=
  if network s.calls < 0 then (network s.calls, [], { s with calls := s.calls + 1 })
  else
    let n := handedOut (network s.calls) len s.unread.length
    (n, s.unread.take n, ⟨s.unread.drop n, s.calls + 1⟩)

-- Every round that goes on brings a byte, so `len` rounds suffice.
def recvRounds (network : Nat → Int) (len : Nat) : Nat → List UInt8 → Socket → Int × List UInt8 × Socket
  | 0, recvBuf, s => (recvBuf.length, recvBuf, s)
  | fuel + 1, recvBuf, s =>
    if recvBuf.length < len then
      let (n, bytes, s) := lwipRecv network (len - recvBuf.length) s
      if n < 0 then (error, recvBuf, s)
      else if n = 0 then (0, recvBuf, s)
      else recvRounds network len fuel (recvBuf ++ bytes) s
    else (recvBuf.length, recvBuf, s)

/-- The status, `recv_buf` and the socket. -/
def recvall (network : Nat → Int) (len : Nat) (s : Socket) : Int × List UInt8 × Socket :=
  recvRounds network len len [] s

/-- The result of `recv_command_packet`. At the end of the stream it calls `close`, here a stub
that leaves the socket open. The command keeps its old content unless a packet is unpacked. -/
structure Received where
  status : Int
  command : CommandPacket
  socket : Socket
  closeCalled : Bool

def recvCommandPacket (network : Nat → Int) (command : CommandPacket) (s : Socket) : Received :=
  let (n, recvBuf, s) := recvall network commandPacketSize s
  if n < 0 then ⟨error, command, s, false⟩
  else if n = 0 then ⟨n, command, s, true⟩
  else
    match prepareToReadCommand recvBuf with
    | none => ⟨error, command, s, false⟩
    | some command => ⟨n, command, s, false⟩

def Received.command? (r : Received) : Option CommandPacket := if 0 < r.status then some r.command else none

def successive (network : Nat → Int) : Nat → CommandPacket → Socket → List Received
  | 0, _, _ => []
  | k + 1, command, s =>
    let r := recvCommandPacket network command s
    r :: successive network k r.command r.socket

/-! ### One packet -/

/-- What `recvall` comes to when it still needs `need` bytes. -/
inductive Outcome (network : Nat → Int) (recvBuf : List UInt8) (need : Nat) (s : Socket) :
    Int × List UInt8 × Socket → Prop
  | failed (call : Nat) (failure : network call < 0) (buf : List UInt8) (s' : Socket) :
    Outcome network recvBuf need s (error, buf, s')
  | complete (available : need ≤ s.unread.length) (calls : Nat) :
    Outcome network recvBuf need s
      ((recvBuf.length + need : Nat), recvBuf ++ s.unread.take need, ⟨s.unread.drop need, calls⟩)
  | ended (short : s.unread.length < need) (buf : List UInt8) (calls : Nat) :
    Outcome network recvBuf need s (0, buf, ⟨[], calls⟩)

section
variable {network : Nat → Int} {len need : Nat}

theorem handedOut_le (wanted : Int) (len available : Nat) :
    handedOut wanted len available ≤ len ∧ handedOut wanted len available ≤ available := by
  unfold handedOut
  omega

theorem handedOut_eq_zero (wanted : Int) {len : Nat} (available : Nat) (asked : 0 < len) :
    handedOut wanted len available = 0 ↔ available = 0 := by
  unfold handedOut
  omega

theorem Outcome.full (recvBuf : List UInt8) (s : Socket) : Outcome network recvBuf 0 s (recvBuf.length, recvBuf, s) := by
  have nothing : Outcome network recvBuf 0 s _ := .complete (Nat.zero_le s.unread.length) s.calls
  rw [List.take_zero, List.append_nil, List.drop_zero] at nothing
  exact nothing

theorem Outcome.step {recvBuf : List UInt8} {s : Socket} {n calls : Nat} {r : Int × List UInt8 × Socket}
    (asked : n ≤ need) (available : n ≤ s.unread.length)
    (rest : Outcome network (recvBuf ++ s.unread.take n) (need - n) ⟨s.unread.drop n, calls⟩ r) :
    Outcome network recvBuf need s r := by
  have taken : (s.unread.take n).length = n := List.length_take_of_le available
  have left : (s.unread.drop n).length = s.unread.length - n := List.length_drop
  cases rest with
  | failed call failure buf s' => exact .failed call failure buf s'
  | complete enough calls =>
    have whole : s.unread.take n ++ (s.unread.drop n).take (need - n) = s.unread.take need := by
      rw [← List.take_add, Nat.add_sub_cancel' asked]
    have behind : (s.unread.drop n).drop (need - n) = s.unread.drop need := by
      rw [List.drop_drop, Nat.add_sub_cancel' asked]
    have size : (recvBuf ++ s.unread.take n).length + (need - n) = recvBuf.length + need := by
      rw [List.length_append, taken]
      omega
    simp only at enough
    rw [size, List.append_assoc, whole, behind]
    exact .complete (by omega) calls
  | ended short buf calls =>
    simp only at short
    exact .ended (by omega) buf calls

/-- However the network cuts the stream: unless a call fails, the packet is the next bytes, and
a stream that is too short is read to its end for nothing. -/
theorem recvRounds_outcome {fuel : Nat} {recvBuf : List UInt8} {s : Socket} (split : recvBuf.length + need = len)
    (enough : need ≤ fuel) : Outcome network recvBuf need s (recvRounds network len fuel recvBuf s) := by
  induction fuel generalizing recvBuf s need with
  | zero =>
    have full : need = 0 := by omega
    subst full
    exact Outcome.full recvBuf s
  | succ fuel ih =>
    unfold recvRounds
    rcases Nat.eq_zero_or_pos need with rfl | more
    · have full : ¬ recvBuf.length < len := by omega
      rw [if_neg full]
      exact Outcome.full recvBuf s
    · have wanting : recvBuf.length < len := by omega
      have asked : len - recvBuf.length = need := by omega
      rw [if_pos wanting, asked]
      unfold lwipRecv
      by_cases failure : network s.calls < 0
      · simp only [if_pos failure]
        exact .failed s.calls failure _ _
      · obtain ⟨atMost, available⟩ := handedOut_le (network s.calls) need s.unread.length
        have ended := handedOut_eq_zero (network s.calls) s.unread.length more
        have nonnegative : ¬ ((handedOut (network s.calls) need s.unread.length : Nat) : Int) < 0 := by omega
        simp only [if_neg failure, if_neg nonnegative]
        by_cases empty : s.unread.length = 0
        · have none : ((handedOut (network s.calls) need s.unread.length : Nat) : Int) = 0 := by
            rw [ended.mpr empty]
            rfl
          rw [if_pos none, List.length_eq_zero_iff.mp empty, List.drop_nil]
          exact .ended (by omega) _ _
        · have some : 0 < handedOut (network s.calls) need s.unread.length :=
            Nat.pos_of_ne_zero (mt ended.mp empty)
          have taken : (s.unread.take (handedOut (network s.calls) need s.unread.length)).length =
              handedOut (network s.calls) need s.unread.length := List.length_take_of_le available
          rw [if_neg (by omega)]
          apply Outcome.step atMost available
          apply ih
          · rw [List.length_append, taken]
            omega
          · omega

/-- A call of `recv_command_packet`: the network fails, or the next packet is unpacked, or the
stream is at its end and nothing is. -/
inductive Next (network : Nat → Int) (command : CommandPacket) (s : Socket) : Received → Prop
  | failed (call : Nat) (failure : network call < 0) (s' : Socket) :
    Next network command s ⟨error, command, s', false⟩
  | packet (next : CommandPacket) (enough : commandPacketSize ≤ s.unread.length)
    (unpacked : prepareToReadCommand (s.unread.take commandPacketSize) = some next) (calls : Nat) :
    Next network command s ⟨commandPacketSize, next, ⟨s.unread.drop commandPacketSize, calls⟩, false⟩
  | ended (short : s.unread.length < commandPacketSize) (calls : Nat) :
    Next network command s ⟨0, command, ⟨[], calls⟩, true⟩

theorem prepareToReadCommand_some {bytes : List UInt8} (enough : commandPacketSize ≤ bytes.length) :
    ∃ command, prepareToReadCommand bytes = some command := by
  unfold prepareToReadCommand
  split
  case h_1 => exact ⟨_, rfl⟩
  case h_2 short =>
    match bytes, enough with
    | c₀ :: c₁ :: c₂ :: c₃ :: s₀ :: s₁ :: s₂ :: s₃ :: a₀ :: a₁ :: a₂ :: a₃ :: v₀ :: v₁ :: v₂ :: v₃ :: rest, _ =>
      exact absurd rfl (short c₀ c₁ c₂ c₃ s₀ s₁ s₂ s₃ a₀ a₁ a₂ a₃ v₀ v₁ v₂ v₃ rest)

theorem recvCommandPacket_next (network : Nat → Int) (command : CommandPacket) (s : Socket) :
    Next network command s (recvCommandPacket network command s) := by
  have outcome : Outcome network [] commandPacketSize s (recvall network commandPacketSize s) :=
    recvRounds_outcome (Nat.zero_add _) (Nat.le_refl _)
  unfold recvCommandPacket
  generalize recvall network commandPacketSize s = r at outcome ⊢
  cases outcome with
  | failed call failure buf s' => exact .failed call failure s'
  | complete enough calls =>
    obtain ⟨next, unpacked⟩ := prepareToReadCommand_some (Nat.le_of_eq (List.length_take_of_le enough).symm)
    simp only [List.nil_append, unpacked]
    exact .packet next enough unpacked calls
  | ended short buf calls => exact .ended short calls

end

end BpmAcquisition.Server
