import BpmAcquisition.Server.Answers

/-!
# What a call of `handle_request` assigns

A command without a handler leaves the packet as it was, and the response loop sends it all the
same: `response_assigned_exact` says for every run which rounds send nothing but what they have
assigned themselves.
-/

namespace BpmAcquisition.Server

open Machine

/-- The call assigns both fields, so that neither depends on what the packet held, and the
payload: it sets the pointer, or it writes the `num` bytes at it. -/
structure Assigned (drv : Driver) (c : CommandPacket) (r : ResponsePacket) (b : Board) : Prop where
  comm : ∀ r', (handleRequest drv c r' b).2.1.comm = (handleRequest drv c r b).2.1.comm
  num : ∀ r', (handleRequest drv c r' b).2.1.num = (handleRequest drv c r b).2.1.num
  payload : (∀ r', (handleRequest drv c r' b).2.1.buf = (handleRequest drv c r b).2.1.buf) ∨
    ∃ e ∈ (handleRequest drv c r b).2.2.log.drop b.log.length,
      e.target = some ((handleRequest drv c r b).2.1.buf, (handleRequest drv c r b).2.1.num.toNat)

/-- Of a round of the connection nothing reaches the network that the round has not assigned. -/
def SendsAssigned (c : Nat) (s : Application) : Event → Prop
  | .respond d env => d = c → (s.connection c).phase = .responding →
      ((s.connection c).send env s.board).wire ≠ [] →
        Assigned env.driver (s.connection c).command (s.connection c).response s.board
  | _ => True

/-- A round is for a command with a handler; or the old response cannot be sent again, or the
network takes nothing of it. -/
def HandledOrUnsent (c : Nat) (s : Application) : Event → Prop
  | .respond d env => d = c → (s.connection c).phase = .responding →
      handled (s.connection c).command = true ∨ ¬ Sendable (s.connection c).response ∨ env.lwipSend 0 ≤ 0
  | _ => True

section
variable {drv : Driver} {c : CommandPacket} {r : ResponsePacket} {b : Board}

theorem last_effect {b' : Board} {e : Effect} (quiet : Quiet b b') : e ∈ (b'.effect e).log.drop b.log.length := by
  obtain ⟨es, log, -⟩ := quiet
  rw [Board.log_effect, log, List.append_assoc, List.drop_left]
  exact List.mem_append_right es List.mem_cons_self

theorem handled_assigned (known : handled c = true) : Assigned drv c r b := by
  obtain ⟨type, answer, -, form, request⟩ := handleRequest_answer drv b known
  cases form with
  | text failed text b' quiet short _ same =>
    simp only [same] at request
    refine ⟨fun r' => ?_, fun r' => ?_, Or.inr ⟨.sprintf r.buf text, ?_, ?_⟩⟩
    · rw [request, request]
      rfl
    · rw [request, request]
      rfl
    · rw [request]
      exact last_effect quiet
    · rw [request]
      show some (r.buf, text.length + 1) = some (r.buf, _)
      rw [message_num short]
  | value comm value b' quiet _ same =>
    simp only [same] at request
    refine ⟨fun r' => ?_, fun r' => ?_, Or.inr ⟨.memcpy r.buf value, ?_, ?_⟩⟩
    · rw [request, request]
    · rw [request, request]
    · rw [request]
      exact last_effect quiet
    · rw [request]
      rfl
  | samples _ _ _ _ _ _ _ _ _ same =>
    simp only [same] at request
    exact ⟨fun r' => by rw [request, request], fun r' => by rw [request, request],
      Or.inl fun r' => by rw [request, request]⟩

theorem unhandled_left (unknown : handled c = false) : ¬ Assigned drv c r b := by
  intro assigned
  have other := assigned.comm ⟨r.comm + 1, 0, 0⟩
  rw [handleRequest_unhandled unknown, handleRequest_unhandled unknown] at other
  have same : r.comm + 1 = r.comm := other
  have one : (1 : UInt32) = 0 := by
    rw [← UInt32.add_right_inj r.comm, same, UInt32.add_zero]
  exact absurd one (by decide)

/-- Something of a packet is sent exactly if its length is not refused and the network takes a
first piece. -/
theorem sendResponsePacket_wire (memory : Memory) (lwipSend : Nat → Int) (r : ResponsePacket) :
    (sendResponsePacket memory lwipSend r).wire = [] ↔ ¬ Sendable r ∨ lwipSend 0 ≤ 0 := by
  by_cases sendable : Sendable r
  · rw [sendResponsePacket_sendable memory lwipSend sendable, sendall_nothing lwipSend (wireBytes_some memory r),
      or_iff_right (not_not_intro sendable)]
  · rw [sendResponsePacket_refused memory lwipSend sendable]
    exact iff_of_true rfl (Or.inl sendable)

theorem sendsAssigned_handled (c : Nat) (s : Application) (e : Event) : SendsAssigned c s e ↔ HandledOrUnsent c s e := by
  cases e with
  | receive => exact Iff.rfl
  | hangUp => exact Iff.rfl
  | respond d env =>
    apply imp_congr_right
    intro
    apply imp_congr_right
    intro
    cases known : handled (s.connection c).command with
    | true => exact iff_of_true (fun _ => handled_assigned known) (Or.inl rfl)
    | false =>
      have same : ((s.connection c).handle env s.board).2.1 = (s.connection c).response := by
        unfold Connection.handle
        rw [handleRequest_unhandled known]
      have wire := sendResponsePacket_wire env.memory env.lwipSend (s.connection c).response
      unfold Connection.send
      rw [same]
      simp only [unhandled_left known, ne_eq, wire, imp_false, not_not, Bool.false_eq_true, false_or]

end

/-- For every run of the server, with any commands, driver results and networks, whatever the
packets hold at first, and every connection: its rounds send no field and no payload that they
have not assigned exactly if every round is for a command with a handler, or has nothing to send. -/
theorem response_assigned_exact (command : Nat → CommandPacket) (response : Nat → ResponsePacket) (es : List Event)
    (c : Nat) :
    Along serve (SendsAssigned c) (Application.boot command response) es ↔
      Along serve (HandledOrUnsent c) (Application.boot command response) es :=
  along_congr (sendsAssigned_handled c) es

/-- A write to the LEDs, and then `QUIT`. -/
def quitAfterLed : List Event :=
  [.receive 0 ⟨13, 0, 0, 0⟩, .respond 0 workingEnv, .receive 0 ⟨16, 0, 0, 0⟩, .respond 0 workingEnv]

/-- The answer to `QUIT` is the packet of the command before. -/
theorem quit_sends_earlier_response :
    (trace serve replies freshServer quitAfterLed).map (·.packet) = [⟨messageId, 26, 0⟩, ⟨messageId, 26, 0⟩] ∧
      ¬ Along serve (SendsAssigned 0) freshServer quitAfterLed := by
  refine ⟨by decide +kernel, fun along => ?_⟩
  have assigned := along.2.2.2.1 rfl (by decide +kernel) (by decide +kernel)
  exact unhandled_left (by decide +kernel) assigned

end BpmAcquisition.Server
