import BpmAcquisition.Server.Answers

/-!
# Every command is answered

A thread that is back at its receive without having sent anything for the last command has
left that command without an answer. `answered_exact` says for every run of the server which
commands and rounds let this happen on a connection.
-/

namespace BpmAcquisition.Server

open Machine

/-! ### Responses that can be sent -/

section
variable {drv : Driver} {b : Board} {r : ResponsePacket}

theorem message_sendable {text : String} (short : text.length < 4096) : Sendable (message text r b).1 := by
  have num : (message text r b).1.num.toNat = text.length + 1 := message_num short
  exact sendable_of_bound (by omega) (by omega)

theorem handleRequest_sendable {c : CommandPacket} (asked : 0 < prepareToHandle c) (known : handled c = true) :
    Sendable (handleRequest drv c r b).2.1 := by
  obtain ⟨type, answer, code, form, request⟩ := handleRequest_answer drv b known
  cases form with
  | text failed text b' quiet short refused same =>
    rw [request, same]
    exact message_sendable short
  | value comm value b' quiet other same =>
    rw [request, same]
    exact sendable_of_bound (by decide : 0 < (4 : UInt32).toNat) (by decide : (4 : UInt32).toNat + 8 < 2 ^ 31)
  | samples ch comm size offset b' get bound some limited same =>
    have positive := Nat.mul_pos (some (get_positive (by rw [code, get]) asked)) ch.width_positive
    obtain ⟨num, bytes⟩ := samples_num limited
    rw [← num] at positive bytes
    rw [request, same]
    exact sendable_of_bound positive (Nat.lt_of_le_of_lt (Nat.add_le_add_right bytes 8) (by decide))

end

/-! ### Commands without an answer -/

/-- A server and, as ghost history of one connection, whether the last command that was read
on it has had no response yet. -/
structure Watched where
  server : Application
  unanswered : Bool

def watch (c : Nat) (w : Watched) (e : Event) : Watched where
  server := serve w.server e
  unanswered :=
    match e with
    | .receive d _ => if d = c ∧ (w.server.connection c).phase = .receiving then true else w.unanswered
    | .respond d _ => if d = c ∧ replies w.server e ≠ [] then false else w.unanswered
    | .hangUp _ => w.unanswered

/-- A thread that waits for its next command has answered the last one. -/
def NothingOwed (c : Nat) (w : Watched) : Prop :=
  (w.server.connection c).phase = .receiving → w.unanswered = false

/-- A command is read with a clear error flag and asks for something; the first round for it
has a handler, or an old response that can be sent again, and the network takes it. -/
def Answerable (c : Nat) (w : Watched) : Event → Prop
  | .receive d command => d = c → (w.server.connection c).phase = .receiving →
      (w.server.connection c).error = false ∧ 0 < prepareToHandle command
  | .respond d env => d = c → (w.server.connection c).phase = .responding → w.unanswered = true →
      Accepts env.lwipSend ∧
        (handled (w.server.connection c).command = true ∨ Sendable (w.server.connection c).response)
  | .hangUp _ => True

def Event.Accepted : Event → Prop
  | .respond _ env => Accepts env.lwipSend
  | _ => True

section
variable {c : Nat} {w : Watched}

theorem respond_phase (k : Connection) (env : Env) (b : Board) (refused : (k.send env b).status < 0) :
    (k.respond env b).1.phase = .receiving := by
  unfold Connection.respond
  simp only [if_pos refused]

/-- The response of a round can be sent exactly if the command has a handler or the response
that was there before can be sent. -/
theorem round_sendable {k : Connection} (env : Env) (b : Board) (asked : 0 < prepareToHandle k.command) :
    Sendable (k.handle env b).2.1 ↔ handled k.command = true ∨ Sendable k.response := by
  unfold Connection.handle
  cases known : handled k.command with
  | true => simp [handleRequest_sendable asked known]
  | false => simp [handleRequest_unhandled known]

theorem watch_other {e : Event} (other : e.connection ≠ c) (owed : NothingOwed c w) :
    NothingOwed c (watch c w e) := by
  have same := serve_other w.server other
  unfold NothingOwed at owed ⊢
  cases e <;> simp only [watch, same] <;> simp only [Event.connection] at other
  case receive => simpa [other] using owed
  case respond => simpa [other] using owed
  case hangUp => exact owed

theorem receive_owed (command : CommandPacket) (ready : (w.server.connection c).phase = .receiving) :
    NothingOwed c (watch c w (.receive c command)) ↔
      (w.server.connection c).error = false ∧ 0 < prepareToHandle command := by
  unfold NothingOwed
  simp only [watch, serve_receiving command ready, Application.connection_update, Function.update_self, ready,
    and_self, if_true, Connection.receive, loopPhase]
  split
  case isTrue more => exact ⟨fun _ => more.symm, fun _ responding => Phase.noConfusion responding⟩
  case isFalse none => exact ⟨fun h => Bool.noConfusion (h rfl), fun h => absurd h.symm none⟩

theorem respond_answered {env : Env} (busy : (w.server.connection c).phase = .responding)
    (sent : 0 < ((w.server.connection c).send env w.server.board).status) :
    NothingOwed c (watch c w (.respond c env)) := by
  intro
  simp [watch, replies_sent busy sent]

theorem respond_refused (env : Env) (busy : (w.server.connection c).phase = .responding)
    (unanswered : w.unanswered = true)
    (refused : ((w.server.connection c).send env w.server.board).status < 0) :
    ¬ NothingOwed c (watch c w (.respond c env)) := by
  have silent : replies w.server (.respond c env) = [] := if_neg fun h => by omega
  intro owed
  have waits : ((watch c w (.respond c env)).server.connection c).phase = .receiving := by
    simp only [watch, serve_responding env busy, Application.connection_update, Function.update_self]
    exact respond_phase _ _ _ refused
  have answered := owed waits
  simp [watch, silent, unanswered] at answered

theorem watch_keeps {e : Event} (sound : w.server.Sound) (owed : NothingOwed c w) (ok : Answerable c w e) :
    NothingOwed c (watch c w e) := by
  by_cases mine : e.connection = c
  case neg => exact watch_other mine owed
  subst mine
  cases e with
  | receive d command =>
    by_cases ready : (w.server.connection d).phase = .receiving
    · exact (receive_owed command ready).mpr (ok rfl ready)
    · intro waits
      simp only [watch, serve, Event.connection, if_neg ready] at waits
      exact absurd waits ready
  | respond d env =>
    by_cases busy : (w.server.connection d).phase = .responding
    · cases unanswered : w.unanswered with
      | true =>
        obtain ⟨accepts, response⟩ := ok rfl busy unanswered
        have sendable := (round_sendable env w.server.board (sound.asked d busy)).mpr response
        exact respond_answered busy (sendResponsePacket_accepts accepts env.memory sendable).2
      | false =>
        intro
        simp [watch, unanswered]
    · intro waits
      simp only [watch, serve_not_responding env busy, replies_not_responding env busy] at waits ⊢
      simpa using owed waits
  | hangUp d =>
    intro waits
    by_cases ready : (w.server.connection d).phase = .receiving
    · exact owed ready
    · simp only [watch, serve, Event.connection, if_neg ready] at waits
      exact absurd waits ready

theorem watch_needs {e : Event} (sound : w.server.Sound) (accepted : e.Accepted)
    (owed : NothingOwed c (watch c w e)) : Answerable c w e := by
  cases e with
  | receive d command =>
    rintro rfl ready
    exact (receive_owed command ready).mp owed
  | respond d env =>
    rintro rfl busy unanswered
    refine ⟨accepted, (round_sendable env w.server.board (sound.asked d busy)).mp ?_⟩
    by_contra refused
    have failed := sendResponsePacket_refused env.memory env.lwipSend refused
    refine respond_refused env busy unanswered ?_ owed
    unfold Connection.send
    rw [failed]
    decide
  | hangUp => trivial

end

/-- For every run of the server, with any commands, driver results and networks: on a
connection on which every step is `Answerable` no command stays without an answer, and where
the network takes what it is given these are the only such connections. -/
theorem answered_exact (command : Nat → CommandPacket) (response : Nat → ResponsePacket) (es : List Event)
    (c : Nat) :
    let boot : Watched := ⟨Application.boot command response, false⟩
    (Along (watch c) (Answerable c) boot es → Always (watch c) (NothingOwed c) boot es) ∧
      ((∀ e ∈ es, e.Accepted) →
        Always (watch c) (NothingOwed c) boot es → Along (watch c) (Answerable c) boot es) := by
  intro boot
  have start : boot.server.Sound := boot_sound command response
  have first : NothingOwed c boot := fun _ => rfl
  have keep : ∀ (w : Watched) e, w.server.Sound → (watch c w e).server.Sound :=
    fun w e sound => serve_sound w.server e sound
  constructor
  · exact always_of_along keep (fun w e sound owed ok => watch_keeps sound owed ok) start first
  · intro accepted
    have needed : ∀ (w : Watched) (e : Event), w.server.Sound → e.Accepted → NothingOwed c w →
        NothingOwed c (watch c w e) → Answerable c w e :=
      fun w e sound accepted _ owed => watch_needs sound accepted owed
    exact along_of_always keep needed start accepted

/-- A capture of too many samples and then a request for the LEDs, each with a round to answer it. -/
def ledAfterError : List Event :=
  [.receive 0 ⟨2, 0, 0, 0x200000⟩, .respond 0 workingEnv, .receive 0 ⟨12, 0, 0, 0⟩, .respond 0 workingEnv]

/-- The error text is the only response, and the thread waits for the next command. -/
theorem command_after_error_ignored :
    (trace serve replies freshServer ledAfterError).map (·.packet.comm) = [messageId] ∧
      ((run (watch 0) ⟨freshServer, false⟩ ledAfterError).server.connection 0).phase = .receiving ∧
      (run (watch 0) ⟨freshServer, false⟩ ledAfterError).unanswered = true ∧
      ¬ Always (watch 0) (NothingOwed 0) ⟨freshServer, false⟩ ledAfterError := by
  have waits : ((run (watch 0) ⟨freshServer, false⟩ ledAfterError).server.connection 0).phase = .receiving := by
    decide +kernel
  have unanswered : (run (watch 0) ⟨freshServer, false⟩ ledAfterError).unanswered = true := by
    decide +kernel
  refine ⟨by decide +kernel, waits, unanswered, fun always => ?_⟩
  have answered := always_last always waits
  rw [unanswered] at answered
  cases answered

end BpmAcquisition.Server
