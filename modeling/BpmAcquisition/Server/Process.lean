import BpmAcquisition.Library.Run
import BpmAcquisition.Server.Wire

/-!
# Connections

`process_client_request` as a machine: every connection runs its own thread, the threads share
the board. An event is one blocking receive or one round of the response loop of some
connection, so that a list of events is an interleaving. An event that the connection's thread
cannot take at this point changes nothing.
-/

namespace BpmAcquisition.Server

open Machine

/-- Where a thread stands: before `recv_command_packet`, in the response loop, or returned. -/
inductive Phase where
  | receiving
  | responding
  | closed
deriving DecidableEq

structure Connection where
  phase : Phase
  error : Bool
  remainingBytes : Int
  command : CommandPacket
  response : ResponsePacket
deriving DecidableEq

structure Application where
  board : Board
  connection : Nat → Connection

/-- What one round of the response loop meets: the drivers, the memory, the network. -/
structure Env where
  driver : Driver
  memory : Memory
  lwipSend : Nat → Int

inductive Event where
  | receive (c : Nat) (command : CommandPacket)
  | respond (c : Nat) (env : Env)
  | hangUp (c : Nat)

def Event.connection : Event → Nat
  | .receive c _ => c
  | .respond c _ => c
  | .hangUp c => c

-- The locals of a new thread, `error` apart, are not initialised.
def Connection.accepted (command : CommandPacket) (response : ResponsePacket) : Connection :=
  ⟨.receiving, false, 0, command, response⟩

def Application.boot (command : Nat → CommandPacket) (response : Nat → ResponsePacket) : Application :=
  ⟨Board.boot, fun c => .accepted (command c) (response c)⟩

def loopPhase (error : Bool) (remainingBytes : Int) : Phase :=
  if 0 < remainingBytes ∧ error = false then .responding else .receiving

def Connection.receive (k : Connection) (command : CommandPacket) : Connection :=
  { k with
    command := command
    remainingBytes := prepareToHandle command
    phase := loopPhase k.error (prepareToHandle command) }

def Connection.handle (k : Connection) (env : Env) (b : Board) : Int × ResponsePacket × Board :=
  handleRequest env.driver k.command k.response b

def Connection.send (k : Connection) (env : Env) (b : Board) : Sent :=
  sendResponsePacket env.memory env.lwipSend (k.handle env b).2.1

/-- One round of the response loop; a failed send leaves the loop, not the connection. -/
def Connection.respond (k : Connection) (env : Env) (b : Board) : Connection × Board :=
  let (validBytesPacket, response, b') := k.handle env b
  let error := k.error || decide (validBytesPacket < 0)
  if (k.send env b).status < 0 then
    ({ k with phase := .receiving, error := error, response := response }, b')
  else
    let remainingBytes := k.remainingBytes - validBytesPacket
    ({ k with
        phase := loopPhase error remainingBytes
        error := error
        remainingBytes := remainingBytes
        response := response }, b')

def Application.update (s : Application) (c : Nat) (k : Connection) (b : Board) : Application :=
  ⟨b, Function.update s.connection c k⟩

def serve (s : Application) : Event → Application
  | .receive c command =>
    if (s.connection c).phase = .receiving then
      s.update c ((s.connection c).receive command) s.board
    else s
  | .respond c env =>
    if (s.connection c).phase = .responding then
      s.update c ((s.connection c).respond env s.board).1 ((s.connection c).respond env s.board).2
    else s
  | .hangUp c =>
    if (s.connection c).phase = .receiving then
      s.update c { s.connection c with phase := .closed } s.board
    else s

/-- A response packet that went out whole, with the bytes the network took. -/
structure Reply where
  connection : Nat
  packet : ResponsePacket
  wire : List UInt8
deriving DecidableEq

def replies (s : Application) : Event → List Reply
  | .respond c env =>
    let k := s.connection c
    if k.phase = .responding ∧ 0 < (k.send env s.board).status then
      [⟨c, (k.handle env s.board).2.1, (k.send env s.board).wire⟩]
    else []
  | _ => []

@[simp] theorem Application.connection_update (s : Application) (c : Nat) (k : Connection) (b : Board) :
    (s.update c k b).connection = Function.update s.connection c k := rfl

@[simp] theorem Application.board_update (s : Application) (c : Nat) (k : Connection) (b : Board) :
    (s.update c k b).board = b := rfl

section
variable {s : Application} {c : Nat}

theorem serve_receiving (command : CommandPacket) (ready : (s.connection c).phase = .receiving) :
    serve s (.receive c command) = s.update c ((s.connection c).receive command) s.board := if_pos ready

theorem serve_responding (env : Env) (busy : (s.connection c).phase = .responding) :
    serve s (.respond c env) =
      s.update c ((s.connection c).respond env s.board).1 ((s.connection c).respond env s.board).2 :=
  if_pos busy

theorem serve_not_responding (env : Env) (idle : (s.connection c).phase ≠ .responding) :
    serve s (.respond c env) = s := if_neg idle

theorem replies_sent {env : Env} (busy : (s.connection c).phase = .responding)
    (sent : 0 < ((s.connection c).send env s.board).status) :
    replies s (.respond c env) =
      [⟨c, ((s.connection c).handle env s.board).2.1, ((s.connection c).send env s.board).wire⟩] :=
  if_pos ⟨busy, sent⟩

theorem replies_not_responding (env : Env) (idle : (s.connection c).phase ≠ .responding) :
    replies s (.respond c env) = [] := if_neg fun h => idle h.1

theorem loop_not_responding (envs : List Env) (idle : (s.connection c).phase ≠ .responding) :
    run serve s (envs.map (.respond c)) = s ∧ trace serve replies s (envs.map (.respond c)) = [] := by
  induction envs with
  | nil => exact ⟨rfl, rfl⟩
  | cons env envs ih =>
    rw [List.map_cons, run_cons, trace_cons, serve_not_responding env idle, replies_not_responding env idle]
    exact ih

end

/-! ### Connections apart -/

theorem update_other {s : Application} {c d : Nat} {k : Connection} {b : Board} (other : d ≠ c) :
    (s.update d k b).connection c = s.connection c := by
  rw [Application.connection_update, Function.update_of_ne (Ne.symm other)]

theorem serve_other (s : Application) {c : Nat} {e : Event} (other : e.connection ≠ c) :
    (serve s e).connection c = s.connection c := by
  cases e <;> simp only [serve] <;> split <;> first | exact update_other other | rfl

theorem run_other {s : Application} {c : Nat} {es : List Event} (others : ∀ e ∈ es, e.connection ≠ c) :
    (run serve s es).connection c = s.connection c := by
  induction es generalizing s with
  | nil => rfl
  | cons e es ih =>
    rw [run_cons, ih fun e' member => others e' (List.mem_cons_of_mem e member)]
    exact serve_other s (others e List.mem_cons_self)

end BpmAcquisition.Server
