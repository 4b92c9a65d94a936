import BpmAcquisition.Server.Answers

/-!
# The response loop ends

Between two calls of `handle_request` other connections may leave the shared counters in any
state, so that each call of a loop is given a board of its own. `response_loop_ends` bounds the
calls for every command and all of these; `loop_of_run` finds the calls of a connection in a run
of the server.
-/

namespace BpmAcquisition.Server

open Machine

/-- What one call of `handle_request` and the send after it meet. -/
structure Pass where
  env : Env
  board : Board

def Connection.round (k : Connection) (r : Pass) : Connection :=
  if k.phase = .responding then (k.respond r.env r.board).1 else k

/-- What the call of a round returns, if the loop makes it. -/
def Connection.returned (k : Connection) (r : Pass) : List Int :=
  if k.phase = .responding then [(k.handle r.env r.board).1] else []

/-- The least number of bytes that an answer to the command reports. -/
def leastBytes (c : CommandPacket) : Nat :=
  match CommandType.ofCode c.comm with
  | some .fmc150GetSamples => adcSampleSize.toNat
  | some .ddcGetSamples => ddcSampleSize.toNat
  | _ => 1

/-- While the loop goes on, what remains is covered by `n` more answers. -/
def Covered (command : CommandPacket) (n : Nat) (k : Connection) : Prop :=
  k.phase = .responding →
    k.command = command ∧ 0 < prepareToHandle command ∧ 0 < k.remainingBytes ∧
      k.remainingBytes ≤ (n * leastBytes command : Nat)

section
variable {drv : Driver} {c command : CommandPacket} {r : ResponsePacket} {b : Board} {k : Connection} {n : Nat}

theorem leastBytes_get {ch : Channel} (get : CommandType.ofCode c.comm = some ch.getCommand) :
    leastBytes c = ch.width := by
  unfold leastBytes
  rw [get]
  cases ch <;> rfl

theorem leastBytes_other {type : CommandType} (code : CommandType.ofCode c.comm = some type)
    (other : ∀ ch : Channel, type ≠ ch.getCommand) : leastBytes c = 1 := by
  unfold leastBytes
  rw [code]
  split
  case h_1 same => exact absurd (Option.some.inj same) (other .adc)
  case h_2 same => exact absurd (Option.some.inj same) (other .ddc)
  case h_3 => rfl

theorem prepareToHandle_le (c : CommandPacket) :
    prepareToHandle c ≤ (max 1 c.val.toNat * leastBytes c : Nat) := by
  have product : ∀ size : UInt32, asInt (c.val * size) ≤ (max 1 c.val.toNat * size.toNat : Nat) := by
    intro size
    have wrapped : (c.val * size).toNat ≤ c.val.toNat * size.toNat := by
      rw [UInt32.toNat_mul]
      exact Nat.mod_le _ _
    have more := Nat.mul_le_mul_right size.toNat (Nat.le_max_right 1 c.val.toNat)
    have signed : asInt (c.val * size) ≤ (c.val * size).toNat := by
      unfold asInt
      rw [BitVec.toInt_eq_toNat_cond, UInt32.toNat_toBitVec]
      split <;> omega
    omega
  have least : (1 : Int) ≤ (max 1 c.val.toNat * 1 : Nat) := by
    rw [Nat.mul_one]
    exact Int.ofNat_le.mpr (Nat.le_max_left 1 c.val.toNat)
  unfold prepareToHandle leastBytes
  generalize CommandType.ofCode c.comm = code
  cases code with
  | none => exact least
  | some type =>
    cases type with
    | fmc150GetSamples => exact product adcSampleSize
    | ddcGetSamples => exact product ddcSampleSize
    | _ => exact least

/-- A call that returns no error reports at least the bytes of one answer. -/
theorem handleRequest_progress (asked : 0 < prepareToHandle c) :
    (handleRequest drv c r b).1 < 0 ∨ (leastBytes c : Int) ≤ (handleRequest drv c r b).1 := by
  cases known : handled c with
  | false =>
    rw [handleRequest_unhandled known]
    exact Or.inl (by decide : error < 0)
  | true =>
    obtain ⟨type, answer, code, form, request⟩ := handleRequest_answer drv b known
    cases form with
    | text failed text b' quiet short refused same =>
      rw [request, same]
      cases failed with
      | true => exact Or.inl (by decide : error < 0)
      | false =>
        have other : ∀ ch : Channel, type ≠ ch.getCommand := fun ch get => Bool.noConfusion (refused ch get)
        refine Or.inr ?_
        show (leastBytes c : Int) ≤ asInt (message text _ b').1.num
        rw [leastBytes_other code other, asInt_eq (by rw [message_num short]; omega), message_num short]
        omega
    | value comm value b' quiet other same =>
      rw [request, same, leastBytes_other code other]
      exact Or.inr (by decide : (1 : Int) ≤ asInt 4)
    | samples ch comm size offset b' get bound some limited same =>
      have val : 0 < c.val.toNat := get_positive (by rw [code, get]) asked
      have least := Nat.mul_le_mul_right ch.width (some val)
      obtain ⟨num, bytes⟩ := samples_num limited
      rw [request, same]
      refine Or.inr ?_
      show (leastBytes c : Int) ≤ asInt (size * ch.attr.sampleSize)
      rw [leastBytes_get (by rw [code, get]), asInt_eq (by omega), num]
      omega

/-- A round of the loop uses up one of the answers. -/
theorem round_covered (covered : Covered command n k) (busy : k.phase = .responding) (r : Pass) :
    Covered command (n - 1) (k.round r) := by
  obtain ⟨rfl, asked, some, enough⟩ := covered busy
  have progress : (k.handle r.env r.board).1 < 0 ∨ (leastBytes k.command : Int) ≤ (k.handle r.env r.board).1 :=
    handleRequest_progress asked
  intro again
  unfold Connection.round at again ⊢
  rw [if_pos busy] at again ⊢
  unfold Connection.respond at again ⊢
  simp only at again ⊢
  split at again
  · cases again
  case isFalse sent =>
    obtain ⟨more, fine⟩ := loopPhase_responding again
    rw [if_neg sent]
    simp only [Bool.or_eq_false_iff, decide_eq_false_iff_not] at fine
    have reported := progress.resolve_left fine.2
    refine ⟨rfl, asked, more, ?_⟩
    simp only
    cases n with
    | zero => omega
    | succ n =>
      rw [Nat.succ_mul] at enough
      rw [Nat.add_sub_cancel]
      omega

theorem receive_covered (k : Connection) (command : CommandPacket) :
    Covered command (max 1 command.val.toNat) (k.receive command) := by
  intro busy
  have asked := (loopPhase_responding busy).1
  exact ⟨rfl, asked, asked, prepareToHandle_le command⟩

theorem round_idle (idle : k.phase ≠ .responding) (r : Pass) : k.round r = k ∧ k.returned r = [] :=
  ⟨if_neg idle, if_neg idle⟩

/-! ### Whole loops -/

theorem idle_run (idle : k.phase ≠ .responding) (rounds : List Pass) :
    run Connection.round k rounds = k ∧ trace Connection.round Connection.returned k rounds = [] := by
  induction rounds with
  | nil => exact ⟨rfl, rfl⟩
  | cons r rounds ih =>
    obtain ⟨same, none⟩ := round_idle idle r
    rw [run_cons, trace_cons, same, none]
    exact ih

theorem covered_run (covered : Covered command n k) (rounds : List Pass) :
    (trace Connection.round Connection.returned k rounds).length ≤ n ∧
      (n ≤ rounds.length → (run Connection.round k rounds).phase ≠ .responding) ∧
      ∀ m ∈ trace Connection.round Connection.returned k rounds, m < 0 ∨ (leastBytes command : Int) ≤ m := by
  induction rounds generalizing k n with
  | nil =>
    refine ⟨Nat.zero_le n, fun none busy => ?_, by simp⟩
    obtain ⟨-, -, some, enough⟩ := covered busy
    have zero : n = 0 := Nat.le_zero.mp none
    rw [zero, Nat.zero_mul] at enough
    omega
  | cons r rounds ih =>
    by_cases busy : k.phase = .responding
    case neg =>
      obtain ⟨same, none⟩ := idle_run busy (r :: rounds)
      rw [same, none]
      exact ⟨Nat.zero_le n, fun _ => busy, by simp⟩
    obtain ⟨length, ends, progress⟩ := ih (round_covered covered busy r)
    obtain ⟨same, asked, some, enough⟩ := covered busy
    have positive : 0 < n := by
      refine Nat.pos_of_ne_zero fun zero => ?_
      rw [zero, Nat.zero_mul] at enough
      omega
    have first : k.returned r = [(k.handle r.env r.board).1] := if_pos busy
    rw [trace_cons, run_cons, first, List.singleton_append, List.length_cons, List.length_cons]
    refine ⟨by omega, fun more => ends (by omega), fun m member => ?_⟩
    rcases List.mem_cons.mp member with rfl | later
    · rw [← same]
      rw [← same] at asked
      exact handleRequest_progress asked
    · exact progress m later

end

/-- For every connection and command, all results of the drivers and sends and whatever the
board holds at each call: the response loop makes at most `max(1, val)` calls of
`handle_request` and is left after as many rounds, and a call that returns no error reports at
least one byte, one sample for a request for samples. -/
theorem response_loop_ends (k : Connection) (command : CommandPacket) (rounds : List Pass) :
    let loop := k.receive command
    let calls := trace Connection.round Connection.returned loop rounds
    calls.length ≤ max 1 command.val.toNat ∧
      (max 1 command.val.toNat ≤ rounds.length → (run Connection.round loop rounds).phase ≠ .responding) ∧
      ∀ n ∈ calls, n < 0 ∨ 0 < n ∧ ∀ ch : Channel, CommandType.ofCode command.comm = some ch.getCommand →
        (ch.attr.sampleSize.toNat : Int) ≤ n := by
  intro loop calls
  obtain ⟨length, ends, progress⟩ := covered_run (receive_covered k command) rounds
  refine ⟨length, ends, fun n member => (progress n member).imp_right fun least => ⟨?_, fun ch get => ?_⟩⟩
  · have positive : 0 < leastBytes command := by
      unfold leastBytes
      split <;> decide
    omega
  · rw [leastBytes_get get] at least
    exact least

/-! ### The loop of a connection in a run of the server -/

def roundsOf (c : Nat) (s : Application) : Event → List Pass
  | .respond d env => if d = c then [⟨env, s.board⟩] else []
  | _ => []

/-- The event reads no command on the connection and does not close it. -/
def Event.InLoop (c : Nat) : Event → Prop
  | .respond _ _ => True
  | e => e.connection ≠ c

theorem serve_round (s : Application) {c : Nat} {e : Event} (inLoop : e.InLoop c) :
    (serve s e).connection c = run Connection.round (s.connection c) (roundsOf c s e) := by
  by_cases mine : e.connection = c
  case neg =>
    have none : roundsOf c s e = [] := by
      cases e with
      | respond d env => exact if_neg mine
      | _ => rfl
    rw [none, serve_other s mine]
    rfl
  subst mine
  cases e with
  | receive d command => exact absurd rfl inLoop
  | hangUp d => exact absurd rfl inLoop
  | respond d env =>
    have round : roundsOf d s (.respond d env) = [⟨env, s.board⟩] := if_pos rfl
    simp only [Event.connection, round, run_cons, run_nil, serve, Connection.round]
    split
    · rw [Application.connection_update, Function.update_self]
    · rfl

/-- Between two commands a connection of the server goes through the rounds of a response loop,
each with the board that the other connections have left. -/
theorem loop_of_run {s : Application} {c : Nat} {es : List Event} (inLoop : ∀ e ∈ es, e.InLoop c) :
    (run serve s es).connection c = run Connection.round (s.connection c) (trace serve (roundsOf c) s es) := by
  induction es generalizing s with
  | nil => rfl
  | cons e es ih =>
    rw [run_cons, trace_cons, run_append, ih fun e' member => inLoop e' (List.mem_cons_of_mem e member),
      serve_round s (inLoop e List.mem_cons_self)]

end BpmAcquisition.Server
