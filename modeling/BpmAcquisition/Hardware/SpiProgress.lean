import BpmAcquisition.Hardware.SpiTransfers

/-!
# Every command is carried out

`commands_reach_chip` says that nothing is lost or sent twice; this module, that nothing stays under way. A
`Round` is a stretch of time in which both clocks tick and no command is given. Every link is ready after
fifteen rounds in which nothing enters it, and nothing enters it once what is before it is quiet: so the
command interface, the instructions, the serial machine and the way back come to rest one after the other.
-/

namespace BpmAcquisition.SpiCtrl

open Machine Pulse2pulse StellarCmd

variable {d : Device} (S : Serializer d) (rom : Rom d)

structure Round (ts : List Tick) : Prop where
  silent : ∀ t ∈ ts, t.Silent
  clk : ∃ i, .clk i ∈ ts
  serial : ∃ sdi external, .serial sdi external ∈ ts

/-! ### What a quiet crossing is given at each tick -/

/-- Both clocks of the crossing are `clk`. -/
def withinClk {α : Type} : Tick → Given α
  | .clk _ => ⟨some none, true⟩
  | .serial _ _ => {}

def toSerial {α : Type} : Tick → Given α
  | .clk _ => ⟨some none, false⟩
  | .serial _ _ => ⟨none, true⟩

def toClk {α : Type} : Tick → Given α
  | .clk _ => ⟨none, true⟩
  | .serial _ _ => ⟨some none, false⟩

/-- Nothing is given, and in each round both clocks of the crossing tick. -/
structure Passage {α : Type} (g : Tick → Given α) : Prop where
  still : ∀ t, (g t).inClk.getD none = none
  inClk : (∀ i, (g (.clk i)).inClk.isSome) ∨ ∀ sdi external, (g (.serial sdi external)).inClk.isSome
  outClk : (∀ i, (g (.clk i)).outClk) ∨ ∀ sdi external, (g (.serial sdi external)).outClk

section
variable {α : Type} {g : Tick → Given α} {ts : List Tick}

theorem within_passage : Passage (@withinClk α) := by
  refine ⟨fun t => ?_, Or.inl fun _ => rfl, Or.inl fun _ => rfl⟩
  cases t <;> rfl

theorem serial_passage : Passage (@toSerial α) := by
  refine ⟨fun t => ?_, Or.inl fun _ => rfl, Or.inr fun _ _ => rfl⟩
  cases t <;> rfl

theorem clk_passage : Passage (@toClk α) := by
  refine ⟨fun t => ?_, Or.inr fun _ _ => rfl, Or.inl fun _ => rfl⟩
  cases t <;> rfl

theorem passage_round (passage : Passage g) (round : Round ts) : StillRound (ts.map g) := by
  obtain ⟨-, ⟨i, clk⟩, sdi, external, serial⟩ := round
  refine ⟨?_, ?_, ?_⟩
  · rintro x member
    obtain ⟨t, -, rfl⟩ := List.mem_map.mp member
    exact passage.still t
  · rcases passage.inClk with atClk | atSerial
    · exact ⟨_, List.mem_map_of_mem clk, atClk i⟩
    · exact ⟨_, List.mem_map_of_mem serial, atSerial sdi external⟩
  · rcases passage.outClk with atClk | atSerial
    · exact ⟨_, List.mem_map_of_mem clk, atClk i⟩
    · exact ⟨_, List.mem_map_of_mem serial, atSerial sdi external⟩

theorem rounds_silent {rounds : List (List Tick)} (both : ∀ r ∈ rounds, Round r) : ∀ t ∈ rounds.flatten, t.Silent := by
  intro t member
  obtain ⟨r, inRounds, inRound⟩ := List.mem_flatten.mp member
  exact (both r inRounds).silent t inRound

theorem view_run {view : Ctrl d → Crossing α} {P : Watched d → Prop}
    (keep : ∀ s t, P s → t.Silent → P (watch rom s t))
    (same : ∀ s t, P s → t.Silent → view (tick rom s.ctrl t) = cross (view s.ctrl) (g t))
    {s : Watched d} (start : P s) (silent : ∀ t ∈ ts, t.Silent) :
    P (run (watch rom) s ts) ∧ view (run (watch rom) s ts).ctrl = run cross (view s.ctrl) (ts.map g) := by
  induction ts generalizing s with
  | nil => exact ⟨start, rfl⟩
  | cons t rest ih =>
    obtain ⟨here, others⟩ := List.forall_mem_cons.mp silent
    obtain ⟨held, link⟩ := ih (keep s t start here) others
    refine ⟨held, link.trans ?_⟩
    rw [List.map_cons, run_cons, ← same s t start here]
    rfl

/-- While nothing enters a crossing, rounds are rounds for it. -/
theorem view_rounds (view : Ctrl d → Crossing α) (passage : Passage g) {P : Watched d → Prop}
    (keep : ∀ s t, P s → t.Silent → P (watch rom s t))
    (same : ∀ s t, P s → t.Silent → view (tick rom s.ctrl t) = cross (view s.ctrl) (g t))
    {s : Watched d} (start : P s) {rounds : List (List Tick)} (both : ∀ r ∈ rounds, Round r) :
    P (run (watch rom) s rounds.flatten) ∧ ∃ given : List (List (Given α)), given.length = rounds.length ∧
      (∀ gs ∈ given, StillRound gs) ∧ view (run (watch rom) s rounds.flatten).ctrl = run cross (view s.ctrl) given.flatten := by
  obtain ⟨held, link⟩ := view_run rom keep same start (rounds_silent both)
  rw [List.map_flatten] at link
  refine ⟨held, _, List.length_map .., ?_, link⟩
  rintro gs member
  obtain ⟨r, inRounds, rfl⟩ := List.mem_map.mp member
  exact passage_round passage (both r inRounds)

/-- A crossing that nothing enters while `P` holds is ready after fifteen rounds. -/
theorem leadsTo_ready (view : Ctrl d → Crossing α) (passage : Passage g) {P : Watched d → Prop}
    (keep : ∀ s t, P s → t.Silent → P (watch rom s t))
    (same : ∀ s t, P s → t.Silent → view (tick rom s.ctrl t) = cross (view s.ctrl) (g t))
    (sound : ∀ s, P s → (view s.ctrl).link.Sound) :
    LeadsTo (watch rom) Round 15 P fun s => P s ∧ (view s.ctrl).Ready := by
  intro s rounds start both enough
  obtain ⟨held, given, count, still, link⟩ := view_rounds rom view passage keep same start both
  rw [link]
  exact ⟨held, ready_again (sound s start) still (by omega)⟩

end

/-! ### One after the other -/

structure Sounds (c : Ctrl d) : Prop where
  writes : c.writes.link.Sound
  reads : c.reads.link.Sound
  instructions : c.instructions.link.Sound
  received : c.received.link.Sound
  answers : c.answers.link.Sound

theorem sounds_tick {c : Ctrl d} (sounds : Sounds c) (t : Tick) : Sounds (tick rom c t) := by
  cases t with
  | clk i =>
    refine ⟨?_, ?_, ?_, cross_sound sounds.received ⟨none, true⟩, ?_⟩
    · rw [writes_clk]
      exact cross_sound sounds.writes _
    · rw [reads_clk]
      exact cross_sound sounds.reads _
    · rw [instructions_clk]
      exact cross_sound sounds.instructions _
    · rw [answers_clk]
      exact cross_sound sounds.answers _
  | serial sdi external =>
    refine ⟨sounds.writes, sounds.reads, cross_sound sounds.instructions ⟨none, true⟩, ?_, sounds.answers⟩
    rw [received_serial]
    exact cross_sound sounds.received _

/-- An access is somewhere on its way. -/
structure Located (s : Watched d) : Prop where
  sounds : Sounds s.ctrl
  settled : Settled s.ctrl
  here : ∃ p, At S s p

structure Taken (s : Watched d) : Prop where
  located : Located S s
  writes : s.ctrl.writes.Ready
  reads : s.ctrl.reads.Ready

structure Instructed (s : Watched d) : Prop where
  taken : Taken S s
  instructions : s.ctrl.instructions.Ready

structure Sent (s : Watched d) : Prop where
  instructed : Instructed S s
  idle : s.ctrl.serial.fsm.shState = .idle

structure Returned (s : Watched d) : Prop where
  sent : Sent S s
  received : s.ctrl.received.Ready

section
variable {s : Watched d} {t : Tick}

theorem located_tick (located : Located S s) (spaced : Spaced s t) : Located S (watch rom s t) := by
  obtain ⟨sounds, settled, p, here⟩ := located
  obtain ⟨p', settled', here', -⟩ := moves_tick S rom settled here spaced
  exact ⟨sounds_tick rom sounds t, settled', p', here'⟩

theorem writes_tick (silent : t.Silent) : (tick rom s.ctrl t).writes = cross s.ctrl.writes (withinClk t) := by
  cases t with
  | clk i => exact writes_still rom silent.1
  | serial sdi external => rfl

theorem reads_tick (silent : t.Silent) : (tick rom s.ctrl t).reads = cross s.ctrl.reads (withinClk t) := by
  cases t with
  | clk i => exact reads_still rom silent.2
  | serial sdi external => rfl

theorem taken_tick (taken : Taken S s) (silent : t.Silent) : Taken S (watch rom s t) := by
  refine ⟨located_tick S rom taken.located (silent_spaced silent), ?_, ?_⟩
  · show (tick rom s.ctrl t).writes.Ready
    rw [writes_tick rom silent]
    exact ready_cross taken.writes (within_passage.still t)
  · show (tick rom s.ctrl t).reads.Ready
    rw [reads_tick rom silent]
    exact ready_cross taken.reads (within_passage.still t)

theorem taken_idle {i : Command} (taken : Taken S s) (silent : i.Silent) : Idle s.ctrl i :=
  ⟨silent.1, silent.2, empty_pulse taken.writes.empty, empty_pulse taken.reads.empty⟩

theorem instructions_tick (taken : Taken S s) (silent : t.Silent) :
    (tick rom s.ctrl t).instructions = cross s.ctrl.instructions (toSerial t) := by
  cases t with
  | clk i => exact instructions_still rom (idle_instruction (taken_idle S taken silent))
  | serial sdi external => rfl

theorem instructed_tick (instructed : Instructed S s) (silent : t.Silent) : Instructed S (watch rom s t) := by
  refine ⟨taken_tick S rom instructed.taken silent, ?_⟩
  show (tick rom s.ctrl t).instructions.Ready
  rw [instructions_tick S rom instructed.taken silent]
  exact ready_cross instructed.instructions (serial_passage.still t)

/-- The machine has nothing that would start it. -/
theorem instructed_fsm (instructed : Instructed S s) (sdi external : Bool) :
    (watch rom s (.serial sdi external)).ctrl.serial.fsm = d.fsm s.ctrl.serial.fsm false s.ctrl.clk.ins.rw := by
  have silent : s.ctrl.inst.pulseout = false := empty_pulse instructed.instructions.empty
  show (tick rom s.ctrl (.serial sdi external)).serial.fsm = _
  rw [serial_fsm rom sdi external instructed.taken.located.settled, silent]

theorem sent_tick (sent : Sent S s) (silent : t.Silent) : Sent S (watch rom s t) := by
  refine ⟨instructed_tick S rom sent.instructed silent, ?_⟩
  cases t with
  | clk i => exact sent.idle
  | serial sdi external =>
    rw [instructed_fsm S rom sent.instructed]
    exact (S.idle_step _ _ sent.idle).1

theorem received_tick (sent : Sent S s) : (tick rom s.ctrl t).received = cross s.ctrl.received (toClk t) := by
  cases t with
  | clk i => rfl
  | serial sdi external => exact received_still rom sdi external (by rw [sent.idle]; decide)

theorem returned_tick (returned : Returned S s) (silent : t.Silent) : Returned S (watch rom s t) := by
  refine ⟨sent_tick S rom returned.sent silent, ?_⟩
  show (tick rom s.ctrl t).received.Ready
  rw [received_tick S rom returned.sent]
  exact ready_cross returned.received (clk_passage.still t)

theorem answers_tick (returned : Returned S s) (silent : t.Silent) :
    (tick rom s.ctrl t).answers = cross s.ctrl.answers (withinClk t) := by
  cases t with
  | clk i =>
    have idle := taken_idle S returned.sent.instructed.taken silent
    exact answers_still rom (no_answer (no_read idle.noRead).2 (empty_pulse returned.received.empty))
  | serial sdi external => rfl

/-- The serial machine alone is left to come to its end. -/
def unfinished (s : Watched d) : Nat := if s.ctrl.serial.fsm.shState = .idle then 0 else S.rank s.ctrl.serial.fsm

theorem unfinished_serial (instructed : Instructed S s) (sdi external : Bool) :
    unfinished S (watch rom s (.serial sdi external)) ≤ unfinished S s - 1 := by
  unfold unfinished
  rw [instructed_fsm S rom instructed]
  by_cases idle : s.ctrl.serial.fsm.shState = .idle
  · simp [idle, S.idle_step _ s.ctrl.clk.ins.rw idle]
  · have step := S.rank_step s.ctrl.serial.fsm s.ctrl.clk.ins.rw idle
    rw [if_neg idle]
    split <;> omega

theorem unfinished_run {ts : List Tick} (instructed : Instructed S s) (silent : ∀ t ∈ ts, t.Silent) :
    Instructed S (run (watch rom) s ts) ∧ unfinished S (run (watch rom) s ts) ≤ unfinished S s ∧
      ((∃ sdi external, Tick.serial sdi external ∈ ts) → unfinished S (run (watch rom) s ts) ≤ unfinished S s - 1) := by
  induction ts generalizing s with
  | nil => exact ⟨instructed, Nat.le_refl _, by simp⟩
  | cons t rest ih =>
    obtain ⟨here, others⟩ := List.forall_mem_cons.mp silent
    obtain ⟨final, kept, less⟩ := ih (instructed_tick S rom instructed here) others
    refine ⟨final, ?_⟩
    cases t with
    | clk i =>
      -- An edge of `clk` leaves the serial machine as it is.
      refine ⟨kept, ?_⟩
      rintro ⟨sdi, external, member⟩
      rcases List.mem_cons.mp member with same | later
      · cases same
      · exact less ⟨sdi, external, later⟩
    | serial sdi external =>
      have one := unfinished_serial S rom instructed sdi external
      exact ⟨kept.trans (one.trans (Nat.sub_le _ _)), fun _ => kept.trans one⟩

theorem unfinished_bound (instructed : Instructed S s) : unfinished S s ≤ S.periods := by
  obtain ⟨p, here⟩ := instructed.taken.located.here
  unfold unfinished
  split
  · omega
  case isFalse busy =>
    cases p with
    | sending fs => exact S.rank_sends here.2.2.1
    | handing y => exact S.rank_valid _ here.2.2.1
    | resting => exact absurd here.2.2.2.1.idle busy
    | writing addr w => exact absurd here.2.2.2.1.idle busy
    | reading addr => exact absurd here.2.2.2.1.idle busy
    | instructing fs => exact absurd here.2.1.idle busy
    | returning y => exact absurd here.2.2.2.1.idle busy
    | answering => exact absurd here.2.2.2.1.idle busy

theorem unfinished_over (instructed : Instructed S s) (ended : unfinished S s = 0) : Sent S s := by
  refine ⟨instructed, ?_⟩
  by_contra busy
  have step := S.rank_step s.ctrl.serial.fsm false busy
  rw [unfinished, if_neg busy] at ended
  omega

theorem returned_quiet (returned : Returned S s) (answers : s.ctrl.answers.Ready) : Quiet s := by
  obtain ⟨⟨⟨⟨⟨-, settled, p, here⟩, writes, reads⟩, instructions⟩, idle⟩, received⟩ := returned
  refine ⟨settled, ?_, writes, reads, instructions, received, answers⟩
  cases p with
  | sending fs => exact absurd idle (S.active here.2.2.1).1
  | handing y => exact absurd (idle.symm.trans here.2.2.1) (by decide)
  | resting => exact here.2.2.2.1
  | writing addr w => exact here.2.2.2.1
  | reading addr => exact here.2.2.2.1
  | instructing fs => exact here.2.1
  | returning y => exact here.2.2.2.1
  | answering => exact here.2.2.2.1

/-- Fifteen rounds for each crossing on the way, and the periods of the serial machine. -/
theorem leadsTo_quiet : LeadsTo (watch rom) Round (75 + S.periods) (Located S) Quiet := by
  have first : LeadsTo (watch rom) Round 15 (Located S) fun s => Located S s ∧ s.ctrl.writes.Ready :=
    leadsTo_ready rom Ctrl.writes within_passage (fun s t located silent => located_tick S rom located (silent_spaced silent))
      (fun s t _ silent => writes_tick rom silent) fun s located => located.sounds.writes
  have second : LeadsTo (watch rom) Round 15 (fun s => Located S s ∧ s.ctrl.writes.Ready) (Taken S) := by
    have keep : ∀ (s : Watched d) (t : Tick), Located S s ∧ s.ctrl.writes.Ready → t.Silent →
        Located S (watch rom s t) ∧ (watch rom s t).ctrl.writes.Ready := by
      rintro s t ⟨located, ready⟩ silent
      refine ⟨located_tick S rom located (silent_spaced silent), ?_⟩
      show (tick rom s.ctrl t).writes.Ready
      rw [writes_tick rom silent]
      exact ready_cross ready (within_passage.still t)
    intro s rounds start both enough
    obtain ⟨⟨located, writes⟩, reads⟩ := leadsTo_ready rom Ctrl.reads within_passage keep
      (fun s t _ silent => reads_tick rom silent) (fun s held => held.1.sounds.reads) s rounds start both enough
    exact ⟨located, writes, reads⟩
  have third : LeadsTo (watch rom) Round 15 (Taken S) (Instructed S) := by
    intro s rounds start both enough
    obtain ⟨taken, instructions⟩ := leadsTo_ready rom Ctrl.instructions serial_passage
      (fun s t taken silent => taken_tick S rom taken silent) (fun s t taken silent => instructions_tick S rom taken silent)
      (fun s taken => taken.located.sounds.instructions) s rounds start both enough
    exact ⟨taken, instructions⟩
  have fourth : LeadsTo (watch rom) Round S.periods (Instructed S) (Sent S) := by
    refine leadsTo_rank (unfinished S) (fun s r instructed round => ?_) (fun s => unfinished_bound S)
      fun s => unfinished_over S
    obtain ⟨final, -, less⟩ := unfinished_run S rom instructed round.silent
    exact ⟨final, less round.serial⟩
  have fifth : LeadsTo (watch rom) Round 15 (Sent S) (Returned S) := by
    intro s rounds start both enough
    obtain ⟨sent, received⟩ := leadsTo_ready rom Ctrl.received clk_passage
      (fun s t sent silent => sent_tick S rom sent silent) (fun s t sent _ => received_tick S rom sent)
      (fun s sent => sent.instructed.taken.located.sounds.received) s rounds start both enough
    exact ⟨sent, received⟩
  have sixth : LeadsTo (watch rom) Round 15 (Returned S) Quiet := by
    intro s rounds start both enough
    obtain ⟨returned, answers⟩ := leadsTo_ready rom Ctrl.answers within_passage
      (fun s t returned silent => returned_tick S rom returned silent)
      (fun s t returned silent => answers_tick S rom returned silent)
      (fun s returned => returned.sent.instructed.taken.located.sounds.answers) s rounds start both enough
    exact returned_quiet S returned answers
  have all := leadsTo_trans first (leadsTo_trans second (leadsTo_trans third
    (leadsTo_trans fourth (leadsTo_trans fifth sixth))))
  rw [show 75 + S.periods = 15 + (15 + (15 + (S.periods + (15 + 15)))) by omega]
  exact all

end

theorem silent_commands {s : Watched d} {t : Tick} (silent : t.Silent) : commanded S s t = [] := by
  cases t with
  | clk i => exact silent_commanded S silent.1 silent.2
  | serial sdi external => rfl

theorem silent_trace {s : Watched d} {ts : List Tick} (silent : ∀ t ∈ ts, t.Silent) :
    trace (watch rom) (commanded S) s ts = [] := by
  have none : ∀ (s : Watched d) (t : Tick), t.Silent → commanded S s t = [] := fun s t => silent_commands S
  rw [trace_congr none (along_of_inputs silent)]
  exact trace_silent (fun _ _ => rfl) ts

theorem silent_asks {s : Watched d} {ts : List Tick} (silent : ∀ t ∈ ts, t.Silent) : trace (watch rom) asked s ts = [] := by
  have none : ∀ (s : Watched d) (t : Tick), t.Silent → asked s t = [] := by
    intro s t here
    cases t with
    | clk i => exact silent_asked here.2
    | serial sdi external => rfl
  rw [trace_congr none (along_of_inputs silent)]
  exact trace_silent (fun _ _ => rfl) ts

theorem located_quiet {s : Watched d} (quiet : Quiet s) : Located S s :=
  ⟨⟨quiet.writes.sound, quiet.reads.sound, quiet.instructions.sound, quiet.received.sound, quiet.answers.sound⟩,
    quiet.settled, .resting, quiet_at S quiet⟩

/-- While the clocks go on, every command is carried out: after the rounds that it takes the chip has taken the
frames of all commands, every read has been acknowledged with its address, and the controller is quiet again. -/
theorem commands_are_carried_out (c : Chip) (rom : Rom c.device) {s : Watched c.device} (quiet : Quiet s) {ts : List Tick}
    (spaced : Along (watch rom) Spaced s ts) {rounds : List (List Tick)} (both : ∀ r ∈ rounds, Round r)
    (enough : 75 + c.serializer.periods ≤ rounds.length) :
    Quiet (run (watch rom) s (ts ++ rounds.flatten)) ∧
      trace (watch rom) (sent rom) s (ts ++ rounds.flatten) = trace (watch rom) (commanded c.serializer) s ts ∧
      (trace (watch rom) (readings c.serializer rom) s (ts ++ rounds.flatten)).length = (trace (watch rom) asked s ts).length ∧
      trace (watch rom) replies s (ts ++ rounds.flatten) =
        acknowledged (trace (watch rom) asked s ts) (trace (watch rom) (readings c.serializer rom) s (ts ++ rounds.flatten)) := by
  have located : Located c.serializer (run (watch rom) s ts) :=
    run_invariant (fun s t held meets => located_tick c.serializer rom held meets) (located_quiet c.serializer quiet) spaced
  have final : Quiet (run (watch rom) s (ts ++ rounds.flatten)) := by
    rw [run_append]
    exact leadsTo_quiet c.serializer rom _ rounds located both enough
  have silent := rounds_silent both
  have throughout : Along (watch rom) Spaced s (ts ++ rounds.flatten) := by
    rw [along_append]
    exact ⟨spaced, along_mono (fun _ _ => silent_spaced) (along_of_inputs silent)⟩
  have asks : trace (watch rom) asked s (ts ++ rounds.flatten) = trace (watch rom) asked s ts := by
    rw [trace_append, silent_asks rom silent, List.append_nil]
  refine ⟨final, ?_, ?_, ?_⟩
  · rw [frames_when_quiet c.serializer rom quiet throughout final, trace_append,
      silent_trace c.serializer rom silent, List.append_nil]
  · rw [readings_when_quiet c.serializer rom quiet throughout final, asks]
  · rw [replies_when_quiet c.serializer rom quiet throughout final, toAnswer_acknowledged c.serializer rom quiet throughout, asks]

/-- 92 periods in which both clocks tick. -/
def onwards : List (List Tick) := List.replicate 92 [.clk {}, .serial true false]

theorem oneWrite_is_carried_out :
    Quiet (run (watch (blank dac3283)) (initialized dac3283) (oneWrite ++ onwards.flatten)) ∧
      trace (watch (blank dac3283)) (sent (blank dac3283)) (initialized dac3283) (oneWrite ++ onwards.flatten) =
        trace (watch (blank dac3283)) (commanded Chip.dac3283.serializer) (initialized dac3283) oneWrite ∧
      (trace (watch (blank dac3283)) (readings Chip.dac3283.serializer (blank dac3283)) (initialized dac3283)
          (oneWrite ++ onwards.flatten)).length =
        (trace (watch (blank dac3283)) asked (initialized dac3283) oneWrite).length ∧
      trace (watch (blank dac3283)) replies (initialized dac3283) (oneWrite ++ onwards.flatten) =
        acknowledged (trace (watch (blank dac3283)) asked (initialized dac3283) oneWrite)
          (trace (watch (blank dac3283)) (readings Chip.dac3283.serializer (blank dac3283)) (initialized dac3283)
            (oneWrite ++ onwards.flatten)) := by
  refine commands_are_carried_out .dac3283 (blank dac3283) (quiet_initialized dac3283) oneWrite_spaced (fun r member => ?_) ?_
  · obtain rfl := List.eq_of_mem_replicate member
    refine ⟨fun t member => ?_, ⟨{}, by simp⟩, true, false, by simp⟩
    rcases List.mem_pair.mp member with rfl | rfl
    · exact ⟨rfl, rfl⟩
    · trivial
  · rw [onwards, List.length_replicate]
    decide

end BpmAcquisition.SpiCtrl
