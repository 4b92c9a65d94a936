import BpmAcquisition.Hardware.SpiPowerUp

/-!
# Accesses over the bus

An access changes the level of one `valid` input with `rd_n_wr`, `addr` and `idata` at their ports, and leaves the
levels alone until the controller is quiet again. The chip takes the frames of the access, no
other chip takes any, and after a read `odata` is what the chip has sent.
-/

namespace BpmAcquisition.SpiCtrl

open Machine Pulse2pulse StellarCmd

/-! ### One controller of the bus -/

section
variable {roms : Roms} {s : Bus} {c : Chip}

def ticksOf (roms : Roms) (c : Chip) (s : Bus) (ps : List Ports) : List Tick :=
  trace (busEdge roms) (fun s p => s.ticks p c) s ps

theorem ticksOf_cons (s : Bus) (p : Ports) (rest : List Ports) :
    ticksOf roms c s (p :: rest) = s.ticks p c ++ ticksOf roms c (busEdge roms s p) rest := rfl

theorem chip_run (c : Chip) (s : Bus) (ps : List Ports) :
    (run (busEdge roms) s ps).chip c = run (watch (roms c)) (s.chip c) (ticksOf roms c s ps) := by
  induction ps generalizing s with
  | nil => rfl
  | cons p rest ih =>
    rw [run_cons, ih, ticksOf_cons, run_append]
    rfl

theorem afterClk_silent {i : Command} (silent : i.Silent) (rises sdi external : Bool) :
    ∀ t ∈ afterClk i rises sdi external, t.Silent := by
  cases rises with
  | false =>
    intro t member
    obtain rfl := List.mem_singleton.mp member
    exact silent
  | true =>
    intro t member
    rcases List.mem_pair.mp member with rfl | rfl
    · exact silent
    · trivial

theorem steady_silent {levels : Chip → Bool} {ps : List Ports} (steady : Steady levels s)
    (still : ∀ p ∈ ps, p.valid = levels) : ∀ t ∈ ticksOf roms c s ps, t.Silent := by
  induction ps generalizing s with
  | nil => simp [ticksOf]
  | cons p rest ih =>
    obtain ⟨here, others⟩ := List.forall_mem_cons.mp still
    intro t member
    rcases List.mem_append.mp member with now | later
    · exact afterClk_silent (silent_toController (steady.silent c)) _ _ _ t now
    · exact ih (steady_edge steady here) others t later

/-! ### Rounds -/

theorem clk_within {ps : List Ports} (some : ps ≠ []) : ∃ i, .clk i ∈ ticksOf roms c s ps := by
  cases ps with
  | nil => exact absurd rfl some
  | cons p rest => exact ⟨s.toController p c, List.mem_append_left _ (List.mem_cons_self ..)⟩

theorem serial_within {ps : List Ports} (enough : untilEdge c (s.divider c) < ps.length) :
    ∃ sdi external, .serial sdi external ∈ ticksOf roms c s ps := by
  induction ps generalizing s with
  | nil => simp at enough
  | cons p rest ih =>
    have clock := untilEdge_step c (s.divider c)
    cases rises : (s.divider c).rises c with
    | true =>
      refine ⟨s.sdi p c, p.externalClock, List.mem_append_left _ ?_⟩
      simp [Bus.ticks, afterClk, rises]
    | false =>
      rw [rises] at clock
      simp only [Bool.false_eq_true, if_false] at clock
      rw [List.length_cons] at enough
      obtain ⟨sdi, external, member⟩ := ih (s := busEdge roms s p)
        (show untilEdge c ((s.divider c).edge c) < rest.length by omega)
      exact ⟨sdi, external, List.mem_append_right _ member⟩

theorem long_round {levels : Chip → Bool} {ps : List Ports} (steady : Steady levels s)
    (still : ∀ p ∈ ps, p.valid = levels) (long : 18 ≤ ps.length) : Round (ticksOf roms c s ps) := by
  refine ⟨steady_silent steady still, clk_within ?_, serial_within ?_⟩
  · rintro rfl
    simp at long
  · exact Nat.lt_of_lt_of_le (untilEdge_lt c (s.divider c)) long

theorem steady_run {levels : Chip → Bool} {ps : List Ports} (steady : Steady levels s)
    (still : ∀ p ∈ ps, p.valid = levels) : Steady levels (run (busEdge roms) s ps) := by
  induction ps generalizing s with
  | nil => exact steady
  | cons p rest ih =>
    obtain ⟨here, others⟩ := List.forall_mem_cons.mp still
    exact ih (steady_edge steady here) others

theorem ticksOf_append (s : Bus) (front back : List Ports) :
    ticksOf roms c s (front ++ back) = ticksOf roms c s front ++ ticksOf roms c (run (busEdge roms) s front) back :=
  trace_append _ front back

variable (roms c) in
/-- Eighteen edges of `clk` make a round for each of the controllers. -/
theorem rounds_of_edges {levels : Chip → Bool} (m : Nat) {ps : List Ports} (steady : Steady levels s)
    (still : ∀ p ∈ ps, p.valid = levels) (enough : 18 * (m + 1) ≤ ps.length) :
    ∃ rounds : List (List Tick), rounds.length = m + 1 ∧ (∀ r ∈ rounds, Round r) ∧ ticksOf roms c s ps = rounds.flatten := by
  induction m generalizing s ps with
  | zero =>
    refine ⟨[ticksOf roms c s ps], rfl, fun r member => ?_, by simp⟩
    obtain rfl := List.mem_singleton.mp member
    exact long_round steady still (by omega)
  | succ m ih =>
    obtain ⟨front, back, length, rfl⟩ : ∃ front back, front.length = 18 ∧ ps = front ++ back :=
      ⟨ps.take 18, ps.drop 18, by rw [List.length_take]; omega, (List.take_append_drop 18 ps).symm⟩
    obtain ⟨early, later⟩ := List.forall_mem_append.mp still
    rw [List.length_append] at enough
    have first : Round (ticksOf roms c s front) := long_round steady early (by omega)
    have steady' : Steady levels (run (busEdge roms) s front) := steady_run steady early
    have enough' : 18 * (m + 1) ≤ back.length := by omega
    obtain ⟨rounds, count, both, same⟩ := ih steady' later enough'
    refine ⟨ticksOf roms c s front :: rounds, by simp [count], List.forall_mem_cons.mpr ⟨first, both⟩, ?_⟩
    rw [List.flatten_cons, ← same, ticksOf_append]

end

/-! ### A controller that nothing is commanded -/

section
variable {d : Device} (S : Serializer d) (rom : Rom d) {w : Watched d} {t : Tick}

include S in
theorem quiet_silent (quiet : Quiet w) (silent : t.Silent) : Quiet (watch rom w t) := by
  have returned : Returned S w :=
    ⟨⟨⟨⟨located_quiet S quiet, quiet.writes, quiet.reads⟩, quiet.instructions⟩, quiet.rest.idle⟩, quiet.received⟩
  refine returned_quiet S (returned_tick S rom returned silent) ?_
  show (tick rom w.ctrl t).answers.Ready
  rw [answers_tick S rom returned silent]
  exact ready_cross quiet.answers (within_passage.still t)

include S in
theorem quiet_emits (quiet : Quiet w) : sent rom w t = [] ∧ replies w t = [] := by
  cases t with
  | clk i => exact ⟨rfl, silent_replies (empty_pulse quiet.answers.empty)⟩
  | serial sdi external =>
    obtain ⟨-, none⟩ := rest_serial S rom sdi external quiet.settled quiet.rest (empty_pulse quiet.instructions.empty)
    exact ⟨by simp [sent, none], rfl⟩

include S in
theorem quiet_ticks {ts : List Tick} (quiet : Quiet w) (silent : ∀ t ∈ ts, t.Silent) :
    Quiet (run (watch rom) w ts) ∧ trace (watch rom) (sent rom) w ts = [] ∧ trace (watch rom) replies w ts = [] := by
  induction ts generalizing w with
  | nil => exact ⟨quiet, rfl, rfl⟩
  | cons t rest ih =>
    obtain ⟨here, others⟩ := List.forall_mem_cons.mp silent
    obtain ⟨final, noFrames, noReplies⟩ := ih (quiet_silent S rom quiet here) others
    obtain ⟨noFrame, noReply⟩ := quiet_emits S rom quiet (t := t)
    refine ⟨final, ?_, ?_⟩
    · rw [trace_cons, noFrame, noFrames, List.append_nil]
    · rw [trace_cons, noReply, noReplies, List.append_nil]

end

/-! ### One access -/

/-- An access of a chip: the ports when the level changes, and those after it. -/
structure Access where
  chip : Chip
  ports : Ports
  after : List Ports

def changed (c : Chip) (levels : Chip → Bool) : Chip → Bool := fun b => if b = c then !levels b else levels b

/-- The rounds of a command, an edge before them and one after. -/
def accessEdges (c : Chip) : Nat := 18 * (75 + c.serializer.periods) + 2

def Ports.address (p : Ports) : Address := (0 : BitVec 12) ++ p.addr

/-- It is no write of the global register that restarts the initialization. -/
def Access.Keeps (a : Access) : Prop :=
  a.ports.rdNWr = false → a.ports.address = a.chip.device.addrGlobal → a.ports.idata.getLsbD 0 = false

/-- One level changes, and the levels stay until the controller is quiet; a write of the global register does not
restart the initialization. -/
structure Access.Proper (a : Access) (levels : Chip → Bool) : Prop where
  changes : a.ports.valid = changed a.chip levels
  stays : ∀ p ∈ a.after, p.valid = changed a.chip levels
  enough : accessEdges a.chip ≤ a.after.length
  keeps : a.Keeps

def Access.frames (a : Access) : List (List (Option Bool)) :=
  if a.ports.rdNWr then readFrames a.chip.serializer a.ports.address
  else writeFrames a.chip.serializer a.ports.address a.ports.idata

section
variable {roms : Roms} {levels : Chip → Bool} {s : Bus} {p : Ports} {c : Chip}

/-- The controllers take every address. -/
theorem in_range (addr : Address) : (decide (generics.startAddr ≤ addr) && decide (addr ≤ generics.stopAddr)) = true := by
  have short := addr.isLt
  rw [Bool.and_eq_true, decide_eq_true_iff, decide_eq_true_iff, BitVec.le_def, BitVec.le_def]
  exact ⟨Nat.zero_le _, Nat.le_of_lt_succ short⟩

/-- What a controller is given with `in_cmd_val`. -/
theorem given_command {i : Command} (val : i.inCmdVal = true) (cmd : i.inCmd = p.command) :
    i.write = (if p.rdNWr then none else some (p.address, p.idata)) ∧ i.read = if p.rdNWr then some p.address else none := by
  have code : CmdIn.code ⟨i.inCmdVal, i.inCmd, 0, 0⟩ = if p.rdNWr then cmdRd else cmdWr := by
    rw [CmdIn.code, cmd, Ports.command, packet_code]
  have address : CmdIn.address ⟨i.inCmdVal, i.inCmd, 0, 0⟩ = p.address := by
    rw [CmdIn.address, cmd, Ports.command, packet_address]
    rfl
  have word : CmdIn.word ⟨i.inCmdVal, i.inCmd, 0, 0⟩ = p.idata := by
    rw [CmdIn.word, cmd, Ports.command, packet_word]
  have start : p.address - generics.startAddr = p.address := BitVec.sub_zero p.address
  have hits : ∀ command, CmdIn.hits generics command ⟨i.inCmdVal, i.inCmd, 0, 0⟩ =
      ((if p.rdNWr then cmdRd else cmdWr) == command) := by
    intro command
    rw [CmdIn.hits, code, address, Bool.and_assoc, in_range]
    simp [val]
  constructor
  · rw [Command.write, CmdIn.write, hits, address, word, start]
    cases p.rdNWr <;> rfl
  · rw [Command.read, CmdIn.read, hits, address, start]
    cases p.rdNWr <;> rfl

/-! #### The chip of the access -/

variable {d : Device} (S : Serializer d) (rom : Rom d) {w : Watched d} {t : Tick} {ts : List Tick}

theorem command_spaced {i : Command} (rises sdi external : Bool) {later : List Tick} (quiet : Quiet w)
    (keeps : ∀ w, i.write = some (d.addrGlobal, w) → w.getLsbD 0 = false) (silent : ∀ t ∈ later, t.Silent) :
    Along (watch rom) Spaced w (afterClk i rises sdi external ++ later) := by
  have first : Along (watch rom) Spaced w (afterClk i rises sdi external) := by
    cases rises with
    | false => exact ⟨⟨fun _ => quiet, keeps⟩, trivial⟩
    | true => exact ⟨⟨fun _ => quiet, keeps⟩, trivial, trivial⟩
  rw [along_append]
  exact ⟨first, along_mono (fun _ _ => silent_spaced) (along_of_inputs silent)⟩

/-- After its rounds a controller is quiet again. -/
theorem command_quiet {i : Command} (rises sdi external : Bool) {rounds : List (List Tick)} (quiet : Quiet w)
    (keeps : ∀ w, i.write = some (d.addrGlobal, w) → w.getLsbD 0 = false) (both : ∀ r ∈ rounds, Round r)
    (enough : 75 + S.periods ≤ rounds.length) :
    Quiet (run (watch rom) w (afterClk i rises sdi external ++ rounds.flatten)) := by
  have none : ∀ t ∈ ([] : List Tick), t.Silent := by simp
  have first := command_spaced rom rises sdi external quiet keeps none
  rw [List.append_nil] at first
  have located : Located S (run (watch rom) w (afterClk i rises sdi external)) :=
    run_invariant (fun s t held meets => located_tick S rom held meets) (located_quiet S quiet) first
  rw [run_append]
  exact leadsTo_quiet S rom _ rounds located both enough

/-- The frames and the answers of a controller that is given one command and then left alone, when it is quiet again. -/
theorem one_command {i : Command} (rises sdi external : Bool) {later : List Tick} (quiet : Quiet w)
    (keeps : ∀ w, i.write = some (d.addrGlobal, w) → w.getLsbD 0 = false) (silent : ∀ t ∈ later, t.Silent)
    (final : Quiet (run (watch rom) w (afterClk i rises sdi external ++ later))) :
    trace (watch rom) (sent rom) w (afterClk i rises sdi external ++ later) = commanded S w (.clk i) ∧
      trace (watch rom) replies w (afterClk i rises sdi external ++ later) =
        trace (watch rom) (toAnswer S rom) w (afterClk i rises sdi external ++ later) := by
  have spaced := command_spaced rom rises sdi external quiet keeps silent
  refine ⟨?_, replies_when_quiet S rom quiet spaced final⟩
  rw [frames_when_quiet S rom quiet spaced final, trace_append, silent_trace S rom silent, List.append_nil]
  cases rises <;> simp [afterClk, commanded]

/-- No read of the global register is on its way. -/
def Plain (w : Watched d) : Prop := w.ctrl.addr ≠ d.addrGlobal ∨ w.ctrl.reads.Empty

theorem addr_silent (silent : t.Silent) : (watch rom w t).ctrl.addr = w.ctrl.addr := by
  cases t with
  | clk i => exact addr_still rom silent.2
  | serial sdi external => rfl

theorem plain_tick (plain : Plain w) (silent : t.Silent) : Plain (watch rom w t) := by
  rcases plain with apart | empty
  · left
    rw [addr_silent rom silent]
    exact apart
  · right
    show (tick rom w.ctrl t).reads.Empty
    rw [reads_tick rom silent]
    exact empty_cross empty (within_passage.still t)

/-- Only frames that have read are answered. -/
theorem plain_answer (plain : Plain w) (t : Tick) :
    toAnswer S rom w t =
      ((frames rom w t).filterMap S.reads).map fun y => reply w.ctrl.addr (d.readBack w.ctrl.addr y) := by
  cases t with
  | serial sdi external => simp [toAnswer, readings, acknowledge]
  | clk i =>
    have noGlobal : (w.ctrl.clkIn i).readsGlobal = false := by
      rcases plain with apart | empty
      · have other : ((w.ctrl.clkIn i).inRegAddr == d.addrGlobal) = false := beq_eq_false_iff_ne.mpr apart
        rw [ClkIn.readsGlobal, other, Bool.and_false]
      · exact (no_read (empty_pulse empty)).2
    simp [toAnswer, readings, noGlobal, frames]

theorem plain_answers (plain : Plain w) (silent : ∀ t ∈ ts, t.Silent) :
    trace (watch rom) (toAnswer S rom) w ts =
      ((trace (watch rom) (frames rom) w ts).filterMap S.reads).map fun y =>
        reply w.ctrl.addr (d.readBack w.ctrl.addr y) := by
  induction ts generalizing w with
  | nil => rfl
  | cons t rest ih =>
    obtain ⟨here, others⟩ := List.forall_mem_cons.mp silent
    have later := ih (plain_tick rom plain here) others
    rw [addr_silent rom here] at later
    rw [trace_cons, trace_cons, plain_answer S rom plain, later, List.filterMap_append, List.map_append]

/-- The answers to one command, by what its frames have read. -/
theorem command_answers {i : Command} (quiet : Quiet w) (silent : ∀ t ∈ ts, t.Silent)
    (plain : Plain (watch rom w (.clk i))) :
    trace (watch rom) (toAnswer S rom) w (.clk i :: ts) =
      ((trace (watch rom) (frames rom) w (.clk i :: ts)).filterMap S.reads).map fun y =>
        reply (watch rom w (.clk i)).ctrl.addr (d.readBack (watch rom w (.clk i)).ctrl.addr y) := by
  have first : toAnswer S rom w (.clk i) = [] := silent_toAnswer S rom (empty_pulse quiet.reads.empty)
  rw [trace_cons, trace_cons, first, plain_answers S rom plain silent]
  rfl

theorem sent_frames (w : Watched d) (ts : List Tick) :
    trace (watch rom) (sent rom) w ts = (trace (watch rom) (frames rom) w ts).map (·.map Prod.fst) :=
  trace_map (frames rom) _ ts

theorem data_reply (addr : Address) (word : Word) : data (reply addr word) = word :=
  packet_word cmdRdAck addr word

/-- What `odata` is going to be: the word that is shown, or the one that is there. -/
def Bus.next (s : Bus) (c : Chip) : Word := ((s.ctrl c).shown).getD s.odata

def latest (w : Word) (ws : List Word) : Word := ws.foldl (fun _ new => new) w

theorem getD_latest {shown : Option Word} {ws : List Word} (same : shown.toList = ws) (w : Word) :
    shown.getD w = latest w ws := by
  subst same
  cases shown <;> rfl

theorem command_addr {i : Command} {addr : Address} (read : i.read = some addr) :
    (watch rom w (.clk i)).ctrl.addr = addr := by
  show (tick rom w.ctrl (.clk i)).reads.data = addr
  rw [reads_clk]
  exact congrArg (fun r : Option Address => (cross w.ctrl.reads ⟨some r, true⟩).data) read

/-- One command between two stretches without any. -/
theorem access_ticks {before later : List Tick} {i : Command} (rises sdi external : Bool) (quiet : Quiet w)
    (silent : ∀ t ∈ before, t.Silent) (keeps : ∀ w, i.write = some (d.addrGlobal, w) → w.getLsbD 0 = false)
    (silent' : ∀ t ∈ later, t.Silent)
    (final : Quiet (run (watch rom) w (before ++ (afterClk i rises sdi external ++ later)))) :
    trace (watch rom) (sent rom) w (before ++ (afterClk i rises sdi external ++ later)) = commanded S w (.clk i) ∧
      (i.read ≠ some d.addrGlobal → ∃ addr, (∀ asked, i.read = some asked → addr = asked) ∧
        trace (watch rom) replies w (before ++ (afterClk i rises sdi external ++ later)) =
          ((trace (watch rom) (frames rom) w (before ++ (afterClk i rises sdi external ++ later))).filterMap
            S.reads).map fun y => reply addr (d.readBack addr y)) := by
  obtain ⟨quiet', noFrames, noReplies⟩ := quiet_ticks S rom quiet silent
  have noBits : trace (watch rom) (frames rom) w before = [] := by
    rw [sent_frames, List.map_eq_nil_iff] at noFrames
    exact noFrames
  rw [run_append] at final
  obtain ⟨taken, answered⟩ := one_command S rom rises sdi external quiet' keeps silent' final
  rw [trace_append (sent rom) before, trace_append replies before, trace_append (frames rom) before, noFrames,
    noReplies, noBits, taken, answered]
  refine ⟨rfl, fun other => ⟨(watch rom (run (watch rom) w before) (.clk i)).ctrl.addr, ?_, ?_⟩⟩
  · exact fun asked read => command_addr rom read
  · have after : ∀ t ∈ (if rises then [Tick.serial sdi external] else []) ++ later, t.Silent := by
      rw [List.forall_mem_append]
      refine ⟨?_, silent'⟩
      cases rises <;> simp [Tick.Silent]
    have plain : Plain (watch rom (run (watch rom) w before) (.clk i)) := by
      cases read : i.read with
      | some asked =>
        left
        rw [command_addr rom read]
        exact fun same => other (read.trans (congrArg some same))
      | none =>
        right
        show (tick rom _ (.clk i)).reads.Empty
        rw [reads_still rom read]
        exact empty_still quiet'.reads.empty (some ()) true
    exact command_answers S rom quiet' after plain

/-! #### The other controllers -/

structure Apart (c : Chip) (s : Bus) : Prop where
  unmailed : ∀ b, Unmailed (s.ctrl b)
  quiet : ∀ b, b ≠ c → Quiet (s.chip b)
  shown : ∀ b, b ≠ c → (s.ctrl b).shown = none

variable (roms) in
theorem apart_edge (apart : Apart c s) (silent : ∀ b, b ≠ c → s.inCmdVal b = false) (p : Ports) :
    Apart c (busEdge roms s p) ∧
      busFrames roms s p = (trace (watch (roms c)) (sent (roms c)) (s.chip c) (s.ticks p c)).map (c, ·) ∧
      (busEdge roms s p).next c =
        latest (s.next c) ((trace (watch (roms c)) replies (s.chip c) (s.ticks p c)).map data) := by
  have others : ∀ b, b ≠ c → Quiet ((busEdge roms s p).chip b) ∧
      trace (watch (roms b)) (sent (roms b)) (s.chip b) (s.ticks p b) = [] ∧
      trace (watch (roms b)) replies (s.chip b) (s.ticks p b) = [] := fun b other =>
    quiet_ticks b.serializer (roms b) (apart.quiet b other)
      (afterClk_silent (silent_toController (p := p) (silent b other)) _ _ _)
  have shown' : ∀ b, ((busEdge roms s p).ctrl b).shown.toList =
      (trace (watch (roms b)) replies (s.chip b) (s.ticks p b)).map data := fun b =>
    shown_afterClk (roms b) (apart.unmailed b) _ _ _ _
  refine ⟨⟨fun b => unmailed_run (roms b) (apart.unmailed b) _, fun b other => (others b other).1, fun b other => ?_⟩, ?_, ?_⟩
  · have none := shown' b
    rw [(others b other).2.2] at none
    exact Option.toList_eq_nil_iff.mp none
  · have none : ∀ b, b ≠ c → (trace (watch (roms b)) (sent (roms b)) (s.chip b) (s.ticks p b)).map (b, ·) = [] :=
      fun b other => by rw [(others b other).2.1]; rfl
    cases c <;> simp [busFrames, chips, none]
  · have answered : s.answered = (s.ctrl c).shown := firstOf_alone apart.shown
    have odata : (busEdge roms s p).odata = s.next c := congrArg (·.getD s.odata) answered
    rw [Bus.next, odata]
    exact getD_latest (shown' c) _

theorem latest_append (v : Word) (a b : List Word) : latest (latest v a) b = latest v (a ++ b) :=
  List.foldl_append.symm

variable (roms) in
theorem apart_run {ps : List Ports} (apart : Apart c s)
    (silent : Along (busEdge roms) (fun s _ => ∀ b, b ≠ c → s.inCmdVal b = false) s ps) :
    Apart c (run (busEdge roms) s ps) ∧
      trace (busEdge roms) (busFrames roms) s ps =
        (trace (watch (roms c)) (sent (roms c)) (s.chip c) (ticksOf roms c s ps)).map (c, ·) ∧
      (run (busEdge roms) s ps).next c =
        latest (s.next c) ((trace (watch (roms c)) replies (s.chip c) (ticksOf roms c s ps)).map data) := by
  induction ps generalizing s with
  | nil => exact ⟨apart, rfl, rfl⟩
  | cons p rest ih =>
    obtain ⟨next, frames, word⟩ := apart_edge roms apart silent.1 p
    obtain ⟨final, others, last⟩ := ih next silent.2
    refine ⟨final, ?_, ?_⟩
    · rw [trace_cons, frames, others, ticksOf_cons, trace_append, List.map_append]
      rfl
    · rw [run_cons, last, word, latest_append, ticksOf_cons, trace_append, List.map_append]
      rfl

end

section
variable {roms : Roms} {levels : Chip → Bool} {s : Bus} {a : Access} {q : Ports} {rest : List Ports}

theorem changed_val (c b : Chip) (levels : Chip → Bool) : xor (changed c levels b) (levels b) = decide (b = c) := by
  by_cases same : b = c <;> simp [changed, same]

variable (roms) in
/-- The command is given at the second edge, and only then, and only to the chip of the access. -/
theorem access_command (steady : Steady levels s) (changes : a.ports.valid = changed a.chip levels)
    (stays : q.valid = changed a.chip levels) :
    (∀ b, (busEdge roms s a.ports).inCmdVal b = decide (b = a.chip)) ∧
      (busEdge roms s a.ports).inCmd = a.ports.command ∧
      Steady (changed a.chip levels) (busEdge roms (busEdge roms s a.ports) q) := by
  refine ⟨fun b => ?_, rfl, stays, fun b => ?_⟩
  · show xor (a.ports.valid b) (s.validPrev b) = _
    rw [changes, steady.validPrev, changed_val]
  · show xor (q.valid b) (a.ports.valid b) = false
    rw [stays, changes, Bool.xor_self]

theorem access_silent (steady : Steady levels s) (changes : a.ports.valid = changed a.chip levels)
    (stays : ∀ p ∈ q :: rest, p.valid = changed a.chip levels) :
    Along (busEdge roms) (fun s _ => ∀ b, b ≠ a.chip → s.inCmdVal b = false) s (a.ports :: q :: rest) := by
  obtain ⟨here, others⟩ := List.forall_mem_cons.mp stays
  obtain ⟨val, -, steady'⟩ := access_command roms steady changes here
  refine ⟨fun b _ => steady.silent b, fun b other => ?_, ?_⟩
  · rw [val, decide_eq_false other]
  · generalize busEdge roms (busEdge roms s a.ports) q = t at steady'
    clear stays
    induction rest generalizing t with
    | nil => trivial
    | cons p rest ih =>
      obtain ⟨still, later⟩ := List.forall_mem_cons.mp others
      exact ⟨fun b _ => steady'.silent b, ih later _ (steady_edge steady' still)⟩

/-- What the controller of the chip is given at the second edge. -/
def Access.command (roms : Roms) (s : Bus) (a : Access) (q : Ports) : Command :=
  (busEdge roms s a.ports).toController q a.chip

variable (roms) in
theorem access_given (steady : Steady levels s) (changes : a.ports.valid = changed a.chip levels)
    (here : q.valid = changed a.chip levels) :
    (a.command roms s q).write = (if a.ports.rdNWr then none else some (a.ports.address, a.ports.idata)) ∧
      (a.command roms s q).read = if a.ports.rdNWr then some a.ports.address else none := by
  obtain ⟨val, cmd, -⟩ := access_command roms steady changes here
  exact given_command ((val a.chip).trans (decide_eq_true rfl)) cmd

theorem access_keeps (keeps : a.Keeps) (steady : Steady levels s) (changes : a.ports.valid = changed a.chip levels)
    (here : q.valid = changed a.chip levels) (w : Word)
    (given : (a.command roms s q).write = some (a.chip.device.addrGlobal, w)) : w.getLsbD 0 = false := by
  rw [(access_given roms steady changes here).1] at given
  cases direction : a.ports.rdNWr with
  | true => simp [direction] at given
  | false =>
    simp only [direction, Bool.false_eq_true, if_false, Option.some.injEq, Prod.mk.injEq] at given
    rw [← given.2]
    exact keeps direction given.1

variable (roms) in
/-- With enough edges after it the chip of the access is quiet again. -/
theorem access_quiet (atRest : AtRest levels s) (changes : a.ports.valid = changed a.chip levels)
    (stays : ∀ p ∈ q :: rest, p.valid = changed a.chip levels) (keeps : a.Keeps)
    (enough : 18 * (75 + a.chip.serializer.periods) ≤ rest.length) :
    Quiet ((run (busEdge roms) s (a.ports :: q :: rest)).chip a.chip) := by
  obtain ⟨here, others⟩ := List.forall_mem_cons.mp stays
  obtain ⟨-, -, steady⟩ := access_command roms atRest.steady changes here
  obtain ⟨rounds, count, both, tail⟩ := rounds_of_edges roms a.chip (74 + a.chip.serializer.periods) steady others (by omega)
  have silent : ∀ t ∈ s.ticks a.ports a.chip, t.Silent :=
    afterClk_silent (silent_toController (atRest.steady.silent a.chip)) _ _ _
  obtain ⟨quiet, -, -⟩ := quiet_ticks a.chip.serializer (roms a.chip) (atRest.quiet a.chip) silent
  rw [chip_run, ticksOf_cons, ticksOf_cons, tail, run_append]
  exact command_quiet a.chip.serializer (roms a.chip) _ _ _ quiet (access_keeps keeps atRest.steady changes here) both
    (by omega)

variable (roms) in
/-- What the access does at its chip, which is quiet again. -/
theorem access_chip (atRest : AtRest levels s) (changes : a.ports.valid = changed a.chip levels)
    (stays : ∀ p ∈ q :: rest, p.valid = changed a.chip levels) (keeps : a.Keeps)
    (final : Quiet ((run (busEdge roms) s (a.ports :: q :: rest)).chip a.chip)) :
    trace (watch (roms a.chip)) (sent (roms a.chip)) (s.chip a.chip) (ticksOf roms a.chip s (a.ports :: q :: rest)) =
        a.frames ∧
      (a.ports.rdNWr = false ∨ a.ports.address ≠ a.chip.device.addrGlobal → ∃ addr,
        (a.ports.rdNWr = true → addr = a.ports.address) ∧
        trace (watch (roms a.chip)) replies (s.chip a.chip) (ticksOf roms a.chip s (a.ports :: q :: rest)) =
          ((trace (watch (roms a.chip)) (frames (roms a.chip)) (s.chip a.chip)
              (ticksOf roms a.chip s (a.ports :: q :: rest))).filterMap a.chip.serializer.reads).map fun y =>
            reply addr (a.chip.device.readBack addr y)) := by
  obtain ⟨here, others⟩ := List.forall_mem_cons.mp stays
  obtain ⟨-, -, steady⟩ := access_command roms atRest.steady changes here
  obtain ⟨write, read⟩ := access_given roms atRest.steady changes here
  have silent : ∀ t ∈ s.ticks a.ports a.chip, t.Silent :=
    afterClk_silent (silent_toController (atRest.steady.silent a.chip)) _ _ _
  rw [chip_run, ticksOf_cons, ticksOf_cons] at final
  obtain ⟨taken, answered⟩ := access_ticks a.chip.serializer (roms a.chip)
    (((busEdge roms s a.ports).divider a.chip).rises a.chip) ((busEdge roms s a.ports).sdi q a.chip) q.externalClock
    (atRest.quiet a.chip) silent (access_keeps keeps atRest.steady changes here) (steady_silent steady others) final
  rw [ticksOf_cons, ticksOf_cons]
  refine ⟨taken.trans ?_, fun direct => ?_⟩
  · show commanded a.chip.serializer (s.chip a.chip) (.clk (a.command roms s q)) = _
    simp only [commanded, write, read, Access.frames]
    cases a.ports.rdNWr <;> rfl
  · have other : (a.command roms s q).read ≠ some a.chip.device.addrGlobal := by
      rw [read]
      cases direction : a.ports.rdNWr with
      | false => simp
      | true => simpa [direction] using direct
    obtain ⟨addr, same, replied⟩ := answered other
    refine ⟨addr, fun direction => same _ ?_, replied⟩
    show (a.command roms s q).read = _
    rw [read, if_pos direction]

theorem frames_read (addr : Address) (w : Word) {d : Device} (S : Serializer d) {taken : List (List Sample)}
    (sent : taken.map (·.map Prod.fst) = writeFrames S addr w) : taken.filterMap S.reads = [] := by
  unfold writeFrames at sent
  split at sent
  · exact S.write_reads addr w taken sent
  · rw [List.map_eq_nil_iff.mp sent]
    rfl

theorem quiet_busy {d : Device} {w : Watched d} (quiet : Quiet w) : w.ctrl.serial.busy = false := by
  simp [SerialSide.busy, quiet.rest.idle, quiet.settled.initReg]

theorem next_unshown {c : Chip} (unshown : (s.ctrl c).shown = none) : s.next c = s.odata := by
  rw [Bus.next, unshown]
  rfl

variable (roms) in
/-- After one more edge at a quiet bus nothing is shown and `busy` is low. -/
theorem settle_edge {c : Chip} (steady : Steady levels s) (apart : Apart c s) (quiet : Quiet (s.chip c)) {p : Ports}
    (still : p.valid = levels) : AtRest levels (busEdge roms s p) ∧ (busEdge roms s p).busy = false := by
  have all : ∀ b, Quiet (s.chip b) := fun b => by
    by_cases same : b = c
    · exact same ▸ quiet
    · exact apart.quiet b same
  have ticked : ∀ b, Quiet ((busEdge roms s p).chip b) ∧ _ ∧ trace (watch (roms b)) replies (s.chip b) (s.ticks p b) = [] :=
    fun b => quiet_ticks b.serializer (roms b) (all b) (afterClk_silent (silent_toController (steady.silent b)) _ _ _)
  refine ⟨⟨steady_edge steady still, fun b => (ticked b).1, fun b => ?_, fun b => ?_⟩, ?_⟩
  · exact unmailed_run (roms b) (apart.unmailed b) _
  · have shown : ((busEdge roms s p).ctrl b).shown.toList = _ := shown_afterClk (roms b) (apart.unmailed b) _ _ _ _
    have none := shown.trans (congrArg (List.map data) (ticked b).2.2)
    exact Option.toList_eq_nil_iff.mp none
  · have idle : ∀ b, s.cmdBusy b = false := fun b => quiet_busy (all b)
    simp [busEdge, idle]

/-- What comes of an access at the bus: it is at rest again, with `busy` low, and the chip of the access alone has taken
frames. A write leaves `odata`; after a read it is what one of the frames has read. -/
structure Accessed (roms : Roms) (levels : Chip → Bool) (s : Bus) (a : Access) : Prop where
  atRest : AtRest (changed a.chip levels) (run (busEdge roms) s (a.ports :: a.after))
  idle : (run (busEdge roms) s (a.ports :: a.after)).busy = false
  frames : trace (busEdge roms) (busFrames roms) s (a.ports :: a.after) = a.frames.map (a.chip, ·)
  written : a.ports.rdNWr = false → (run (busEdge roms) s (a.ports :: a.after)).odata = s.odata
  read : a.ports.rdNWr = true → a.ports.address ≤ a.chip.device.addrMaxRd →
    ∃ y, (trace (watch (roms a.chip)) (SpiCtrl.frames (roms a.chip)) (s.chip a.chip)
          (ticksOf roms a.chip s (a.ports :: a.after))).filterMap a.chip.serializer.reads = [y] ∧
      (run (busEdge roms) s (a.ports :: a.after)).odata = a.chip.device.readBack a.ports.address y

variable (roms) in
/-- It is so one edge after the chip has become quiet. -/
theorem access_over {middle : List Ports} {z : Ports} (atRest : AtRest levels s)
    (changes : a.ports.valid = changed a.chip levels) (stays : ∀ p ∈ a.after, p.valid = changed a.chip levels)
    (keeps : a.Keeps) (split : a.after = q :: (middle ++ [z]))
    (quiet : Quiet ((run (busEdge roms) s (a.ports :: q :: middle)).chip a.chip)) : Accessed roms levels s a := by
  rw [split] at stays
  obtain ⟨here, later⟩ := List.forall_mem_cons.mp stays
  obtain ⟨early, final⟩ := List.forall_mem_append.mp later
  have apart : Apart a.chip s := ⟨atRest.unmailed, fun b _ => atRest.quiet b, fun b _ => atRest.shown b⟩
  obtain ⟨-, taken, word⟩ := apart_run roms apart (access_silent atRest.steady changes stays)
  obtain ⟨apart', -, -⟩ :=
    apart_run roms apart (access_silent atRest.steady changes (List.forall_mem_cons.mpr ⟨here, early⟩))
  have steady' : Steady (changed a.chip levels) (run (busEdge roms) (busEdge roms (busEdge roms s a.ports) q) middle) :=
    steady_run (access_command roms atRest.steady changes here).2.2 early
  have last : run (busEdge roms) s (a.ports :: q :: (middle ++ [z])) =
      busEdge roms (run (busEdge roms) (busEdge roms (busEdge roms s a.ports) q) middle) z := by
    rw [run_cons, run_cons, run_append]
    rfl
  obtain ⟨rest', idle⟩ := settle_edge roms steady' apart' quiet (final z (by simp))
  rw [← last] at rest' idle
  obtain ⟨sentAll, answered⟩ := access_chip roms atRest changes stays keeps (rest'.quiet a.chip)
  rw [next_unshown (rest'.shown a.chip), next_unshown (atRest.shown a.chip)] at word
  refine ⟨?_, ?_, ?_, fun direction => ?_, fun direction within => ?_⟩
  · rw [split]
    exact rest'
  · rw [split]
    exact idle
  · rw [split, taken, sentAll]
  · obtain ⟨addr, -, replied⟩ := answered (Or.inl direction)
    rw [sent_frames, Access.frames, direction] at sentAll
    rw [split, word, replied, frames_read _ _ a.chip.serializer sentAll]
    rfl
  · have other : a.ports.address ≠ a.chip.device.addrGlobal := fun same =>
      absurd (same ▸ within) (BitVec.not_le.mpr a.chip.serializer.apart)
    obtain ⟨addr, same, replied⟩ := answered (Or.inr other)
    obtain rfl := same direction
    rw [sent_frames, Access.frames, if_pos direction, readFrames, if_pos within] at sentAll
    obtain ⟨y, read⟩ := a.chip.serializer.read_reads _ _ sentAll
    rw [split]
    refine ⟨y, read, ?_⟩
    rw [word, replied, read]
    exact data_reply _ _

variable (roms) in
theorem access_bus (atRest : AtRest levels s) (proper : a.Proper levels) : Accessed roms levels s a := by
  obtain ⟨changes, stays, enough, keeps⟩ := proper
  unfold accessEdges at enough
  obtain ⟨q, middle, z, split⟩ : ∃ q middle z, a.after = q :: (middle ++ [z]) := by
    cases after : a.after with
    | nil => simp [after] at enough
    | cons q rest =>
      obtain rfl | ⟨middle, z, rfl⟩ := List.eq_nil_or_concat' rest
      · simp [after] at enough
      · exact ⟨q, middle, z, rfl⟩
  refine access_over roms atRest changes stays keeps split (access_quiet roms atRest changes ?_ keeps ?_)
  · intro p member
    refine stays p ?_
    rw [split]
    simp only [List.mem_cons, List.mem_append] at member ⊢
    tauto
  · rw [split] at enough
    simp only [List.length_cons, List.length_append, List.length_nil] at enough
    omega

/-- The levels before each access are those that the one before it has left. -/
def Properly : (Chip → Bool) → List Access → Prop
  | _, [] => True
  | levels, a :: rest => a.Proper levels ∧ Properly (changed a.chip levels) rest

def Access.edges (a : Access) : List Ports := a.ports :: a.after

end

/-- An access ends with the bus at rest and `busy` low, and what its chip has taken are the frames of the access: no other
chip has been selected. A write leaves `odata` as it was; a read of a register leaves there what the chip has sent. -/
theorem access_exact (roms : Roms) {levels : Chip → Bool} {s : Bus} (atRest : AtRest levels s) {a : Access}
    (proper : a.Proper levels) :
    AtRest (changed a.chip levels) (run (busEdge roms) s a.edges) ∧
      (run (busEdge roms) s a.edges).busy = false ∧
      trace (busEdge roms) (busFrames roms) s a.edges = a.frames.map (a.chip, ·) ∧
      (a.ports.rdNWr = false → (run (busEdge roms) s a.edges).odata = s.odata) ∧
      (a.ports.rdNWr = true → a.ports.address ≤ a.chip.device.addrMaxRd →
        ∃ y, (trace (watch (roms a.chip)) (frames (roms a.chip)) (s.chip a.chip)
              (ticksOf roms a.chip s a.edges)).filterMap a.chip.serializer.reads = [y] ∧
          (run (busEdge roms) s a.edges).odata = a.chip.device.readBack a.ports.address y) := by
  have accessed := access_bus roms atRest proper
  exact ⟨accessed.atRest, accessed.idle, accessed.frames, accessed.written, accessed.read⟩

/-- The bus after the initializations. -/
def idleBus : Bus := { fresh with chip := fun c => initialized c.device }

theorem idleBus_atRest : AtRest low idleBus :=
  ⟨⟨rfl, fun _ => rfl⟩, fun c => quiet_initialized c.device, fun _ => ⟨rfl, rfl⟩, fun _ => rfl⟩

/-- A read of register 5 of `ads62p49`. -/
def oneAccess : Access where
  chip := .ads62p49
  ports := { calmPorts with rdNWr := true, addr := 5, valid := changed .ads62p49 low }
  after := List.replicate 1700 { calmPorts with valid := changed .ads62p49 low }

theorem oneAccess_proper : oneAccess.Proper low := by
  refine ⟨rfl, fun p member => ?_, ?_, fun direction => absurd direction (by decide)⟩
  · obtain rfl := List.eq_of_mem_replicate member
    rfl
  · rw [oneAccess, List.length_replicate]
    decide

theorem oneAccess_exact :
    AtRest (changed .ads62p49 low) (run (busEdge oneWord) idleBus oneAccess.edges) ∧
      (run (busEdge oneWord) idleBus oneAccess.edges).busy = false ∧
      trace (busEdge oneWord) (busFrames oneWord) idleBus oneAccess.edges = oneAccess.frames.map (.ads62p49, ·) ∧
      (oneAccess.ports.rdNWr = false → (run (busEdge oneWord) idleBus oneAccess.edges).odata = idleBus.odata) ∧
      (oneAccess.ports.rdNWr = true → oneAccess.ports.address ≤ ads62p49.addrMaxRd →
        ∃ y, (trace (watch (oneWord .ads62p49)) (frames (oneWord .ads62p49)) (idleBus.chip .ads62p49)
              (ticksOf oneWord .ads62p49 idleBus oneAccess.edges)).filterMap Chip.ads62p49.serializer.reads = [y] ∧
          (run (busEdge oneWord) idleBus oneAccess.edges).odata = ads62p49.readBack oneAccess.ports.address y) :=
  access_exact oneWord idleBus_atRest oneAccess_proper

/-- Any sequence of accesses, of whatever chips, none of which restarts an initialization: the frames on the bus are theirs, in their
order. -/
theorem accesses_in_order (roms : Roms) {levels : Chip → Bool} {s : Bus} (atRest : AtRest levels s) {as : List Access}
    (proper : Properly levels as) :
    (∃ levels', AtRest levels' (run (busEdge roms) s (as.flatMap Access.edges))) ∧
      trace (busEdge roms) (busFrames roms) s (as.flatMap Access.edges) = as.flatMap fun a => a.frames.map (a.chip, ·) := by
  induction as generalizing levels s with
  | nil => exact ⟨⟨levels, atRest⟩, rfl⟩
  | cons a rest ih =>
    obtain ⟨here, others⟩ := proper
    obtain ⟨atRest', -, taken, -, -⟩ := access_bus roms atRest here
    obtain ⟨final, later⟩ := ih atRest' others
    rw [List.flatMap_cons, run_append, trace_append, List.flatMap_cons, ← taken, ← later]
    exact ⟨final, rfl⟩

theorem oneAccess_in_order :
    (∃ levels', AtRest levels' (run (busEdge oneWord) idleBus ([oneAccess].flatMap Access.edges))) ∧
      trace (busEdge oneWord) (busFrames oneWord) idleBus ([oneAccess].flatMap Access.edges) =
        [oneAccess].flatMap fun a => a.frames.map (a.chip, ·) :=
  accesses_in_order oneWord idleBus_atRest ⟨oneAccess_proper, trivial⟩

end BpmAcquisition.SpiCtrl
