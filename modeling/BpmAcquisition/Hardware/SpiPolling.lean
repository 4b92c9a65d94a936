import BpmAcquisition.Hardware.SpiAccess

/-!
# Polling `busy`

Software that does not wait for a write polls `busy` before its next access. The serial machine is busy from the instruction on
until the frame is out, and by then every link is ready again; but it takes the command some time to get there.
`polling_is_sound` has the edges after which a bus that is not busy is at rest.
-/

namespace BpmAcquisition.SpiCtrl

open Machine Pulse2pulse StellarCmd

variable {d : Device} (S : Serializer d) (rom : Rom d)

/-- A write is one frame, and the frame takes longer than the way back of its instruction. -/
def OneFrame : Prop := ∀ addr w, ∃ f, S.writeFrames addr w = [f] ∧ 16 ≤ f.length

theorem writes_one_frame (c : Chip) : OneFrame c.serializer := by
  intro addr w
  cases c with
  | cdce72010 => exact ⟨_, rfl, by rw [lsbBits_length]; decide⟩
  | ads62p49 => exact ⟨_, rfl, by rw [frameBits_length]⟩
  | dac3283 => exact ⟨_, rfl, by rw [frameBits_length]⟩
  | amc7823 => exact ⟨_, rfl, by rw [frameBits_length]; decide⟩

/-! ### A write under way -/

/-- A write is what is under way, or nothing is: what is to be read or answered is not on any way. -/
structure Owing (s : Watched d) : Prop where
  sounds : Sounds s.ctrl
  settled : Settled s.ctrl
  reads : s.ctrl.reads.Ready
  received : s.ctrl.received.Ready
  answers : s.ctrl.answers.Ready
  place : ∃ p, At S s p ∧ repliesOwed s p = [] ∧
    (framesOwed S p = [] ∨ ∃ addr w, framesOwed S p = S.writeFrames addr w)

section
variable {s : Watched d} {t : Tick}

theorem empty_not_carries {α : Type} {x : Crossing α} {a : α} (empty : x.Empty) : ¬ x.Carries a := by
  rintro ⟨-, -, ⟨val, -⟩ | ⟨-, flight⟩⟩
  · exact absurd val (by simp [empty.val])
  · exact absurd flight (by simp [empty.landed])

theorem not_handing {p : Place d} (here : At S s p) (silent : repliesOwed s p = []) :
    s.ctrl.serial.fsm.shState ≠ .dataValid := by
  cases p with
  | resting => rw [here.2.2.2.1.idle]; decide
  | writing addr w => rw [here.2.2.2.1.idle]; decide
  | reading addr => rw [here.2.2.2.1.idle]; decide
  | instructing fs => rw [here.2.1.idle]; decide
  | sending fs => exact (S.active here.2.2.1).2
  | handing y => cases silent
  | returning y => cases silent
  | answering => cases silent

/-- No frame of a write has read anything. -/
theorem nothing_read {rest : List (List (Option Bool))} {owed : List (List (Option Bool))} (one : OneFrame S)
    (owes : owed = [] ∨ ∃ addr w, owed = S.writeFrames addr w) (split : owed = sent rom s t ++ rest) :
    (frames rom s t).filterMap S.reads = [] ∧ (rest = [] ∨ ∃ addr w, rest = S.writeFrames addr w) := by
  rcases owes with rfl | ⟨addr, w, rfl⟩
  · obtain ⟨none, rfl⟩ := List.append_eq_nil_iff.mp split.symm
    refine ⟨?_, Or.inl rfl⟩
    rw [List.map_eq_nil_iff.mp none]
    rfl
  · obtain ⟨f, whole, -⟩ := one addr w
    rcases sending : sent rom s t with _ | ⟨g, others⟩
    · rw [sending, List.nil_append] at split
      refine ⟨?_, Or.inr ⟨addr, w, split.symm⟩⟩
      rw [List.map_eq_nil_iff.mp sending]
      rfl
    · -- The only frame has gone out.
      have gone : others ++ rest = [] := by
        rw [sending, whole] at split
        exact (List.cons.inj split).2.symm
      obtain ⟨rfl, rfl⟩ := List.append_eq_nil_iff.mp gone
      rw [List.append_nil] at split
      exact ⟨S.write_reads addr w _ split.symm, Or.inl rfl⟩

theorem owing_tick (one : OneFrame S) (owing : Owing S s) (silent : t.Silent) : Owing S (watch rom s t) := by
  obtain ⟨sounds, settled, reads, received, answers, p, here, noReply, owes⟩ := owing
  obtain ⟨p', settled', here', frames, replies, -⟩ := moves_tick S rom settled here (silent_spaced silent)
  rw [silent_commands S silent, List.append_nil] at frames
  obtain ⟨noRead, owes'⟩ := nothing_read S rom one owes frames
  have noAnswer : toAnswer S rom s t = [] := by
    cases t with
    | clk i => exact silent_toAnswer S rom (empty_pulse reads.empty)
    | serial sdi external =>
      rw [toAnswer, readings, noRead]
      rfl
  rw [noReply, noAnswer] at replies
  refine ⟨sounds_tick rom sounds t, settled', ?_, ?_, ?_, p', here', (List.append_eq_nil_iff.mp replies.symm).2, owes'⟩
  · show (tick rom s.ctrl t).reads.Ready
    rw [reads_tick rom silent]
    exact ready_cross reads (within_passage.still t)
  · cases t with
    | clk i => exact ready_still received none true
    | serial sdi external =>
      show (tick rom s.ctrl (.serial sdi external)).received.Ready
      rw [received_still rom sdi external (not_handing S here noReply)]
      exact ready_still received (some ()) false
  · cases t with
    | clk i =>
      show (tick rom s.ctrl (.clk i)).answers.Ready
      rw [answers_still rom (no_answer (no_read (empty_pulse reads.empty)).2 (empty_pulse received.empty))]
      exact ready_still answers (some ()) true
    | serial sdi external => exact answers

/-! ### The link of the instruction -/

/-- The link is on its way back while the frame is sent, and ready when it is out. -/
structure Pace (s : Watched d) : Prop where
  sending : s.ctrl.serial.fsm.shState ≠ .idle → Past (4 + s.samples.length) s.ctrl.instructions.link
  waiting : s.ctrl.serial.fsm.shState = .idle → s.ctrl.instructions.Empty → s.ctrl.instructions.Ready

include S in
theorem started (f : Fsm) (rw : Bool) (idle : f.shState = .idle) : (d.fsm f true rw).shState ≠ .idle := by
  cases rw with
  | false => exact (S.active (S.start_word f 0 idle)).1
  | true => exact (S.active (S.start_read f 0 0 idle)).1

/-- While the serial machine waits, an instruction is on its way or the link is ready. -/
theorem waiting_place (owing : Owing S s) (pace : Pace s) (idle : s.ctrl.serial.fsm.shState = .idle) :
    Rest s ∧ (s.ctrl.instructions.Ready ∨ ∃ x, s.ctrl.instructions.Carries x ∧ s.ctrl.writes.Empty) := by
  obtain ⟨-, -, reads, -, -, p, here, noReply, -⟩ := owing
  cases p with
  | resting => exact ⟨here.2.2.2.1, Or.inl (pace.waiting idle here.2.2.1)⟩
  | writing addr w => exact ⟨here.2.2.2.1, Or.inl here.2.2.1⟩
  | reading addr => exact ⟨here.2.2.2.1, Or.inl here.2.2.1⟩
  | instructing fs =>
    obtain ⟨under, rest, x, carries, -⟩ := here
    exact ⟨rest, Or.inr ⟨x, carries, under.writes⟩⟩
  | sending fs => exact absurd idle (S.active here.2.2.1).1
  | handing y => cases noReply
  | returning y => cases noReply
  | answering => cases noReply

theorem pace_clk {i : Command} (owing : Owing S s) (pace : Pace s) (idle : s.ctrl.serial.fsm.shState = .idle) :
    Pace (watch rom s (.clk i)) := by
  refine ⟨fun busy => absurd idle busy, fun _ empty => ?_⟩
  have link := @instructions_clk _ rom s.ctrl i
  have reads := (no_read (empty_pulse owing.reads.empty) (i := i)).1
  show (tick rom s.ctrl (.clk i)).instructions.Ready
  have empty' : (tick rom s.ctrl (.clk i)).instructions.Empty := empty
  rcases (waiting_place S owing pace idle).2 with ready | ⟨x, carries, writes⟩
  · cases next : nextInstruction s.ctrl.clk (s.ctrl.clkIn i) with
    | none =>
      rw [link, next]
      exact ready_cross ready rfl
    | some x =>
      rw [link, next] at empty'
      exact absurd (ready_given ready rfl) (empty_not_carries empty')
  · have none := no_instruction (no_write (empty_pulse writes) (i := i)).1 reads
    rw [link, none] at empty'
    rcases carries_cross carries (g := ⟨some Option.none, false⟩) rfl with ⟨-, next⟩ | ⟨out, -⟩
    · exact absurd next (empty_not_carries empty')
    · simp [found] at out

theorem pace_serial (sdi external : Bool) (owing : Owing S s) (pace : Pace s)
    (idle : s.ctrl.serial.fsm.shState = .idle) : Pace (watch rom s (.serial sdi external)) := by
  have link := @instructions_serial _ rom s.ctrl sdi external
  have fsm := serial_fsm rom sdi external owing.settled
  have samples : (watch rom s (.serial sdi external)).samples = [] := by
    simp [watch, (waiting_place S owing pace idle).1.ncs]
  rcases (waiting_place S owing pace idle).2 with ready | ⟨x, carries, -⟩
  · have silent : s.ctrl.inst.pulseout = false := empty_pulse ready.empty
    rw [silent] at fsm
    have idle' : (watch rom s (.serial sdi external)).ctrl.serial.fsm.shState = .idle := by
      show (tick rom s.ctrl (.serial sdi external)).serial.fsm.shState = .idle
      rw [fsm]
      exact (S.idle_step _ _ idle).1
    refine ⟨fun busy => absurd idle' busy, fun _ _ => ?_⟩
    show (tick rom s.ctrl (.serial sdi external)).instructions.Ready
    rw [link]
    exact ready_cross ready rfl
  · rcases carries_cross carries (g := ⟨none, true⟩) rfl with ⟨silent, next⟩ | ⟨one, next⟩
    · have silent' : s.ctrl.inst.pulseout = false := not_found silent
      rw [silent'] at fsm
      refine ⟨fun busy => absurd ?_ busy, fun _ empty => ?_⟩
      · show (tick rom s.ctrl (.serial sdi external)).serial.fsm.shState = .idle
        rw [fsm]
        exact (S.idle_step _ _ idle).1
      · have empty' : (tick rom s.ctrl (.serial sdi external)).instructions.Empty := empty
        rw [link] at empty'
        exact absurd next (empty_not_carries empty')
    · -- The instruction has arrived: the machine starts, and the link is half way.
      have pulse : s.ctrl.inst.pulseout = true := (is_found one).1
      rw [pulse] at fsm
      refine ⟨fun _ => ?_, fun idle' => absurd idle' ?_⟩
      · rw [samples]
        show Past 4 (tick rom s.ctrl (.serial sdi external)).instructions.link
        rw [link]
        exact landed_past next.sound next.landed
      · show (tick rom s.ctrl (.serial sdi external)).serial.fsm.shState ≠ .idle
        rw [fsm]
        exact started S _ _ idle

/-- What an edge of `clk` and one of `serial_clk` do to the link while a frame is sent. -/
theorem pace_link {i : Command} (sdi external : Bool) (silent : i.Silent) {n : Nat} (writes : s.ctrl.writes.Empty)
    (reads : s.ctrl.reads.Empty) (instructions : s.ctrl.instructions.Empty) (past : Past n s.ctrl.instructions.link) :
    Past n (watch rom s (.clk i)).ctrl.instructions.link ∧
      Past (n + 1) (watch rom (watch rom s (.clk i)) (.serial sdi external)).ctrl.instructions.link := by
  have idle : Idle s.ctrl i := ⟨silent.1, silent.2, empty_pulse writes, empty_pulse reads⟩
  have first : (watch rom s (.clk i)).ctrl.instructions = cross s.ctrl.instructions ⟨some none, false⟩ :=
    instructions_still rom (idle_instruction idle)
  have second : (watch rom (watch rom s (.clk i)) (.serial sdi external)).ctrl.instructions =
      cross (watch rom s (.clk i)).ctrl.instructions ⟨none, true⟩ := instructions_serial _ sdi external
  let here : Given (Instruction d.instBits d.dataBits) := ⟨some none, false⟩
  let there : Given (Instruction d.instBits d.dataBits) := ⟨none, true⟩
  have one := @still_run _ _ instructions.val [here] (by simp [here])
  have two := @still_run _ _ instructions.val [here, there] (by simp [here, there])
  constructor
  · rw [first, show (cross s.ctrl.instructions here).link = _ from one.2]
    exact past_run past (refuses_along _ _)
  · rw [second, first, show (cross (cross s.ctrl.instructions here) there).link = _ from two.2]
    have round : Pulse2pulse.Round ([here, there].map quietly) :=
      ⟨⟨quietly here, by simp, rfl⟩, quietly there, by simp, rfl⟩
    exact past_round past (refuses_along _ _) round

/-- A machine that sends is at its place, with the frame of a write. -/
theorem sending_place (owing : Owing S s) (busy : s.ctrl.serial.fsm.shState ≠ .idle) :
    ∃ fs, At S s (.sending fs) ∧ ∃ addr w, fs = S.writeFrames addr w := by
  obtain ⟨-, -, -, -, -, p, here, noReply, owes⟩ := owing
  cases p with
  | resting => exact absurd here.2.2.2.1.idle busy
  | writing addr w => exact absurd here.2.2.2.1.idle busy
  | reading addr => exact absurd here.2.2.2.1.idle busy
  | instructing fs => exact absurd here.2.1.idle busy
  | sending fs =>
    refine ⟨fs, here, owes.resolve_left fun none => ?_⟩
    obtain rfl : fs = [] := none
    exact S.some_frame here.2.2.1
  | handing y => cases noReply
  | returning y => cases noReply
  | answering => cases noReply

theorem samples_serial (s : Watched d) (sdi external : Bool) :
    (watch rom s (.serial sdi external)).samples.length ≤ s.samples.length + 1 := by
  simp only [watch]
  split
  · exact Nat.zero_le _
  · rw [List.length_append]
    exact Nat.le_refl _

/-- A frame of a write that is out has had time enough. -/
theorem frame_over (one : OneFrame S) (sdi external : Bool) (owing : Owing S s) (busy : s.ctrl.serial.fsm.shState ≠ .idle)
    (ended : (watch rom s (.serial sdi external)).ctrl.serial.fsm.shState = .idle) : 16 ≤ s.samples.length + 1 := by
  obtain ⟨fs, here, addr, w, rfl⟩ := sending_place S owing busy
  obtain ⟨f, whole, long⟩ := one addr w
  have silent : s.ctrl.inst.pulseout = false := empty_pulse here.2.1
  have fsm := serial_fsm rom sdi external owing.settled
  rw [silent] at fsm
  have ended' : (d.fsm s.ctrl.serial.fsm false s.ctrl.clk.ins.rw).shState = .idle := by
    rw [← fsm]
    exact ended
  rcases S.sends_step here.2.2.1 s.ctrl.clk.ins.rw sdi with ⟨-, -, sends⟩ | ⟨-, -, sends⟩ | ⟨-, -, rest, same, -⟩
  · exact absurd ended' (S.active sends).1
  · exact absurd ended' (S.active sends).1
  · rw [whole] at same
    have frame := (List.cons.inj same).1
    rw [frame, List.length_map, List.length_append] at long
    exact long

/-- The invariant of a write: what is on its way, and how far the link of its instruction has come. -/
structure Underway (s : Watched d) : Prop where
  owing : Owing S s
  pace : Pace s

theorem underway_afterClk (one : OneFrame S) {i : Command} (rises sdi external : Bool) (silent : i.Silent)
    (underway : Underway S s) : Underway S (run (watch rom) s (afterClk i rises sdi external)) := by
  obtain ⟨owing, pace⟩ := underway
  have owing₁ := owing_tick S rom one owing (t := .clk i) silent
  have owing₂ := owing_tick S rom one owing₁ (t := .serial sdi external) trivial
  by_cases idle : s.ctrl.serial.fsm.shState = .idle
  · have pace₁ := pace_clk S rom (i := i) owing pace idle
    cases rises with
    | false => exact ⟨owing₁, pace₁⟩
    | true => exact ⟨owing₂, pace_serial S rom sdi external owing₁ pace₁ idle⟩
  · obtain ⟨fs, here, -⟩ := sending_place S owing idle
    obtain ⟨first, second⟩ := pace_link rom sdi external silent here.1.writes here.1.reads here.2.1 (pace.sending idle)
    have same : (watch rom s (.clk i)).samples = s.samples := rfl
    cases rises with
    | false => exact ⟨owing₁, fun _ => first, fun idle' => absurd idle' idle⟩
    | true =>
      refine ⟨owing₂, fun _ => past_mono second ?_, fun ended empty => ?_⟩
      · have samples := samples_serial rom (watch rom s (.clk i)) sdi external
        rw [same] at samples
        show 4 + (watch rom (watch rom s (.clk i)) (.serial sdi external)).samples.length ≤ _
        omega
      · have enough := frame_over S rom one sdi external owing₁ idle ended
        rw [same] at enough
        exact ⟨empty.sound, empty.val, past_free second (by omega)⟩

theorem quiet_underway (quiet : Quiet s) : Underway S s :=
  ⟨⟨⟨quiet.writes.sound, quiet.reads.sound, quiet.instructions.sound, quiet.received.sound, quiet.answers.sound⟩,
    quiet.settled, quiet.reads, quiet.received, quiet.answers, .resting, quiet_at S quiet, rfl, Or.inl rfl⟩,
    fun busy => absurd quiet.rest.idle busy, fun _ _ => quiet.instructions⟩

theorem command_owing {i : Command} (quiet : Quiet s) (writing : i.read = none)
    (keeps : ∀ w, i.write = some (d.addrGlobal, w) → w.getLsbD 0 = false) : Owing S (watch rom s (.clk i)) := by
  have spaced : Spaced s (.clk i) := ⟨fun _ => quiet, keeps⟩
  obtain ⟨p, settled, here, frames, replies, -⟩ := moves_tick S rom quiet.settled (quiet_at S quiet) spaced
  have frames' : commanded S s (.clk i) = framesOwed S p := frames
  rw [show repliesOwed s .resting = [] from rfl, silent_toAnswer S rom (empty_pulse quiet.reads.empty)] at replies
  refine ⟨sounds_tick rom (quiet_underway S quiet).owing.sounds (.clk i), settled, ?_, ?_, ?_, p, here,
    (List.append_eq_nil_iff.mp replies.symm).2, ?_⟩
  · show (tick rom s.ctrl (.clk i)).reads.Ready
    rw [reads_still rom writing]
    exact ready_still quiet.reads (some ()) true
  · exact ready_still quiet.received none true
  · show (tick rom s.ctrl (.clk i)).answers.Ready
    rw [answers_still rom (no_answer (no_read (empty_pulse quiet.reads.empty)).2 (empty_pulse quiet.received.empty))]
    exact ready_still quiet.answers (some ()) true
  · rw [← frames', commanded, writing]
    cases write : i.write with
    | none => exact Or.inl rfl
    | some given =>
      obtain ⟨addr, w⟩ := given
      by_cases within : addr ≤ d.addrMaxWr
      · exact Or.inr ⟨addr, w, if_pos within⟩
      · exact Or.inl (if_neg within)

theorem command_underway (one : OneFrame S) {i : Command} (rises sdi external : Bool) (quiet : Quiet s)
    (writing : i.read = none) (keeps : ∀ w, i.write = some (d.addrGlobal, w) → w.getLsbD 0 = false) :
    Underway S (run (watch rom) s (afterClk i rises sdi external)) := by
  obtain ⟨owing, pace⟩ := quiet_underway S quiet
  have owing₁ := command_owing S rom quiet writing keeps
  have pace₁ := pace_clk S rom (i := i) owing pace quiet.rest.idle
  cases rises with
  | false => exact ⟨owing₁, pace₁⟩
  | true => exact ⟨owing_tick S rom one owing₁ trivial, pace_serial S rom sdi external owing₁ pace₁ quiet.rest.idle⟩

/-- Once the write has left the command interface and its instruction has arrived, a machine that waits has done all. -/
theorem underway_busy (underway : Underway S s) (writes : s.ctrl.writes.Ready) (instructions : s.ctrl.instructions.Empty) :
    s.ctrl.serial.busy = true ∨ Quiet s := by
  obtain ⟨owing, pace⟩ := underway
  by_cases idle : s.ctrl.serial.fsm.shState = .idle
  · exact Or.inr ⟨owing.settled, (waiting_place S owing pace idle).1, writes, owing.reads, pace.waiting idle instructions,
      owing.received, owing.answers⟩
  · exact Or.inl (by simp [SerialSide.busy, idle])

end

/-! ### On the bus -/

section
variable {roms : Roms} {levels : Chip → Bool} {s : Bus} {c : Chip} {ps : List Ports}

variable (roms) in
theorem underway_run (steady : Steady levels s) (still : ∀ p ∈ ps, p.valid = levels)
    (underway : Underway c.serializer (s.chip c)) : Underway c.serializer ((run (busEdge roms) s ps).chip c) := by
  induction ps generalizing s with
  | nil => exact underway
  | cons p rest ih =>
    obtain ⟨here, others⟩ := List.forall_mem_cons.mp still
    exact ih (steady_edge steady here) others
      (underway_afterClk c.serializer (roms c) (writes_one_frame c) _ _ _ (silent_toController (steady.silent c)) underway)

variable (roms) in
/-- Each edge of `clk` is a round for a link within it. -/
theorem rounds_within {α : Type} (s : Bus) (ps : List Ports) : ∃ given : List (List (Given α)),
    given.length = ps.length ∧ (∀ gs ∈ given, StillRound gs) ∧ (ticksOf roms c s ps).map withinClk = given.flatten := by
  induction ps generalizing s with
  | nil => exact ⟨[], rfl, by simp, rfl⟩
  | cons p rest ih =>
    obtain ⟨given, count, still, same⟩ := ih (busEdge roms s p)
    have member : Tick.clk (s.toController p c) ∈ s.ticks p c := List.mem_cons_self ..
    have round : StillRound ((s.ticks p c).map (@withinClk α)) := by
      refine ⟨?_, ⟨_, List.mem_map_of_mem member, rfl⟩, _, List.mem_map_of_mem member, rfl⟩
      rintro g inTicks
      obtain ⟨t, -, rfl⟩ := List.mem_map.mp inTicks
      exact within_passage.still t
    refine ⟨_ :: given, congrArg (· + 1) count, List.forall_mem_cons.mpr ⟨round, still⟩, ?_⟩
    rw [ticksOf_cons, List.map_append, same, List.flatten_cons]

variable (roms) in
theorem writes_clear (steady : Steady levels s) (still : ∀ p ∈ ps, p.valid = levels)
    (sound : (s.ctrl c).writes.link.Sound) (enough : 15 ≤ ps.length) :
    ((run (busEdge roms) s ps).ctrl c).writes.Ready := by
  have keep : ∀ (w : Watched c.device) (t : Tick), True → t.Silent → True := fun _ _ _ _ => trivial
  obtain ⟨-, link⟩ := view_run (roms c) keep (fun w t _ silent => writes_tick (roms c) silent) trivial
    (steady_silent steady still (c := c))
  obtain ⟨given, count, rounds, same⟩ := rounds_within roms (c := c) s ps
  show ((run (busEdge roms) s ps).chip c).ctrl.writes.Ready
  rw [chip_run, link, same]
  exact ready_again sound rounds (by omega)

variable (roms) in
theorem instructions_arrive (steady : Steady levels s) (still : ∀ p ∈ ps, p.valid = levels)
    (taken : Taken c.serializer (s.chip c)) (enough : 90 ≤ ps.length) :
    Taken c.serializer ((run (busEdge roms) s ps).chip c) ∧ ((run (busEdge roms) s ps).ctrl c).instructions.Empty := by
  obtain ⟨rounds, count, both, ticks⟩ := rounds_of_edges roms c 4 steady still enough
  obtain ⟨taken', given, length, rounds', link⟩ := view_rounds (roms c) Ctrl.instructions serial_passage
    (fun w t taken silent => taken_tick c.serializer (roms c) taken silent)
    (fun w t taken silent => instructions_tick c.serializer (roms c) taken silent) taken both
  rw [← ticks, ← chip_run] at taken' link
  refine ⟨taken', ?_⟩
  show ((run (busEdge roms) s ps).chip c).ctrl.instructions.Empty
  rw [link]
  exact empty_again taken.located.sounds.instructions rounds' (by omega)

/-- The edges of a write until `busy` tells: one that changes the level, one that gives the command, those of the two links,
one to `busy` and one to the register. -/
def pollEdges : Nat := 2 + (15 + 90) + 2

variable {a : Access} {q : Ports} {rest : List Ports}

variable (roms) in
theorem poll_chip (atRest : AtRest levels s) (changes : a.ports.valid = changed a.chip levels)
    (stays : ∀ p ∈ q :: rest, p.valid = changed a.chip levels) (writing : a.ports.rdNWr = false) (keeps : a.Keeps)
    (enough : 15 + 90 ≤ rest.length) :
    (run (busEdge roms) s (a.ports :: q :: rest)).cmdBusy a.chip = true ∨
      Quiet ((run (busEdge roms) s (a.ports :: q :: rest)).chip a.chip) := by
  obtain ⟨here, others⟩ := List.forall_mem_cons.mp stays
  obtain ⟨-, -, steady⟩ := access_command roms atRest.steady changes here
  have silent : ∀ t ∈ s.ticks a.ports a.chip, t.Silent :=
    afterClk_silent (silent_toController (atRest.steady.silent a.chip)) _ _ _
  obtain ⟨quiet, -, -⟩ := quiet_ticks a.chip.serializer (roms a.chip) (atRest.quiet a.chip) silent
  have read : (a.command roms s q).read = none := by
    rw [(access_given roms atRest.steady changes here).2, writing]
    rfl
  let s' := busEdge roms (busEdge roms s a.ports) q
  have underway : Underway a.chip.serializer (s'.chip a.chip) :=
    command_underway a.chip.serializer (roms a.chip) (writes_one_frame a.chip) _ _ _ quiet read
      (access_keeps keeps atRest.steady changes here)
  obtain ⟨front, back, length, rfl⟩ : ∃ front back, front.length = 15 ∧ rest = front ++ back :=
    ⟨rest.take 15, rest.drop 15, by rw [List.length_take]; omega, (List.take_append_drop 15 rest).symm⟩
  obtain ⟨early, later⟩ := List.forall_mem_append.mp others
  rw [List.length_append] at enough
  have first := underway_run roms steady early underway
  have writes := writes_clear roms steady early underway.owing.sounds.writes (by omega)
  have taken : Taken a.chip.serializer ((run (busEdge roms) s' front).chip a.chip) := by
    obtain ⟨p, here, -⟩ := first.owing.place
    exact ⟨⟨first.owing.sounds, first.owing.settled, p, here⟩, writes, first.owing.reads⟩
  have steady' := @steady_run roms _ _ _ steady early
  obtain ⟨taken', arrived⟩ := instructions_arrive roms steady' later taken (by omega)
  have last := underway_run roms steady' later first
  rw [← run_append] at taken' arrived last
  exact underway_busy a.chip.serializer last taken'.writes arrived

end

end BpmAcquisition.SpiCtrl
