import BpmAcquisition.Library.Run
import Mathlib.Data.Fintype.Option
import Mathlib.Data.Fintype.Prod

/-!
# Pulses from one clock to another

`pulse2pulse.vhd`: `in_proc` sets a level, `out_proc` takes it through three registers, makes a
pulse of its rise and sends it back, and `in_proc` clears it again. An edge is one of `in_clk`, of
`out_clk` or of both at once, in any order and number. Eight registers stand one behind the other in a ring,
and `Phase` says how far the latest level has come in it: `edge_state` is the whole machine in these
terms. A `Crossing` is a word that waits in a register while its pulse crosses.
-/

namespace BpmAcquisition.Pulse2pulse

open Machine

structure InProc where
  inReset : Bool := false
  inResetPrev : Bool := false
  inResetPrev2 : Bool := false
  inSet : Bool := false
  deriving DecidableEq

structure OutProc where
  outSet : Bool := false
  outSetPrev : Bool := false
  outSetPrev2 : Bool := false
  outreset : Bool := false
  pulseout : Bool := false
  deriving DecidableEq

structure Link where
  inProc : InProc := {}
  outProc : OutProc := {}
  deriving DecidableEq

/-- An edge of `in_clk` with what is at `pulsein`, one of `out_clk`, or both. -/
structure Edges where
  inClk : Option Bool := none
  outClk : Bool := false
  rst : Bool := false

def InProc.edge (s : InProc) (pulsein outreset : Bool) : InProc where
  inSet := if s.inResetPrev ∧ s.inResetPrev2 then false else if pulsein then true else s.inSet
  inReset := outreset
  inResetPrev := s.inReset
  inResetPrev2 := s.inResetPrev

def OutProc.edge (s : OutProc) (inSet : Bool) : OutProc where
  pulseout := s.outSetPrev && !s.outSetPrev2
  outreset :=
    if s.outSetPrev ∧ s.outSetPrev2 then true
    else if ¬ s.outSetPrev ∧ ¬ s.outSetPrev2 then false
    else s.outreset
  outSet := inSet
  outSetPrev := s.outSet
  outSetPrev2 := s.outSetPrev

def edge (s : Link) (e : Edges) : Link :=
  if e.rst then {}
  else
    { inProc := e.inClk.elim s.inProc fun pulsein => s.inProc.edge pulsein s.outProc.outreset
      outProc := if e.outClk then s.outProc.edge s.inProc.inSet else s.outProc }

def Link.inbusy (s : Link) : Bool := s.inProc.inSet || s.inProc.inResetPrev

def Link.pulseout (s : Link) : Bool := s.outProc.pulseout

/-- A pulse that `in_proc` meets without being busy. -/
def accepted (s : Link) (e : Edges) : List Unit :=
  if !e.rst && e.inClk == some true && !s.inbusy then [()] else []

/-- A pulse that an edge of `out_clk` finds. -/
def delivered (s : Link) (e : Edges) : List Unit :=
  if !e.rst && e.outClk && s.pulseout then [()] else []

/-- A level has been set that is not yet answered. -/
def Link.inFlight (s : Link) : Bool := s.inProc.inSet && !s.outProc.outreset

/-! ### The ring -/

/-- The level of `in_set`, and how many of the seven registers behind it have followed. -/
structure Phase where
  level : Bool
  reached : Fin 8
  deriving DecidableEq

namespace Phase

def idle : Phase := ⟨false, 7⟩

/-- What the `n`-th register behind `in_set` holds. -/
def register (p : Phase) (n : Fin 8) : Bool := if n ≤ p.reached then p.level else !p.level

def link (p : Phase) : Link where
  inProc := ⟨p.register 5, p.register 6, p.register 7, p.level⟩
  outProc := ⟨p.register 1, p.register 2, p.register 3, p.register 4, p.level && p.reached == 3⟩

/-- `out_clk` moves the level through the first four registers, `in_clk` through the others. -/
def next (p : Phase) (e : Edges) : Phase :=
  if e.rst then idle
  else if p.reached < 4 then if e.outClk then { p with reached := p.reached + 1 } else p
  else match e.inClk with
    | none => p
    | some pulsein =>
      if p.level then if p.reached = 7 then ⟨false, 0⟩ else { p with reached := p.reached + 1 }
      else if 6 ≤ p.reached then if pulsein then ⟨true, 0⟩ else idle
      else { p with reached := p.reached + 1 }

end Phase

theorem reset_link : Phase.idle.link = {} := by decide

theorem edge_link (p : Phase) (e : Edges) : edge p.link e = (p.next e).link := by
  obtain ⟨level, reached⟩ := p
  obtain ⟨inClk, outClk, rst⟩ := e
  revert level reached inClk outClk rst
  decide

theorem pulseout_link (p : Phase) : p.link.pulseout = (p.level && p.reached == 3) := rfl

/-- The registers are those of a phase: so they are after every edge. -/
def Link.Sound (s : Link) : Prop := ∃ p : Phase, s = p.link

theorem sound_reset : Link.Sound {} := ⟨Phase.idle, reset_link.symm⟩

theorem sound_edge (s : Link) (e : Edges) (sound : s.Sound) : (edge s e).Sound := by
  obtain ⟨p, rfl⟩ := sound
  exact ⟨p.next e, edge_link p e⟩

/-! ### Each pulse once -/

def pending (s : Link) : List Unit := if s.inFlight then [()] else []

theorem pending_edge (s : Link) (e : Edges) (held : List Unit) (holds : s.Sound ∧ held = pending s)
    (clocked : e.rst = false) :
    ∃ next, ((edge s e).Sound ∧ next = pending (edge s e)) ∧ held ++ accepted s e = delivered s e ++ next := by
  obtain ⟨⟨p, rfl⟩, rfl⟩ := holds
  refine ⟨_, ⟨sound_edge _ e ⟨p, rfl⟩, rfl⟩, ?_⟩
  rw [edge_link]
  obtain ⟨level, reached⟩ := p
  obtain ⟨inClk, outClk, rst⟩ := e
  subst clocked
  revert level reached inClk outClk
  decide

/-- In every order of edges of the two clocks, and whatever is at `pulsein`: the pulses that
`out_clk` finds are those that were given while the link was not busy, each once, but for one that
is still on its way. -/
theorem pulses_once {s : Link} (sound : s.Sound) {es : List Edges} (clocked : ∀ e ∈ es, e.rst = false) :
    pending s ++ trace edge accepted s es = trace edge delivered s es ++ pending (run edge s es) := by
  obtain ⟨rest, ⟨-, rfl⟩, conserved⟩ :=
    trace_conserved (R := fun s held => s.Sound ∧ held = pending s) pending_edge ⟨sound, rfl⟩
      (along_of_inputs clocked)
  exact conserved

/-- The second pulse meets a busy link. -/
def twoPulses : List Edges :=
  [⟨some true, false, false⟩, ⟨some true, true, false⟩, ⟨none, true, false⟩, ⟨none, true, false⟩, ⟨none, true, false⟩]

theorem twoPulses_once :
    pending {} ++ trace edge accepted {} twoPulses = trace edge delivered {} twoPulses ++ pending (run edge {} twoPulses) ∧
      trace edge accepted {} twoPulses = [()] :=
  ⟨pulses_once sound_reset (by decide), by decide⟩

/-! ### When the pulse comes out -/

def outEdges (es : List Edges) : Nat := es.countP (·.outClk)

theorem accepted_next {p : Phase} {e : Edges} (accepts : accepted p.link e ≠ []) : p.next e = ⟨true, 0⟩ := by
  obtain ⟨level, reached⟩ := p
  obtain ⟨inClk, outClk, rst⟩ := e
  revert level reached inClk outClk rst
  decide

theorem rising_step {k : Fin 8} {e : Edges} (before : k.val + (if e.outClk then 1 else 0) ≤ 3)
    (clocked : e.rst = false) :
    delivered (Phase.link ⟨true, k⟩) e = [] ∧
      ∃ k' : Fin 8, Phase.next ⟨true, k⟩ e = ⟨true, k'⟩ ∧ k'.val = k.val + if e.outClk then 1 else 0 := by
  obtain ⟨inClk, outClk, rst⟩ := e
  subst clocked
  revert k inClk outClk
  decide

theorem rising_run {k : Fin 8} {es : List Edges} (clocked : ∀ e ∈ es, e.rst = false)
    (before : k.val + outEdges es ≤ 3) :
    trace edge delivered (Phase.link ⟨true, k⟩) es = [] ∧
      ∃ k' : Fin 8, run edge (Phase.link ⟨true, k⟩) es = Phase.link ⟨true, k'⟩ ∧ k'.val = k.val + outEdges es := by
  induction es generalizing k with
  | nil => exact ⟨rfl, k, rfl, rfl⟩
  | cons e rest ih =>
    obtain ⟨now, later⟩ := List.forall_mem_cons.mp clocked
    have count : outEdges (e :: rest) = outEdges rest + if e.outClk then 1 else 0 := List.countP_cons
    rw [count] at before ⊢
    obtain ⟨silent, k', moved, steps⟩ := rising_step (k := k) (e := e) (by omega) now
    obtain ⟨silent', k'', moved', steps'⟩ := ih (k := k') later (by omega)
    rw [trace_cons, run_cons, edge_link, moved, silent]
    exact ⟨silent', k'', moved', by omega⟩

/-- A pulse comes out at the fourth edge of `out_clk` after the edge that accepts it, wherever the
edges of `in_clk` fall, and not before. -/
theorem pulse_at_fourth_edge {s : Link} (sound : s.Sound) {e : Edges} (accepts : accepted s e ≠ [])
    {es : List Edges} (clocked : ∀ e ∈ es, e.rst = false) (before : outEdges es ≤ 3) {last : Edges}
    (ticks : last.outClk = true) (running : last.rst = false) :
    trace edge delivered (edge s e) es = [] ∧
      (delivered (run edge (edge s e) es) last = [()] ↔ outEdges es = 3) := by
  obtain ⟨p, rfl⟩ := sound
  rw [edge_link, accepted_next accepts]
  obtain ⟨silent, k, moved, steps⟩ := rising_run (k := 0) clocked (by simpa using before)
  refine ⟨silent, ?_⟩
  rw [moved]
  have third : k = 3 ↔ outEdges es = 3 := by
    rw [Fin.ext_iff]
    simp only [Fin.val_zero, zero_add] at steps
    rw [steps]
    rfl
  rw [← third]
  simp [delivered, ticks, running, pulseout_link]

theorem twoPulses_at_fourth_edge :
    trace edge delivered (edge {} ⟨some true, false, false⟩) twoPulses.tail.dropLast = [] ∧
      (delivered (run edge (edge {} ⟨some true, false, false⟩) twoPulses.tail.dropLast) ⟨none, true, false⟩ = [()] ↔
        outEdges twoPulses.tail.dropLast = 3) :=
  pulse_at_fourth_edge sound_reset (by decide) (by decide) (by decide) rfl rfl

/-! ### The way back -/

/-- How far the link is since it accepted a pulse. -/
def Phase.position (p : Phase) : Nat := (if p.level then 0 else 8) + p.reached

/-- The clock of the register that the level reaches next ticks. -/
def Phase.moves (p : Phase) (e : Edges) : Bool := if p.reached < 4 then e.outClk else e.inClk.isSome

theorem ready_position (p : Phase) : p.link.inbusy = false ↔ 14 ≤ p.position := by
  obtain ⟨level, reached⟩ := p
  revert level reached
  decide

theorem next_still {p : Phase} {e : Edges} (clocked : e.rst = false) (still : p.moves e = false) : p.next e = p := by
  obtain ⟨level, reached⟩ := p
  obtain ⟨inClk, outClk, rst⟩ := e
  subst clocked
  revert level reached inClk outClk
  decide

theorem next_position {p : Phase} {e : Edges} (clocked : e.rst = false) (refused : accepted p.link e = []) :
    min 14 (p.position + if p.moves e then 1 else 0) ≤ (p.next e).position := by
  obtain ⟨level, reached⟩ := p
  obtain ⟨inClk, outClk, rst⟩ := e
  subst clocked
  revert level reached inClk outClk
  decide

/-- Both clocks tick. -/
def Round (es : List Edges) : Prop := (∃ e ∈ es, e.inClk.isSome) ∧ ∃ e ∈ es, e.outClk

def Refuses (s : Link) (e : Edges) : Prop := e.rst = false ∧ accepted s e = []

theorem position_run {p : Phase} {es : List Edges} (refused : Along edge Refuses p.link es) :
    ∃ q : Phase, run edge p.link es = q.link ∧
      min 14 (p.position + if ∃ e ∈ es, p.moves e then 1 else 0) ≤ q.position := by
  induction es generalizing p with
  | nil => exact ⟨p, rfl, by simp⟩
  | cons e rest ih =>
    obtain ⟨⟨clocked, here⟩, later⟩ := refused
    have step := next_position clocked here
    rw [edge_link] at later
    obtain ⟨q, same, reached⟩ := ih later
    rw [run_cons, edge_link]
    refine ⟨q, same, ?_⟩
    cases moved : p.moves e with
    | true =>
      simp only [moved, if_true] at step
      have bound : (if ∃ e' ∈ e :: rest, p.moves e' = true then 1 else 0) ≤ 1 := by split <;> omega
      omega
    | false =>
      rw [next_still clocked moved] at reached
      simpa [moved] using reached

theorem round_moves (p : Phase) {es : List Edges} (round : Round es) : ∃ e ∈ es, p.moves e := by
  obtain ⟨⟨e, member, ticks⟩, e', member', ticks'⟩ := round
  by_cases first : p.reached < 4
  · exact ⟨e', member', by simp [Phase.moves, first, ticks']⟩
  · exact ⟨e, member, by simp [Phase.moves, first, ticks]⟩

theorem position_rounds {p : Phase} {rounds : List (List Edges)} (both : ∀ es ∈ rounds, Round es)
    (refused : Along edge Refuses p.link rounds.flatten) :
    ∃ q : Phase, run edge p.link rounds.flatten = q.link ∧ min 14 (p.position + rounds.length) ≤ q.position := by
  induction rounds generalizing p with
  | nil => exact ⟨p, rfl, by simp⟩
  | cons es rest ih =>
    obtain ⟨round, others⟩ := List.forall_mem_cons.mp both
    rw [List.flatten_cons, along_append] at refused
    obtain ⟨q, same, reached⟩ := position_run refused.1
    rw [if_pos (round_moves p round)] at reached
    have later := refused.2
    rw [same] at later
    obtain ⟨r, same', reached'⟩ := ih others later
    refine ⟨r, ?_, ?_⟩
    · rw [List.flatten_cons, run_append, same, same']
    · rw [List.length_cons]
      omega

/-- Whatever the order within them, fourteen rounds in which both clocks tick and no pulse is
accepted leave the link ready for the next. -/
theorem ready_after_rounds {s : Link} (sound : s.Sound) {rounds : List (List Edges)}
    (both : ∀ es ∈ rounds, Round es) (enough : 14 ≤ rounds.length)
    (refused : Along edge Refuses s rounds.flatten) : (run edge s rounds.flatten).inbusy = false := by
  obtain ⟨p, rfl⟩ := sound
  obtain ⟨q, same, reached⟩ := position_rounds both refused
  rw [same, ready_position]
  omega

theorem fourteenRounds_ready :
    (run edge (edge {} ⟨some true, false, false⟩) (List.replicate 14 [⟨some false, true, false⟩]).flatten).inbusy = false := by
  refine ready_after_rounds (sound_edge _ _ sound_reset) (fun es member => ?_) (by decide) (along_of_all fun s e member => ?_)
  · obtain rfl := List.eq_of_mem_replicate member
    exact ⟨⟨_, List.mem_singleton_self _, rfl⟩, _, List.mem_singleton_self _, rfl⟩
  · obtain rfl : e = ⟨some false, true, false⟩ := by simpa using member
    exact ⟨rfl, by simp [accepted]⟩

/-- The link is so many registers past the acceptance of a pulse, or ready. -/
def Past (n : Nat) (s : Link) : Prop := ∃ p : Phase, s = p.link ∧ min 14 n ≤ p.position

theorem past_mono {n m : Nat} {s : Link} (past : Past n s) (less : m ≤ n) : Past m s := by
  obtain ⟨p, same, far⟩ := past
  exact ⟨p, same, by omega⟩

theorem past_run {n : Nat} {s : Link} {es : List Edges} (past : Past n s) (refused : Along edge Refuses s es) :
    Past n (run edge s es) := by
  obtain ⟨p, rfl, far⟩ := past
  obtain ⟨q, same, reached⟩ := position_run refused
  exact ⟨q, same, by omega⟩

theorem past_round {n : Nat} {s : Link} {es : List Edges} (past : Past n s) (refused : Along edge Refuses s es)
    (round : Round es) : Past (n + 1) (run edge s es) := by
  obtain ⟨p, rfl, far⟩ := past
  obtain ⟨q, same, reached⟩ := position_run refused
  rw [if_pos (round_moves p round)] at reached
  exact ⟨q, same, by omega⟩

theorem past_free {n : Nat} {s : Link} (past : Past n s) (enough : 14 ≤ n) : s.inbusy = false := by
  obtain ⟨p, rfl, far⟩ := past
  rw [ready_position]
  omega

theorem landed_position (p : Phase) : p.link.inFlight = false ↔ 4 ≤ p.position := by
  obtain ⟨level, reached⟩ := p
  revert level reached
  decide

theorem landed_past {s : Link} (sound : s.Sound) (landed : s.inFlight = false) : Past 4 s := by
  obtain ⟨p, rfl⟩ := sound
  exact ⟨p, rfl, Nat.le_trans (Nat.min_le_right _ _) ((landed_position p).mp landed)⟩

theorem past_landed {n : Nat} {s : Link} (past : Past n s) (enough : 4 ≤ n) : s.inFlight = false := by
  obtain ⟨p, rfl, far⟩ := past
  rw [landed_position]
  omega

/-! ### A word with its pulse -/

/-- A register that is written together with `val`, and the link that takes `val` to the other clock. -/
structure Crossing (α : Type) where
  data : α
  val : Bool := false
  link : Link := {}

/-- An edge of the clock of the register, with the word that is written, one of the other clock, or both. -/
structure Given (α : Type) where
  inClk : Option (Option α) := none
  outClk : Bool := false

variable {α : Type}

def Crossing.edges (s : Crossing α) (g : Given α) : Edges := ⟨g.inClk.map fun _ => s.val, g.outClk, false⟩

def cross (s : Crossing α) (g : Given α) : Crossing α where
  data := (g.inClk.getD none).getD s.data
  val := g.inClk.elim s.val (·.isSome)
  link := edge s.link (s.edges g)

def given (_ : Crossing α) (g : Given α) : List α := (g.inClk.getD none).toList

/-- What the other side finds with the pulse. -/
def found (s : Crossing α) (g : Given α) : List α := if g.outClk && s.link.pulseout then [s.data] else []

namespace Crossing

/-- No word is on its way. -/
structure Empty (s : Crossing α) : Prop where
  sound : s.link.Sound
  val : s.val = false
  landed : s.link.inFlight = false

structure Ready (s : Crossing α) : Prop where
  sound : s.link.Sound
  val : s.val = false
  free : s.link.inbusy = false

structure Carries (s : Crossing α) (x : α) : Prop where
  sound : s.link.Sound
  data : s.data = x
  token : s.val = true ∧ s.link.inbusy = false ∨ s.val = false ∧ s.link.inFlight = true

end Crossing

theorem ready_edge {s : Link} (sound : s.Sound) (free : s.inbusy = false) (pulsein : Option Bool) (outClk : Bool) :
    s.pulseout = false ∧
      if pulsein = some true then (edge s ⟨pulsein, outClk, false⟩).inFlight = true
      else (edge s ⟨pulsein, outClk, false⟩).inbusy = false := by
  obtain ⟨⟨level, reached⟩, rfl⟩ := sound
  revert level reached pulsein outClk
  decide

theorem flight_edge {s : Link} (sound : s.Sound) {pulsein : Option Bool} (quiet : pulsein ≠ some true) (outClk : Bool) :
    (edge s ⟨pulsein, outClk, false⟩).inFlight = (s.inFlight && !(outClk && s.pulseout)) := by
  obtain ⟨⟨level, reached⟩, rfl⟩ := sound
  revert level reached pulsein outClk
  decide

theorem pulseout_inFlight {s : Link} (sound : s.Sound) (out : s.pulseout = true) : s.inFlight = true := by
  obtain ⟨⟨level, reached⟩, rfl⟩ := sound
  revert level reached
  decide

theorem inFlight_inbusy {s : Link} (flight : s.inFlight = true) : s.inbusy = true := by
  unfold Link.inFlight at flight
  unfold Link.inbusy
  rw [Bool.and_eq_true] at flight
  rw [flight.1, Bool.true_or]

section
variable {s : Crossing α} {g : Given α} {x : α}

@[simp] theorem edges_rst (s : Crossing α) (g : Given α) : (s.edges g).rst = false := rfl

theorem cross_sound (sound : s.link.Sound) (g : Given α) : (cross s g).link.Sound :=
  sound_edge s.link (s.edges g) sound

theorem no_pulse (val : s.val = false) (inClk : Option (Option α)) : (inClk.map fun _ => s.val) ≠ some true := by
  rw [val]
  cases inClk <;> simp

theorem Crossing.Ready.empty (ready : s.Ready) : s.Empty := by
  refine ⟨ready.sound, ready.val, Bool.eq_false_iff.mpr fun flight => ?_⟩
  exact Bool.eq_false_iff.mp ready.free (inFlight_inbusy flight)

theorem empty_found (empty : s.Empty) (g : Given α) : found s g = [] := by
  have silent : s.link.pulseout = false := by
    refine Bool.eq_false_iff.mpr fun out => ?_
    exact Bool.eq_false_iff.mp empty.landed (pulseout_inFlight empty.sound out)
  simp [found, silent]

theorem ready_cross (ready : s.Ready) (none : (g.inClk.getD none) = none) : (cross s g).Ready := by
  obtain ⟨inClk, outClk⟩ := g
  obtain ⟨-, kept⟩ := ready_edge ready.sound ready.free (inClk.map fun _ => s.val) outClk
  rw [if_neg (no_pulse ready.val inClk)] at kept
  refine ⟨cross_sound ready.sound _, ?_, kept⟩
  cases inClk with
  | none => exact ready.val
  | some word => simpa [cross] using none

theorem ready_given (ready : s.Ready) (word : g.inClk = some (some x)) : (cross s g).Carries x := by
  obtain ⟨inClk, outClk⟩ := g
  subst word
  obtain ⟨-, kept⟩ := ready_edge ready.sound ready.free (some s.val) outClk
  rw [if_neg (by simp [ready.val])] at kept
  exact ⟨cross_sound ready.sound _, rfl, Or.inl ⟨rfl, kept⟩⟩

theorem empty_cross (empty : s.Empty) (none : (g.inClk.getD none) = none) : (cross s g).Empty := by
  obtain ⟨inClk, outClk⟩ := g
  refine ⟨cross_sound empty.sound _, ?_, ?_⟩
  · cases inClk with
    | none => exact empty.val
    | some word => simpa [cross] using none
  · have landed := flight_edge empty.sound (no_pulse empty.val inClk) outClk
    rw [empty.landed, Bool.false_and] at landed
    exact landed

/-- A word stays with its pulse until it is found, and is found once. -/
theorem carries_cross (carries : s.Carries x) (none : (g.inClk.getD none) = none) :
    found s g = [] ∧ (cross s g).Carries x ∨ found s g = [x] ∧ (cross s g).Empty := by
  obtain ⟨inClk, outClk⟩ := g
  obtain ⟨sound, data, token⟩ := carries
  have kept : (cross s ⟨inClk, outClk⟩).data = x := by
    simp only [cross] at none ⊢
    rw [none]
    exact data
  rcases token with ⟨val, free⟩ | ⟨val, flight⟩
  · obtain ⟨silent, accepts⟩ := ready_edge sound free (inClk.map fun _ => s.val) outClk
    refine Or.inl ⟨by simp [found, silent], cross_sound sound _, kept, ?_⟩
    cases inClk with
    | none =>
      rw [if_neg (by simp)] at accepts
      exact Or.inl ⟨val, accepts⟩
    | some word =>
      rw [if_pos (by simp [val])] at accepts
      exact Or.inr ⟨by simpa [cross] using none, accepts⟩
  · have after : (cross s ⟨inClk, outClk⟩).link.inFlight = !(outClk && s.link.pulseout) := by
      have next := flight_edge sound (no_pulse val inClk) outClk
      rw [flight, Bool.true_and] at next
      exact next
    have noVal : (cross s ⟨inClk, outClk⟩).val = false := by
      cases inClk with
      | none => exact val
      | some word => simpa [cross] using none
    cases out : outClk && s.link.pulseout with
    | false =>
      rw [out] at after
      exact Or.inl ⟨by simp [found, out], cross_sound sound _, kept, Or.inr ⟨noVal, after⟩⟩
    | true =>
      rw [out] at after
      exact Or.inr ⟨by simp [found, out, data], cross_sound sound _, noVal, after⟩

/-- What is on its way: nothing or one word. -/
def Crossing.Holds (s : Crossing α) (held : List α) : Prop :=
  held = [] ∧ s.Empty ∨ ∃ x, held = [x] ∧ s.Carries x

def WhenReady (s : Crossing α) (g : Given α) : Prop := (given s g ≠ [] → s.Ready)

theorem holds_cross (s : Crossing α) (g : Given α) (held : List α) (holds : s.Holds held) (ready : WhenReady s g) :
    ∃ next, (cross s g).Holds next ∧ held ++ given s g = found s g ++ next := by
  cases word : g.inClk.getD none with
  | none =>
    have nothing : given s g = [] := by simp [given, word]
    rw [nothing, List.append_nil]
    rcases holds with ⟨rfl, empty⟩ | ⟨x, rfl, carries⟩
    · rw [empty_found empty]
      exact ⟨[], Or.inl ⟨rfl, empty_cross empty word⟩, rfl⟩
    · rcases carries_cross carries word with ⟨silent, next⟩ | ⟨out, next⟩
      · exact ⟨[x], Or.inr ⟨x, rfl, next⟩, by rw [silent]; rfl⟩
      · exact ⟨[], Or.inl ⟨rfl, next⟩, by rw [out]; rfl⟩
  | some x =>
    have one : given s g = [x] := by simp [given, word]
    have free := ready (by simp [one])
    have nothing : held = [] := by
      rcases holds with ⟨same, -⟩ | ⟨y, -, carries⟩
      · exact same
      · rcases carries.token with ⟨val, -⟩ | ⟨-, flight⟩
        · exact absurd val (by simp [free.val])
        · exact absurd (inFlight_inbusy flight) (by simp [free.free])
    have at_edge : g.inClk = some (some x) := by
      cases edge : g.inClk with
      | none => simp [edge] at word
      | some request => simpa [edge] using word
    rw [one, nothing, empty_found free.empty]
    exact ⟨[x], Or.inr ⟨x, rfl, ready_given free at_edge⟩, rfl⟩

/-- Words that are given while the crossing is ready are found on the other side in their order, each
once, in every order of the edges; one may still be on its way. -/
theorem words_once {held : List α} (holds : s.Holds held) {gs : List (Given α)}
    (ready : Along cross WhenReady s gs) :
    ∃ rest, (run cross s gs).Holds rest ∧
      held ++ trace cross given s gs = trace cross found s gs ++ rest :=
  trace_conserved holds_cross holds ready

theorem sound_run (sound : s.link.Sound) (gs : List (Given α)) : (run cross s gs).link.Sound := by
  induction gs generalizing s with
  | nil => exact sound
  | cons g rest ih => exact ih (cross_sound sound g)

/-- Both clocks tick, and no word is given. -/
structure StillRound (gs : List (Given α)) : Prop where
  still : ∀ g ∈ gs, g.inClk.getD none = none
  inClk : ∃ g ∈ gs, g.inClk.isSome
  outClk : ∃ g ∈ gs, g.outClk

def quietly (g : Given α) : Edges := ⟨g.inClk.map fun _ => false, g.outClk, false⟩

theorem still_run (val : s.val = false) {gs : List (Given α)} (still : ∀ g ∈ gs, g.inClk.getD none = none) :
    (run cross s gs).val = false ∧ (run cross s gs).link = run edge s.link (gs.map quietly) := by
  induction gs generalizing s with
  | nil => exact ⟨val, rfl⟩
  | cons g rest ih =>
    obtain ⟨here, others⟩ := List.forall_mem_cons.mp still
    have val' : (cross s g).val = false := by
      cases word : g.inClk with
      | none => simpa [cross, word] using val
      | some request => simpa [cross, word] using here
    have edges : s.edges g = quietly g := by rw [Crossing.edges, val, quietly]
    obtain ⟨last, link⟩ := ih val' others
    refine ⟨last, link.trans ?_⟩
    rw [List.map_cons, run_cons, ← edges]
    rfl

theorem val_round {gs : List (Given α)} (still : ∀ g ∈ gs, g.inClk.getD none = none) (ticks : ∃ g ∈ gs, g.inClk.isSome) :
    (run cross s gs).val = false := by
  induction gs generalizing s with
  | nil => simp at ticks
  | cons g rest ih =>
    obtain ⟨here, others⟩ := List.forall_mem_cons.mp still
    cases word : g.inClk with
    | some request =>
      have val : (cross s g).val = false := by simpa [cross, word] using here
      exact (still_run val others).1
    | none =>
      rw [List.exists_mem_cons_iff] at ticks
      exact ih others (ticks.resolve_left (by simp [word]))

theorem refuses_quietly (l : Link) (g : Given α) : Refuses l (quietly g) := by
  refine ⟨rfl, ?_⟩
  cases edge : g.inClk <;> simp [accepted, quietly, edge]

theorem passage_rounds {rounds : List (List (Given α))} (both : ∀ gs ∈ rounds, StillRound gs) :
    ∀ es ∈ rounds.map (·.map quietly), Round es := by
  rintro es member
  obtain ⟨gs, inRounds, rfl⟩ := List.mem_map.mp member
  obtain ⟨-, ⟨g, inRound, ticks⟩, ⟨g', inRound', ticks'⟩⟩ := both gs inRounds
  refine ⟨⟨quietly g, List.mem_map_of_mem inRound, ?_⟩, quietly g', List.mem_map_of_mem inRound', ticks'⟩
  simpa [quietly] using ticks

theorem refuses_along (l : Link) (gs : List (Given α)) : Along edge Refuses l (gs.map quietly) :=
  along_of_all fun l e member => by
    obtain ⟨g, -, rfl⟩ := List.mem_map.mp member
    exact refuses_quietly l g

/-- Whatever is on its way at first: each round after the first one, without another word, takes the link further. -/
theorem past_again (sound : s.link.Sound) {rounds : List (List (Given α))} (both : ∀ gs ∈ rounds, StillRound gs)
    {n : Nat} (enough : n + 1 ≤ rounds.length) :
    (run cross s rounds.flatten).link.Sound ∧ (run cross s rounds.flatten).val = false ∧
      Past n (run cross s rounds.flatten).link := by
  cases rounds with
  | nil => simp at enough
  | cons first rest =>
    obtain ⟨round, others⟩ := List.forall_mem_cons.mp both
    have val := val_round (s := s) round.still round.inClk
    have still : ∀ g ∈ rest.flatten, g.inClk.getD none = none := by
      intro g member
      obtain ⟨gs, inRest, inRound⟩ := List.mem_flatten.mp member
      exact (others gs inRest).still g inRound
    obtain ⟨val', link⟩ := still_run val still
    obtain ⟨p, same⟩ : (run cross s first).link.Sound := sound_run sound first
    rw [List.flatten_cons, run_append]
    refine ⟨sound_run (sound_run sound first) _, val', ?_⟩
    have refused := refuses_along p.link rest.flatten
    rw [List.map_flatten] at refused
    obtain ⟨q, final, far⟩ := position_rounds (passage_rounds others) refused
    rw [link, same, List.map_flatten]
    refine ⟨q, final, ?_⟩
    rw [List.length_map] at far
    rw [List.length_cons] at enough
    omega

/-- Fifteen rounds without another word leave the crossing ready. -/
theorem ready_again (sound : s.link.Sound) {rounds : List (List (Given α))} (both : ∀ gs ∈ rounds, StillRound gs)
    (enough : 15 ≤ rounds.length) : (run cross s rounds.flatten).Ready := by
  obtain ⟨sound', val, past⟩ := past_again sound both enough
  exact ⟨sound', val, past_free past (Nat.le_refl 14)⟩

/-- After five the word that was on its way has come out. -/
theorem empty_again (sound : s.link.Sound) {rounds : List (List (Given α))} (both : ∀ gs ∈ rounds, StillRound gs)
    (enough : 5 ≤ rounds.length) : (run cross s rounds.flatten).Empty := by
  obtain ⟨sound', val, past⟩ := past_again sound both enough
  exact ⟨sound', val, past_landed past (Nat.le_refl 4)⟩

end

end BpmAcquisition.Pulse2pulse
