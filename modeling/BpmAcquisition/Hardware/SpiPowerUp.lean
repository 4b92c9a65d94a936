import BpmAcquisition.Hardware.SpiBus

/-!
# The bus after power-up

`init_done` of each controller is `init_ena` of the next. While no `valid` input changes, the four
initializations follow one another on the shared lines: one chip is selected at most, and the frames on the bus are the
words of the four memories in their order.
-/

namespace BpmAcquisition.SpiCtrl

open Machine Pulse2pulse StellarCmd

/-- No level changes. -/
structure Still (levels : Chip → Bool) (external : Bool) (p : Ports) : Prop where
  valid : p.valid = levels
  externalClock : p.externalClock = external

def Chip.place : Chip → Nat
  | .cdce72010 => 0
  | .ads62p49 => 1
  | .dac3283 => 2
  | .amc7823 => 3

/-- The flag of the initialization has not been raised. -/
structure Dormant {d : Device} (c : Ctrl d) : Prop where
  init : c.clk.init = false
  initTmp : c.serial.initTmp = false
  initReg : c.serial.initReg = false

/-- What has a turn comes after what is before it. -/
theorem flatMap_turns {ι α : Type} {l : List ι} (first rest : ι → List α)
    (turns : l.Pairwise fun i j => rest i = [] ∨ first j = []) :
    (l.flatMap fun i => first i ++ rest i) = l.flatMap first ++ l.flatMap rest := by
  induction l with
  | nil => rfl
  | cons i l ih =>
    obtain ⟨here, later⟩ := List.pairwise_cons.mp turns
    rw [List.flatMap_cons, List.flatMap_cons, List.flatMap_cons, ih later]
    by_cases ended : rest i = []
    · simp [ended]
    · have none : l.flatMap first = [] := by
        rw [List.flatMap_eq_nil_iff]
        exact fun j member => (here j member).resolve_left ended
      simp [none]

section
variable (roms : Roms) (external : Bool) (n : Chip → Nat) (levels : Chip → Bool)

/-- Each initialization is in its stage, and has not begun unless those before it are over. -/
structure PowerUp (s : Bus) (stage : Chip → Stage) : Prop where
  steady : Steady levels s
  unmailed : ∀ c, Unmailed (s.ctrl c)
  shown : ∀ c, (s.ctrl c).shown = none
  stands : ∀ c, ∃ ticked, Initializes c.serializer (roms c) external (n c) ticked (s.chip c) (stage c)
  turns : ∀ b c : Chip, b.place < c.place → stage b = .finished ∨ stage c = .waiting ∧ Dormant (s.ctrl c)

def owedFrames (stage : Chip → Stage) : List (Chip × List (Option Bool)) :=
  chips.flatMap fun c => (stageOwes c.serializer (roms c) external (n c) (stage c)).map (c, ·)

/-- The words of the four memories. -/
def allWords : List (Chip × List (Option Bool)) :=
  chips.flatMap fun c => (wordFrames c.serializer (roms c) external (n c) 0).map (c, ·)

variable {roms external n levels} {s : Bus} {p : Ports} {stage : Chip → Stage}

theorem silent_toController {c : Chip} (silent : s.inCmdVal c = false) : (s.toController p c).Silent := by
  constructor <;> simp [Command.write, Command.read, CmdIn.write, CmdIn.read, CmdIn.hits, Bus.toController, silent]

/-- A controller is enabled by the one before it, and that one by what is before it. -/
theorem enabled_after (power : PowerUp roms external n levels s stage) {c : Chip} (enabled : s.initEna c = true) :
    ∀ b : Chip, b.place < c.place → stage b = .finished := by
  have ended : ∀ b : Chip, (s.ctrl b).clk.initDone = true → stage b = .finished := fun b done => by
    obtain ⟨ticked, stands⟩ := power.stands b
    exact done_finished b.serializer (roms b) stands done
  have chain : ∀ a b : Chip, a.place < b.place → stage b = .finished → stage a = .finished := by
    intro a b before finished
    rcases power.turns a b before with done | ⟨waiting, -⟩
    · exact done
    · rw [finished] at waiting
      cases waiting
  intro b before
  cases c with
  | cdce72010 => exact absurd before (Nat.not_lt_zero _)
  | ads62p49 =>
    cases b <;> first | exact ended .cdce72010 enabled | exact absurd before (by decide)
  | dac3283 =>
    have ads := ended .ads62p49 enabled
    cases b <;> first | exact ads | exact chain _ .ads62p49 (by decide) ads | exact absurd before (by decide)
  | amc7823 =>
    have dac := ended .dac3283 enabled
    cases b <;> first | exact dac | exact chain _ .dac3283 (by decide) dac | exact absurd before (by decide)

theorem dormant_afterClk {d : Device} {rom : Rom d} {w : Watched d} {i : Command} (calm : Calm w.ctrl)
    (released : Released w.ctrl 0) (dormant : Dormant w.ctrl) (off : i.initEna = false) (rises sdi : Bool) :
    Dormant (run (watch rom) w (afterClk i rises sdi external)).ctrl := by
  have init : (tick rom w.ctrl (.clk i)).clk.init = false := by
    rw [calm_init rom calm, released.1, off, dormant.init]
    rfl
  cases rises with
  | false => exact ⟨init, dormant.initTmp, dormant.initReg⟩
  | true => exact ⟨init, init, dormant.initTmp⟩

/-- What an edge does to one of the initializations. -/
theorem chip_edge (last : ∀ c, LastWord (roms c) external (n c)) (power : PowerUp roms external n levels s stage)
    (still : Still levels external p) (c : Chip) :
    ∃ stage', (∃ ticked, Initializes c.serializer (roms c) external (n c) ticked ((busEdge roms s p).chip c) stage') ∧
      Follows (s.ctrl c) (stage c) stage' ∧
      stageOwes c.serializer (roms c) external (n c) (stage c) =
        trace (watch (roms c)) (sent (roms c)) (s.chip c) (s.ticks p c) ++
          stageOwes c.serializer (roms c) external (n c) stage' ∧
      (Enabled (s.chip c) (stage c) ∨ s.initEna c = true →
        Enabled ((busEdge roms s p).chip c) stage' ∧
          pace (n c) ((busEdge roms s p).chip c) stage' ≤
            pace (n c) (s.chip c) (stage c) - ((s.divider c).rises c).toNat) := by
  obtain ⟨ticked, stands⟩ := power.stands c
  have edge := afterClk_stands c.serializer (roms c) (last c) stands (silent_toController (p := p) (power.steady.silent c))
    ((s.divider c).rises c) (s.sdi p c)
  rw [← still.externalClock] at edge ⊢
  obtain ⟨stage', next, follows, conserved, progress⟩ := edge
  exact ⟨stage', ⟨_, next⟩, follows, conserved, progress⟩

/-- Of two initializations the first is over, or the second still has its turn before it. -/
theorem turn_edge (power : PowerUp roms external n levels s stage) {b c : Chip} (before : b.place < c.place) :
    stage b = .finished ∨ stage c = .waiting ∧ (s.ctrl c).serial.initReg = false ∧ Dormant ((busEdge roms s p).ctrl c) := by
  rcases power.turns b c before with finished | ⟨waiting, dormant⟩
  · exact Or.inl finished
  · cases enabled : s.initEna c with
    | true => exact Or.inl (enabled_after power enabled b before)
    | false =>
      obtain ⟨ticked, calm, here⟩ := power.stands c
      rw [waiting] at here
      obtain ⟨-, -, -, -, released, -⟩ := here
      refine Or.inr ⟨waiting, dormant.initReg, ?_⟩
      exact dormant_afterClk calm released dormant enabled ((s.divider c).rises c) (s.sdi p c)

theorem calm_replies {d : Device} (rom : Rom d) {w : Watched d} (calm : Calm w.ctrl) (i : Command) (rises sdi external : Bool) :
    trace (watch rom) replies w (afterClk i rises sdi external) = [] := by
  have none : replies w (.clk i) = [] := silent_replies (empty_pulse calm.under.answers.empty)
  cases rises with
  | false => simp [afterClk, none]
  | true =>
    simp only [afterClk, if_true, trace_cons, none]
    rfl

theorem powerUp_edge (last : ∀ c, LastWord (roms c) external (n c)) (power : PowerUp roms external n levels s stage)
    (still : Still levels external p) :
    ∃ stage', PowerUp roms external n levels (busEdge roms s p) stage' ∧
      owedFrames roms external n stage = busFrames roms s p ++ owedFrames roms external n stage' ∧
      ∀ c, (stage c = .finished → stage' c = .finished) ∧
        (Enabled (s.chip c) (stage c) ∨ s.initEna c = true →
          Enabled ((busEdge roms s p).chip c) (stage' c) ∧
            pace (n c) ((busEdge roms s p).chip c) (stage' c) ≤
              pace (n c) (s.chip c) (stage c) - ((s.divider c).rises c).toNat) := by
  choose stage' stands follows owed progress using chip_edge last power still
  refine ⟨stage', ⟨steady_edge power.steady still.valid, fun c => unmailed_run (roms c) (power.unmailed c) _, fun c => ?_,
    stands, fun b c before => ?_⟩, ?_, fun c => ⟨(follows c).1, progress c⟩⟩
  · obtain ⟨ticked, calm, -⟩ := power.stands c
    have shown : ((busEdge roms s p).ctrl c).shown.toList = _ := shown_afterClk (roms c) (power.unmailed c) _ _ _ _
    rw [calm_replies (roms c) calm] at shown
    exact Option.toList_eq_nil_iff.mp shown
  · rcases turn_edge (p := p) power before with finished | ⟨waiting, reg, dormant⟩
    · exact Or.inl ((follows b).1 finished)
    · exact Or.inr ⟨(follows c).2 waiting reg, dormant⟩
  · have ordered : chips.Pairwise fun b c => b.place < c.place := by decide
    have split := flatMap_turns
      (fun c => (trace (watch (roms c)) (sent (roms c)) (s.chip c) (s.ticks p c)).map (c, ·))
      (fun c => (stageOwes c.serializer (roms c) external (n c) (stage' c)).map (c, ·))
      (ordered.imp fun {b c} before => ?_)
    · simpa only [owedFrames, busFrames, ← List.map_append, ← owed] using split
    · rcases turn_edge (p := p) power before with finished | ⟨waiting, reg, -⟩
      · left
        rw [(follows b).1 finished]
        rfl
      · right
        have same := owed c
        rw [(follows c).2 waiting reg, waiting, List.self_eq_append_left] at same
        rw [same]
        rfl

/-- The bus after its reset: the dividers run on, whatever they have reached. -/
structure PoweredUp (levels : Chip → Bool) (s : Bus) : Prop where
  steady : Steady levels s
  reset : ∀ c, ∃ initData, s.chip c = powered initData

theorem powered_power (roms : Roms) (external : Bool) (n : Chip → Nat) (poweredUp : PoweredUp levels s) :
    PowerUp roms external n levels s fun _ => .waiting := by
  refine ⟨poweredUp.steady, fun c => ?_, fun c => ?_, fun c => ?_, fun b c _ => Or.inr ⟨rfl, ?_⟩⟩
  · obtain ⟨initData, same⟩ := poweredUp.reset c
    rw [Bus.ctrl, same]
    exact ⟨rfl, rfl⟩
  · obtain ⟨initData, same⟩ := poweredUp.reset c
    rw [Bus.ctrl, same]
    rfl
  · obtain ⟨initData, same⟩ := poweredUp.reset c
    rw [same]
    exact ⟨true, powered_waits c.serializer (roms c) initData true⟩
  · obtain ⟨initData, same⟩ := poweredUp.reset c
    rw [Bus.ctrl, same]
    exact ⟨rfl, rfl, rfl⟩

theorem stands_ncs {d : Device} {S : Serializer d} {rom : Rom d} {m : Nat} {ticked : Bool} {w : Watched d} {st : Stage}
    (stands : Initializes S rom external m ticked w st) (resting : st = .waiting ∨ st = .finished) : w.ctrl.ncs = true := by
  obtain ⟨-, here⟩ := stands
  rcases resting with rfl | rfl
  · exact here.1.ncs
  · exact here.1.ncs

theorem power_apart (power : PowerUp roms external n levels s stage) {b c : Chip} (other : b ≠ c) :
    (s.ctrl b).ncs = true ∨ (s.ctrl c).ncs = true := by
  have ordered : ∀ {b c : Chip}, b.place < c.place → (s.ctrl b).ncs = true ∨ (s.ctrl c).ncs = true := by
    intro b c before
    obtain ⟨_, standsFirst⟩ := power.stands b
    obtain ⟨_, standsSecond⟩ := power.stands c
    rcases power.turns b c before with finished | ⟨waiting, -⟩
    · exact Or.inl (stands_ncs standsFirst (Or.inr finished))
    · exact Or.inr (stands_ncs standsSecond (Or.inl waiting))
  have places : b.place < c.place ∨ c.place < b.place := by
    cases b <;> cases c <;> first | exact absurd rfl other | decide
  rcases places with before | after
  · exact ordered before
  · exact (ordered after).symm

theorem powerUp_run (last : ∀ c, LastWord (roms c) external (n c)) (poweredUp : PoweredUp levels s) {ps : List Ports}
    (still : ∀ p ∈ ps, Still levels external p) :
    ∃ stage, PowerUp roms external n levels (run (busEdge roms) s ps) stage ∧
      allWords roms external n = trace (busEdge roms) (busFrames roms) s ps ++ owedFrames roms external n stage := by
  have step : ∀ (s : Bus) (p : Ports) (held : List (Chip × List (Option Bool))),
      (∃ stage, PowerUp roms external n levels s stage ∧ held = owedFrames roms external n stage) →
      Still levels external p →
      ∃ next, (∃ stage, PowerUp roms external n levels (busEdge roms s p) stage ∧ next = owedFrames roms external n stage) ∧
        held = busFrames roms s p ++ next := by
    rintro s p held ⟨stage, power, rfl⟩ quiet
    obtain ⟨stage', power', conserved, -⟩ := powerUp_edge last power quiet
    exact ⟨_, ⟨stage', power', rfl⟩, conserved⟩
  obtain ⟨rest, ⟨stage, power, rfl⟩, conserved⟩ :=
    trace_spent step ⟨_, powered_power roms external n poweredUp, rfl⟩ (along_of_inputs still)
  exact ⟨stage, power, conserved⟩

end

/-- After power-up, at every edge and whatever the dividers and memories have held: one chip is selected at
most, the data line is that of its controller, and what the chips have taken so far are the words of the four memories in their
order. -/
theorem power_up_in_turn (roms : Roms) (external : Bool) (n : Chip → Nat) (levels : Chip → Bool)
    (last : ∀ c, LastWord (roms c) external (n c)) {s : Bus} (poweredUp : PoweredUp levels s) {ps : List Ports}
    (still : ∀ p ∈ ps, Still levels external p) :
    (∀ b c : Chip, b ≠ c →
        ((run (busEdge roms) s ps).ctrl b).ncs = true ∨ ((run (busEdge roms) s ps).ctrl c).ncs = true) ∧
      (∀ c : Chip, ((run (busEdge roms) s ps).ctrl c).ncs = false →
        (run (busEdge roms) s ps).spiSdata = (((run (busEdge roms) s ps).ctrl c).sdo).getD false) ∧
      trace (busEdge roms) (busFrames roms) s ps <+: allWords roms external n := by
  obtain ⟨stage, power, conserved⟩ := powerUp_run last poweredUp still
  refine ⟨fun b c other => power_apart power other, fun c selected => ?_, _, conserved.symm⟩
  have alone : ∀ c', c' ≠ c → ((run (busEdge roms) s ps).ctrl c').ncs = true := fun c' other =>
    (power_apart power other).resolve_right (by simp [selected])
  rw [(lines_alone alone).1, Bus.sdo, selected]
  rfl

/-- A memory of one word for each chip: that of its last register. -/
def oneWord : Roms
  | .cdce72010 => fun _ _ => 0x0000000C
  | .ads62p49 => fun _ _ => 0x7600
  | .dac3283 => fun _ _ => 0x1F00
  | .amc7823 => fun _ _ => 0x01150000

theorem oneWord_last : ∀ c, LastWord (oneWord c) false 0 := by
  intro c k within
  obtain rfl := Nat.le_zero.mp within
  cases c <;> decide

def low : Chip → Bool := fun _ => false

def fresh : Bus where
  validPrev := low
  inCmdVal := low
  inCmd := 0
  busy := false
  odata := 0
  divider _ := {}
  frozen := low
  chip _ := powered fun _ => 0

theorem fresh_powered : PoweredUp low fresh := ⟨⟨rfl, fun _ => rfl⟩, fun _ => ⟨_, rfl⟩⟩

/-- The levels stay low. -/
def calmPorts : Ports := ⟨false, 0, 0, low, low, true, true, false⟩

theorem oneWord_in_turn :
    (∀ b c : Chip, b ≠ c →
        ((run (busEdge oneWord) fresh (List.replicate 100 calmPorts)).ctrl b).ncs = true ∨
          ((run (busEdge oneWord) fresh (List.replicate 100 calmPorts)).ctrl c).ncs = true) ∧
      (∀ c : Chip, ((run (busEdge oneWord) fresh (List.replicate 100 calmPorts)).ctrl c).ncs = false →
        (run (busEdge oneWord) fresh (List.replicate 100 calmPorts)).spiSdata =
          (((run (busEdge oneWord) fresh (List.replicate 100 calmPorts)).ctrl c).sdo).getD false) ∧
      trace (busEdge oneWord) (busFrames oneWord) fresh (List.replicate 100 calmPorts) <+:
        allWords oneWord false fun _ => 0 := by
  refine power_up_in_turn oneWord false (fun _ => 0) low oneWord_last fresh_powered fun p member => ?_
  obtain rfl := List.eq_of_mem_replicate member
  exact ⟨rfl, rfl⟩

/-! ### How long it takes -/

/-- The edges of `clk` for the words of a memory: eighteen at most are a period of `serial_clk`. -/
def chipEdges (n : Chip → Nat) (c : Chip) : Nat := ((n c + 1) * (c.device.frameBits + 1) + 3) * 18 + 18

def powerUpEdges (n : Chip → Nat) : Nat := chips.foldr (fun c edges => chipEdges n c + 1 + edges) 0

section
variable (roms : Roms) (external : Bool) (n : Chip → Nat) (levels : Chip → Bool)

/-- The turn of a chip: its last word is over, or at most `m` edges away. -/
def Turn (c : Chip) (m : Nat) (s : Bus) : Prop :=
  ∃ stage, PowerUp roms external n levels s stage ∧ (Enabled (s.chip c) (stage c) ∨ s.initEna c = true) ∧
    (pace (n c) (s.chip c) (stage c) = 0 ∨
      pace (n c) (s.chip c) (stage c) * 18 + untilEdge c (s.divider c) ≤ m)

def Done (c : Chip) (s : Bus) : Prop :=
  (∃ stage, PowerUp roms external n levels s stage) ∧ (s.ctrl c).clk.initDone = true

def Edge (ps : List Ports) : Prop := ∃ p, ps = [p] ∧ Still levels external p

variable {roms external n levels}

variable (levels) in
theorem turn_less (last : ∀ c, LastWord (roms c) external (n c)) (c : Chip) (m : Nat) (s : Bus) (ps : List Ports)
    (turn : Turn roms external n levels c m s) (one : Edge external levels ps) :
    Turn roms external n levels c (m - 1) (run (busEdge roms) s ps) := by
  obtain ⟨p, rfl, still⟩ := one
  obtain ⟨stage, power, enabled, near⟩ := turn
  obtain ⟨stage', power', -, progress⟩ := powerUp_edge last power still
  obtain ⟨enabled', less⟩ := (progress c).2 enabled
  refine ⟨stage', power', Or.inl enabled', ?_⟩
  show pace (n c) ((busEdge roms s p).chip c) (stage' c) = 0 ∨
    pace (n c) ((busEdge roms s p).chip c) (stage' c) * 18 + untilEdge c ((s.divider c).edge c) ≤ m - 1
  have clock := untilEdge_step c (s.divider c)
  cases rises : (s.divider c).rises c with
  | true =>
    rw [rises] at clock less
    simp only [if_true, Bool.toNat_true] at clock less
    omega
  | false =>
    rw [rises] at clock less
    simp only [Bool.false_eq_true, if_false, Bool.toNat_false] at clock less
    omega

/-- Once `init_done_sclk` is set, `init_done` follows at the next edge. -/
theorem turn_done (last : ∀ c, LastWord (roms c) external (n c)) (c : Chip) :
    LeadsTo (busEdge roms) (Edge external levels) 1 (Turn roms external n levels c 0) (Done roms external n levels c) := by
  refine leadsTo_rank (fun s => if (s.ctrl c).clk.initDone then 0 else 1) (fun s ps turn one => ?_) (fun s _ => ?_)
    fun s turn ended => ?_
  · refine ⟨turn_less levels last c 0 s ps turn one, ?_⟩
    obtain ⟨p, rfl, still⟩ := one
    obtain ⟨stage, power, -, near⟩ := turn
    have finished := pace_over (n := n c) (s := s.chip c) (stage c) (by omega)
    have done : ((run (watch (roms c)) (s.chip c) (s.ticks p c)).ctrl).clk.initDone = true := by
      rw [Bus.ticks, afterClk]
      cases (s.divider c).rises c with
      | true => exact finished.2
      | false => exact finished.2
    have done' : ((busEdge roms s p).ctrl c).clk.initDone = true := done
    simp [done']
  · split <;> omega
  · obtain ⟨stage, power, -⟩ := turn
    refine ⟨⟨stage, power⟩, ?_⟩
    by_contra undone
    simp [undone] at ended

theorem turn_starts {stage : Chip → Stage} (power : PowerUp roms external n levels s stage) {c : Chip}
    (enabled : s.initEna c = true) : Turn roms external n levels c (chipEdges n c) s := by
  refine ⟨stage, power, Or.inr enabled, Or.inr ?_⟩
  have bound := pace_bound (n c) (s.chip c) (stage c)
  have clock := untilEdge_lt c (s.divider c)
  unfold chipEdges
  omega

theorem turn_leads (last : ∀ c, LastWord (roms c) external (n c)) (c : Chip) :
    LeadsTo (busEdge roms) (Edge external levels) (chipEdges n c + 1)
      (fun s => (∃ stage, PowerUp roms external n levels s stage) ∧ s.initEna c = true) (Done roms external n levels c) := by
  have turn := leadsTo_bound (fun m s ps => turn_less levels last c m s ps) (chipEdges n c)
  intro s rounds start both enough
  obtain ⟨⟨stage, power⟩, enabled⟩ := start
  exact leadsTo_trans turn (turn_done last c) s rounds (turn_starts power enabled) both enough

theorem leadsTo_done (last : ∀ c, LastWord (roms c) external (n c)) :
    LeadsTo (busEdge roms) (Edge external levels) (powerUpEdges n)
      (fun s => ∃ stage, PowerUp roms external n levels s stage) (Done roms external n levels .amc7823) := by
  have first : LeadsTo (busEdge roms) (Edge external levels) (chipEdges n .cdce72010 + 1)
      (fun s => ∃ stage, PowerUp roms external n levels s stage) (Done roms external n levels .cdce72010) :=
    fun s rounds power => turn_leads last .cdce72010 s rounds ⟨power, rfl⟩
  have all := leadsTo_trans first (leadsTo_trans (turn_leads last .ads62p49)
    (leadsTo_trans (turn_leads last .dac3283) (turn_leads last .amc7823)))
  have sum : powerUpEdges n = chipEdges n .cdce72010 + 1 +
      (chipEdges n .ads62p49 + 1 + (chipEdges n .dac3283 + 1 + (chipEdges n .amc7823 + 1))) := by
    simp [powerUpEdges, chips]
  rw [sum]
  exact all

end

theorem flatten_singletons {α : Type} (l : List α) : (l.map fun x => [x]).flatten = l := by
  induction l with
  | nil => rfl
  | cons x rest ih => simp [ih]

theorem power_up_bus {roms : Roms} {external : Bool} {n : Chip → Nat} {levels : Chip → Bool}
    (last : ∀ c, LastWord (roms c) external (n c)) {s : Bus} (poweredUp : PoweredUp levels s) {ps : List Ports}
    (still : ∀ p ∈ ps, Still levels external p) (enough : powerUpEdges n ≤ ps.length) :
    trace (busEdge roms) (busFrames roms) s ps = allWords roms external n ∧ AtRest levels (run (busEdge roms) s ps) := by
  have edges : ∀ r ∈ ps.map fun p => [p], Edge external levels r := by
    intro r member
    obtain ⟨p, inPorts, rfl⟩ := List.mem_map.mp member
    exact ⟨p, rfl, still p inPorts⟩
  obtain ⟨-, done⟩ := leadsTo_done last s (ps.map fun p => [p]) ⟨_, powered_power roms external n poweredUp⟩ edges
    (by rw [List.length_map]; exact enough)
  rw [flatten_singletons] at done
  obtain ⟨stage, power, conserved⟩ := powerUp_run last poweredUp still
  have finished : ∀ c, stage c = .finished := by
    obtain ⟨_, stands⟩ := power.stands .amc7823
    have final := done_finished Chip.amc7823.serializer (roms .amc7823) stands done
    intro c
    by_cases same : c = .amc7823
    · exact same ▸ final
    · have before : c.place < Chip.place .amc7823 := by
        cases c <;> first | exact absurd rfl same | decide
      rcases power.turns c .amc7823 before with ended | ⟨waiting, -⟩
      · exact ended
      · exact absurd (waiting.symm.trans final) (by simp)
  have nothing : owedFrames roms external n stage = [] := by
    simp [owedFrames, finished, stageOwes]
  refine ⟨?_, power.steady, fun c => ?_, power.unmailed, power.shown⟩
  · rw [conserved, nothing, List.append_nil]
  · obtain ⟨_, stands⟩ := power.stands c
    rw [finished c] at stands
    exact finished_quiet c.serializer (roms c) stands

/-- In a time that the numbers of words fix, all four chips have taken all their words, and the bus is ready for an access. -/
theorem power_up_completes (roms : Roms) (external : Bool) (n : Chip → Nat) (levels : Chip → Bool)
    (last : ∀ c, LastWord (roms c) external (n c)) {s : Bus} (poweredUp : PoweredUp levels s) {ps : List Ports}
    (still : ∀ p ∈ ps, Still levels external p) (enough : powerUpEdges n ≤ ps.length) :
    trace (busEdge roms) (busFrames roms) s ps = allWords roms external n ∧ AtRest levels (run (busEdge roms) s ps) :=
  power_up_bus last poweredUp still enough

theorem oneWord_completes :
    trace (busEdge oneWord) (busFrames oneWord) fresh (List.replicate 2100 calmPorts) = allWords oneWord false (fun _ => 0) ∧
      AtRest low (run (busEdge oneWord) fresh (List.replicate 2100 calmPorts)) := by
  refine power_up_completes oneWord false (fun _ => 0) low oneWord_last fresh_powered (fun p member => ?_) ?_
  · obtain rfl := List.eq_of_mem_replicate member
    exact ⟨rfl, rfl⟩
  · rw [List.length_replicate]
    decide

end BpmAcquisition.SpiCtrl
