import BpmAcquisition.Hardware.SpiTransfers

/-!
# The initialization of a chip

While `init` is set the serial machine sends the words of the initialization memory one after the
other. At the last one it sets `done_sclk`; the process at `clk` sees it and releases `init`, and the
serial machine sees that through two registers: in time, if `clk` has an edge in each period of `serial_clk`.
`initialization_exact`: the chip takes the words of the memory in their order, each once, and when
`init_done` is high it has taken all of them and the controller is quiet.
-/

namespace BpmAcquisition.SpiCtrl

open Machine Pulse2pulse StellarCmd

variable {d : Device} (S : Serializer d) (rom : Rom d)

/-- The edges of `clk` between two edges of `serial_clk`, and the second of these. -/
structure Period where
  clk : List Command
  sdi : Bool

def Period.ticks (external : Bool) (p : Period) : List Tick := p.clk.map .clk ++ [.serial p.sdi external]

/-- `clk` ticks, and no command is given. -/
structure Period.Silent (p : Period) : Prop where
  ticks : p.clk ≠ []
  silent : ∀ i ∈ p.clk, i.Silent

/-- The word `n` of the memory is the first that ends the initialization. -/
def LastWord (rom : Rom d) (external : Bool) (n : Nat) : Prop :=
  ∀ k ≤ n, d.lastInit (rom external (BitVec.ofNat d.romAddr k)) = decide (k = n)

def wordFrame (external : Bool) (k : Nat) : List (Option Bool) :=
  S.bits (d.initFrame (rom external (BitVec.ofNat d.romAddr k)))

/-- The frames of the words from `k` to the last one. -/
def wordFrames (external : Bool) (n k : Nat) : List (List (Option Bool)) :=
  (List.range' k (n + 1 - k)).map (wordFrame S rom external)

/-- Nothing has been commanded that is still under way. -/
structure Calm (c : Ctrl d) : Prop where
  under : Under c
  instructions : c.instructions.Ready
  writes : c.writes.Ready
  reads : c.reads.Ready

/-- `init_done_tmp`, `init_done_prev` and `init` after so many edges of `clk` with `done_sclk` set. -/
def Released (c : Ctrl d) : Nat → Prop
  | 0 => c.clk.initDoneTmp = false ∧ c.clk.initDonePrev = false
  | 1 => c.clk.initDoneTmp = true ∧ c.clk.initDonePrev = false
  | _ => c.clk.initDoneTmp = true ∧ c.clk.initDonePrev = true ∧ c.clk.init = false

/-- The flag is up on its whole way. -/
structure Raised (c : Ctrl d) : Prop where
  init : c.clk.init = true
  initTmp : c.serial.initTmp = true
  initReg : c.serial.initReg = true
  done : c.serial.doneSclk = false
  released : Released c 0

/-- The flag goes down: `periods` of the last word are over, and `clk` has ticked in each of them. -/
structure Falling (c : Ctrl d) (periods : Nat) (ticked : Bool) : Prop where
  done : c.serial.doneSclk = true
  released : ∃ n, periods + ticked.toNat ≤ n ∧ Released c n
  initTmp : 2 ≤ periods → c.serial.initTmp = false
  initReg : 3 ≤ periods → c.serial.initReg = false

structure Unreported (c : Ctrl d) : Prop where
  initDoneSclk : c.serial.initDoneSclk = false
  initDone : c.clk.initDone = false

inductive Stage where
  | waiting
  | sending (k : Nat)
  | between (k : Nat)
  | finished

def stageOwes (external : Bool) (n : Nat) : Stage → List (List (Option Bool))
  | .waiting => wordFrames S rom external n 0
  | .sending k | .between k => wordFrames S rom external n k
  | .finished => []

/-- Where the initialization stands; `ticked` when `clk` has had an edge since the last one of `serial_clk`. -/
def InStage (external : Bool) (n : Nat) (s : Watched d) (ticked : Bool) : Stage → Prop
  | .waiting =>
    Rest s ∧ s.ctrl.serial.fsm.shifting = false ∧ s.ctrl.serial.initAddress = 0 ∧ s.ctrl.serial.doneSclk = false ∧
      Released s.ctrl 0 ∧ Unreported s.ctrl ∧ (s.ctrl.serial.initReg = true → s.ctrl.serial.initTmp = true) ∧
      (s.ctrl.serial.initTmp = true → s.ctrl.clk.init = true ∧ ∀ e, s.ctrl.serial.initData e = rom e 0)
  | .sending k =>
    k ≤ n ∧ S.Sends s.ctrl.serial.fsm s.ctrl.serial.shiftReg s.samples [wordFrame S rom external k] ∧
      s.ctrl.ncs = false ∧ s.ctrl.serial.fsm.readNWrite = false ∧ Unreported s.ctrl ∧
      (k < n → Raised s.ctrl ∧ s.ctrl.serial.initAddress = BitVec.ofNat d.romAddr (k + 1)) ∧
      (k = n → Falling s.ctrl s.samples.length ticked)
  | .between k =>
    k ≤ n ∧ Rest s ∧ s.ctrl.serial.fsm.shifting = false ∧ Raised s.ctrl ∧
      s.ctrl.serial.initAddress = BitVec.ofNat d.romAddr k ∧ Unreported s.ctrl ∧
      ∀ e, s.ctrl.serial.initData e = rom e (BitVec.ofNat d.romAddr k)
  | .finished => Rest s ∧ Settled s.ctrl ∧ s.ctrl.clk.initDonePrev = true

/-- The edges of `serial_clk` until `init_done_sclk` is set. -/
def pace (n : Nat) (s : Watched d) : Stage → Nat
  | .waiting =>
    (if s.ctrl.serial.initReg then 0 else if s.ctrl.serial.initTmp then 1 else 2) + (n + 1) * (d.frameBits + 1) + 1
  | .between k => (n + 1 - k) * (d.frameBits + 1) + 1
  | .sending k => d.frameBits - s.samples.length + (n - k) * (d.frameBits + 1) + 1
  | .finished => if s.ctrl.serial.initDoneSclk then 0 else 1

def Enabled (s : Watched d) (stage : Stage) : Prop := stage = .waiting → s.ctrl.clk.init = true

/-! ### Edges of `clk` -/

section
variable {s : Watched d} {c : Ctrl d} {i : Command} {external ticked : Bool} {n : Nat}

theorem calm_clk (calm : Calm c) (write : i.write = none) (read : i.read = none) : Calm (tick rom c (.clk i)) := by
  obtain ⟨idle, under⟩ := under_clk rom calm.under write read
  refine ⟨under, ?_, ?_, ?_⟩
  · rw [instructions_still rom (idle_instruction idle)]
    exact ready_still calm.instructions (some ()) false
  · rw [writes_still rom write]
    exact ready_still calm.writes (some ()) true
  · rw [reads_still rom read]
    exact ready_still calm.reads (some ()) true

theorem calm_init (calm : Calm c) (i : Command) :
    (tick rom c (.clk i)).clk.init =
      if c.clk.initDoneTmp && !c.clk.initDonePrev then false
      else if i.initEna && !c.clk.initDoneTmp then true
      else c.clk.init := by
  show nextInit c.clk (c.clkIn i) = _
  unfold nextInit
  rw [(no_write (empty_pulse calm.under.writes)).2]
  rfl

/-- `done_sclk` low: the flag is not released. -/
theorem unreleased_clk (calm : Calm c) (released : Released c 0) (done : c.serial.doneSclk = false) (i : Command) :
    Released (tick rom c (.clk i)) 0 ∧ (c.clk.init = true → (tick rom c (.clk i)).clk.init = true) := by
  obtain ⟨tmp, prev⟩ := released
  refine ⟨⟨done, tmp⟩, fun init => ?_⟩
  rw [calm_init rom calm, tmp, init]
  simp

/-- `done_sclk` high: one edge further. -/
theorem released_clk (calm : Calm c) {k : Nat} (released : Released c k) (done : c.serial.doneSclk = true) (i : Command) :
    Released (tick rom c (.clk i)) (k + 1) := by
  match k, released with
  | 0, ⟨tmp, _⟩ => exact ⟨done, tmp⟩
  | 1, ⟨tmp, prev⟩ =>
    refine ⟨done, tmp, ?_⟩
    rw [calm_init rom calm, tmp, prev]
    rfl
  | _ + 2, ⟨tmp, prev, init⟩ =>
    refine ⟨done, tmp, ?_⟩
    rw [calm_init rom calm, tmp, prev, init]
    simp

theorem unreported_clk (unreported : Unreported c) (i : Command) : Unreported (tick rom c (.clk i)) :=
  ⟨unreported.initDoneSclk, unreported.initDoneSclk⟩

theorem raised_clk (calm : Calm c) (raised : Raised c) (i : Command) : Raised (tick rom c (.clk i)) := by
  obtain ⟨released, kept⟩ := unreleased_clk rom calm raised.released raised.done i
  exact ⟨kept raised.init, raised.initTmp, raised.initReg, raised.done, released⟩

theorem falling_clk (calm : Calm c) {periods : Nat} (falling : Falling c periods ticked) (i : Command) :
    Falling (tick rom c (.clk i)) periods true := by
  obtain ⟨done, ⟨k, enough, released⟩, initTmp, initReg⟩ := falling
  refine ⟨done, ⟨k + 1, ?_, released_clk rom calm released done i⟩, initTmp, initReg⟩
  simp only [Bool.toNat_true]
  omega

theorem stage_clk {stage : Stage} (calm : Calm s.ctrl) (here : InStage S rom external n s ticked stage) (i : Command) :
    InStage S rom external n (watch rom s (.clk i)) true stage := by
  cases stage with
  | waiting =>
    obtain ⟨rest, shifting, address, done, released, unreported, order, tmp⟩ := here
    obtain ⟨released', kept⟩ := unreleased_clk rom calm released done i
    refine ⟨rest_clk rom rest, shifting, address, done, released', unreported_clk rom unreported i, order, fun up => ?_⟩
    exact ⟨kept (tmp up).1, (tmp up).2⟩
  | sending k =>
    obtain ⟨within, sends, ncs, writing, unreported, more, last⟩ := here
    refine ⟨within, sends, ncs, writing, unreported_clk rom unreported i, fun before => ?_, fun same => ?_⟩
    · exact ⟨raised_clk rom calm (more before).1 i, (more before).2⟩
    · exact falling_clk rom calm (last same) i
  | between k =>
    obtain ⟨within, rest, shifting, raised, address, unreported, data⟩ := here
    exact ⟨within, rest_clk rom rest, shifting, raised_clk rom calm raised i, address, unreported_clk rom unreported i, data⟩
  | finished =>
    obtain ⟨rest, settled, prev⟩ := here
    refine ⟨rest_clk rom rest, settled_clk rom settled fun out => ?_, settled.doneTmp⟩
    exact absurd out (Bool.eq_false_iff.mp (empty_pulse calm.under.writes))

theorem enabled_clk {stage : Stage} (calm : Calm s.ctrl) (here : InStage S rom external n s ticked stage)
    (enabled : Enabled s stage ∨ i.initEna = true) : Enabled (watch rom s (.clk i)) stage := by
  rintro rfl
  obtain ⟨-, -, -, done, released, -⟩ := here
  rcases enabled with before | now
  · exact (unreleased_clk rom calm released done i).2 (before rfl)
  · show (tick rom s.ctrl (.clk i)).clk.init = true
    rw [calm_init rom calm, released.1, now]
    rfl

end

/-! ### Edges of `serial_clk` -/

section
variable {s : Watched d} {c : Ctrl d} {external ticked : Bool} {n k : Nat} (sdi : Bool)

theorem calm_serial (calm : Calm c) (working : c.serial.fsm.shState ≠ .dataValid) :
    Calm (tick rom c (.serial sdi external)) := by
  refine ⟨⟨calm.under.writes, calm.under.reads, ?_, calm.under.answers⟩, ?_, calm.writes, calm.reads⟩
  · rw [received_still rom sdi external working]
    exact ready_still calm.under.received (some ()) false
  · exact ready_still calm.instructions none true

theorem stage_working {stage : Stage} (here : InStage S rom external n s ticked stage) :
    s.ctrl.serial.fsm.shState ≠ .dataValid := by
  cases stage with
  | waiting => rw [here.1.idle]; decide
  | sending k => exact (S.active here.2.1).2
  | between k => rw [here.2.1.idle]; decide
  | finished => rw [here.1.idle]; decide

/-- The last stage stays, and the first one until `init_reg` is set. -/
def Follows (c : Ctrl d) (stage stage' : Stage) : Prop :=
  (stage = .finished → stage' = .finished) ∧ (stage = .waiting → c.serial.initReg = false → stage' = .waiting)

/-- One period of the initialization: to another stage or not, with the frames that are still owed. -/
def Passes (external : Bool) (n : Nat) (s : Watched d) (sdi : Bool) (stage : Stage) : Prop :=
  ∃ stage', InStage S rom external n (watch rom s (.serial sdi external)) false stage' ∧ Follows s.ctrl stage stage' ∧
    stageOwes S rom external n stage = sent rom s (.serial sdi external) ++ stageOwes S rom external n stage' ∧
    (Enabled s stage → Enabled (watch rom s (.serial sdi external)) stage' ∧
      pace n (watch rom s (.serial sdi external)) stage' ≤ pace n s stage - 1)

theorem enabled_elsewhere {stage : Stage} (elsewhere : stage ≠ .waiting) : Enabled s stage :=
  fun same => absurd same elsewhere

/-- The edge that loads a word comes before the edges of its bits. -/
theorem word_pace (within : k ≤ n) (m : Nat) : (n + 1 - k) * (m + 1) = m + (n - k) * (m + 1) + 1 := by
  rw [show n + 1 - k = n - k + 1 by omega, Nat.succ_mul]
  omega

theorem rest_sent (rest : Rest s) : sent rom s (.serial sdi external) = [] := by
  simp [sent, frames, rest.ncs]

variable (external) in
/-- While the machine does not load a word, and no instruction comes, the memory's address stands. -/
theorem serial_stands (busy : c.serial.loads = false) :
    (tick rom c (.serial sdi external)).serial.initAddress = c.serial.initAddress ∧
      (tick rom c (.serial sdi external)).serial.doneSclk = c.serial.doneSclk := by
  constructor
  · show (if c.serial.loads then _ else c.serial.initAddress) = _
    rw [if_neg (Bool.eq_false_iff.mp busy)]
  · show (if c.serial.loads then _ else c.serial.doneSclk) = _
    rw [if_neg (Bool.eq_false_iff.mp busy)]

variable (external) in
theorem unreported_serial (unreported : Unreported c) (working : c.serial.doneSclk = true → c.serial.fsm.shState ≠ .idle) :
    Unreported (tick rom c (.serial sdi external)) := by
  refine ⟨?_, unreported.initDone⟩
  show (if !c.serial.doneSclk then false else if c.serial.fsm.shState = .idle then true else c.serial.initDoneSclk) = false
  cases done : c.serial.doneSclk with
  | false => rfl
  | true =>
    rw [if_neg (working done), unreported.initDoneSclk]
    rfl

/-- A word is loaded and its first bit is on the line. -/
theorem load_serial (last : LastWord rom external n) (within : k ≤ n) (rest : Rest s)
    (shifting : s.ctrl.serial.fsm.shifting = false) (raised : Raised s.ctrl)
    (address : s.ctrl.serial.initAddress = BitVec.ofNat d.romAddr k) (unreported : Unreported s.ctrl)
    (data : ∀ e, s.ctrl.serial.initData e = rom e (BitVec.ofNat d.romAddr k)) :
    InStage S rom external n (watch rom s (.serial sdi external)) false (.sending k) := by
  have loads : s.ctrl.serial.loads = true := by simp [SerialSide.loads, raised.initReg, shifting]
  have fsm : (tick rom s.ctrl (.serial sdi external)).serial.fsm = d.fsm s.ctrl.serial.fsm true false := by
    show d.fsm s.ctrl.serial.fsm (s.ctrl.inst.pulseout || s.ctrl.serial.initReg)
      (s.ctrl.clk.ins.rw && !s.ctrl.serial.initReg) = _
    rw [raised.initReg, Bool.or_true, Bool.not_true, Bool.and_false]
  have register : (tick rom s.ctrl (.serial sdi external)).serial.shiftReg =
      d.initFrame (rom external (BitVec.ofNat d.romAddr k)) := by
    show (if s.ctrl.serial.loads then _ else _) = _
    rw [if_pos loads, data]
  have samples : (watch rom s (.serial sdi external)).samples = [] := by simp [watch, rest.ncs]
  obtain ⟨selected, direction⟩ := S.select s.ctrl.serial.fsm false rest.idle
  rw [← fsm] at selected direction
  have ended : d.lastInit (s.ctrl.serial.initData external) = decide (k = n) := by
    rw [data]
    exact last k within
  have done : (tick rom s.ctrl (.serial sdi external)).serial.doneSclk = decide (k = n) := by
    show (if s.ctrl.serial.loads then _ else _) = _
    rw [if_pos loads, ended]
  have quietly : s.ctrl.serial.doneSclk = true → s.ctrl.serial.fsm.shState ≠ .idle := fun up =>
    absurd (raised.done.symm.trans up) Bool.false_ne_true
  refine ⟨within, ?_, selected, direction, unreported_serial rom external sdi unreported quietly, fun before => ⟨?_, ?_⟩, fun same => ?_⟩
  · rw [samples]
    show S.Sends (tick rom s.ctrl (.serial sdi external)).serial.fsm
      (tick rom s.ctrl (.serial sdi external)).serial.shiftReg [] _
    rw [fsm, register]
    exact S.start_word _ _ rest.idle
  · refine ⟨raised.init, raised.init, raised.initTmp, ?_, raised.released⟩
    rw [← decide_eq_false (Nat.ne_of_lt before)]
    exact done
  · show (if s.ctrl.serial.loads then if d.lastInit (s.ctrl.serial.initData external) then _ else _ else _) = _
    rw [if_pos loads, ended, decide_eq_false (Nat.ne_of_lt before), address]
    simp [BitVec.ofNat_add]
  · refine ⟨?_, ⟨0, ?_, raised.released⟩, fun two => ?_, fun three => ?_⟩
    · rw [← decide_eq_true same]
      exact done
    · rw [samples]
      rfl
    · rw [samples] at two
      simp at two
    · rw [samples] at three
      simp at three

theorem waiting_passes (calm : Calm s.ctrl) (last : LastWord rom external n)
    (here : InStage S rom external n s ticked .waiting) : Passes S rom external n s sdi .waiting := by
  obtain ⟨rest, shifting, address, done, released, unreported, order, tmp⟩ := here
  cases up : s.ctrl.serial.initReg with
  | true =>
    obtain ⟨init, data⟩ := tmp (order up)
    refine ⟨.sending 0, load_serial S rom sdi last (Nat.zero_le n) rest shifting ⟨init, order up, up, done, released⟩
      address unreported data, by simp [Follows, up], ?_, fun _ => ⟨enabled_elsewhere (by simp), ?_⟩⟩
    · rw [rest_sent rom sdi rest]
      rfl
    · have word := word_pace (Nat.zero_le n) d.frameBits
      have samples : (watch rom s (.serial sdi external)).samples = [] := by simp [watch, rest.ncs]
      simp only [pace, up, if_true, samples, List.length_nil]
      simp only [Nat.sub_zero] at word ⊢
      omega
  | false =>
    have silent : s.ctrl.inst.pulseout = false := empty_pulse calm.instructions.empty
    have fsm : (tick rom s.ctrl (.serial sdi external)).serial.fsm = d.fsm s.ctrl.serial.fsm false s.ctrl.clk.ins.rw := by
      show d.fsm s.ctrl.serial.fsm (s.ctrl.inst.pulseout || s.ctrl.serial.initReg)
        (s.ctrl.clk.ins.rw && !s.ctrl.serial.initReg) = _
      rw [up, silent, Bool.or_false, Bool.not_false, Bool.and_true]
    have busy : s.ctrl.serial.loads = false := by simp [SerialSide.loads, up]
    obtain ⟨idle, ncs⟩ := S.idle_step s.ctrl.serial.fsm s.ctrl.clk.ins.rw rest.idle
    have still := S.idle_shifting s.ctrl.serial.fsm s.ctrl.clk.ins.rw rest.idle
    rw [← fsm] at idle ncs still
    obtain ⟨address', done'⟩ := serial_stands rom external sdi busy
    have quietly : s.ctrl.serial.doneSclk = true → s.ctrl.serial.fsm.shState ≠ .idle := fun up =>
      absurd (done.symm.trans up) Bool.false_ne_true
    refine ⟨.waiting, ⟨⟨idle, ncs, by simp [watch, rest.ncs]⟩, still, address'.trans address, done'.trans done, released,
      unreported_serial rom external sdi unreported quietly, fun tmpUp => (tmp tmpUp).1, fun init => ⟨init, fun e => ?_⟩⟩, by simp [Follows],
      ?_, fun enabled => ⟨enabled, ?_⟩⟩
    · show rom e s.ctrl.serial.initAddress = rom e 0
      rw [address]
    · rw [rest_sent rom sdi rest]
      rfl
    · have init : (watch rom s (.serial sdi external)).ctrl.serial.initTmp = true := enabled rfl
      have reg : (watch rom s (.serial sdi external)).ctrl.serial.initReg = s.ctrl.serial.initTmp := rfl
      simp only [pace, up, init, reg]
      cases s.ctrl.serial.initTmp <;> simp only [Bool.false_eq_true, if_true, if_false] <;> omega

theorem between_passes (last : LastWord rom external n) (here : InStage S rom external n s ticked (.between k)) :
    Passes S rom external n s sdi (.between k) := by
  obtain ⟨within, rest, shifting, raised, address, unreported, data⟩ := here
  refine ⟨.sending k, load_serial S rom sdi last within rest shifting raised address unreported data,
    by simp [Follows], ?_, fun _ => ⟨enabled_elsewhere (by simp), ?_⟩⟩
  · rw [rest_sent rom sdi rest]
    rfl
  · have samples : (watch rom s (.serial sdi external)).samples = [] := by simp [watch, rest.ncs]
    simp only [pace, samples, List.length_nil, word_pace within]
    omega

theorem finished_passes (calm : Calm s.ctrl) (here : InStage S rom external n s ticked .finished) :
    Passes S rom external n s sdi .finished := by
  obtain ⟨rest, settled, prev⟩ := here
  obtain ⟨rest', -⟩ := rest_serial S rom sdi external settled rest (empty_pulse calm.instructions.empty)
  have reported : (tick rom s.ctrl (.serial sdi external)).serial.initDoneSclk = true := by
    show (if !s.ctrl.serial.doneSclk then false else if s.ctrl.serial.fsm.shState = .idle then true else _) = true
    rw [settled.done, rest.idle]
    rfl
  refine ⟨.finished, ⟨rest', settled_serial rom sdi external settled, prev⟩, by simp [Follows], ?_, fun _ => ⟨enabled_elsewhere (by simp), ?_⟩⟩
  · rw [rest_sent rom sdi rest]
    rfl
  · simp [pace, watch, reported]

theorem raised_serial (raised : Raised c) (busy : c.serial.loads = false) :
    Raised (tick rom c (.serial sdi external)) :=
  ⟨raised.init, raised.init, raised.initTmp, (serial_stands rom external sdi busy).2.trans raised.done, raised.released⟩

/-- Each period of the last word brings the release of the flag one register further. -/
theorem falling_serial {periods : Nat} (falling : Falling c periods true) (busy : c.serial.loads = false) :
    Falling (tick rom c (.serial sdi external)) (periods + 1) false := by
  obtain ⟨done, ⟨m, enough, released⟩, initTmp, initReg⟩ := falling
  simp only [Bool.toNat_true] at enough
  refine ⟨(serial_stands rom external sdi busy).2.trans done, ⟨m, ?_, released⟩, fun two => ?_, fun three => ?_⟩
  · simpa using enough
  · match m, released with
    | 0, _ => omega
    | 1, _ => omega
    | _ + 2, released => exact released.2.2
  · exact initTmp (by omega)

variable (external) in
theorem falling_over {periods : Nat} (falling : Falling c periods true) (long : 3 ≤ periods) :
    Settled (tick rom c (.serial sdi external)) ∧ c.clk.initDonePrev = true := by
  obtain ⟨done, ⟨m, enough, released⟩, initTmp, initReg⟩ := falling
  simp only [Bool.toNat_true] at enough
  match m, released with
  | 0, _ => omega
  | 1, _ => omega
  | _ + 2, ⟨tmp, prev, init⟩ =>
    exact ⟨settled_serial rom sdi external ⟨init, initTmp (by omega), initReg long, tmp, done⟩, prev⟩

theorem sending_passes (calm : Calm s.ctrl) (here : InStage S rom external n s true (.sending k)) :
    Passes S rom external n s sdi (.sending k) := by
  obtain ⟨within, sends, ncs, writing, unreported, more, last⟩ := here
  obtain ⟨active, notValid⟩ := S.active sends
  have silent : s.ctrl.inst.pulseout = false := empty_pulse calm.instructions.empty
  have selected : s.ctrl.serial.fsm.ncsInt = false := ncs
  have busy : s.ctrl.serial.loads = false := by simp [SerialSide.loads, S.shifting sends selected]
  have fsm : (tick rom s.ctrl (.serial sdi external)).serial.fsm = d.fsm s.ctrl.serial.fsm false false :=
    S.deaf s.ctrl.serial.fsm _ _ _ active
  have register : (tick rom s.ctrl (.serial sdi external)).serial.shiftReg =
      d.shifted s.ctrl.serial.fsm s.ctrl.serial.shiftReg sdi := by
    show (if s.ctrl.serial.loads then _ else if s.ctrl.inst.pulseout && !s.ctrl.serial.initReg then _ else _) = _
    rw [busy, silent]
    rfl
  have unreported' := unreported_serial rom external sdi unreported fun _ => active
  have step := S.sends_step sends false sdi
  simp only at step
  rw [← fsm, ← register] at step
  have writing' : (tick rom s.ctrl (.serial sdi external)).serial.fsm.readNWrite = false := by
    rw [fsm, S.direction sends false, writing]
  have address' := (serial_stands rom external sdi busy).1
  rcases step with ⟨before, -⟩ | ⟨before, after, next⟩ | ⟨before, after, rest, split, ends⟩
  · exact absurd (selected.symm.trans before) Bool.false_ne_true
  · have samples : (watch rom s (.serial sdi external)).samples = s.samples ++ [(s.ctrl.sdo, sdi)] := by
      simp [watch, Ctrl.ncs, before, after]
    have nothing : sent rom s (.serial sdi external) = [] := by simp [sent, frames, Ctrl.ncs, after]
    refine ⟨.sending k, ⟨within, ?_, after, writing', unreported', fun early => ?_, fun same => ?_⟩,
      by simp [Follows], ?_, fun _ => ⟨enabled_elsewhere (by simp), ?_⟩⟩
    · rw [samples]
      exact next
    · exact ⟨raised_serial rom sdi (more early).1 busy, address'.trans (more early).2⟩
    · rw [samples, List.length_append, List.length_singleton]
      exact falling_serial rom sdi (last same) busy
    · rw [nothing]
      rfl
    · have short := S.short sends selected
      simp only [pace, samples, List.length_append, List.length_singleton]
      omega
  · obtain ⟨whole, rfl⟩ := List.cons.inj split
    have idle : (tick rom s.ctrl (.serial sdi external)).serial.fsm.shState = .idle := by
      rcases ends with ⟨-, idle, -⟩ | ⟨-, -, reading, -⟩ | ⟨-, next⟩
      · exact idle
      · exact absurd (writing.symm.trans reading) Bool.false_ne_true
      · exact (S.some_frame next).elim
    have rest' : Rest (watch rom s (.serial sdi external)) := ⟨idle, after, by simp [watch, Ctrl.ncs, after]⟩
    have taken : sent rom s (.serial sdi external) = [wordFrame S rom external k] := by
      rw [whole]
      simp [sent, frames, Ctrl.ncs, before, after, Ctrl.sdo]
    rcases Nat.lt_or_eq_of_le within with early | same
    · obtain ⟨raised, address⟩ := more early
      refine ⟨.between (k + 1), ⟨early, rest', ?_, raised_serial rom sdi raised busy, address'.trans address, unreported',
        fun e => congrArg (rom e) address⟩, by simp [Follows], ?_, fun _ => ⟨enabled_elsewhere (by simp), ?_⟩⟩
      · have ended := S.end_shifting sends false
        rw [← fsm] at ended
        exact ended idle
      · rw [taken]
        show wordFrames S rom external n k = _ :: wordFrames S rom external n (k + 1)
        simp only [wordFrames, show n + 1 - k = n + 1 - (k + 1) + 1 by omega, List.range'_succ, List.map_cons]
      · have short := S.short sends selected
        simp only [pace, show n + 1 - (k + 1) = n - k by omega]
        omega
    · have length : 3 ≤ s.samples.length := by
        have long := S.long
        have bits := S.bits_length (d.initFrame (rom external (BitVec.ofNat d.romAddr k)))
        have counted := congrArg List.length whole
        simp only [wordFrame, List.length_map, List.length_append, List.length_singleton] at counted
        omega
      obtain ⟨settled', prev⟩ := falling_over rom external sdi (last same) length
      have unseen : (watch rom s (.serial sdi external)).ctrl.serial.initDoneSclk = false := unreported'.initDoneSclk
      refine ⟨.finished, ⟨rest', settled', prev⟩, by simp [Follows], ?_, fun _ => ⟨enabled_elsewhere (by simp), ?_⟩⟩
      · rw [taken, same]
        simp [stageOwes, wordFrames]
      · have short := S.short sends selected
        simp only [pace, unseen, Bool.false_eq_true, if_false]
        omega

end

/-! ### Runs -/

section
variable {s : Watched d} {external : Bool} {n : Nat}

/-- The initialization, and its stage. -/
def Initializes (external : Bool) (n : Nat) (ticked : Bool) (s : Watched d) (stage : Stage) : Prop :=
  Calm s.ctrl ∧ InStage S rom external n s ticked stage

theorem ticks_stand {stage : Stage} {ticked : Bool} (is : List Command) (stands : Initializes S rom external n ticked s stage)
    (silent : ∀ i ∈ is, i.Silent) :
    Initializes S rom external n (ticked || !is.isEmpty) (run (watch rom) s (is.map .clk)) stage ∧
      trace (watch rom) (sent rom) s (is.map .clk) = [] ∧
      pace n (run (watch rom) s (is.map .clk)) stage = pace n s stage ∧
      (Enabled s stage ∨ (∃ i ∈ is, i.initEna = true) → Enabled (run (watch rom) s (is.map .clk)) stage) := by
  induction is generalizing s ticked with
  | nil => simpa using stands
  | cons i rest ih =>
    obtain ⟨⟨write, read⟩, others⟩ := List.forall_mem_cons.mp silent
    have next : Initializes S rom external n true (watch rom s (.clk i)) stage :=
      ⟨calm_clk rom stands.1 write read, stage_clk S rom stands.1 stands.2 i⟩
    obtain ⟨final, nothing, pace', enabled⟩ := ih next others
    have same : pace n (watch rom s (.clk i)) stage = pace n s stage := by cases stage <;> rfl
    refine ⟨by simpa using final, nothing, pace'.trans same, fun either => enabled ?_⟩
    rw [List.exists_mem_cons_iff] at either
    rcases either with before | now | later
    · exact Or.inl (enabled_clk S rom stands.1 stands.2 (Or.inl before))
    · exact Or.inl (enabled_clk S rom stands.1 stands.2 (Or.inr now))
    · exact Or.inr later

/-- An edge of `clk`, and perhaps one of `serial_clk` after it. -/
def afterClk (i : Command) (rises sdi external : Bool) : List Tick :=
  .clk i :: if rises then [.serial sdi external] else []

theorem edge_stands {stage : Stage} (sdi : Bool) (stands : Initializes S rom external n true s stage)
    (last : LastWord rom external n) :
    Calm (tick rom s.ctrl (.serial sdi external)) ∧ Passes S rom external n s sdi stage := by
  obtain ⟨calm, here⟩ := stands
  refine ⟨calm_serial rom sdi calm (stage_working S rom here), ?_⟩
  cases stage with
  | waiting => exact waiting_passes S rom sdi calm last here
  | sending k => exact sending_passes S rom sdi calm here
  | between k => exact between_passes S rom sdi last here
  | finished => exact finished_passes S rom sdi calm here

theorem afterClk_stands {stage : Stage} {ticked : Bool} {i : Command} (last : LastWord rom external n)
    (stands : Initializes S rom external n ticked s stage) (silent : i.Silent) (rises sdi : Bool) :
    ∃ stage', Initializes S rom external n (!rises) (run (watch rom) s (afterClk i rises sdi external)) stage' ∧
      Follows s.ctrl stage stage' ∧
      stageOwes S rom external n stage =
        trace (watch rom) (sent rom) s (afterClk i rises sdi external) ++ stageOwes S rom external n stage' ∧
      (Enabled s stage ∨ i.initEna = true →
        Enabled (run (watch rom) s (afterClk i rises sdi external)) stage' ∧
          pace n (run (watch rom) s (afterClk i rises sdi external)) stage' ≤ pace n s stage - rises.toNat) := by
  obtain ⟨ticked', -, pace', enabled⟩ := ticks_stand S rom [i] stands (by simpa using silent)
  have next : Initializes S rom external n true (watch rom s (.clk i)) stage := by simpa using ticked'
  have either : Enabled s stage ∨ i.initEna = true → Enabled (watch rom s (.clk i)) stage := fun held =>
    enabled (held.imp_right fun now => ⟨i, List.mem_singleton.mpr rfl, now⟩)
  cases rises with
  | false => exact ⟨stage, next, ⟨fun same => same, fun same _ => same⟩, rfl, fun held => ⟨either held, Nat.le_of_eq pace'⟩⟩
  | true =>
    obtain ⟨calm, stage', here, follows, conserved, progress⟩ := edge_stands S rom sdi next last
    refine ⟨stage', ⟨calm, here⟩, follows, ?_, fun held => ?_⟩
    · rw [conserved]
      simp [afterClk, sent, frames]
    · obtain ⟨enabled', less⟩ := progress (either held)
      refine ⟨enabled', less.trans ?_⟩
      exact Nat.le_of_eq (congrArg (· - 1) pace')

/-- One period: edges of `clk`, and then one of `serial_clk`. -/
theorem period_stands {stage : Stage} {p : Period} (last : LastWord rom external n)
    (stands : Initializes S rom external n false s stage) (silent : p.Silent) :
    ∃ stage', Initializes S rom external n false (run (watch rom) s (p.ticks external)) stage' ∧
      stageOwes S rom external n stage =
        trace (watch rom) (sent rom) s (p.ticks external) ++ stageOwes S rom external n stage' ∧
      (Enabled s stage ∨ (∃ i ∈ p.clk, i.initEna = true) →
        Enabled (run (watch rom) s (p.ticks external)) stage' ∧
          pace n (run (watch rom) s (p.ticks external)) stage' ≤ pace n s stage - 1) := by
  obtain ⟨ticked, nothing, pace', enabled⟩ := ticks_stand S rom _ stands silent.silent
  have some : (false || !p.clk.isEmpty) = true := by simp [silent.ticks]
  rw [some] at ticked
  obtain ⟨calm, stage', here, -, conserved, progress⟩ := edge_stands S rom p.sdi ticked last
  rw [Period.ticks, run_append, trace_append, nothing, List.nil_append, trace_cons, trace_nil, List.append_nil]
  refine ⟨stage', ⟨calm, here⟩, conserved, fun either => ?_⟩
  rw [← pace']
  exact progress (enabled either)

/-- What has still to be sent in the stage that the initialization is in. -/
def InitOwes (external : Bool) (n : Nat) (s : Watched d) (frames : List (List (Option Bool))) : Prop :=
  ∃ stage, Initializes S rom external n false s stage ∧ frames = stageOwes S rom external n stage

theorem initOwes_period (last : LastWord rom external n) (s : Watched d) (p : Period)
    (frames : List (List (Option Bool))) (owes : InitOwes S rom external n s frames) (silent : p.Silent) :
    ∃ next, InitOwes S rom external n (run (watch rom) s (p.ticks external)) next ∧
      frames = trace (watch rom) (sent rom) s (p.ticks external) ++ next := by
  obtain ⟨stage, stands, rfl⟩ := owes
  obtain ⟨stage', stands', conserved, -⟩ := period_stands S rom last stands silent
  exact ⟨_, ⟨stage', stands', rfl⟩, conserved⟩

/-- The controller after its reset, whatever the memories have at their outputs. -/
def powered (initData : Bool → BitVec d.romBits) : Watched d := { ctrl := { serial := { initData := initData } } }

theorem powered_waits (initData : Bool → BitVec d.romBits) (ticked : Bool) :
    Initializes S rom external n ticked (powered initData) .waiting := by
  have under : Under (powered initData).ctrl :=
    ⟨(ready_reset _).empty, (ready_reset _).empty, ready_reset _, ready_reset _⟩
  refine ⟨⟨under, ready_reset _, ready_reset _, ready_reset _⟩, ?_⟩
  exact ⟨⟨rfl, rfl, rfl⟩, rfl, rfl, rfl, ⟨rfl, rfl⟩, ⟨rfl, rfl⟩, fun up => absurd up Bool.false_ne_true,
    fun up => absurd up Bool.false_ne_true⟩

theorem powered_owes (initData : Bool → BitVec d.romBits) :
    InitOwes S rom external n (powered initData) (wordFrames S rom external n 0) :=
  ⟨.waiting, powered_waits S rom initData false, rfl⟩

/-- `init_done` is high only after the last word. -/
theorem done_finished {ticked : Bool} {stage : Stage} (stands : Initializes S rom external n ticked s stage)
    (done : s.ctrl.clk.initDone = true) : stage = .finished := by
  obtain ⟨-, here⟩ := stands
  cases stage with
  | waiting => exact absurd (here.2.2.2.2.2.1.initDone.symm.trans done) Bool.false_ne_true
  | sending k => exact absurd (here.2.2.2.2.1.initDone.symm.trans done) Bool.false_ne_true
  | between k => exact absurd (here.2.2.2.2.2.1.initDone.symm.trans done) Bool.false_ne_true
  | finished => rfl

theorem clk_done (is : List Command) :
    (run (watch rom) s (is.map .clk)).ctrl.serial = s.ctrl.serial ∧
      (is ≠ [] → (run (watch rom) s (is.map .clk)).ctrl.clk.initDone = s.ctrl.serial.initDoneSclk) := by
  induction is generalizing s with
  | nil => exact ⟨rfl, fun some => absurd rfl some⟩
  | cons i rest ih =>
    obtain ⟨same, done⟩ := ih (s := watch rom s (.clk i))
    refine ⟨same, fun _ => ?_⟩
    cases rest with
    | nil => rfl
    | cons j rest => exact done (List.cons_ne_nil j rest)

theorem period_done {p : Period} (silent : p.Silent) :
    (run (watch rom) s (p.ticks external)).ctrl.clk.initDone = s.ctrl.serial.initDoneSclk := by
  rw [Period.ticks, run_append]
  exact (clk_done rom p.clk).2 silent.ticks

/-- The flag has been raised, and `m` edges of `serial_clk` are enough from here. -/
def Nears (external : Bool) (n m : Nat) (s : Watched d) : Prop :=
  ∃ stage, Initializes S rom external n false s stage ∧ Enabled s stage ∧ pace n s stage ≤ m

theorem nears_period (last : LastWord rom external n) (m : Nat) (s : Watched d) (r : List Tick)
    (nears : Nears S rom external n m s) (period : ∃ p : Period, p.Silent ∧ r = p.ticks external) :
    Nears S rom external n (m - 1) (run (watch rom) s r) := by
  obtain ⟨p, silent, rfl⟩ := period
  obtain ⟨stage, stands, enabled, within⟩ := nears
  obtain ⟨stage', stands', -, progress⟩ := period_stands S rom last stands silent
  obtain ⟨enabled', less⟩ := progress (Or.inl enabled)
  exact ⟨stage', stands', enabled', by omega⟩

theorem pace_bound (n : Nat) (s : Watched d) (stage : Stage) : pace n s stage ≤ (n + 1) * (d.frameBits + 1) + 3 := by
  cases stage with
  | waiting =>
    simp only [pace]
    split
    · omega
    · split <;> omega
  | sending k =>
    have less := Nat.mul_le_mul_right (d.frameBits + 1) (Nat.sub_le n k)
    have word := word_pace (Nat.zero_le n) d.frameBits
    simp only [pace, Nat.sub_zero] at word ⊢
    omega
  | between k =>
    have less := Nat.mul_le_mul_right (d.frameBits + 1) (Nat.sub_le (n + 1) k)
    simp only [pace]
    omega
  | finished =>
    simp only [pace]
    split <;> omega

theorem pace_over (stage : Stage) (ended : pace n s stage = 0) : stage = .finished ∧ s.ctrl.serial.initDoneSclk = true := by
  cases stage with
  | finished =>
    refine ⟨rfl, ?_⟩
    cases done : s.ctrl.serial.initDoneSclk with
    | true => rfl
    | false => simp [pace, done] at ended
  | waiting | sending k | between k => simp [pace] at ended

theorem nears_done (nears : Nears S rom external n 0 s) : s.ctrl.serial.initDoneSclk = true := by
  obtain ⟨stage, -, -, ended⟩ := nears
  exact (pace_over _ (Nat.le_zero.mp ended)).2

/-- After the last word the controller is quiet. -/
theorem finished_quiet {ticked : Bool} (stands : Initializes S rom external n ticked s .finished) : Quiet s := by
  obtain ⟨calm, rest, settled, -⟩ := stands
  exact ⟨settled, rest, calm.writes, calm.reads, calm.instructions, calm.under.received, calm.under.answers⟩

end

/-- From reset on, while `clk` ticks in every period of `serial_clk` and no command is given, the chip
takes the words of the initialization memory from the first to the last one, each once. When `init_done` is high
it has taken them all, and the controller is ready for a command. -/
theorem initialization_exact (c : Chip) (rom : Rom c.device) (initData : Bool → BitVec c.device.romBits)
    (external : Bool) {n : Nat} (last : LastWord rom external n) {ps : List Period} (silent : ∀ p ∈ ps, p.Silent) :
    trace (watch rom) (sent rom) (powered initData) (ps.flatMap (Period.ticks external)) <+:
        wordFrames c.serializer rom external n 0 ∧
      ((run (watch rom) (powered initData) (ps.flatMap (Period.ticks external))).ctrl.clk.initDone = true →
        trace (watch rom) (sent rom) (powered initData) (ps.flatMap (Period.ticks external)) =
            wordFrames c.serializer rom external n 0 ∧
          Quiet (run (watch rom) (powered initData) (ps.flatMap (Period.ticks external)))) := by
  rw [run_blocks, trace_blocks]
  obtain ⟨rest, owes, conserved⟩ := trace_spent (initOwes_period c.serializer rom last)
    (powered_owes c.serializer rom initData) (along_of_inputs silent)
  refine ⟨⟨rest, conserved.symm⟩, fun done => ?_⟩
  obtain ⟨stage, stands, rfl⟩ := owes
  obtain rfl := done_finished c.serializer rom stands done
  exact ⟨(conserved.trans (List.append_nil _)).symm, finished_quiet c.serializer rom stands⟩

/-- Two words, of which the second is for the last register. -/
def twoWords : Rom ads62p49 := fun _ addr => if addr = 1 then 0x7600 else 0x0042

theorem twoWords_last : LastWord twoWords false 1 := by
  intro k within
  obtain rfl | rfl : k = 0 ∨ k = 1 := by omega
  · decide
  · decide

/-- `init_ena` is high, and both clocks tick. -/
def starting : Period := ⟨[{ initEna := true }], true⟩

theorem starting_silent : starting.Silent := by
  refine ⟨by simp [starting], fun i member => ?_⟩
  obtain rfl := List.mem_singleton.mp member
  exact ⟨rfl, rfl⟩

theorem twoWords_exact :
    trace (watch twoWords) (sent twoWords) (powered fun _ => 0) ((List.replicate 50 starting).flatMap (Period.ticks false)) <+:
        wordFrames Chip.ads62p49.serializer twoWords false 1 0 ∧
      ((run (watch twoWords) (powered fun _ => 0)
            ((List.replicate 50 starting).flatMap (Period.ticks false))).ctrl.clk.initDone = true →
        trace (watch twoWords) (sent twoWords) (powered fun _ => 0)
              ((List.replicate 50 starting).flatMap (Period.ticks false)) =
            wordFrames Chip.ads62p49.serializer twoWords false 1 0 ∧
          Quiet (run (watch twoWords) (powered fun _ => 0)
            ((List.replicate 50 starting).flatMap (Period.ticks false)))) := by
  refine initialization_exact .ads62p49 twoWords (fun _ => 0) false twoWords_last fun p member => ?_
  obtain rfl := List.eq_of_mem_replicate member
  exact starting_silent

/-- Once a period has shown `init_ena`, `init_done` comes: with the edges for each word and its bits,
and three more. -/
theorem initialization_completes (c : Chip) (rom : Rom c.device) (initData : Bool → BitVec c.device.romBits)
    (external : Bool) {n : Nat} (last : LastWord rom external n) {before after : List Period} {p : Period}
    (silent : ∀ q ∈ before ++ p :: after, q.Silent) (enabled : ∃ i ∈ p.clk, i.initEna = true)
    (enough : (n + 1) * (c.device.frameBits + 1) + 3 ≤ after.length) :
    (run (watch rom) (powered initData) ((before ++ p :: after).flatMap (Period.ticks external))).ctrl.clk.initDone = true := by
  simp only [List.forall_mem_append, List.forall_mem_cons] at silent
  obtain ⟨beforehand, now, later⟩ := silent
  obtain ⟨rest, owes, -⟩ := trace_spent (initOwes_period c.serializer rom last)
    (powered_owes c.serializer rom initData) (along_of_inputs beforehand)
  rw [← run_blocks] at owes
  obtain ⟨stage, stands, -⟩ := owes
  obtain ⟨stage', stands', -, progress⟩ := period_stands c.serializer rom last stands now
  obtain ⟨enabled', less⟩ := progress (Or.inr enabled)
  have bound := pace_bound n (run (watch rom) (powered initData) (before.flatMap (Period.ticks external))) stage
  have nears : Nears c.serializer rom external n ((n + 1) * (c.device.frameBits + 1) + 2)
      (run (watch rom) (run (watch rom) (powered initData) (before.flatMap (Period.ticks external))) (p.ticks external)) :=
    ⟨stage', stands', enabled', by omega⟩
  obtain rfl | ⟨front, q, rfl⟩ := List.eq_nil_or_concat' after
  · simp at enough
  · simp only [List.forall_mem_append, List.forall_mem_singleton] at later
    rw [List.length_append, List.length_singleton] at enough
    have ended := leadsTo_bound (nears_period c.serializer rom last) _ _ (front.map (Period.ticks external)) nears
      (fun r member => by
        obtain ⟨p, inFront, rfl⟩ := List.mem_map.mp member
        exact ⟨p, later.1 p inFront, rfl⟩)
      (by rw [List.length_map]; omega)
    rw [← List.flatMap_def] at ended
    simp only [List.flatMap_append, List.flatMap_cons, List.flatMap_nil, List.append_nil, run_append]
    rw [period_done rom later.2]
    exact nears_done c.serializer rom ended

theorem twoWords_completes :
    (run (watch twoWords) (powered fun _ => 0)
      (([] ++ starting :: List.replicate 40 starting).flatMap (Period.ticks false))).ctrl.clk.initDone = true := by
  refine initialization_completes .ads62p49 twoWords (fun _ => 0) false twoWords_last (fun q member => ?_)
    ⟨{ initEna := true }, List.mem_singleton.mpr rfl, rfl⟩ ?_
  · rcases List.mem_cons.mp member with rfl | later
    · exact starting_silent
    · obtain rfl := List.eq_of_mem_replicate later
      exact starting_silent
  · rw [List.length_replicate]
    decide

end BpmAcquisition.SpiCtrl
