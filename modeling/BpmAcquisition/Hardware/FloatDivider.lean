import BpmAcquisition.Hardware.Normalisation
import BpmAcquisition.Hardware.Stages
import Mathlib.Data.Rat.Floor

/-!
# The floating-point divider

`div_floatingpoint` of `arith_dsp48e_pkg.vhd`: the operand that needs it is shifted to the left before
the fixed-point division. `quotient_shifted` says for every run before the trigger when the quotient is
ready, and that it is rounded down.
-/

namespace BpmAcquisition.DivFloatingpoint

open Machine DivFixedpoint Utilities

structure Input (W : Nat) where
  iRst : Bool := false
  iN : BitVec W
  iD : BitVec W
  iTrg : Bool

inductive State where
  | idle
  | calculateShift
  | shift
  | divide
  deriving DecidableEq

structure Regs (W : Nat) where
  state : State
  slvNHold : BitVec W
  slvDHold : BitVec W
  slErr : Bool
  slInit : Bool
  svShift : BitVec (log2 W + 1)
  divFixedpointInst : DivFixedpoint.Regs W (W - 1)

/-- The initial values of the declarations, and 0 where they have none. -/
def Regs.initial {W : Nat} : Regs W := ⟨.idle, 0, 0, false, false, 0, .initial⟩

def calculateShift {W : Nat} (n d : BitVec W) : BitVec (log2 W + 1) := findMsb d d.msb - findMsb n n.msb - 1

section
variable {W : Nat} (dsp : Dsp48e) (s : Regs W) (i : Input W)

def Regs.slRdy : Bool := s.divFixedpointInst.oRdy

def Regs.oQ : BitVec (W - 1 + 1) := s.divFixedpointInst.slvQ

def Regs.oShift : BitVec (log2 W + 1) := s.svShift

def Regs.oRdy : Bool := s.slRdy && !s.slErr

def prcFsm : Regs W :=
  if i.iRst then { s with state := .idle, slInit := false }
  else
    match s.state with
    | .idle =>
      { s with
        state := if i.iTrg then .calculateShift else s.state
        slvNHold := i.iN
        slvDHold := i.iD }
    | .calculateShift =>
      { s with
        state := .shift
        svShift := calculateShift s.slvNHold s.slvDHold
        slInit := false }
    | .shift =>
      { s with
        state := .divide
        slvNHold := shiftedN s.svShift s.slvNHold
        slvDHold := shiftedD s.svShift s.slvDHold
        slInit := true }
    | .divide =>
      { s with
        state := if s.slRdy && i.iTrg then .calculateShift else if s.slRdy then .idle else s.state
        slInit := false }

def Regs.prcError : Bool :=
  DivFixedpoint.prcError i.iRst i.iTrg s.slRdy (s.state == .idle) (s.state == .divide) s.slErr

def edge : Regs W :=
  { prcFsm s i with
    slErr := s.prcError i
    divFixedpointInst :=
      DivFixedpoint.edge dsp s.divFixedpointInst ⟨i.iRst, s.slvNHold, s.slvDHold, s.slInit⟩ }

end

/-! ### The sequence of the states -/

def State.stage : State → Stage
  | .idle => .waiting
  | .calculateShift => .first
  | .shift => .preparing
  | .divide => .dividing

section
variable {W : Nat} {s : Regs W} {i : Input W}

theorem fsm_moves (clocked : i.iRst = false) (waiting : s.state.stage = .waiting → s.slInit = false) :
    Moves i.iTrg s.slRdy s.state.stage (prcFsm s i).state.stage (prcFsm s i).slInit := by
  unfold prcFsm
  rw [if_neg (Bool.eq_false_iff.mp clocked)]
  cases state : s.state with
  | idle =>
    have init : s.slInit = false := waiting (by rw [state]; rfl)
    cases trg : i.iTrg with
    | false =>
      show Moves false s.slRdy .waiting .waiting s.slInit
      rw [init]
      exact Moves.wait
    | true =>
      show Moves true s.slRdy .waiting .first s.slInit
      rw [init]
      exact Moves.start rfl
  | calculateShift => exact Moves.prepare
  | shift => exact Moves.launch
  | divide =>
    cases ready : s.slRdy with
    | false => exact Moves.divide rfl
    | true =>
      cases trg : i.iTrg with
      | false => exact Moves.finish rfl rfl
      | true => exact Moves.again rfl rfl

theorem edge_reset (dsp : Dsp48e) (s : Regs W) (rst : i.iRst = true) :
    (edge dsp s i).state.stage = .waiting ∧ (edge dsp s i).slInit = false ∧ (edge dsp s i).slErr = false := by
  have fsm : prcFsm s i = { s with state := .idle, slInit := false } := by
    unfold prcFsm
    rw [if_pos rst]
  unfold edge Regs.prcError DivFixedpoint.prcError
  rw [fsm, if_pos rst]
  exact ⟨rfl, rfl, rfl⟩

end

def machine (dsp : Dsp48e) (W : Nat) : Embedded dsp W (W - 1) (Regs W) (Input W) where
  step := edge dsp
  rst := Input.iRst
  trg := Input.iTrg
  stage s := s.state.stage
  init := Regs.slInit
  err := Regs.slErr
  nHold := Regs.slvNHold
  dHold := Regs.slvDHold
  div := Regs.divFixedpointInst
  div_step _ _ := rfl
  reset s _ rst := edge_reset dsp s rst
  moves _ _ clocked waiting := fsm_moves clocked waiting
  fine _ _ clocked quiet fine := error_quiet clocked quiet fine

section
variable {W : Nat} {dsp : Dsp48e} {s : Regs W} {i : Input W}

/-- In the state `SHIFT` the shift is that of the operands held. -/
def Regs.Computed {W : Nat} (s : Regs W) : Prop := s.state = .shift → s.svShift = calculateShift s.slvNHold s.slvDHold

theorem edge_computed {W : Nat} (dsp : Dsp48e) (s : Regs W) (i : Input W) : (edge dsp s i).Computed := by
  show (prcFsm s i).Computed
  unfold Regs.Computed prcFsm
  split
  · exact nofun
  · cases state : s.state with
    | idle => cases i.iTrg <;> exact nofun
    | calculateShift => exact fun _ => rfl
    | shift => exact nofun
    | divide => cases s.slRdy <;> cases i.iTrg <;> exact nofun

/-! ### The operands -/

theorem floor_div {a b : Int} (positive : 0 < b) : ⌊(a : ℚ) / b⌋ = a / b := by
  obtain ⟨d, rfl⟩ := Int.eq_ofNat_of_zero_le (Int.le_of_lt positive)
  exact Rat.floor_intCast_div_natCast a d

/-- What the shifted operands give the fixed-point divider. -/
structure Prepared (n d n' d' : BitVec W) (svShift : BitVec (log2 W + 1)) : Prop where
  positive : 0 < d'.toInt
  low : -d'.toInt ≤ n'.toInt
  high : n'.toInt < d'.toInt
  quotient : n'.toInt * 2 ^ (W - 1) / d'.toInt = ⌊(n.toInt : ℚ) * 2 ^ ((W : ℤ) - 1 + svShift.toInt) / d.toInt⌋

theorem calculateShift_toInt (two : 2 ≤ W) (n d : BitVec W) :
    (calculateShift n d).toInt = (findMsbIndex d d.msb : Int) - findMsbIndex n n.msb - 1 := by
  have inside := (findMsbIndex_highest two n).inside
  unfold calculateShift
  rw [sub_one_toInt two, difference_toInt two]
  rw [difference_toInt two]
  omega

theorem prepared {n d : BitVec W} (wide : 4 ≤ W) (positive : 0 < d.toInt) (limit : findMsbIndex n n.msb ≤ W - 3) :
    Prepared n d (shiftedN (calculateShift n d) n) (shiftedD (calculateShift n d) d) (calculateShift n d) := by
  have two : 2 ≤ W := by omega
  have highest := findMsbIndex_highest two n
  have highest' := findMsbIndex_highest two d
  have inside := highest'.inside
  have shift := calculateShift_toInt two n d
  have amount : vIShift (calculateShift n d) = (calculateShift n d).toInt.natAbs := vIShift_eq (by omega)
  unfold shiftedN shiftedD
  generalize calculateShift n d = svShift at *
  generalize findMsbIndex n n.msb = index at *
  generalize findMsbIndex d d.msb = index' at *
  rw [amount, Int.toNat_natCast]
  obtain ⟨k, same⟩ : ∃ k, svShift.toInt.natAbs = k := ⟨_, rfl⟩
  rw [same]
  by_cases left : 0 < svShift.toInt
  · rw [if_pos left, if_pos left]
    have value : (n <<< k).toInt = 2 ^ k * n.toInt := highest.shifted (by omega)
    obtain ⟨low, high⟩ := highest.bounded highest' positive k 0 (by omega)
    rw [pow_zero, one_mul] at low high
    refine ⟨positive, by rw [value]; exact low, by rw [value]; exact high, ?_⟩
    have exponent : (W : ℤ) - 1 + svShift.toInt = ((k + (W - 1) : Nat) : ℤ) := by omega
    rw [value, exponent, zpow_natCast, ← floor_div positive]
    push_cast
    congr 2
    ring
  · rw [if_neg left, if_neg left]
    have value : (d <<< k).toInt = 2 ^ k * d.toInt := highest'.shifted (by omega)
    obtain ⟨low, high⟩ := highest.bounded highest' positive 0 k (by omega)
    rw [pow_zero, one_mul] at low high
    have power : (0 : Int) < 2 ^ k := Int.pow_pos (by decide)
    refine ⟨?_, by rw [value]; exact low, by rw [value]; exact high, ?_⟩
    · rw [value]
      exact Int.mul_pos power positive
    have exponent : (W : ℤ) - 1 + svShift.toInt = ((W - 1 - k : Nat) : ℤ) := by omega
    have whole : n.toInt * 2 ^ (W - 1) = 2 ^ k * (n.toInt * 2 ^ (W - 1 - k)) := by
      rw [(by omega : W - 1 = k + (W - 1 - k)), pow_add, Nat.add_sub_cancel_left]
      ring
    rw [value, exponent, zpow_natCast, whole, Int.mul_ediv_mul_of_pos _ _ power, ← floor_div positive]
    push_cast
    rfl

/-! ### From the trigger on -/

/-- The state `m` edges after the edge of the trigger. -/
inductive After (dsp : Dsp48e) (n d : BitVec W) : Nat → Regs W → Prop
  | triggered {s : Regs W} (state : s.state = .calculateShift) (numerator : s.slvNHold = n)
    (denominator : s.slvDHold = d) : After dsp n d 0 s
  | calculated {s : Regs W} (state : s.state = .shift) (numerator : s.slvNHold = n) (denominator : s.slvDHold = d)
    (shift : s.svShift = calculateShift n d) : After dsp n d 1 s
  | shifted {s : Regs W} (state : s.state = .divide) (numerator : s.slvNHold = shiftedN (calculateShift n d) n)
    (denominator : s.slvDHold = shiftedD (calculateShift n d) d) (shift : s.svShift = calculateShift n d)
    (init : s.slInit = true) : After dsp n d 2 s
  | dividing {s : Regs W} {m : Nat} (shift : s.svShift = calculateShift n d)
    (dividing : (machine dsp W).Dividing (shiftedN (calculateShift n d) n) (shiftedD (calculateShift n d) d)
      (shiftedN (calculateShift n d) n).toInt m s) : After dsp n d (m + 3) s

variable {n d : BitVec W} {m : Nat}

theorem shift_kept (dsp : Dsp48e) (clocked : i.iRst = false)
    (stage : s.state.stage = .dividing ∨ s.state.stage = .waiting) : (edge dsp s i).svShift = s.svShift := by
  show (prcFsm s i).svShift = s.svShift
  unfold prcFsm
  rw [if_neg (Bool.eq_false_iff.mp clocked)]
  cases state : s.state with
  | idle => rfl
  | divide => rfl
  | calculateShift => simp [state, State.stage] at stage
  | shift => rfl

theorem after_edge (most : W ≤ 48) (prep : Prepared n d (shiftedN (calculateShift n d) n)
    (shiftedD (calculateShift n d) d) (calculateShift n d)) (sequenced : (machine dsp W).Sequenced s)
    (clocked : i.iRst = false) (quiet : i.iTrg = false) (later : After dsp n d m s) :
    After dsp n d (m + 1) (edge dsp s i) := by
  have running : i.iRst ≠ true := Bool.eq_false_iff.mp clocked
  cases later with
  | triggered state numerator denominator =>
    have fsm : prcFsm s i = { s with
        state := .shift
        svShift := calculateShift s.slvNHold s.slvDHold
        slInit := false } := by
      unfold prcFsm
      rw [if_neg running, state]
    unfold edge
    rw [fsm, numerator, denominator]
    exact After.calculated rfl rfl rfl rfl
  | calculated state numerator denominator shift =>
    have fsm : prcFsm s i = { s with
        state := .divide
        slvNHold := shiftedN s.svShift s.slvNHold
        slvDHold := shiftedD s.svShift s.slvDHold
        slInit := true } := by
      unfold prcFsm
      rw [if_neg running, state]
    unfold edge
    rw [fsm, numerator, denominator, shift]
    exact After.shifted rfl rfl rfl rfl rfl
  | shifted state numerator denominator shift init =>
    have stage : s.state.stage = .dividing := by rw [state]; rfl
    refine After.dividing ((shift_kept dsp clocked (Or.inl stage)).trans shift) ?_
    rw [← numerator, ← denominator]
    exact (machine dsp W).launch sequenced stage init clocked quiet _
  | dividing shift dividing =>
    refine After.dividing ((shift_kept dsp clocked dividing.stage).trans shift) ?_
    exact dividing.next most (by omega) (divides_below prep.positive prep.low prep.high) sequenced clocked quiet

theorem trigger_edge (dsp : Dsp48e) (clocked : i.iRst = false) (trg : i.iTrg = true) (state : s.state = .idle) :
    After dsp i.iN i.iD 0 (edge dsp s i) ∧ (edge dsp s i).slErr = false := by
  have fsm : prcFsm s i = { s with
      state := .calculateShift
      slvNHold := i.iN
      slvDHold := i.iD } := by
    unfold prcFsm
    rw [if_neg (Bool.eq_false_iff.mp clocked), trg, state]
    rfl
  unfold edge Regs.prcError
  rw [fsm, state, trg, clocked]
  exact ⟨After.triggered rfl rfl rfl, rfl⟩

/-- `sl_rdy` is low in the first cycles, unless it is left from a reset. -/
theorem After.ready_iff (wide : 4 ≤ W) (later : After dsp n d m s) (sequenced : (machine dsp W).Sequenced s)
    (running : 0 < m) : s.slRdy = true ↔ m = W + 4 := by
  cases later with
  | triggered => cases running
  | calculated state => exact (machine dsp W).preparing_early sequenced (congrArg State.stage state) (by omega)
  | shifted state numerator denominator shift init =>
    exact (machine dsp W).launched_early sequenced (congrArg State.stage state) init (by omega)
  | dividing shift dividing =>
    have ready : s.slRdy = true ↔ _ := dividing.ready_iff
    rw [ready]
    omega

theorem After.quotient_exact (wide : 4 ≤ W) (prep : Prepared n d (shiftedN (calculateShift n d) n)
    (shiftedD (calculateShift n d) d) (calculateShift n d)) (later : After dsp n d m s) (done : m = W + 4) :
    s.oQ.toInt = ⌊(n.toInt : ℚ) * 2 ^ ((W : ℤ) - 1 + s.oShift.toInt) / d.toInt⌋ := by
  cases later with
  | triggered => omega
  | calculated => omega
  | shifted => omega
  | dividing shift dividing =>
    have quotient : s.oQ.toInt = _ := dividing.phase.quotient_exact (by omega)
    unfold Regs.oShift
    rw [quotient, shift]
    exact prep.quotient

end

/-- After a trigger in the state `IDLE`, and without another one, `o_rdy` rises `G_DATA_WIDTH` + 4
edges later and at no other one; and `o_q` is then the quotient at the shift shown, rounded down. -/
theorem quotient_shifted (dsp : Dsp48e) {W : Nat} (wide : 4 ≤ W) (most : W ≤ 48) (s₀ : Regs W) (reset trigger : Input W)
    (before after : List (Input W)) (rst : reset.iRst = true) :
    let idle := run (edge dsp) s₀ (reset :: before)
    let now := run (edge dsp) s₀ (reset :: before ++ trigger :: after)
    idle.state = .idle → trigger.iRst = false → trigger.iTrg = true →
      0 < trigger.iD.toInt → findMsbIndex trigger.iN trigger.iN.msb ≤ W - 3 →
      (∀ i ∈ after, i.iRst = false ∧ i.iTrg = false) →
      (now.oRdy = true → after.length = W + 4 ∨ after = [] ∧ idle.oRdy = true) ∧
        (after.length = W + 4 → now.oRdy = true ∧
          now.oQ.toInt =
            ⌊(trigger.iN.toInt : ℚ) * 2 ^ ((W : ℤ) - 1 + now.oShift.toInt) / trigger.iD.toInt⌋) := by
  intro idle now state clocked trg positive limit quiet
  have prep := prepared wide positive limit
  obtain ⟨triggered, fine⟩ := trigger_edge dsp clocked trg state
  obtain ⟨later, first, last⟩ := (machine dsp W).answered (A := After dsp trigger.iN trigger.iD) s₀ rst
    (fun s i m => after_edge most prep) (fun s m sequenced later running => later.ready_iff wide sequenced running)
    (by omega) (congrArg State.stage state) clocked triggered fine quiet
  exact ⟨first, fun done => ⟨last done, later.quotient_exact wide prep done⟩⟩

-- -3 / 100 in eight bits: the numerator is shifted by four.
theorem quotient_shifted_numerator :
    let reset : Input 8 := ⟨true, 0, 0, false⟩
    let trigger : Input 8 := ⟨false, -3, 100, true⟩
    let later := List.replicate 12 (⟨false, 0, 0, false⟩ : Input 8)
    let now := run (edge Dsp48e.adder) .initial (reset :: [] ++ trigger :: later)
    now.oRdy = true ∧
      now.oQ.toInt = ⌊(trigger.iN.toInt : ℚ) * 2 ^ (((8 : Nat) : ℤ) - 1 + now.oShift.toInt) / trigger.iD.toInt⌋ := by
  intro reset trigger later now
  exact (quotient_shifted Dsp48e.adder (by decide) (by decide) .initial reset trigger [] later rfl rfl rfl rfl
    (by decide) (by decide) (by decide)).2 rfl

end BpmAcquisition.DivFloatingpoint
