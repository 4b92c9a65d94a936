import BpmAcquisition.Hardware.Mantissa
import BpmAcquisition.Hardware.Normalisation
import BpmAcquisition.Hardware.Stages

/-!
# The single-precision divider

`div_ieee754_single` of `arith_dsp48e_pkg.vhd`: the operand that needs it is shifted to the left until
the most significant bits meet, and a numerator that is then the larger one is shifted to the right
by one. `single_truncated_exact` says which operands get a truncated quotient: equal ones after the
first shift do not, and the second shift can drop a bit.
-/

namespace BpmAcquisition.DivIeee754Single

open Machine DivFixedpoint Utilities Binary32

structure Input (W : Nat) where
  iRst : Bool := false
  iN : BitVec W
  iD : BitVec W
  iTrg : Bool

/-- No state leads to `CHECK_SIGNAL`. -/
inductive State where
  | idle
  | checkSignal
  | calculateShift
  | shift
  | checkAdditionalShift
  | divide
  deriving DecidableEq

structure Regs (W : Nat) where
  state : State
  slvNHold : BitVec W
  slvDHold : BitVec W
  slErr : Bool
  slInit : Bool
  svExponent : BitVec 8
  slResultSignal : Bool
  svShift : BitVec (log2 W + 1)
  divFixedpointInst : DivFixedpoint.Regs W 24

/-- The initial values of the declarations, and 0 where they have none. -/
def Regs.initial {W : Nat} : Regs W := ⟨.idle, 0, 0, false, false, 0, false, 0, .initial⟩

section
variable {W : Nat} (dsp : Dsp48e) (s : Regs W) (i : Input W)

def Regs.slRdy : Bool := s.divFixedpointInst.oRdy

def Regs.slvSignedMantissa : BitVec 25 := s.divFixedpointInst.slvQ

def Regs.oQ : BitVec 32 := pack s.slResultSignal s.svExponent (s.slvSignedMantissa.setWidth 23)

def Regs.oRdy : Bool := s.slRdy && !s.slErr

def calculateShift (n d : BitVec W) : BitVec (log2 W + 1) := findMsb d d.msb - findMsb n n.msb

def additionalN (n d : BitVec W) : BitVec W := if d.toInt < n.toInt then n >>> 1 else n

def additionalShift (n d : BitVec W) (svShift : BitVec (log2 W + 1)) : BitVec (log2 W + 1) :=
  if d.toInt < n.toInt then svShift - 1 else svShift

def prcFsm : Regs W :=
  if i.iRst then { s with state := .idle, slInit := false }
  else
    match s.state with
    | .idle =>
      if i.iTrg then
        { s with
          state := .calculateShift
          slResultSignal := i.iN.msb
          slvNHold := i.iN.abs
          slvDHold := i.iD }
      else s
    | .calculateShift =>
      { s with
        state := .shift
        svShift := calculateShift s.slvNHold s.slvDHold
        slInit := false }
    | .shift =>
      { s with
        state := .checkAdditionalShift
        slvNHold := shiftedN s.svShift s.slvNHold
        slvDHold := shiftedD s.svShift s.slvDHold
        slInit := false }
    | .checkAdditionalShift =>
      { s with
        state := .divide
        slvNHold := additionalN s.slvNHold s.slvDHold
        svShift := additionalShift s.slvNHold s.slvDHold s.svShift
        slInit := true }
    | .divide =>
      { s with
        svExponent := 126 - s.svShift.signExtend 8
        state := if s.slRdy && i.iTrg then .calculateShift else if s.slRdy then .idle else s.state
        slInit := false }
    | .checkSignal => { s with state := .idle }

def Regs.prcError : Bool :=
  DivFixedpoint.prcError i.iRst i.iTrg s.slRdy (s.state == .idle) (s.state == .divide) s.slErr

def edge : Regs W :=
  { prcFsm s i with
    slErr := s.prcError i
    divFixedpointInst :=
      DivFixedpoint.edge dsp s.divFixedpointInst ⟨i.iRst, s.slvNHold, s.slvDHold, s.slInit⟩ }

end

/-! ### The sequence of the states -/

def State.stage : State → Stage
  | .idle | .checkSignal => .waiting
  | .calculateShift => .first
  | .shift | .checkAdditionalShift => .preparing
  | .divide => .dividing

section
variable {W : Nat} {s : Regs W} {i : Input W}

theorem fsm_moves (clocked : i.iRst = false) (waiting : s.state.stage = .waiting → s.slInit = false) :
    Moves i.iTrg s.slRdy s.state.stage (prcFsm s i).state.stage (prcFsm s i).slInit := by
  unfold prcFsm
  rw [if_neg (Bool.eq_false_iff.mp clocked)]
  cases state : s.state with
  | idle =>
    have init : s.slInit = false := waiting (by rw [state]; rfl)
    cases trg : i.iTrg with
    | false =>
      show Moves false s.slRdy .waiting s.state.stage s.slInit
      rw [init, state]
      exact Moves.wait
    | true =>
      show Moves true s.slRdy .waiting .first s.slInit
      rw [init]
      exact Moves.start rfl
  | checkSignal =>
    have init : s.slInit = false := waiting (by rw [state]; rfl)
    show Moves i.iTrg s.slRdy .waiting .waiting s.slInit
    rw [init]
    exact Moves.wait
  | calculateShift => exact Moves.prepare
  | shift => exact Moves.further
  | checkAdditionalShift => exact Moves.launch
  | divide =>
    cases ready : s.slRdy with
    | false => exact Moves.divide rfl
    | true =>
      cases trg : i.iTrg with
      | false => exact Moves.finish rfl rfl
      | true => exact Moves.again rfl rfl

theorem edge_reset (dsp : Dsp48e) (s : Regs W) (rst : i.iRst = true) :
    (edge dsp s i).state.stage = .waiting ∧ (edge dsp s i).slInit = false ∧ (edge dsp s i).slErr = false := by
  have fsm : prcFsm s i = { s with state := .idle, slInit := false } := by
    unfold prcFsm
    rw [if_pos rst]
  unfold edge Regs.prcError DivFixedpoint.prcError
  rw [fsm, if_pos rst]
  exact ⟨rfl, rfl, rfl⟩

end

def machine (dsp : Dsp48e) (W : Nat) : Embedded dsp W 24 (Regs W) (Input W) where
  step := edge dsp
  rst := Input.iRst
  trg := Input.iTrg
  stage s := s.state.stage
  init := Regs.slInit
  err := Regs.slErr
  nHold := Regs.slvNHold
  dHold := Regs.slvDHold
  div := Regs.divFixedpointInst
  div_step _ _ := rfl
  reset s _ rst := edge_reset dsp s rst
  moves _ _ clocked waiting := fsm_moves clocked waiting
  fine _ _ clocked quiet fine := error_quiet clocked quiet fine

/-- In the state `SHIFT` the shift is that of the operands held, and in the state behind it that of
some operands. -/
structure Regs.Computed {W : Nat} (s : Regs W) : Prop where
  shift : s.state = .shift → s.svShift = calculateShift s.slvNHold s.slvDHold
  check : s.state = .checkAdditionalShift → ∃ n d : BitVec W, s.svShift = calculateShift n d

theorem reset_computed {W : Nat} {i : Input W} (dsp : Dsp48e) (s : Regs W) (rst : i.iRst = true) :
    (edge dsp s i).Computed := by
  obtain ⟨waiting, -⟩ := edge_reset dsp s rst
  refine ⟨fun shift => ?_, fun check => ?_⟩
  · rw [shift] at waiting
    cases waiting
  · rw [check] at waiting
    cases waiting

theorem edge_computed {W : Nat} (dsp : Dsp48e) {s : Regs W} (i : Input W) (computed : s.Computed) :
    (edge dsp s i).Computed := by
  suffices fsm : (prcFsm s i).Computed from ⟨fsm.shift, fsm.check⟩
  unfold prcFsm
  split
  · exact ⟨nofun, nofun⟩
  · cases state : s.state with
    | idle =>
      cases i.iTrg with
      | false => exact computed
      | true => exact ⟨nofun, nofun⟩
    | checkSignal => exact ⟨nofun, nofun⟩
    | calculateShift => exact ⟨fun _ => rfl, nofun⟩
    | shift => exact ⟨nofun, fun _ => ⟨_, _, computed.shift state⟩⟩
    | checkAdditionalShift => exact ⟨nofun, nofun⟩
    | divide =>
      cases s.slRdy <;> cases i.iTrg <;> exact ⟨nofun, nofun⟩

/-! ### The operands in the registers -/

section
variable {W : Nat} {x y : BitVec W} {a b : Nat}

/-- Two positive numbers below a quarter of the largest power of two of the word. -/
structure Positive (x y : BitVec W) (a b : Nat) : Prop where
  numerator : x.toInt = a
  denominator : y.toInt = b
  positive : 0 < a
  positive' : 0 < b
  below : a < 2 ^ (W - 3)
  below' : b < 2 ^ (W - 3)

theorem Positive.width (operands : Positive x y a b) : a.log2 + 4 ≤ W ∧ b.log2 + 4 ≤ W := by
  have less := (Nat.log2_lt (Nat.ne_of_gt operands.positive)).mpr operands.below
  have less' := (Nat.log2_lt (Nat.ne_of_gt operands.positive')).mpr operands.below'
  omega

theorem Positive.shift (operands : Positive x y a b) : (calculateShift x y).toInt = (b.log2 : Int) - a.log2 := by
  have width := operands.width
  have two : 2 ≤ W := by omega
  unfold calculateShift
  rw [difference_toInt two, (findMsbIndex_highest two x).log2_eq operands.numerator operands.positive,
    (findMsbIndex_highest two y).log2_eq operands.denominator operands.positive']

theorem Positive.aligned (operands : Positive x y a b) :
    (shiftedN (calculateShift x y) x).toInt = alignedN a b ∧ (shiftedD (calculateShift x y) y).toInt = alignedD a b := by
  have width := operands.width
  have two : 2 ≤ W := by omega
  have highest := findMsbIndex_highest two x
  have highest' := findMsbIndex_highest two y
  rw [highest.log2_eq operands.numerator operands.positive] at highest
  rw [highest'.log2_eq operands.denominator operands.positive'] at highest'
  have shift := operands.shift
  have amount : vIShift (calculateShift x y) = (calculateShift x y).toInt.natAbs := vIShift_eq (by omega)
  unfold shiftedN shiftedD alignedN alignedD
  rw [amount, Int.toNat_natCast, shift]
  by_cases left : 0 < (b.log2 : Int) - a.log2
  · have bits : ((b.log2 : Int) - a.log2).natAbs = b.log2 - a.log2 := by omega
    have none : a.log2 - b.log2 = 0 := by omega
    rw [if_pos left, if_pos left, bits, none, highest.shifted (by omega), operands.numerator, operands.denominator]
    push_cast
    exact ⟨rfl, (one_mul _).symm⟩
  · have bits : ((b.log2 : Int) - a.log2).natAbs = a.log2 - b.log2 := by omega
    have none : b.log2 - a.log2 = 0 := by omega
    rw [if_neg left, if_neg left, bits, none, highest'.shifted (by omega), operands.numerator, operands.denominator]
    push_cast
    exact ⟨(one_mul _).symm, rfl⟩

theorem halved_toInt {n : Nat} (value : x.toInt = n) : (x >>> 1).toInt = (n / 2 : Nat) := by
  have cond := BitVec.toInt_eq_toNat_cond x
  have bound := x.isLt
  have half : (x >>> 1).toNat = x.toNat / 2 := by
    rw [BitVec.toNat_ushiftRight, Nat.shiftRight_eq_div_pow, pow_one]
  rw [BitVec.toInt_eq_toNat_of_lt (by omega), half]
  split at cond <;> omega

theorem Positive.divides (operands : Positive x y a b) :
    Divides (additionalN (shiftedN (calculateShift x y) x) (shiftedD (calculateShift x y) y))
      (shiftedD (calculateShift x y) y) (dividend a b) := by
  obtain ⟨numerator, denominator⟩ := operands.aligned
  obtain ⟨least, double, -⟩ := aligned_bounds operands.positive operands.positive'
  generalize shiftedN (calculateShift x y) x = x' at *
  generalize shiftedD (calculateShift x y) y = y' at *
  unfold additionalN dividend
  rcases Nat.lt_trichotomy (alignedN a b) (alignedD a b) with below | same | above
  · rw [if_neg (by omega), if_neg (Nat.lt_asymm below), if_neg (Nat.ne_of_lt below), ← numerator]
    exact divides_below (by omega) (by omega) (by omega)
  · have equal : x' = y' := BitVec.eq_of_toInt_eq (by rw [numerator, denominator, same])
    rw [equal, if_neg (Int.lt_irrefl _), if_neg (by omega), if_pos same, ← denominator]
    exact divides_equal (by omega)
  · have half := halved_toInt numerator
    rw [if_pos (by omega), if_pos above, ← half]
    exact divides_below (by omega) (by omega) (by omega)

theorem Positive.finalShift (operands : Positive x y a b) :
    (additionalShift (shiftedN (calculateShift x y) x) (shiftedD (calculateShift x y) y) (calculateShift x y)).toInt =
      finalShift a b := by
  obtain ⟨numerator, denominator⟩ := operands.aligned
  have width := operands.width
  have shift := operands.shift
  unfold additionalShift DivIeee754Single.finalShift
  rw [numerator, denominator]
  by_cases above : alignedD a b < alignedN a b
  · rw [if_pos (by omega), if_pos above, sub_one_toInt (by omega) (by omega), shift]
  · rw [if_neg (by omega), if_neg above, shift]

/-- The exponent that is written for a shift is that of a normal number. -/
theorem exponent_toNat {svShift : BitVec (log2 W + 1)} (most : W ≤ 48) (low : -46 ≤ svShift.toInt)
    (high : svShift.toInt ≤ 46) : ((126 - svShift.signExtend 8).toNat : Int) = 126 - svShift.toInt := by
  have narrow : log2 W + 1 ≤ 8 := by
    have least := (log2_least W).2 6
    by_contra wide
    have small := least (by omega)
    omega
  have value : (svShift.signExtend 8).toInt = svShift.toInt := BitVec.toInt_signExtend_of_le narrow
  have cond := BitVec.toInt_eq_toNat_cond (svShift.signExtend 8)
  have bound := (svShift.signExtend 8).isLt
  rw [BitVec.toNat_sub]
  show (((2 ^ 8 - (svShift.signExtend 8).toNat + 126) % 2 ^ 8 : Nat) : Int) = 126 - svShift.toInt
  split at cond <;> omega

end

/-! ### From the trigger on -/

section
variable {W : Nat} {dsp : Dsp48e} {s : Regs W} {i : Input W} {x y : BitVec W} {v : Int} {m : Nat}

def alignedRegs (x y : BitVec W) : BitVec W × BitVec W :=
  (shiftedN (calculateShift x y) x, shiftedD (calculateShift x y) y)

def dividedN (x y : BitVec W) : BitVec W := additionalN (alignedRegs x y).1 (alignedRegs x y).2

def dividedShift (x y : BitVec W) : BitVec (log2 W + 1) :=
  additionalShift (alignedRegs x y).1 (alignedRegs x y).2 (calculateShift x y)

/-- The state `m` edges after the edge of the trigger. -/
inductive After (dsp : Dsp48e) (x y : BitVec W) (v : Int) : Nat → Regs W → Prop
  | triggered {s : Regs W} (state : s.state = .calculateShift) (numerator : s.slvNHold = x)
    (denominator : s.slvDHold = y) : After dsp x y v 0 s
  | calculated {s : Regs W} (state : s.state = .shift) (numerator : s.slvNHold = x) (denominator : s.slvDHold = y)
    (shift : s.svShift = calculateShift x y) : After dsp x y v 1 s
  | shifted {s : Regs W} (state : s.state = .checkAdditionalShift) (numerator : s.slvNHold = (alignedRegs x y).1)
    (denominator : s.slvDHold = (alignedRegs x y).2) (shift : s.svShift = calculateShift x y) : After dsp x y v 2 s
  | checked {s : Regs W} (state : s.state = .divide) (numerator : s.slvNHold = dividedN x y)
    (denominator : s.slvDHold = (alignedRegs x y).2) (shift : s.svShift = dividedShift x y) (init : s.slInit = true) :
    After dsp x y v 3 s
  | dividing {s : Regs W} {m : Nat} (shift : s.svShift = dividedShift x y)
    (exponent : s.svExponent = 126 - (dividedShift x y).signExtend 8)
    (dividing : (machine dsp W).Dividing (dividedN x y) (alignedRegs x y).2 v m s) : After dsp x y v (m + 4) s

/-- The registers of the exponent while the machine divides, and when it waits again. -/
theorem exponent_kept (dsp : Dsp48e) (clocked : i.iRst = false) (quiet : i.iTrg = false)
    (stage : s.state.stage = .dividing ∨ s.state.stage = .waiting) :
    (edge dsp s i).svShift = s.svShift ∧
      ((edge dsp s i).svExponent = 126 - s.svShift.signExtend 8 ∨
        s.state.stage = .waiting ∧ (edge dsp s i).svExponent = s.svExponent) := by
  show (prcFsm s i).svShift = s.svShift ∧
    ((prcFsm s i).svExponent = _ ∨ s.state.stage = .waiting ∧ (prcFsm s i).svExponent = s.svExponent)
  unfold prcFsm
  rw [if_neg (Bool.eq_false_iff.mp clocked), quiet]
  cases state : s.state with
  | idle => exact ⟨rfl, Or.inr ⟨rfl, rfl⟩⟩
  | checkSignal => exact ⟨rfl, Or.inr ⟨rfl, rfl⟩⟩
  | divide => exact ⟨rfl, Or.inl rfl⟩
  | calculateShift => simp [state, State.stage] at stage
  | shift => simp [state, State.stage] at stage
  | checkAdditionalShift => simp [state, State.stage] at stage

theorem signal_kept (dsp : Dsp48e) (clocked : i.iRst = false) (quiet : i.iTrg = false) :
    (edge dsp s i).slResultSignal = s.slResultSignal := by
  show (prcFsm s i).slResultSignal = s.slResultSignal
  unfold prcFsm
  rw [if_neg (Bool.eq_false_iff.mp clocked), quiet]
  cases s.state <;> rfl

theorem after_edge (most : W ≤ 48) (divides : Divides (dividedN x y) (alignedRegs x y).2 v)
    (sequenced : (machine dsp W).Sequenced s) (clocked : i.iRst = false) (quiet : i.iTrg = false)
    (later : After dsp x y v m s) : After dsp x y v (m + 1) (edge dsp s i) := by
  have running : i.iRst ≠ true := Bool.eq_false_iff.mp clocked
  cases later with
  | triggered state numerator denominator =>
    have fsm : prcFsm s i = { s with
        state := .shift
        svShift := calculateShift s.slvNHold s.slvDHold
        slInit := false } := by
      unfold prcFsm
      rw [if_neg running, state]
    unfold edge
    rw [fsm, numerator, denominator]
    exact After.calculated rfl rfl rfl rfl
  | calculated state numerator denominator shift =>
    have fsm : prcFsm s i = { s with
        state := .checkAdditionalShift
        slvNHold := shiftedN s.svShift s.slvNHold
        slvDHold := shiftedD s.svShift s.slvDHold
        slInit := false } := by
      unfold prcFsm
      rw [if_neg running, state]
    unfold edge
    rw [fsm, numerator, denominator, shift]
    exact After.shifted rfl rfl rfl rfl
  | shifted state numerator denominator shift =>
    have fsm : prcFsm s i = { s with
        state := .divide
        slvNHold := additionalN s.slvNHold s.slvDHold
        svShift := additionalShift s.slvNHold s.slvDHold s.svShift
        slInit := true } := by
      unfold prcFsm
      rw [if_neg running, state]
    unfold edge
    rw [fsm, numerator, denominator, shift]
    exact After.checked rfl rfl rfl rfl rfl
  | checked state numerator denominator shift init =>
    have stage : s.state.stage = .dividing := by rw [state]; rfl
    obtain ⟨same, exponent | ⟨waiting, -⟩⟩ := exponent_kept dsp clocked quiet (Or.inl stage)
    · refine After.dividing (same.trans shift) (by rw [exponent, shift]) ?_
      rw [← numerator, ← denominator]
      exact (machine dsp W).launch sequenced stage init clocked quiet _
    · rw [stage] at waiting
      cases waiting
  | dividing shift exponent dividing =>
    obtain ⟨same, kept⟩ := exponent_kept dsp clocked quiet dividing.stage
    refine After.dividing (same.trans shift) ?_ (dividing.next most (by decide) divides sequenced clocked quiet)
    rcases kept with kept | ⟨-, kept⟩
    · rw [kept, shift]
    · exact kept.trans exponent

theorem After.ready_iff (later : After dsp x y v m s) (sequenced : (machine dsp W).Sequenced s) (running : 0 < m) :
    s.slRdy = true ↔ m = 30 := by
  cases later with
  | triggered => cases running
  | calculated state => exact (machine dsp W).preparing_early sequenced (congrArg State.stage state) (by decide)
  | shifted state => exact (machine dsp W).preparing_early sequenced (congrArg State.stage state) (by decide)
  | checked state numerator denominator shift init =>
    exact (machine dsp W).launched_early sequenced (congrArg State.stage state) init (by decide)
  | dividing shift exponent dividing =>
    have ready : s.slRdy = true ↔ _ := dividing.ready_iff
    rw [ready]
    omega

theorem mantissa_register {v : Int} {d : Nat} {q : BitVec 25} (quotient : q.toInt = v * 2 ^ 24 / d) :
    (2 ^ 23 + (q.setWidth 23).toNat : ℚ) = mantissa v d := by
  have cond := BitVec.toInt_eq_toNat_cond q
  have bits : ((2 ^ 23 + (q.setWidth 23).toNat : Nat) : Int) = mantissa v d := by
    unfold mantissa
    rw [← quotient, BitVec.toNat_setWidth]
    split at cond <;> omega
  rw [← bits]
  push_cast
  rfl

theorem After.magnitude_eq {a b : Nat} (most : W ≤ 48) (operands : Positive x y a b)
    (later : After dsp x y (dividend a b) 30 s) :
    magnitude s.oQ = some ((mantissa (dividend a b) (alignedD a b) : ℚ) * 2 ^ (-24 - finalShift a b)) := by
  have width := operands.width
  have shift : (dividedShift x y).toInt = finalShift a b := operands.finalShift
  have range : -46 ≤ finalShift a b ∧ finalShift a b ≤ 46 := by
    unfold finalShift
    split <;> omega
  cases later with
  | dividing shifted exponent dividing =>
    have quotient : s.slvSignedMantissa.toInt = dividend a b * 2 ^ 24 / alignedD a b := by
      rw [← operands.aligned.2]
      exact dividing.phase.quotient_exact rfl
    have biased : (s.svExponent.toNat : Int) = 126 - finalShift a b := by
      rw [exponent, exponent_toNat most (by omega) (by omega), shift]
    have power : (s.svExponent.toNat : ℤ) - 150 = -24 - finalShift a b := by omega
    unfold Regs.oQ
    rw [magnitude_pack _ _ (by omega) (by omega), mantissa_register quotient, power]

theorem trigger_edge (dsp : Dsp48e) (clocked : i.iRst = false) (trg : i.iTrg = true) (state : s.state = .idle) (v : Int) :
    After dsp i.iN.abs i.iD v 0 (edge dsp s i) ∧ (edge dsp s i).slResultSignal = i.iN.msb ∧
      (edge dsp s i).slErr = false := by
  have fsm : prcFsm s i = { s with
      state := .calculateShift
      slResultSignal := i.iN.msb
      slvNHold := i.iN.abs
      slvDHold := i.iD } := by
    unfold prcFsm
    rw [if_neg (Bool.eq_false_iff.mp clocked), trg, state]
    rfl
  unfold edge Regs.prcError
  rw [fsm, state, trg, clocked]
  exact ⟨After.triggered rfl rfl rfl, rfl, rfl⟩

theorem positive_abs {n d : BitVec W} (nonzero : n.toInt ≠ 0) (small : |n.toInt| < 2 ^ (W - 3)) (positive : 0 < d.toInt)
    (small' : d.toInt < 2 ^ (W - 3)) : Positive n.abs d n.toInt.natAbs d.toInt.toNat := by
  have power : ((2 ^ (W - 3) : Nat) : Int) = 2 ^ (W - 3) := Nat.cast_pow 2 _
  have size := Int.abs_eq_natAbs n.toInt
  refine ⟨?_, by omega, by omega, by omega, by omega, by omega⟩
  rw [BitVec.toInt_abs_eq_natAbs, if_neg]
  rintro rfl
  have width : 0 < W := by
    refine Nat.pos_of_ne_zero ?_
    rintro rfl
    exact nonzero rfl
  have least : (2 : Int) ^ (W - 3) ≤ 2 ^ (W - 1) := pow_le_pow_right₀ (by decide) (by omega)
  rw [BitVec.toInt_intMin_of_pos width] at size small
  omega

end

/-- The word `o_q` has the sign of the numerator, and a magnitude that is the quotient truncated. -/
def Truncates (n d : Int) (word : BitVec 32) : Prop :=
  sign word = decide (n < 0) ∧ ∃ m, magnitude word = some m ∧ Truncated m (|(n : ℚ)| / d)

theorem truncates_iff {n d : Int} {word : BitVec 32} (nonzero : 0 < n.natAbs) (positive : 0 < d)
    (negative : sign word = decide (n < 0))
    (found : magnitude word = some ((mantissa (dividend n.natAbs d.toNat) (alignedD n.natAbs d.toNat) : ℚ) *
      2 ^ (-24 - finalShift n.natAbs d.toNat))) : Truncates n d word ↔ Kept n.natAbs d.toNat := by
  have numerator : ((n.natAbs : Nat) : ℚ) = |(n : ℚ)| := by rw [Nat.cast_natAbs, Int.cast_abs]
  have denominator : ((d.toNat : Nat) : ℚ) = d := by
    rw [← Int.cast_natCast, Int.toNat_of_nonneg (Int.le_of_lt positive)]
  have ratio := @mantissa_truncated n.natAbs d.toNat nonzero (by omega)
  rw [numerator, denominator] at ratio
  rw [← ratio]
  unfold Truncates
  constructor
  · rintro ⟨-, m, same, close⟩
    obtain rfl := Option.some.inj (found.symm.trans same)
    exact close
  · intro close
    exact ⟨negative, _, found, close⟩

/-- After a trigger in the state `IDLE`, and without another one, `o_rdy` rises 30 edges later and at no
other one; and the word `o_q` is then the truncated quotient exactly if the aligned operands differ, and
the numerator does not lose too much. -/
theorem single_truncated_exact (dsp : Dsp48e) {W : Nat} (most : W ≤ 48) (s₀ : Regs W) (reset trigger : Input W)
    (before after : List (Input W)) (rst : reset.iRst = true) :
    let idle := run (edge dsp) s₀ (reset :: before)
    let now := run (edge dsp) s₀ (reset :: before ++ trigger :: after)
    idle.state = .idle → trigger.iRst = false → trigger.iTrg = true →
      0 < trigger.iD.toInt → trigger.iD.toInt < 2 ^ (W - 3) →
      0 < |trigger.iN.toInt| → |trigger.iN.toInt| < 2 ^ (W - 3) →
      (∀ i ∈ after, i.iRst = false ∧ i.iTrg = false) →
      (now.oRdy = true → after.length = 30 ∨ after = [] ∧ idle.oRdy = true) ∧
        (after.length = 30 → now.oRdy = true ∧
          (Truncates trigger.iN.toInt trigger.iD.toInt now.oQ ↔
            Kept trigger.iN.toInt.natAbs trigger.iD.toInt.toNat)) := by
  intro idle now state clocked trg positive small nonzero small' quiet
  have operands := positive_abs (abs_pos.mp nonzero) small' positive small
  have divides : Divides (dividedN trigger.iN.abs trigger.iD) (alignedRegs trigger.iN.abs trigger.iD).2 _ :=
    operands.divides
  obtain ⟨triggered, signal, fine⟩ := trigger_edge dsp clocked trg state _
  obtain ⟨⟨later, signal'⟩, first, last⟩ := (machine dsp W).answered
    (A := fun m s => After dsp trigger.iN.abs trigger.iD _ m s ∧ s.slResultSignal = trigger.iN.msb) s₀ rst
    (fun s i m sequenced clocked quiet later =>
      ⟨after_edge most divides sequenced clocked quiet later.1, (signal_kept dsp clocked quiet).trans later.2⟩)
    (fun s m sequenced later running => later.1.ready_iff sequenced running) (by decide) (congrArg State.stage state)
    clocked ⟨triggered, signal⟩ fine quiet
  refine ⟨first, fun done => ⟨last done, ?_⟩⟩
  rw [done] at later
  have shown : now.oQ = pack trigger.iN.msb now.svExponent (now.slvSignedMantissa.setWidth 23) := by
    unfold Regs.oQ
    rw [← signal']
    rfl
  have negative : sign now.oQ = decide (trigger.iN.toInt < 0) := by
    rw [shown, sign_pack, BitVec.msb_eq_toInt]
  exact truncates_iff operands.positive (by omega) negative (later.magnitude_eq most operands)

def resetInput : Input 48 := ⟨true, 0, 0, false⟩

def quietInput : Input 48 := ⟨false, 0, 0, false⟩

/-- From a reset: a trigger with these operands, and the 30 edges behind it. -/
def division (n d : BitVec 48) : Regs 48 :=
  run (edge Dsp48e.adder) .initial (resetInput :: [] ++ ⟨false, n, d, true⟩ :: List.replicate 30 quietInput)

theorem single_truncated_exact_fraction : (division (-5) 3).oRdy = true ∧ Truncates (-5) 3 (division (-5) 3).oQ := by
  obtain ⟨-, answer⟩ := single_truncated_exact Dsp48e.adder (by decide : 48 ≤ 48) .initial resetInput
    ⟨false, -5, 3, true⟩ [] (List.replicate 30 quietInput) rfl rfl rfl rfl (by decide) (by decide) (by decide)
    (by decide) (by decide)
  obtain ⟨ready, exact⟩ := answer rfl
  exact ⟨ready, exact.mpr ⟨by decide, by decide⟩⟩

/-- 1 / 1 gives a half. -/
theorem one_halved :
    (run (edge Dsp48e.adder) .initial [resetInput]).state = .idle ∧ (division 1 1).oRdy = true ∧
      (division 1 1).oQ = 0x3F000000 ∧ ¬ Truncates 1 1 (division 1 1).oQ := by
  have word : (division 1 1).oQ = 0x3F000000 := by decide +kernel
  have half : magnitude 0x3F000000 = some (1 / 2) := by
    have exponent : exponent 0x3F000000 = 126 := by decide
    have fraction : fraction 0x3F000000 = 0 := by decide
    unfold magnitude
    rw [exponent, fraction]
    norm_num
  refine ⟨rfl, by decide +kernel, word, ?_⟩
  rw [word]
  rintro ⟨-, m, found, -, above⟩
  rw [half] at found
  obtain rfl := Option.some.inj found
  norm_num at above

end BpmAcquisition.DivIeee754Single
