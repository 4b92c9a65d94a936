import BpmAcquisition.Library.NonRestoring
import BpmAcquisition.Library.Run
import BpmAcquisition.Library.Signed
import Mathlib.Data.Int.ModEq

/-!
# The fixed-point divider

`div_fixedpoint` of `arith_dsp48e_pkg.vhd`, for all widths and precisions. The partial remainder is
the output register of a DSP48E slice; it comes back doubled, in the width of the operands, and the
carry of the slice is both the next quotient bit and the choice of the next operation.
`quotient_floor` says for every run before the trigger when the quotient is ready, and what it is.
-/

namespace BpmAcquisition.DivFixedpoint

open Machine NonRestoring Signed

/-! ### The slice -/

/-- The DSP48E as it is configured: the results of `ALUMODE` `0000`, C plus A:B, and `0011`, C
minus A:B, and the third carry-out, the carry of the 48-bit adder or that there was no borrow. -/
structure Dsp48e where
  p : Bool → BitVec 48 → BitVec 48 → BitVec 48
  carryout : Bool → BitVec 48 → BitVec 48 → Bool
  p_add : ∀ c ab, p false c ab = c + ab
  p_subtract : ∀ c ab, p true c ab = c - ab
  carryout_add : ∀ c ab, carryout false c ab = decide (2 ^ 48 ≤ c.toNat + ab.toNat)
  carryout_subtract : ∀ c ab, carryout true c ab = decide (ab.toNat ≤ c.toNat)

/-- A slice that behaves so. -/
def Dsp48e.adder : Dsp48e where
  p subtract c ab := if subtract then c - ab else c + ab
  carryout subtract c ab := if subtract then decide (ab.toNat ≤ c.toNat) else decide (2 ^ 48 ≤ c.toNat + ab.toNat)
  p_add _ _ := rfl
  p_subtract _ _ := rfl
  carryout_add _ _ := rfl
  carryout_subtract _ _ := rfl

/-- For a negative C with an addition, and one that is not negative with a subtraction, of a
positive A:B the carry-out says that the result is not negative. -/
theorem carryout_nonnegative (dsp : Dsp48e) (c ab : BitVec 48) (positive : 0 ≤ ab.toInt) :
    dsp.carryout (decide (0 ≤ c.toInt)) c ab =
      decide (0 ≤ (dsp.p (decide (0 ≤ c.toInt)) c ab).toInt) := by
  have cCond := BitVec.toInt_eq_toNat_cond c
  have abCond := BitVec.toInt_eq_toNat_cond ab
  have cBound := c.isLt
  have abBound := ab.isLt
  by_cases sign : 0 ≤ c.toInt
  · have result : (c - ab).toInt = c.toInt - ab.toInt := by
      rw [BitVec.toInt_sub]
      exact Int.bmod_eq_of_le (by omega) (by omega)
    rw [decide_eq_true sign, dsp.carryout_subtract, dsp.p_subtract, result, decide_eq_decide]
    split at cCond <;> split at abCond <;> omega
  · have result : (c + ab).toInt = c.toInt + ab.toInt := by
      rw [BitVec.toInt_add]
      exact Int.bmod_eq_of_le (by omega) (by omega)
    rw [decide_eq_false sign, dsp.carryout_add, dsp.p_add, result, decide_eq_decide]
    split at cCond <;> split at abCond <;> omega

/-! ### The registers -/

structure Input (W : Nat) where
  iRst : Bool := false
  iN : BitVec W
  iD : BitVec W
  iTrg : Bool

/-- `slv_alumode_init` is `"00" & x & x` and stands for `x`; `slv_r_fb` and the carry are those of
the slice. -/
structure Regs (W P : Nat) where
  slvNHold : BitVec W
  slvDHold : BitVec W
  slvAlumodeInit : Bool
  slInit : Bool
  slFinished : Bool
  uvCount : BitVec 6
  slvQ : BitVec (P + 1)
  oRdy : Bool
  slErr : Bool
  slvRFb : BitVec 48
  slvCarryout : Bool

/-- The initial values of the declarations, and 0 where they have none. -/
def Regs.initial {W P : Nat} : Regs W P := ⟨0, 0, false, false, false, 0, 0, false, false, 0, false⟩

def cMaxCount (P : Nat) : BitVec 6 := BitVec.ofNat 6 (P + 1)

section
variable {W P : Nat} (dsp : Dsp48e) (s : Regs W P) (i : Input W)

def Regs.slvR : BitVec W := if s.slInit then s.slvNHold else s.slvRFb.setWidth W <<< 1

def Regs.slvAlumode : Bool := if s.slInit then s.slvAlumodeInit else s.slvCarryout

def prcHoldOperands : Regs W P :=
  if i.iTrg then { s with slvNHold := i.iN, slvDHold := i.iD, slvAlumodeInit := !i.iN.msb } else s

-- The reset is asynchronous; it leaves `sl_finished` as it is and raises `o_rdy`.
def prcControl : Regs W P :=
  if i.iRst then { s with slInit := true, uvCount := 0, oRdy := true, slErr := false }
  else if s.uvCount = 0 then
    let s := if s.slErr then s else { s with oRdy := !s.slFinished }
    if i.iTrg then { s with uvCount := cMaxCount P, slInit := true, slFinished := false, slErr := false }
    else { s with slFinished := true }
  else { s with uvCount := s.uvCount - 1, slInit := false, oRdy := false, slErr := s.slErr || i.iTrg }

def prcQuotient : BitVec (P + 1) := (s.slvQ.setWidth P).concat s.slvCarryout

def edge : Regs W P :=
  let hold := prcHoldOperands s i
  { prcControl s i with
    slvNHold := hold.slvNHold
    slvDHold := hold.slvDHold
    slvAlumodeInit := hold.slvAlumodeInit
    slvQ := prcQuotient s
    slvRFb := if i.iRst then 0 else dsp.p s.slvAlumode (s.slvR.signExtend 48) (s.slvDHold.signExtend 48)
    slvCarryout :=
      if i.iRst then false else dsp.carryout s.slvAlumode (s.slvR.signExtend 48) (s.slvDHold.signExtend 48) }

end

/-! ### One operation of the slice -/

/-- The operation that the sign of a doubled remainder asks for, and the sign of its result as the
carry, also where the doubled remainder has wrapped in the width of the operands. -/
theorem alu_reduce (dsp : Dsp48e) {W : Nat} (wide : W ≤ 48) {d : BitVec W} {z : Int} (positive : 0 < d.toInt)
    (low : -(2 * d.toInt) ≤ z) (high : z < 2 * d.toInt) :
    (dsp.p (decide (0 ≤ z)) ((BitVec.ofInt W z).signExtend 48) (d.signExtend 48)).setWidth W =
        BitVec.ofInt W (reduce z d.toInt) ∧
      dsp.carryout (decide (0 ≤ z)) ((BitVec.ofInt W z).signExtend 48) (d.signExtend 48) =
        decide (0 ≤ reduce z d.toInt) := by
  have width : 0 < W := by
    refine Nat.pos_of_ne_zero ?_
    rintro rfl
    rw [BitVec.eq_nil d] at positive
    exact absurd positive (by decide)
  have even : 2 ∣ 2 ^ W := dvd_pow_self 2 (Nat.ne_of_gt width)
  have most : 2 ^ W ≤ 2 ^ 48 := Nat.pow_le_pow_right (by decide) wide
  have below : 2 * d.toInt < ((2 ^ W : Nat) : Int) := by
    rw [Nat.cast_pow]
    exact BitVec.two_mul_toInt_lt
  have word := bmod_once even (by omega : -((2 ^ W : Nat) : Int) < z) (by omega)
  have c : ((BitVec.ofInt W z).signExtend 48).toInt = z.bmod (2 ^ W) := by
    rw [BitVec.toInt_signExtend_of_le wide, BitVec.toInt_ofInt]
  have ab : (d.signExtend 48).toInt = d.toInt := BitVec.toInt_signExtend_of_le wide
  have cLow := setWidth_signExtend (BitVec.ofInt W z) wide
  have abLow := setWidth_signExtend d wide
  have cCond := BitVec.toInt_eq_toNat_cond ((BitVec.ofInt W z).signExtend 48)
  have abCond := BitVec.toInt_eq_toNat_cond (d.signExtend 48)
  generalize (BitVec.ofInt W z).signExtend 48 = x at *
  generalize d.signExtend 48 = y at *
  have xBound := x.isLt
  have yBound := y.isLt
  by_cases sign : 0 ≤ z
  · rw [decide_eq_true sign, dsp.p_subtract, dsp.carryout_subtract, reduce, if_pos sign]
    constructor
    · rw [BitVec.sub_eq_add_neg, BitVec.setWidth_add _ _ wide, BitVec.setWidth_neg_of_le wide, cLow, abLow,
        Int.sub_eq_add_neg, BitVec.ofInt_add, BitVec.ofInt_neg, BitVec.ofInt_toInt]
    · rw [decide_eq_decide]
      split at cCond <;> split at abCond <;> omega
  · rw [decide_eq_false sign, dsp.p_add, dsp.carryout_add, reduce, if_neg sign]
    constructor
    · rw [BitVec.setWidth_add _ _ wide, cLow, abLow, BitVec.ofInt_add, BitVec.ofInt_toInt]
    · rw [decide_eq_decide]
      split at cCond <;> split at abCond <;> omega

theorem edge_next {W P : Nat} (dsp : Dsp48e) (s : Regs W P) {i : Input W} (clocked : i.iRst = false) :
    edge dsp s i =
      { prcControl s i with
        slvNHold := (prcHoldOperands s i).slvNHold
        slvDHold := (prcHoldOperands s i).slvDHold
        slvAlumodeInit := (prcHoldOperands s i).slvAlumodeInit
        slvQ := prcQuotient s
        slvRFb := dsp.p s.slvAlumode (s.slvR.signExtend 48) (s.slvDHold.signExtend 48)
        slvCarryout := dsp.carryout s.slvAlumode (s.slvR.signExtend 48) (s.slvDHold.signExtend 48) } := by
  unfold edge
  simp only [clocked, Bool.false_eq_true, if_false]

/-! ### The phases of a division -/

section
variable {W P : Nat}

/-- The edge of the trigger has passed. -/
structure Loaded (n d : BitVec W) (s : Regs W P) : Prop where
  count : s.uvCount = cMaxCount P
  init : s.slInit = true
  numerator : s.slvNHold = n
  denominator : s.slvDHold = d
  alumode : s.slvAlumodeInit = !n.msb
  running : s.slFinished = false
  fine : s.slErr = false

/-- Operands that the divider takes, and the number of whose quotient it gives the digits: that is the
numerator, but for equal operands it is `-i_d`. -/
structure Divides (n d : BitVec W) (v : Int) : Prop where
  positive : 0 < d.toInt
  low : -d.toInt ≤ v
  high : v < d.toInt
  least : -(2 * d.toInt) ≤ n.toInt
  most : n.toInt < 2 * d.toInt
  same : start v d.toInt = start n.toInt d.toInt

theorem divides_below {n d : BitVec W} (positive : 0 < d.toInt) (low : -d.toInt ≤ n.toInt) (high : n.toInt < d.toInt) :
    Divides n d n.toInt :=
  ⟨positive, low, high, by omega, by omega, rfl⟩

theorem divides_equal {d : BitVec W} (positive : 0 < d.toInt) : Divides d d (-d.toInt) :=
  ⟨positive, Int.le_refl _, by omega, by omega, by omega, (start_equal positive).symm⟩

/-- The carry is the `j`-th digit behind the first one; the digits before it are in `slv_q`. -/
structure Digits (d : BitVec W) (v : Int) (j : Nat) (s : Regs W P) : Prop where
  count : s.uvCount.toNat = P - j
  init : s.slInit = false
  denominator : s.slvDHold = d
  running : s.slFinished = false
  fine : s.slErr = false
  unready : s.oRdy = false
  remainder : s.slvRFb.setWidth W = BitVec.ofInt W (after v d.toInt j).remainder
  carry : s.slvCarryout = decide (0 ≤ (after v d.toInt j).remainder)
  shifted : 2 * (s.slvQ.toNat : Int) + digit (after v d.toInt j).remainder ≡
    (after v d.toInt j).quotient [ZMOD 2 ^ (j + 1)]

/-- No division runs. -/
structure Rest (s : Regs W P) : Prop where
  count : s.uvCount = 0
  finished : s.slFinished = true
  fine : s.slErr = false

/-- The state `m` edges after the edge of the trigger. -/
inductive Phase (n d : BitVec W) (v : Int) (s : Regs W P) : Nat → Prop
  | loaded (loaded : Loaded n d s) : Phase n d v s 0
  | digits {j : Nat} (le : j ≤ P) (digits : Digits d v j s) : Phase n d v s (j + 1)
  | ready (rest : Rest s) (ready : s.oRdy = true) (quotient : s.slvQ.toInt = v * 2 ^ P / d.toInt) :
    Phase n d v s (P + 2)
  | past {m : Nat} (late : P + 2 < m) (rest : Rest s) (unready : s.oRdy = false) : Phase n d v s m

variable {dsp : Dsp48e} {n d : BitVec W} {v : Int} {s : Regs W P} {i : Input W}

theorem loaded_edge (dsp : Dsp48e) (idle : s.uvCount = 0) (clocked : i.iRst = false) (trg : i.iTrg = true) :
    Loaded i.iN i.iD (edge dsp s i) := by
  rw [edge_next dsp s clocked]
  unfold prcControl prcHoldOperands
  simp only [clocked, idle, trg, Bool.false_eq_true, if_false, if_true]
  exact ⟨rfl, rfl, rfl, rfl, rfl, rfl, rfl⟩

/-- One operation from `z`, which the slice sees in the width of the operands. -/
theorem remainder_next (dsp : Dsp48e) {z : Int} (wide : W ≤ 48) (clocked : i.iRst = false) (denominator : s.slvDHold = d)
    (r : s.slvR = BitVec.ofInt W z) (alumode : s.slvAlumode = decide (0 ≤ z)) (positive : 0 < d.toInt)
    (low : -(2 * d.toInt) ≤ z) (high : z < 2 * d.toInt) :
    (edge dsp s i).slvRFb.setWidth W = BitVec.ofInt W (reduce z d.toInt) ∧
      (edge dsp s i).slvCarryout = decide (0 ≤ reduce z d.toInt) := by
  rw [edge_next dsp s clocked, r, alumode, denominator]
  exact alu_reduce dsp wide positive low high

theorem quotient_next {j : Nat} (le : j ≤ P) (digits : Digits d v j s) :
    ((prcQuotient s).toNat : Int) ≡ (after v d.toInt j).quotient [ZMOD 2 ^ (j + 1)] := by
  have bits : ((prcQuotient s).toNat : Int) = 2 * ((s.slvQ.toNat : Int) % 2 ^ P) +
      digit (after v d.toInt j).remainder := by
    unfold prcQuotient digit
    rw [BitVec.toNat_concat, BitVec.toNat_setWidth, digits.carry]
    by_cases sign : 0 ≤ (after v d.toInt j).remainder
    · rw [decide_eq_true sign, if_pos sign, Bool.toNat_true]
      push_cast
      ring
    · rw [decide_eq_false sign, if_neg sign, Bool.toNat_false]
      push_cast
      ring
  have kept : 2 * ((s.slvQ.toNat : Int) % 2 ^ P) ≡ 2 * s.slvQ.toNat [ZMOD 2 ^ (P + 1)] := by
    rw [pow_succ']
    exact (Int.mod_modEq _ _).mul_left'
  rw [bits]
  exact ((kept.of_dvd (pow_dvd_pow 2 (by omega))).add_right _).trans digits.shifted

/-- An edge without a trigger while the counter runs. -/
theorem control_counting (clocked : i.iRst = false) (quiet : i.iTrg = false) (counting : s.uvCount ≠ 0) :
    prcControl s i = { s with uvCount := s.uvCount - 1, slInit := false, oRdy := false } := by
  unfold prcControl
  simp only [clocked, counting, quiet, Bool.or_false, Bool.false_eq_true, if_false]

theorem hold_quiet (quiet : i.iTrg = false) : prcHoldOperands s i = s := by
  unfold prcHoldOperands
  simp only [quiet, Bool.false_eq_true, if_false]

theorem counting_edge (dsp : Dsp48e) (clocked : i.iRst = false) (quiet : i.iTrg = false) {m : Nat}
    (count : s.uvCount.toNat = m + 1) :
    (edge dsp s i).uvCount.toNat = m ∧ (edge dsp s i).slInit = false ∧ (edge dsp s i).slvDHold = s.slvDHold ∧
      (edge dsp s i).slFinished = s.slFinished ∧ (edge dsp s i).slErr = s.slErr ∧ (edge dsp s i).oRdy = false := by
  have counting : s.uvCount ≠ 0 := by
    intro zero
    rw [zero] at count
    exact absurd count (by simp)
  have one : (1 : BitVec 6) ≤ s.uvCount := by
    show 1 ≤ s.uvCount.toNat
    omega
  rw [edge_next dsp s clocked, control_counting clocked quiet counting, hold_quiet quiet]
  refine ⟨?_, rfl, rfl, rfl, rfl, rfl⟩
  show (s.uvCount - 1).toNat = m
  rw [BitVec.toNat_sub_of_le one, count]
  rfl

theorem digits_first (wide : W ≤ 48) (precise : P < 48) (divides : Divides n d v) (clocked : i.iRst = false)
    (quiet : i.iTrg = false) (loaded : Loaded n d s) : Digits d v 0 (edge dsp s i) := by
  have r : s.slvR = BitVec.ofInt W n.toInt := by
    unfold Regs.slvR
    rw [if_pos loaded.init, loaded.numerator, BitVec.ofInt_toInt]
  have alumode : s.slvAlumode = decide (0 ≤ n.toInt) := by
    unfold Regs.slvAlumode
    rw [if_pos loaded.init, loaded.alumode, BitVec.msb_eq_toInt, ← decide_not, decide_eq_decide, Int.not_lt]
  have most : (cMaxCount P).toNat = P + 1 := by
    unfold cMaxCount
    rw [BitVec.toNat_ofNat, Nat.mod_eq_of_lt (by omega)]
  rw [← loaded.count] at most
  obtain ⟨count, init, held, running, fine, unready⟩ := counting_edge dsp clocked quiet most
  obtain ⟨remainder, carry⟩ :=
    remainder_next dsp wide clocked loaded.denominator r alumode divides.positive divides.least divides.most
  have first : after v d.toInt 0 = ⟨-digit (reduce n.toInt d.toInt), reduce n.toInt d.toInt⟩ := divides.same
  refine ⟨count, init, held.trans loaded.denominator, running.trans loaded.running, fine.trans loaded.fine, unready,
    ?_, ?_, ?_⟩
  · rw [first]
    exact remainder
  · rw [first]
    exact carry
  rw [first]
  -- The one digit so far is the sign, and the lowest bit of the register is 0.
  exact Int.modEq_iff_dvd.mpr ⟨-((edge dsp s i).slvQ.toNat + digit (reduce n.toInt d.toInt)), by ring⟩

theorem digits_next {j : Nat} (wide : W ≤ 48) (divides : Divides n d v) (clocked : i.iRst = false)
    (quiet : i.iTrg = false) (less : j < P) (digits : Digits d v j s) : Digits d v (j + 1) (edge dsp s i) := by
  have range := (after_exact divides.positive divides.low divides.high j).range divides.positive
  have r : s.slvR = BitVec.ofInt W (2 * (after v d.toInt j).remainder) := by
    unfold Regs.slvR
    rw [digits.init, if_neg Bool.false_ne_true, digits.remainder, ofInt_two_mul]
  have alumode : s.slvAlumode = decide (0 ≤ 2 * (after v d.toInt j).remainder) := by
    unfold Regs.slvAlumode
    rw [digits.init, if_neg Bool.false_ne_true, digits.carry, decide_eq_decide]
    omega
  have still : s.uvCount.toNat = P - (j + 1) + 1 := by
    rw [digits.count]
    omega
  obtain ⟨count, init, held, running, fine, unready⟩ := counting_edge dsp clocked quiet still
  obtain ⟨remainder, carry⟩ :=
    remainder_next dsp wide clocked digits.denominator r alumode divides.positive (by omega) (by omega)
  refine ⟨count, init, held.trans digits.denominator, running.trans digits.running, fine.trans digits.fine, unready,
    remainder, carry, ?_⟩
  have shifted : (edge dsp s i).slvQ = prcQuotient s := by rw [edge_next dsp s clocked]
  rw [shifted]
  have doubled := @Int.ModEq.mul_left' _ _ _ 2 (quotient_next (Nat.le_of_lt less) digits)
  rw [← pow_succ'] at doubled
  exact doubled.add_right _

theorem quotient_range (P : Nat) (positive : 0 < d.toInt) (low : -d.toInt ≤ v) (high : v < d.toInt) :
    -(2 ^ P : Int) ≤ 2 ^ P * v / d.toInt ∧ 2 ^ P * v / d.toInt < 2 ^ P := by
  have power : (0 : Int) < 2 ^ P := Int.pow_pos (by decide)
  constructor
  · rw [Int.le_ediv_iff_mul_le positive]
    calc -(2 ^ P : Int) * d.toInt = 2 ^ P * -d.toInt := by ring
      _ ≤ 2 ^ P * v := Int.mul_le_mul_of_nonneg_left low (Int.le_of_lt power)
  · rw [Int.ediv_lt_iff_lt_mul positive]
    exact Int.mul_lt_mul_of_pos_left high power

/-- An edge without a trigger after the last operation. -/
theorem rest_edge (dsp : Dsp48e) (count : s.uvCount = 0) (fine : s.slErr = false) (clocked : i.iRst = false)
    (quiet : i.iTrg = false) :
    Rest (edge dsp s i) ∧ (edge dsp s i).oRdy = !s.slFinished := by
  have control : prcControl s i = { s with oRdy := !s.slFinished, slFinished := true } := by
    unfold prcControl
    simp only [clocked, count, fine, quiet, Bool.false_eq_true, if_false, if_true]
  rw [edge_next dsp s clocked, control]
  exact ⟨⟨count, rfl, fine⟩, rfl⟩

theorem ready_edge (divides : Divides n d v) (clocked : i.iRst = false) (quiet : i.iTrg = false)
    (digits : Digits d v P s) : Phase n d v (edge dsp s i) (P + 2) := by
  have count : s.uvCount = 0 := by
    apply BitVec.eq_of_toNat_eq
    rw [digits.count, Nat.sub_self]
    rfl
  obtain ⟨rest, ready⟩ := rest_edge dsp count digits.fine clocked quiet
  rw [digits.running] at ready
  refine Phase.ready rest ready ?_
  have shifted : (edge dsp s i).slvQ = prcQuotient s := by rw [edge_next dsp s clocked]
  rw [shifted, mul_comm v]
  obtain ⟨least, most⟩ := quotient_range P divides.positive divides.low divides.high
  have congruent := quotient_next (Nat.le_refl P) digits
  rw [(after_exact divides.positive divides.low divides.high P).quotient] at congruent
  exact toInt_of_modEq congruent least most

theorem over_edge (dsp : Dsp48e) (clocked : i.iRst = false) (quiet : i.iTrg = false) (rest : Rest s) :
    Rest (edge dsp s i) ∧ (edge dsp s i).oRdy = false := by
  obtain ⟨still, unready⟩ := rest_edge dsp rest.count rest.fine clocked quiet
  rw [rest.finished] at unready
  exact ⟨still, unready⟩

theorem phase_edge {m : Nat} (wide : W ≤ 48) (precise : P < 48) (divides : Divides n d v) (clocked : i.iRst = false)
    (quiet : i.iTrg = false) (phase : Phase n d v s m) : Phase n d v (edge dsp s i) (m + 1) := by
  cases phase with
  | loaded loaded =>
    exact Phase.digits (Nat.zero_le P) (digits_first wide precise divides clocked quiet loaded)
  | @digits j le digits =>
    rcases Nat.lt_or_eq_of_le le with less | rfl
    · exact Phase.digits less (digits_next wide divides clocked quiet less digits)
    · exact ready_edge divides clocked quiet digits
  | ready rest =>
    obtain ⟨still, unready⟩ := over_edge dsp clocked quiet rest
    exact Phase.past (by omega) still unready
  | past late rest =>
    obtain ⟨still, unready⟩ := over_edge dsp clocked quiet rest
    exact Phase.past (by omega) still unready

theorem phase_run {m : Nat} {is : List (Input W)} (wide : W ≤ 48) (precise : P < 48) (divides : Divides n d v)
    (quiet : ∀ i ∈ is, i.iRst = false ∧ i.iTrg = false) (phase : Phase n d v s m) :
    Phase n d v (run (edge dsp) s is) (m + is.length) := by
  induction is generalizing s m with
  | nil => exact phase
  | cons i rest ih =>
    obtain ⟨now, later⟩ := List.forall_mem_cons.mp quiet
    rw [run_cons, List.length_cons, Nat.add_comm rest.length, ← Nat.add_assoc]
    exact ih later (phase_edge wide precise divides now.1 now.2 phase)

theorem Phase.ready_iff {m : Nat} (phase : Phase n d v s m) (running : 0 < m) : s.oRdy = true ↔ m = P + 2 := by
  cases phase with
  | loaded => cases running
  | @digits j le digits =>
    rw [digits.unready]
    exact iff_of_false Bool.false_ne_true (by omega)
  | ready rest ready => simp [ready]
  | past late rest unready => simp [unready, Nat.ne_of_gt late]

theorem Phase.quotient_exact {m : Nat} (phase : Phase n d v s m) (done : m = P + 2) :
    s.slvQ.toInt = v * 2 ^ P / d.toInt := by
  cases phase with
  | loaded => cases done
  | digits le => omega
  | ready rest ready quotient => exact quotient
  | past late => omega

/-! ### The error -/

def Regs.Silenced (s : Regs W P) : Prop := s.slErr = true → s.oRdy = false

theorem silenced_edge (dsp : Dsp48e) (s : Regs W P) (i : Input W) (silenced : s.Silenced) : (edge dsp s i).Silenced := by
  suffices control : (prcControl s i).Silenced from control
  unfold Regs.Silenced at silenced ⊢
  unfold prcControl
  by_cases reset : i.iRst = true
  · rw [if_pos reset]
    exact fun err => absurd err Bool.false_ne_true
  · rw [if_neg reset]
    by_cases zero : s.uvCount = 0
    · rw [if_pos zero]
      cases i.iTrg <;> cases err : s.slErr <;> simp [err, silenced]
    · rw [if_neg zero]
      exact fun _ => rfl

theorem silenced_reset (dsp : Dsp48e) (s : Regs W P) (rst : i.iRst = true) : (edge dsp s i).Silenced := by
  suffices control : (prcControl s i).Silenced from control
  unfold prcControl
  rw [if_pos rst]
  exact fun err => absurd err Bool.false_ne_true

/-- At the edge of the trigger `o_rdy` is still that of the division before. -/
theorem ready_trigger (dsp : Dsp48e) (idle : s.uvCount = 0) (silenced : s.Silenced) (clocked : i.iRst = false)
    (trg : i.iTrg = true) : (edge dsp s i).oRdy = true ↔ s.slFinished = false ∧ s.slErr = false := by
  have control : (edge dsp s i).oRdy = if s.slErr then s.oRdy else !s.slFinished := by
    rw [edge_next dsp s clocked]
    unfold prcControl
    cases s.slErr <;> simp [clocked, idle, trg]
  rw [control]
  cases err : s.slErr with
  | true => simp [silenced err]
  | false => simp

end

/-- After a trigger while the counter is 0, and without another one, `o_rdy` is high in the cycle
`G_PRECISION` + 2 edges later and in no other, but that the pulse of the division before can fall in
the cycle of the trigger; and `o_q` is then the quotient, rounded down. -/
theorem quotient_floor (dsp : Dsp48e) {W P : Nat} (wide : W ≤ 48) (precise : P ≤ 47) (s₀ : Regs W P)
    (reset trigger : Input W) (before after : List (Input W)) (rst : reset.iRst = true) :
    let idle := run (edge dsp) s₀ (reset :: before)
    let now := run (edge dsp) s₀ (reset :: before ++ trigger :: after)
    idle.uvCount = 0 → trigger.iRst = false → trigger.iTrg = true →
      0 < trigger.iD.toInt → |trigger.iN.toInt| < trigger.iD.toInt →
      (∀ i ∈ after, i.iRst = false ∧ i.iTrg = false) →
      (now.oRdy = true ↔
          after.length = P + 2 ∨ after = [] ∧ idle.slFinished = false ∧ idle.slErr = false) ∧
        (after.length = P + 2 → now.slvQ.toInt = trigger.iN.toInt * 2 ^ P / trigger.iD.toInt) := by
  intro idle now zero clocked trg positive below quiet
  obtain ⟨low, high⟩ := abs_lt.mp below
  have steps : now = run (edge dsp) (edge dsp idle trigger) after := run_append (reset :: before) (trigger :: after)
  have phase : Phase trigger.iN trigger.iD trigger.iN.toInt now after.length := by
    rw [steps, ← Nat.zero_add after.length]
    exact phase_run wide (by omega) (divides_below positive (Int.le_of_lt low) high) quiet
      (Phase.loaded (loaded_edge dsp zero clocked trg))
  refine ⟨?_, phase.quotient_exact⟩
  cases after with
  | nil =>
    have silenced : idle.Silenced := run_keeps (silenced_edge dsp) (silenced_reset dsp s₀ rst) before
    rw [steps, run_nil, ready_trigger dsp zero silenced clocked trg]
    simp
  | cons i rest =>
    rw [phase.ready_iff (Nat.succ_pos _)]
    simp

-- -6 / 7 in four bits: the doubled remainders wrap.
theorem quotient_floor_wrapped :
    let reset : Input 4 := ⟨true, 0, 0, false⟩
    let trigger : Input 4 := ⟨false, -6, 7, true⟩
    let later := List.replicate 5 (⟨false, 0, 0, false⟩ : Input 4)
    let now : Regs 4 3 := run (edge Dsp48e.adder) .initial (reset :: [] ++ trigger :: later)
    now.oRdy = true ∧ now.slvQ.toInt = -7 := by
  intro reset trigger later now
  obtain ⟨ready, quotient⟩ := quotient_floor Dsp48e.adder (by decide : 4 ≤ 48) (by decide : 3 ≤ 47) .initial reset
    trigger [] later rfl rfl rfl rfl (by decide) (by decide) (by decide)
  exact ⟨ready.mpr (Or.inl rfl), quotient rfl⟩

end BpmAcquisition.DivFixedpoint
