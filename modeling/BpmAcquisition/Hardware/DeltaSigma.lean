import BpmAcquisition.Library.Signed

/-!
# Delta over sigma

`delta_over_sigma.vhd` registers the sums of pairs of its inputs at one edge of the clock and the
operands of the dividers, differences and sum of those, at the next. The widths are those of the
default generic, to which the divider core ties the entity. `bpm_ddc_pipe.vhd` gives the
magnitude of channel A to the first two inputs and that of channel B to the others, and
`user_logic.vhd` transfers the fractional field of each quotient. `fraction_exact` says for which
magnitudes that is the whole of the quotient.
-/

namespace BpmAcquisition.DeltaOverSigma

open Signed

structure Sample where
  iA : BitVec 24
  iB : BitVec 24
  iC : BitVec 24
  iD : BitVec 24
deriving DecidableEq

structure PipeIn extends Sample where
  iRst : Bool := false
  iValid : Bool

structure Sums where
  svAPlusB : BitVec 25
  svCPlusD : BitVec 25
  svAPlusD : BitVec 25
  svBPlusC : BitVec 25
  svAPlusC : BitVec 25
  svBPlusD : BitVec 25
deriving DecidableEq

/-- The registers of the second stage, which the dividers read. -/
structure Operands where
  svDeltaX : BitVec 26
  svDeltaY : BitVec 26
  svDeltaZ : BitVec 26
  svSum : BitVec 26
deriving DecidableEq

structure Regs where
  slReg0Valid : Bool
  slReg1Valid : Bool
  sums : Sums
  operands : Operands
  oSum : BitVec 26

def Sums.zero : Sums := ⟨0, 0, 0, 0, 0, 0⟩

def Sample.sums (i : Sample) : Sums :=
  let a := i.iA.signExtend 25
  let b := i.iB.signExtend 25
  let c := i.iC.signExtend 25
  let d := i.iD.signExtend 25
  ⟨a + b, c + d, a + d, b + c, a + c, b + d⟩

def Sums.operands (s : Sums) : Operands :=
  let aPlusD := s.svAPlusD.signExtend 26
  let bPlusC := s.svBPlusC.signExtend 26
  let aPlusB := s.svAPlusB.signExtend 26
  let cPlusD := s.svCPlusD.signExtend 26
  let aPlusC := s.svAPlusC.signExtend 26
  let bPlusD := s.svBPlusD.signExtend 26
  ⟨aPlusD - bPlusC, aPlusB - cPlusD, aPlusC - bPlusD, aPlusB + cPlusD⟩

def Sample.operands (i : Sample) : Operands := i.sums.operands

-- The reset is asynchronous and leaves the operands as they are.
def prcSumDivide (s : Regs) (i : PipeIn) : Regs :=
  if i.iRst then { s with slReg0Valid := false, slReg1Valid := false, sums := Sums.zero }
  else
    { s with
      slReg0Valid := i.iValid
      slReg1Valid := s.slReg0Valid
      operands := s.sums.operands
      sums := if i.iValid then i.toSample.sums else s.sums }

def prcSum (s : Regs) (i : PipeIn) : BitVec 26 :=
  if i.iRst then 0 else if s.slReg0Valid then s.operands.svSum else s.oSum

def edge (s : Regs) (i : PipeIn) : Regs := { prcSumDivide s i with oSum := prcSum s i }

/-! ### The words of the dividers -/

/-- `sv_delta_x_32` and its like: the upper bits are tied to zero. -/
def pad (operand : BitVec 26) : BitVec 32 := operand.setWidth 32

def output (word : BitVec 56) : BitVec 52 := word.setWidth 52

def quotient (o : BitVec 52) : BitVec 26 := o.extractLsb' 26 26

/-- The word of `dma_data_i` for one displacement. -/
def dmaWord (o : BitVec 52) : BitVec 32 := (o.setWidth 26).signExtend 32

/-- The inputs as `cmp_delta_sigma` wires them to the outputs of the two channels. -/
def cmpDeltaSigma (cha chb : BitVec 48) : Sample :=
  ⟨cha.setWidth 24, cha.setWidth 24, chb.setWidth 24, chb.setWidth 24⟩

variable {s : Regs} {i j : PipeIn}

theorem edge_next (clocked : i.iRst = false) :
    edge s i =
      { slReg0Valid := i.iValid
        slReg1Valid := s.slReg0Valid
        sums := if i.iValid then i.toSample.sums else s.sums
        operands := s.sums.operands
        oSum := if s.slReg0Valid then s.operands.svSum else s.oSum } := by
  simp [edge, prcSumDivide, prcSum, clocked]

/-! ### The pipeline -/

/-- What the dividers are offered, and what they are offered after the next edge. -/
def Regs.offer (s : Regs) : Option Operands := if s.slReg1Valid then some s.operands else none

def Regs.coming (s : Regs) : Option Operands := if s.slReg0Valid then some s.sums.operands else none

def PipeIn.offer (i : PipeIn) : Option Operands := if i.iValid then some i.toSample.operands else none

theorem offer_edge (clocked : i.iRst = false) : (edge s i).offer = s.coming := by
  rw [edge_next clocked]
  rfl

theorem coming_edge (clocked : i.iRst = false) : (edge s i).coming = i.offer := by
  rw [edge_next clocked]
  cases valid : i.iValid <;> simp [Regs.coming, PipeIn.offer, Sample.operands, valid]

theorem offer_some {o : Operands} (offered : s.offer = some o) : s.slReg1Valid = true ∧ s.operands = o := by
  unfold Regs.offer at offered
  split at offered
  case isTrue valid => exact ⟨valid, Option.some.inj offered⟩
  case isFalse => cases offered

theorem empty_reset (s : Regs) (rst : i.iRst = true) : (edge s i).offer = none ∧ (edge s i).coming = none := by
  simp [Regs.offer, Regs.coming, edge, prcSumDivide, rst]

theorem operands_reach (clocked : i.iRst = false) (clocked' : j.iRst = false) :
    (edge (edge s i) j).offer = i.offer := by
  rw [offer_edge clocked', coming_edge clocked]

/-! ### The operands -/

/-- The operands are what the formulas of the differences and the sum give over the integers. -/
structure Operands.Exact (o : Operands) (i : Sample) : Prop where
  deltaX : o.svDeltaX.toInt = (i.iA.toInt + i.iD.toInt) - (i.iB.toInt + i.iC.toInt)
  deltaY : o.svDeltaY.toInt = (i.iA.toInt + i.iB.toInt) - (i.iC.toInt + i.iD.toInt)
  deltaZ : o.svDeltaZ.toInt = (i.iA.toInt + i.iC.toInt) - (i.iB.toInt + i.iD.toInt)
  sum : o.svSum.toInt = (i.iA.toInt + i.iB.toInt) + (i.iC.toInt + i.iD.toInt)

theorem operands_exact (i : Sample) : i.operands.Exact i := by
  have pair : ∀ x y : BitVec 24, (x.signExtend 25 + y.signExtend 25).toInt = x.toInt + y.toInt := signExtend_add
  refine ⟨?_, ?_, ?_, ?_⟩
  · rw [← pair, ← pair]
    exact signExtend_sub _ _
  · rw [← pair, ← pair]
    exact signExtend_sub _ _
  · rw [← pair, ← pair]
    exact signExtend_sub _ _
  · rw [← pair, ← pair]
    exact signExtend_add _ _

/-- The upper field of the divider's output is the quotient truncated to an integer. -/
def IntegerQuotient (divide : BitVec 32 → BitVec 32 → BitVec 56) : Prop :=
  ∀ dividend divisor : BitVec 26, divisor ≠ 0 →
    quotient (output (divide (pad dividend) (pad divisor))) = BitVec.ofInt 26 (dividend.toInt.tdiv divisor.toInt)

/-- The word of `dma_data_i` has the whole of the quotient. -/
structure Whole (o : BitVec 52) : Prop where
  integer : quotient o = 0
  recovered : ((dmaWord o).setWidth 26).setWidth 52 = o

theorem whole_iff (o : BitVec 52) : Whole o ↔ quotient o = 0 := by
  refine ⟨Whole.integer, fun zero => ⟨zero, ?_⟩⟩
  ext k bound
  rw [← BitVec.getLsbD_eq_getElem, ← BitVec.getLsbD_eq_getElem]
  by_cases low : k < 26
  · have inside : k < 32 := by omega
    simp only [dmaWord, BitVec.getLsbD_setWidth, BitVec.getLsbD_signExtend, low, inside, bound, decide_true,
      Bool.true_and, if_true]
  · have bit : (quotient o).getLsbD (k - 26) = false := by simp [zero]
    have there : 26 + (k - 26) = k := by omega
    simp only [quotient, BitVec.getLsbD_extractLsb', there] at bit
    have inside : k - 26 < 26 := by omega
    simp only [inside, decide_true, Bool.true_and] at bit
    simp [low, bit]

variable {divide : BitVec 32 → BitVec 32 → BitVec 56} {dividend divisor : BitVec 26}

theorem whole_quotient (core : IntegerQuotient divide) (nonzero : divisor ≠ 0) :
    Whole (output (divide (pad dividend) (pad divisor))) ↔ dividend.toInt.natAbs < divisor.toInt.natAbs := by
  have value : divisor.toInt ≠ 0 := by
    intro zero
    exact nonzero (BitVec.toInt_inj.mp zero)
  have small : (dividend.toInt.tdiv divisor.toInt).natAbs < 2 ^ 26 := by
    have less := Int.natAbs_tdiv_le_natAbs dividend.toInt divisor.toInt
    obtain ⟨low, high⟩ := @toInt_range 25 dividend
    omega
  rw [whole_iff, core dividend divisor nonzero, ofInt_eq_zero small, tdiv_eq_zero value]

/-! ### Magnitudes of the two channels -/

def magnitude (ch : BitVec 48) : Int := (ch.setWidth 24).toInt

/-- Of the outputs that the dividers return for the operands, the words have the whole. -/
structure Transferred (divide : BitVec 32 → BitVec 32 → BitVec 56) (o : Operands) : Prop where
  x : Whole (output (divide (pad o.svDeltaX) (pad o.svSum)))
  y : Whole (output (divide (pad o.svDeltaY) (pad o.svSum)))
  z : Whole (output (divide (pad o.svDeltaZ) (pad o.svSum)))

theorem transferred_iff (core : IntegerQuotient divide) {cha chb : BitVec 48} (magnitudeA : 0 ≤ magnitude cha)
    (magnitudeB : 0 ≤ magnitude chb) (some : magnitude cha ≠ 0 ∨ magnitude chb ≠ 0) :
    Transferred divide (cmpDeltaSigma cha chb).operands ↔ magnitude cha ≠ 0 ∧ magnitude chb ≠ 0 := by
  obtain ⟨x, y, z, sum⟩ := operands_exact (cmpDeltaSigma cha chb)
  generalize (cmpDeltaSigma cha chb).operands = o at x y z sum ⊢
  simp only [cmpDeltaSigma] at x y z sum
  unfold magnitude at magnitudeA magnitudeB some ⊢
  generalize (cha.setWidth 24).toInt = a at x y z sum magnitudeA some ⊢
  generalize (chb.setWidth 24).toInt = b at x y z sum magnitudeB some ⊢
  have nonzero : o.svSum ≠ 0 := by
    intro zero
    rw [zero] at sum
    have : (0 : BitVec 26).toInt = 0 := rfl
    omega
  have whole (dividend : BitVec 26) := @whole_quotient divide dividend o.svSum core nonzero
  constructor
  · rintro ⟨-, lossless, -⟩
    have less := (whole o.svDeltaY).mp lossless
    omega
  · rintro ⟨someA, someB⟩
    refine ⟨(whole _).mpr ?_, (whole _).mpr ?_, (whole _).mpr ?_⟩
    all_goals omega

/-- For non-negative magnitudes of which not both are zero, with a divider that returns the truncated
quotient: two edges after the sample its operands are at the dividers, without wrap-around, and the
words of `user_logic` lose nothing of the quotients exactly if neither magnitude is zero. -/
theorem fraction_exact (divide : BitVec 32 → BitVec 32 → BitVec 56) (core : IntegerQuotient divide) (s : Regs)
    (i j : PipeIn) (cha chb : BitVec 48) (wired : i.toSample = cmpDeltaSigma cha chb) (valid : i.iValid = true)
    (clocked : i.iRst = false) (clocked' : j.iRst = false) (magnitudeA : 0 ≤ magnitude cha)
    (magnitudeB : 0 ≤ magnitude chb) (some : magnitude cha ≠ 0 ∨ magnitude chb ≠ 0) :
    let o := (edge (edge s i) j).operands
    (edge (edge s i) j).slReg1Valid = true ∧
      (o.Exact (cmpDeltaSigma cha chb) ∧ Transferred divide o ↔ magnitude cha ≠ 0 ∧ magnitude chb ≠ 0) := by
  intro o
  have reached := @operands_reach s i j clocked clocked'
  rw [PipeIn.offer, if_pos valid, wired] at reached
  obtain ⟨offered, same⟩ := offer_some reached
  refine ⟨offered, ?_⟩
  rw [show o = (cmpDeltaSigma cha chb).operands from same, transferred_iff core magnitudeA magnitudeB some]
  exact and_iff_right (operands_exact _)

/-- A divider core: below the integer field, the fraction with its sign. -/
def fixedPointDivider (dividend divisor : BitVec 32) : BitVec 56 :=
  let p := (dividend.setWidth 26).toInt
  let q := (divisor.setWidth 26).toInt
  (BitVec.ofInt 26 (p.tdiv q) ++ BitVec.ofInt 26 ((p.tmod q * 2 ^ 25).tdiv q)).setWidth 56

theorem quotient_append (upper lower : BitVec 26) : quotient (output ((upper ++ lower).setWidth 56)) = upper := by
  ext k bound
  rw [← BitVec.getLsbD_eq_getElem, ← BitVec.getLsbD_eq_getElem]
  have inside : 26 + k < 52 := by omega
  have word : 26 + k < 56 := by omega
  have upward : ¬ 26 + k < 26 := by omega
  have back : 26 + k - 26 = k := by omega
  simp only [quotient, output, BitVec.getLsbD_extractLsb', BitVec.getLsbD_setWidth, BitVec.getLsbD_append,
    bound, inside, word, upward, back, decide_true, Bool.true_and, if_false]

theorem fixedPointDivider_integer : IntegerQuotient fixedPointDivider := by
  intro dividend divisor _
  have dividendBits : (pad dividend).setWidth 26 = dividend := by simp [pad]
  have divisorBits : (pad divisor).setWidth 26 = divisor := by simp [pad]
  unfold fixedPointDivider
  rw [dividendBits, divisorBits]
  exact quotient_append _ _

def sampleOf (cha chb : BitVec 48) : PipeIn := { cmpDeltaSigma cha chb with iValid := true }

def Regs.idle : Regs := ⟨false, false, Sums.zero, ⟨0, 0, 0, 0⟩, 0⟩

-- Channel B is silent: the displacement y is 1, and the word says 0.
theorem full_deflection_lost :
    let o := (edge (edge Regs.idle (sampleOf 5 0)) (sampleOf 5 0)).operands
    let y := output (fixedPointDivider (pad o.svDeltaY) (pad o.svSum))
    IntegerQuotient fixedPointDivider ∧ 0 ≤ magnitude 5 ∧ 0 ≤ magnitude 0 ∧ magnitude 5 ≠ 0 ∧
      quotient y = 1 ∧ dmaWord y = 0 := by
  refine ⟨fixedPointDivider_integer, ?_⟩
  decide

theorem fraction_exact_centred :
    let o := (edge (edge Regs.idle (sampleOf 3 3)) (sampleOf 7 7)).operands
    (edge (edge Regs.idle (sampleOf 3 3)) (sampleOf 7 7)).slReg1Valid = true ∧
      (o.Exact (cmpDeltaSigma 3 3) ∧ Transferred fixedPointDivider o ↔ magnitude 3 ≠ 0 ∧ magnitude 3 ≠ 0) :=
  fraction_exact fixedPointDivider fixedPointDivider_integer _ (sampleOf 3 3) (sampleOf 7 7) 3 3 rfl rfl rfl rfl
    (by decide) (by decide) (by decide)

end BpmAcquisition.DeltaOverSigma
