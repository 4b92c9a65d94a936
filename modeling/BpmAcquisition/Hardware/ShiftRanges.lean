import BpmAcquisition.Hardware.FloatDivider
import BpmAcquisition.Hardware.SingleDivider

/-!
# The ranges of the shift

The search for the most significant bits ends, and what both dividers compute from its results stays in
the ranges declared for it, for all operands and in every run: `shift_in_range`.
-/

namespace BpmAcquisition.Utilities

open Machine Loop

/-- The search ends, and finds the bit that it returns, also when its result is read as a signed number. -/
structure Found {W : Nat} (arg : BitVec W) : Prop where
  ends : repeated (findMsbExit arg arg.msb) (· - 1) W (W - 1) = some (findMsbIndex arg arg.msb)
  highest : Highest arg (findMsbIndex arg arg.msb)
  signed : (findMsb arg arg.msb).toInt = findMsbIndex arg arg.msb

/-- `sv_shift` holds the number `z`, and its absolute value has the range of `v_i_shift`. -/
structure InRange {W : Nat} (svShift : BitVec (log2 W + 1)) (z : Int) : Prop where
  exact : svShift.toInt = z
  low : 0 ≤ vIShift svShift
  high : vIShift svShift ≤ W - 1

section
variable {W : Nat}

theorem found (two : 2 ≤ W) (arg : BitVec W) : Found arg := by
  have ends := findMsbIndex_ends arg arg.msb
  rw [Nat.sub_add_cancel (by omega)] at ends
  exact ⟨ends, findMsbIndex_highest two arg, findMsb_toInt two arg⟩

theorem inRange {svShift : BitVec (log2 W + 1)} {z : Int} (exact : svShift.toInt = z) (low : -(W : Int) < z)
    (high : z < W) : InRange svShift z := by
  have amount : vIShift svShift = svShift.toInt.natAbs := vIShift_eq (by omega)
  exact ⟨exact, by omega, by omega⟩

theorem floating_inRange (two : 2 ≤ W) (n d : BitVec W) : InRange (DivFloatingpoint.calculateShift n d)
    ((findMsbIndex d d.msb : Int) - findMsbIndex n n.msb - 1) := by
  have insideN := (findMsbIndex_highest two n).inside
  have insideD := (findMsbIndex_highest two d).inside
  exact inRange (DivFloatingpoint.calculateShift_toInt two n d) (by omega) (by omega)

theorem single_inRange (two : 2 ≤ W) (n d : BitVec W) :
    InRange (DivIeee754Single.calculateShift n d) ((findMsbIndex d d.msb : Int) - findMsbIndex n n.msb) ∧
      InRange (DivIeee754Single.calculateShift n d - 1) ((findMsbIndex d d.msb : Int) - findMsbIndex n n.msb - 1) := by
  have insideN := (findMsbIndex_highest two n).inside
  have insideD := (findMsbIndex_highest two d).inside
  have exact : (DivIeee754Single.calculateShift n d).toInt = _ := difference_toInt two n d
  refine ⟨inRange exact (by omega) (by omega), inRange ?_ (by omega) (by omega)⟩
  rw [sub_one_toInt two (by omega), exact]

/-- In the state `SHIFT` of `div_floatingpoint`. -/
theorem floating_run (two : 2 ≤ W) (dsp : DivFixedpoint.Dsp48e) (s₀ : DivFloatingpoint.Regs W)
    (reset : DivFloatingpoint.Input W) (is : List (DivFloatingpoint.Input W)) :
    let s := run (DivFloatingpoint.edge dsp) s₀ (reset :: is)
    s.state = .shift →
      InRange s.svShift ((findMsbIndex s.slvDHold s.slvDHold.msb : Int) - findMsbIndex s.slvNHold s.slvNHold.msb - 1) := by
  intro s shift
  have computed : s.Computed :=
    run_keeps (fun s i _ => DivFloatingpoint.edge_computed dsp s i) (DivFloatingpoint.edge_computed dsp s₀ reset) is
  rw [computed shift]
  exact floating_inRange two s.slvNHold s.slvDHold

/-- In the states `SHIFT` and `CHECK_ADDITIONAL_SHIFT` of `div_ieee754_single`. -/
theorem single_run (two : 2 ≤ W) (dsp : DivFixedpoint.Dsp48e) (s₀ : DivIeee754Single.Regs W)
    {reset : DivIeee754Single.Input W} (is : List (DivIeee754Single.Input W)) (rst : reset.iRst = true) :
    let s := run (DivIeee754Single.edge dsp) s₀ (reset :: is)
    (s.state = .shift →
        InRange s.svShift ((findMsbIndex s.slvDHold s.slvDHold.msb : Int) - findMsbIndex s.slvNHold s.slvNHold.msb)) ∧
      (s.state = .checkAdditionalShift → InRange (s.svShift - 1) (s.svShift.toInt - 1)) := by
  intro s
  have computed : s.Computed :=
    run_keeps (fun s i computed => DivIeee754Single.edge_computed dsp i computed)
      (DivIeee754Single.reset_computed dsp s₀ rst) is
  constructor
  · intro shift
    rw [computed.shift shift]
    exact (single_inRange two s.slvNHold s.slvDHold).1
  · intro check
    obtain ⟨n, d, same⟩ := computed.check check
    obtain ⟨first, second⟩ := single_inRange two n d
    rw [same, first.exact]
    exact second

end

/-- For all operands the search ends with the bit it is for, and the differences do not wrap; and so in
every run from a reset, in the states that use them. -/
theorem shift_in_range {W : Nat} (two : 2 ≤ W) (dsp : DivFixedpoint.Dsp48e) :
    (∀ arg : BitVec W, Found arg) ∧
      (∀ n d : BitVec W,
        InRange (DivFloatingpoint.calculateShift n d) ((findMsbIndex d d.msb : Int) - findMsbIndex n n.msb - 1) ∧
          InRange (DivIeee754Single.calculateShift n d) ((findMsbIndex d d.msb : Int) - findMsbIndex n n.msb) ∧
          InRange (DivIeee754Single.calculateShift n d - 1) ((findMsbIndex d d.msb : Int) - findMsbIndex n n.msb - 1)) ∧
      (∀ s₀ reset is, reset.iRst = true →
        let s : DivFloatingpoint.Regs W := run (DivFloatingpoint.edge dsp) s₀ (reset :: is)
        s.state = .shift → InRange s.svShift
          ((findMsbIndex s.slvDHold s.slvDHold.msb : Int) - findMsbIndex s.slvNHold s.slvNHold.msb - 1)) ∧
      ∀ s₀ reset is, reset.iRst = true →
        let s : DivIeee754Single.Regs W := run (DivIeee754Single.edge dsp) s₀ (reset :: is)
        (s.state = .shift → InRange s.svShift
            ((findMsbIndex s.slvDHold s.slvDHold.msb : Int) - findMsbIndex s.slvNHold s.slvNHold.msb)) ∧
          (s.state = .checkAdditionalShift → InRange (s.svShift - 1) (s.svShift.toInt - 1)) :=
  ⟨found two, fun n d => ⟨floating_inRange two n d, single_inRange two n d⟩,
    fun s₀ reset is _ => floating_run two dsp s₀ reset is, fun s₀ _ is rst => single_run two dsp s₀ is rst⟩

/-- The smallest width, an operand of ones and one of zeros. -/
theorem shift_in_range_two :
    findMsbIndex (0b11 : BitVec 2) true = 0 ∧ InRange (DivFloatingpoint.calculateShift (0b11 : BitVec 2) 0b00) (-1) := by
  obtain ⟨-, operands, -⟩ := shift_in_range (Nat.le_refl 2) DivFixedpoint.Dsp48e.adder
  exact ⟨by decide, (operands 0b11 0b00).1⟩

end BpmAcquisition.Utilities
