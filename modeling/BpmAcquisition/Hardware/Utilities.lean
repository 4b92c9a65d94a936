import BpmAcquisition.Library.Loop
import BpmAcquisition.Library.Signed

/-!
# Most significant bits

`log2` and `find_msb` of `utilities_pkg.vhd`. Both loops end; `find_msb` stops at the highest bit that
differs from the sign, and the number that it is written as is the same read as an unsigned and as a
signed one.
-/

namespace BpmAcquisition.Utilities

open Loop Signed

theorem log2_ends (arg : Nat) : ∃ index,
    repeated (fun index => decide (2 ^ index ≥ arg)) (· + 1) (arg + 1) 0 = some index ∧ arg ≤ 2 ^ index ∧
      ∀ j < index, 2 ^ j < arg := by
  have keep : ∀ index, (∀ j < index, 2 ^ j < arg) → decide (2 ^ index ≥ arg) = false →
      (∀ j < index + 1, 2 ^ j < arg) ∧ arg - (index + 1) < arg - index := by
    intro index least more
    have below : 2 ^ index < arg := Nat.lt_of_not_ge (of_decide_eq_false more)
    have smaller : index < 2 ^ index := Nat.lt_two_pow_self
    refine ⟨?_, by omega⟩
    intro j inside
    rcases Nat.lt_succ_iff_lt_or_eq.mp inside with before | rfl
    · exact least j before
    · exact below
  obtain ⟨index, ends, exit, least⟩ :=
    @repeated_ends _ _ _ (fun index => ∀ j < index, 2 ^ j < arg) (fun index => arg - index) (arg + 1) 0 keep
      (fun j inside => absurd inside (Nat.not_lt_zero j)) (by omega)
  exact ⟨index, ends, of_decide_eq_true exit, least⟩

def log2 (arg : Nat) : Nat :=
  (repeated (fun index => decide (2 ^ index ≥ arg)) (· + 1) (arg + 1) 0).get
    (by obtain ⟨index, ends, -⟩ := log2_ends arg; rw [ends]; rfl)

theorem log2_least (arg : Nat) : arg ≤ 2 ^ log2 arg ∧ ∀ j < log2 arg, 2 ^ j < arg := by
  obtain ⟨index, ends, spec⟩ := log2_ends arg
  have same : log2 arg = index := Option.get_of_eq_some _ ends
  rw [same]
  exact spec

section
variable {W : Nat}

def findMsbExit (arg : BitVec W) (sign : Bool) (index : Nat) : Bool := arg.getLsbD index == !sign || index == 0

theorem findMsb_ends (arg : BitVec W) (sign : Bool) : ∃ index,
    repeated (findMsbExit arg sign) (· - 1) (W - 1 + 1) (W - 1) = some index ∧
      findMsbExit arg sign index = true ∧ index ≤ W - 1 ∧ ∀ j, index < j → j ≤ W - 1 → arg.getLsbD j = sign := by
  have keep : ∀ index, (index ≤ W - 1 ∧ ∀ j, index < j → j ≤ W - 1 → arg.getLsbD j = sign) →
      findMsbExit arg sign index = false →
      (index - 1 ≤ W - 1 ∧ ∀ j, index - 1 < j → j ≤ W - 1 → arg.getLsbD j = sign) ∧ index - 1 < index := by
    rintro index ⟨inside, above⟩ exit
    obtain ⟨same, positive⟩ := Bool.or_eq_false_iff.mp exit
    have positive : index ≠ 0 := by simpa using positive
    refine ⟨⟨by omega, ?_⟩, by omega⟩
    intro j after least
    rcases Nat.lt_or_eq_of_le (by omega : index ≤ j) with later | rfl
    · exact above j later least
    · simpa using same
  exact @repeated_ends _ _ _ _ (fun index => index) (W - 1 + 1) (W - 1) keep
    ⟨Nat.le_refl _, fun j after least => absurd after (Nat.not_lt_of_le least)⟩ (Nat.lt_succ_self _)

def findMsbIndex (arg : BitVec W) (sign : Bool) : Nat :=
  (repeated (findMsbExit arg sign) (· - 1) (W - 1 + 1) (W - 1)).get
    (by obtain ⟨index, ends, -⟩ := findMsb_ends arg sign; rw [ends]; rfl)

def findMsb (arg : BitVec W) (sign : Bool) : BitVec (log2 W + 1) := BitVec.ofNat _ (findMsbIndex arg sign)

/-- The highest index whose bit differs from the sign bit, or 0. -/
structure Highest (arg : BitVec W) (index : Nat) : Prop where
  inside : index + 1 < W
  above : ∀ j, index < j → j < W → arg.getLsbD j = arg.msb
  differs : index = 0 ∨ arg.getLsbD index ≠ arg.msb

theorem findMsbIndex_ends (arg : BitVec W) (sign : Bool) :
    repeated (findMsbExit arg sign) (· - 1) (W - 1 + 1) (W - 1) = some (findMsbIndex arg sign) := by
  unfold findMsbIndex
  rw [Option.some_get]

theorem findMsbIndex_highest (two : 2 ≤ W) (arg : BitVec W) : Highest arg (findMsbIndex arg arg.msb) := by
  obtain ⟨index, ends, exit, inside, above⟩ := findMsb_ends arg arg.msb
  obtain rfl := Option.some.inj ((findMsbIndex_ends arg arg.msb).symm.trans ends)
  have differs : findMsbIndex arg arg.msb = 0 ∨ arg.getLsbD (findMsbIndex arg arg.msb) ≠ arg.msb := by
    unfold findMsbExit at exit
    rcases Bool.or_eq_true_iff.mp exit with other | zero
    · refine Or.inr fun same => ?_
      rw [same] at other
      cases sign : arg.msb <;> simp [sign] at other
    · exact Or.inl (by simpa using zero)
  refine ⟨?_, fun j after below => above j after (by omega), differs⟩
  -- The top bit is the sign, so the search has gone below it.
  rcases differs with zero | other
  · omega
  · refine Nat.lt_of_le_of_ne (by omega) fun top => other ?_
    have last := @BitVec.msb_eq_getLsbD_last W arg
    rw [(by omega : W - 1 = findMsbIndex arg arg.msb)] at last
    exact last.symm

variable {arg : BitVec W} {index : Nat}

/-- A number lies between the powers of two that the index stands for. -/
theorem Highest.range (highest : Highest arg index) :
    -(2 ^ (index + 1) : Int) ≤ arg.toInt ∧ arg.toInt < 2 ^ (index + 1) := by
  obtain ⟨inside, above, -⟩ := highest
  have short : arg = (arg.setWidth (index + 2)).signExtend W := by
    ext j below
    rw [BitVec.getElem_signExtend, BitVec.msb_setWidth'']
    split
    case isTrue low => rw [BitVec.getElem_setWidth, BitVec.getLsbD_eq_getElem]
    case isFalse high =>
      rw [← BitVec.getLsbD_eq_getElem, above j (by omega) below, above (index + 1) (by omega) (by omega)]
  rw [short, BitVec.toInt_signExtend_of_le (by omega)]
  exact toInt_range _

theorem Highest.power_le (highest : Highest arg index) (positive : 0 < arg.toInt) : 2 ^ index ≤ arg.toInt := by
  have sign : arg.msb = false := by
    rw [BitVec.msb_eq_toInt, decide_eq_false_iff_not]
    omega
  rcases highest.differs with zero | other
  · rw [zero, pow_zero]
    omega
  · rw [sign, Bool.ne_false_iff] at other
    have least : 2 ^ index ≤ arg.toNat := Nat.ge_two_pow_of_testBit other
    rw [BitVec.toInt_eq_toNat_of_msb sign]
    exact_mod_cast least

/-- The unsigned number of the result is also its signed one. -/
theorem findMsb_toInt (two : 2 ≤ W) (arg : BitVec W) :
    (findMsb arg arg.msb).toInt = findMsbIndex arg arg.msb := by
  have inside := (findMsbIndex_highest two arg).inside
  have fits := (log2_least W).1
  have width : 2 ^ (log2 W + 1) = 2 * 2 ^ log2 W := by ring
  unfold findMsb
  rw [BitVec.toInt_ofNat']
  exact Int.bmod_eq_of_le (by omega) (by omega)

end

end BpmAcquisition.Utilities
