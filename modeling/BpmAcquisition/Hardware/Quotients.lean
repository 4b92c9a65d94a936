import BpmAcquisition.Library.Delay
import BpmAcquisition.Hardware.DeltaSigma
import Mathlib.Data.List.Induction

/-!
# The outputs of delta over sigma

The three divider cores of `delta_over_sigma.vhd` with the pipeline before them and the register
`o_sum` beside them, while nothing holds the outputs up. A core that returns its results in order
after a fixed latency is a delay line. `sums_aligned_exact` says when `o_sum` belongs to the quotients
it stands beside.
-/

namespace BpmAcquisition.DeltaOverSigma

open Machine

/-- `dout` of the three cores after each edge they still have to wait for, oldest first. -/
structure DeltaSigma where
  regs : Regs
  dividerX : List (Option (BitVec 56))
  dividerY : List (Option (BitVec 56))
  dividerZ : List (Option (BitVec 56))

variable (divide : BitVec 32 → BitVec 32 → BitVec 56) (latency : Nat)

def fixedPointDividerInst (dividend : Operands → BitVec 26) (line : List (Option (BitVec 56)))
    (offer : Option Operands) : List (Option (BitVec 56)) :=
  Delay.shift line (offer.map fun o => divide (pad (dividend o)) (pad o.svSum))

def DeltaSigma.tick (s : DeltaSigma) (i : PipeIn) : DeltaSigma :=
  { regs := edge s.regs i
    dividerX := fixedPointDividerInst divide Operands.svDeltaX s.dividerX s.regs.offer
    dividerY := fixedPointDividerInst divide Operands.svDeltaY s.dividerY s.regs.offer
    dividerZ := fixedPointDividerInst divide Operands.svDeltaZ s.dividerZ s.regs.offer }

def dout (line : List (Option (BitVec 56))) : Option (BitVec 56) := line.head?.join

def DeltaSigma.oValid (s : DeltaSigma) : Bool :=
  (dout s.dividerX).isSome && (dout s.dividerY).isSome && (dout s.dividerZ).isSome

def DeltaSigma.oX (s : DeltaSigma) : BitVec 52 := output ((dout s.dividerX).getD 0)

def DeltaSigma.oY (s : DeltaSigma) : BitVec 52 := output ((dout s.dividerY).getD 0)

def DeltaSigma.oZ (s : DeltaSigma) : BitVec 52 := output ((dout s.dividerZ).getD 0)

structure DeltaSigma.Shows (s : DeltaSigma) (o : Operands) : Prop where
  x : s.oX = output (divide (pad o.svDeltaX) (pad o.svSum))
  y : s.oY = output (divide (pad o.svDeltaY) (pad o.svSum))
  z : s.oZ = output (divide (pad o.svDeltaZ) (pad o.svSum))

def DeltaSigma.start (regs : Regs) : DeltaSigma :=
  ⟨regs, List.replicate latency none, List.replicate latency none, List.replicate latency none⟩

/-- More than `latency` edges lie between two samples. -/
def Spaced : List PipeIn → Prop
  | [] => True
  | i :: rest => (i.iValid = true → ∀ j ∈ rest.take latency, j.iValid = false) ∧ Spaced rest

instance decidableSpaced : (is : List PipeIn) → Decidable (Spaced latency is)
  | [] => isTrue trivial
  | i :: rest =>
    have := decidableSpaced rest
    inferInstanceAs (Decidable ((i.iValid = true → _) ∧ Spaced latency rest))

/-- What the pipeline read at the edge to which the outputs after the edges `seen` belong. -/
def returned (seen : List PipeIn) : Option PipeIn :=
  if latency + 2 ≤ seen.length then seen[seen.length - (latency + 2)]? else none

def Sample.total (i : Sample) : Int := i.iA.toInt + i.iB.toInt + (i.iC.toInt + i.iD.toInt)

/-- The sum of the last sample, or 0 where there is none. -/
def lastTotal (seen : List PipeIn) : Int :=
  match (seen.filter (·.iValid)).getLast? with
  | none => 0
  | some i => i.toSample.total

variable {divide latency} {s : DeltaSigma} {is seen : List PipeIn}

/-! ### The quotients -/

theorem tick_regs (s : DeltaSigma) (i : PipeIn) : (s.tick divide i).regs = edge s.regs i := by
  rw [DeltaSigma.tick]

theorem regs_run (is : List PipeIn) : (run (DeltaSigma.tick divide) s is).regs = run edge s.regs is := by
  induction is generalizing s with
  | nil => rfl
  | cons i rest ih => rw [run_cons, run_cons, ih, tick_regs]

def offers (s : Regs) (is : List PipeIn) : List (Option Operands) := trace edge (fun s _ => [s.offer]) s is

theorem offers_length (s : Regs) (is : List PipeIn) : (offers s is).length = is.length := by
  induction is generalizing s with
  | nil => rfl
  | cons i rest ih => exact congrArg (· + 1) (ih (edge s i))

/-- What the dividers are offered is what the pipeline read two edges before. -/
theorem offers_delayed {regs : Regs} (empty : regs.offer = none ∧ regs.coming = none)
    (clocked : ∀ i ∈ is, i.iRst = false) :
    offers regs is = ([none, none] ++ is.map PipeIn.offer).take is.length := by
  have keep : ∀ (s : Regs) (i : PipeIn) held, held = [s.offer, s.coming] → i.iRst = false →
      ∃ next, next = [(edge s i).offer, (edge s i).coming] ∧ held ++ [i.offer] = [s.offer] ++ next := by
    intro s i held same clocked
    refine ⟨_, rfl, ?_⟩
    rw [same, offer_edge clocked, coming_edge clocked, List.cons_append, List.cons_append, List.nil_append,
      List.cons_append, List.nil_append]
  have start : [none, none] = [regs.offer, regs.coming] := by rw [empty.1, empty.2]
  obtain ⟨rest, -, conserved⟩ := trace_conserved keep start (along_of_inputs clocked)
  have inputs : trace edge (fun _ i => [i.offer]) regs is = is.map PipeIn.offer := by
    clear conserved clocked empty start
    induction is generalizing regs with
    | nil => rfl
    | cons i rest ih => rw [trace_cons, ih, List.map_cons, List.singleton_append]
  have length : (trace edge (fun s _ => [s.offer]) regs is).length = is.length := offers_length regs is
  rw [← inputs, conserved, List.take_left' length]
  rfl

theorem divider_run {dividend : Operands → BitVec 26} {line : DeltaSigma → List (Option (BitVec 56))}
    (inst : ∀ s i, line (s.tick divide i) = fixedPointDividerInst divide dividend (line s) s.regs.offer)
    (is : List PipeIn) :
    line (run (DeltaSigma.tick divide) s is) = run Delay.shift (line s)
      ((offers s.regs is).map (Option.map fun o => divide (pad (dividend o)) (pad o.svSum))) := by
  induction is generalizing s with
  | nil => rfl
  | cons i rest ih =>
    rw [run_cons, ih, inst]
    rfl

theorem dout_run {dividend : Operands → BitVec 26} (line : DeltaSigma → List (Option (BitVec 56))) {regs : Regs}
    (inst : ∀ s i, line (s.tick divide i) = fixedPointDividerInst divide dividend (line s) s.regs.offer)
    (filled : line (.start latency regs) = List.replicate latency none) (positive : 0 < latency)
    (empty : regs.offer = none ∧ regs.coming = none) (clocked : ∀ i ∈ is, i.iRst = false) :
    dout (line (run (DeltaSigma.tick divide) (.start latency regs) is)) =
      ((returned latency is).bind PipeIn.offer).map fun o => divide (pad (dividend o)) (pad o.svSum) := by
  have length := offers_length regs is
  unfold dout
  rw [divider_run inst, filled, Delay.line_head, List.length_map]
  show ((List.replicate latency none ++ (offers regs is).map _)[(offers regs is).length]?).join = _
  rw [length]
  unfold returned
  by_cases filling : is.length < latency
  · rw [List.getElem?_append_left (by simpa using filling), List.getElem?_replicate, if_pos filling,
      if_neg (by omega)]
    rfl
  · rw [List.getElem?_append_right (by simpa using filling), List.getElem?_map, List.length_replicate,
      offers_delayed empty clocked, List.getElem?_take_of_lt (by omega)]
    by_cases early : is.length < latency + 2
    · -- The two places of the pipeline were empty.
      rw [List.getElem?_append_left (by simp; omega), if_neg (by omega)]
      have place : is.length - latency = 0 ∨ is.length - latency = 1 := by omega
      rcases place with place | place <;> rw [place] <;> rfl
    · have behind : is.length - latency - 2 = is.length - (latency + 2) := by omega
      rw [List.getElem?_append_right (by simp; omega), if_pos (by omega), List.getElem?_map, List.length_cons,
        List.length_singleton, behind]
      cases is[is.length - (latency + 2)]? <;> rfl

theorem outputs_run {regs : Regs} (positive : 0 < latency) (empty : regs.offer = none ∧ regs.coming = none)
    (clocked : ∀ i ∈ is, i.iRst = false) :
    ((run (DeltaSigma.tick divide) (.start latency regs) is).oValid = true ↔
        ∃ i, returned latency is = some i ∧ i.iValid = true) ∧
      ∀ i, returned latency is = some i → i.iValid = true →
        (run (DeltaSigma.tick divide) (.start latency regs) is).Shows divide i.toSample.operands := by
  have x := @dout_run divide latency is Operands.svDeltaX DeltaSigma.dividerX regs (fun _ _ => rfl) rfl positive
    empty clocked
  have y := @dout_run divide latency is Operands.svDeltaY DeltaSigma.dividerY regs (fun _ _ => rfl) rfl positive
    empty clocked
  have z := @dout_run divide latency is Operands.svDeltaZ DeltaSigma.dividerZ regs (fun _ _ => rfl) rfl positive
    empty clocked
  generalize run (DeltaSigma.tick divide) (.start latency regs) is = s at x y z ⊢
  constructor
  · unfold DeltaSigma.oValid
    rw [x, y, z]
    cases returned latency is with
    | none => simp
    | some i => cases valid : i.iValid <;> simp [PipeIn.offer, valid]
  · intro i found valid
    rw [found, Option.bind_some, PipeIn.offer, if_pos valid, Option.map_some] at x y z
    refine ⟨?_, ?_, ?_⟩
    · rw [DeltaSigma.oX, x, Option.getD_some]
    · rw [DeltaSigma.oY, y, Option.getD_some]
    · rw [DeltaSigma.oZ, z, Option.getD_some]

/-! ### The sum -/

theorem sum_total (i : Sample) : i.sums.operands.svSum.toInt = i.total := (operands_exact i).sum

theorem sums_run {regs : Regs} (zero : regs.sums = Sums.zero) (clocked : ∀ i ∈ is, i.iRst = false) :
    (run edge regs is).sums.operands.svSum.toInt = lastTotal is := by
  induction is using List.reverseRecOn with
  | nil =>
    rw [run_nil, zero]
    rfl
  | append_singleton is i ih =>
    simp only [List.forall_mem_append, List.forall_mem_singleton] at clocked
    have before := ih clocked.1
    rw [run_append, run_cons, run_nil, edge_next clocked.2]
    cases valid : i.iValid with
    | false => simpa [lastTotal, valid] using before
    | true => simpa [lastTotal, valid] using sum_total i.toSample

theorem oSum_held {regs : Regs} (none : regs.slReg0Valid = false) (clocked : ∀ i ∈ is, i.iRst = false)
    (quiet : ∀ i ∈ is.dropLast, i.iValid = false) : (run edge regs is).oSum = regs.oSum := by
  induction is generalizing regs with
  | nil => rfl
  | cons i rest ih =>
    obtain ⟨now, later⟩ := List.forall_mem_cons.mp clocked
    have same : (edge regs i).oSum = regs.oSum := by
      rw [edge_next now]
      simp [none]
    rw [run_cons]
    cases rest with
    | nil => exact same
    | cons j rest =>
      rw [List.dropLast_cons_of_ne_nil (by simp)] at quiet
      obtain ⟨invalid, quiet⟩ := List.forall_mem_cons.mp quiet
      have next : (edge regs i).slReg0Valid = false := by
        rw [edge_next now]
        exact invalid
      rw [ih next later quiet, same]

/-- When the quotients of a sample come out, `o_sum` is that of the sample before it. -/
theorem oSum_returned {regs : Regs} {before after : List PipeIn} {i : PipeIn} (positive : 0 < latency)
    (clocked : ∀ j ∈ before ++ i :: after, j.iRst = false) (valid : i.iValid = true)
    (length : after.length = latency + 1) (quiet : ∀ j ∈ after.take latency, j.iValid = false) :
    (run edge regs (before ++ i :: after)).oSum = (run edge regs before).sums.operands.svSum := by
  simp only [List.forall_mem_append, List.forall_mem_cons] at clocked
  obtain ⟨-, now, later⟩ := clocked
  rw [run_append, run_cons]
  generalize run edge regs before = s
  obtain ⟨loaded, operands⟩ : (edge s i).slReg0Valid = true ∧ (edge s i).operands = s.sums.operands := by
    rw [edge_next now]
    exact ⟨valid, rfl⟩
  obtain ⟨m, rfl⟩ : ∃ m, latency = m + 1 := ⟨latency - 1, by omega⟩
  cases after with
  | nil => cases length
  | cons j rest =>
    obtain ⟨clocked, later⟩ := List.forall_mem_cons.mp later
    rw [List.take_succ_cons] at quiet
    obtain ⟨invalid, quiet⟩ := List.forall_mem_cons.mp quiet
    have last : rest.dropLast = rest.take m := by
      rw [List.dropLast_eq_take]
      simp only [List.length_cons] at length
      congr 1
      omega
    obtain ⟨empty, sum⟩ :
        (edge (edge s i) j).slReg0Valid = false ∧ (edge (edge s i) j).oSum = s.sums.operands.svSum := by
      rw [edge_next clocked, loaded, operands]
      exact ⟨invalid, rfl⟩
    rw [← last] at quiet
    rw [run_cons, oSum_held empty later quiet, sum]

theorem spaced_at {before rest : List PipeIn} {i : PipeIn} (spaced : Spaced latency (before ++ i :: rest))
    (valid : i.iValid = true) : ∀ j ∈ rest.take latency, j.iValid = false := by
  induction before with
  | nil => exact spaced.1 valid
  | cons j before ih => exact ih spaced.2

theorem spaced_between {before between rest : List PipeIn} {i : PipeIn}
    (spaced : Spaced latency (before ++ i :: between ++ rest)) (valid : i.iValid = true)
    (long : latency ≤ between.length) : ∀ j ∈ between.take latency, j.iValid = false := by
  rw [List.append_assoc, List.cons_append] at spaced
  have quiet := spaced_at spaced valid
  rwa [List.take_append_of_le_length long] at quiet

/-- What `o_sum` shows beside the quotients of the sample behind `before`. -/
theorem sum_shown {regs : Regs} {before between : List PipeIn} {i : PipeIn} (positive : 0 < latency)
    (zero : regs.sums = Sums.zero) (clocked : ∀ j ∈ before ++ i :: between, j.iRst = false) (valid : i.iValid = true)
    (length : between.length = latency + 1) (quiet : ∀ j ∈ between.take latency, j.iValid = false) :
    (run (DeltaSigma.tick divide) (.start latency regs) (before ++ i :: between)).regs.oSum.toInt =
      lastTotal before := by
  have start : (DeltaSigma.start latency regs).regs = regs := rfl
  rw [regs_run, start, oSum_returned positive clocked valid length quiet]
  exact sums_run zero (List.forall_mem_append.mp clocked).1

theorem returned_at {before after : List PipeIn} {i : PipeIn} (length : after.length = latency + 1) :
    returned latency (before ++ i :: after) = some i := by
  unfold returned
  have total : (before ++ i :: after).length = before.length + (latency + 2) := by
    rw [List.length_append, List.length_cons, length]
  rw [total, if_pos (Nat.le_add_left _ _), Nat.add_sub_cancel, List.getElem?_append_right (Nat.le_refl _), Nat.sub_self]
  rfl

theorem returned_split {i : PipeIn} (found : returned latency seen = some i) :
    ∃ before after, seen = before ++ i :: after ∧ after.length = latency + 1 := by
  unfold returned at found
  split at found
  case isFalse => cases found
  case isTrue long =>
    obtain ⟨bound, same⟩ := List.getElem?_eq_some_iff.mp found
    refine ⟨seen.take (seen.length - (latency + 2)), seen.drop (seen.length - (latency + 2) + 1), ?_, ?_⟩
    · rw [← same, List.getElem_cons_drop, List.take_append_drop]
    · rw [List.length_drop]
      omega

/-- From reset with empty dividers, for every sequence of samples further apart than the latency:
`o_valid` marks the cycles in which the quotients of a sample come out; and in all of these cycles `o_sum` is
the sum of the same sample exactly if every sample whose quotients come out has the sum of the sample
before it, and the first of them the sum 0. -/
theorem sums_aligned_exact (divide : BitVec 32 → BitVec 32 → BitVec 56) (latency : Nat) (positive : 0 < latency)
    (regs : Regs) (reset : PipeIn) (is : List PipeIn) (rst : reset.iRst = true)
    (clocked : ∀ i ∈ is, i.iRst = false) (spaced : Spaced latency is) :
    let after (seen : List PipeIn) := run (DeltaSigma.tick divide) (.start latency (edge regs reset)) seen
    (∀ seen rest, is = seen ++ rest →
        ((after seen).oValid = true ↔ ∃ i, returned latency seen = some i ∧ i.iValid = true) ∧
          ∀ i, returned latency seen = some i → i.iValid = true → (after seen).Shows divide i.toSample.operands) ∧
      ((∀ seen rest i, is = seen ++ rest → returned latency seen = some i → (after seen).oValid = true →
          (after seen).regs.oSum.toInt = i.toSample.total) ↔
        ∀ before i rest, is = before ++ i :: rest → latency < rest.length → i.iValid = true →
          lastTotal before = i.toSample.total) := by
  intro after
  have empty := empty_reset regs rst
  have zero : (edge regs reset).sums = Sums.zero := by simp [edge, prcSumDivide, rst]
  have outputs : ∀ seen rest, is = seen ++ rest →
      ((after seen).oValid = true ↔ ∃ i, returned latency seen = some i ∧ i.iValid = true) ∧
        ∀ i, returned latency seen = some i → i.iValid = true → (after seen).Shows divide i.toSample.operands := by
    rintro seen rest rfl
    exact outputs_run positive empty fun i member => clocked i (List.mem_append_left rest member)
  have shown : ∀ before i between rest, is = before ++ i :: between ++ rest → between.length = latency + 1 →
      i.iValid = true → (after (before ++ i :: between)).regs.oSum.toInt = lastTotal before := by
    rintro before i between rest rfl length valid
    have quiet := spaced_between spaced valid (by omega)
    exact sum_shown positive zero (List.forall_mem_append.mp clocked).1 valid length quiet
  refine ⟨outputs, ?_, ?_⟩
  · intro matching before i rest same long valid
    have split : rest = rest.take (latency + 1) ++ rest.drop (latency + 1) := (List.take_append_drop _ _).symm
    have length : (rest.take (latency + 1)).length = latency + 1 := List.length_take_of_le long
    generalize rest.take (latency + 1) = between at split length
    generalize rest.drop (latency + 1) = later at split
    have cut : is = before ++ i :: between ++ later := by rw [same, split, List.append_assoc, List.cons_append]
    have found : returned latency (before ++ i :: between) = some i := returned_at length
    have out := (outputs _ _ cut).1.mpr ⟨i, found, valid⟩
    rw [← shown before i between later cut length valid]
    exact matching _ _ i cut found out
  · intro steady seen rest i same found out
    obtain ⟨j, there, valid⟩ := (outputs seen rest same).1.mp out
    obtain rfl := Option.some.inj (found.symm.trans there)
    obtain ⟨before, between, rfl, length⟩ := returned_split found
    rw [shown before i between rest same length valid]
    refine steady before i (between ++ rest) ?_ ?_ valid
    · rw [same, List.append_assoc, List.cons_append]
    · rw [List.length_append, length]
      omega

def noSample : PipeIn := { cmpDeltaSigma 0 0 with iValid := false }

def resetIn : PipeIn := { cmpDeltaSigma 0 0 with iRst := true, iValid := false }

-- Two samples 47 edges apart, and the edges until the quotients of the second are out.
def movedBeam : List PipeIn :=
  sampleOf 5 5 :: (List.replicate 46 noSample ++ sampleOf 9 3 :: List.replicate 35 noSample)

/-- The quotients are those of the second sample, and the sum is that of the first. -/
theorem sum_of_sample_before :
    let now := run (DeltaSigma.tick fixedPointDivider) (.start 34 (edge Regs.idle resetIn)) movedBeam
    Spaced 34 movedBeam ∧ now.oValid = true ∧
      now.oY = output (fixedPointDivider (pad (cmpDeltaSigma 9 3).operands.svDeltaY)
        (pad (cmpDeltaSigma 9 3).operands.svSum)) ∧
      (cmpDeltaSigma 9 3).total = 24 ∧ now.regs.oSum = 20 := by
  decide +kernel

theorem sums_aligned_exact_moved :
    ¬ ∀ seen rest i, movedBeam = seen ++ rest → returned 34 seen = some i →
        (run (DeltaSigma.tick fixedPointDivider) (.start 34 (edge Regs.idle resetIn)) seen).oValid = true →
        (run (DeltaSigma.tick fixedPointDivider) (.start 34 (edge Regs.idle resetIn)) seen).regs.oSum.toInt =
          i.toSample.total := by
  intro matching
  have steady := (sums_aligned_exact fixedPointDivider 34 (by decide) Regs.idle resetIn movedBeam rfl
    (by decide) (by decide)).2.mp matching
  have first : lastTotal [] = (sampleOf 5 5).toSample.total := steady [] (sampleOf 5 5) _ rfl (by decide) rfl
  exact absurd first (by decide)

end BpmAcquisition.DeltaOverSigma
