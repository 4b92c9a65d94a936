import BpmAcquisition.Library.Run
import BpmAcquisition.Library.Copies
import BpmAcquisition.Hardware.DeltaSigma
import Mathlib.Data.List.Chain

/-!
# Delta over sigma under backpressure

`delta_over_sigma.vhd` gives the ready signals of its dividers to the CORDIC cores as `o_rdy`, two
registers ahead of the dividers, and the registers shift whether the dividers are ready or not.
`operands_once_exact` says for which patterns of the ready signals every sample reaches the dividers once.
-/

namespace BpmAcquisition.DeltaOverSigma

open Copies Machine

structure Handshake where
  iValid : Bool
  dividendXReady : Bool
  divisorXReady : Bool
  dividendYReady : Bool
  divisorYReady : Bool
  dividendZReady : Bool
  divisorZReady : Bool

def Handshake.oRdy (h : Handshake) : Bool :=
  h.dividendXReady && h.divisorXReady && h.dividendYReady && h.divisorYReady && h.dividendZReady && h.divisorZReady

structure Cycle where
  control : Handshake
  sample : Sample

def Cycle.pipeIn (c : Cycle) : PipeIn := { c.sample with iValid := c.control.iValid }

def pipeEdge (s : Regs) (c : Cycle) : Regs := edge s c.pipeIn

def taken (s : Regs) (c : Cycle) : List Operands := if c.control.oRdy then s.offer.toList else []

def accepted (c : Cycle) : List Operands :=
  if c.control.iValid && c.control.oRdy then [c.sample.operands] else []

def HoldsValid (h next : Handshake) : Prop := h.iValid = true → h.oRdy = false → next.iValid = true

instance : DecidableRel HoldsValid := fun _ _ => inferInstanceAs (Decidable (_ → _ → _))

/-- Upstream holds `i_valid` and its data until it sees `o_rdy`. -/
def Holds (c next : Cycle) : Prop :=
  c.control.iValid = true → c.control.oRdy = false → next.control.iValid = true ∧ next.sample = c.sample

instance : DecidableRel Holds := fun _ _ => inferInstanceAs (Decidable (_ → _ → _ ∧ _))

def Drained (hs : List Handshake) : Prop :=
  ∃ body h h', hs = body ++ [h, h'] ∧ h.iValid = false ∧ h'.iValid = false

def readyAt (hs : List Handshake) (k : Nat) : Bool := (hs[k]?.map Handshake.oRdy).getD false

/-- For each accepted sample, at how many of the edges that offer it all dividers are ready two edges
later; `k` of them are behind. -/
def copies : Nat → List Handshake → List Nat
  | _, [] => []
  | k, h :: rest =>
    let k := k + (h.iValid && readyAt rest 1).toNat
    if h.iValid && h.oRdy then k :: copies 0 rest else copies k rest

/-! ### Two edges behind the inputs -/

/-- What the dividers accept, by the edge that read the sample. -/
def delivered : List Cycle → List Operands
  | [] => []
  | c :: rest =>
    (if c.control.iValid && readyAt (rest.map Cycle.control) 1 then [c.sample.operands] else []) ++ delivered rest

variable {cs : List Cycle} {hs : List Handshake}

theorem offer_pipeIn (c : Cycle) :
    c.pipeIn.offer = if c.control.iValid then some c.sample.operands else none := rfl

theorem taken_run (s : Regs) (cs : List Cycle) :
    trace pipeEdge taken s cs =
      (if readyAt (cs.map Cycle.control) 0 then s.offer.toList else []) ++
        ((if readyAt (cs.map Cycle.control) 1 then s.coming.toList else []) ++ delivered cs) := by
  induction cs generalizing s with
  | nil => simp [readyAt, delivered]
  | cons c rest ih =>
    have clocked : c.pipeIn.iRst = false := rfl
    have offer : (pipeEdge s c).offer = s.coming := offer_edge clocked
    have coming : (pipeEdge s c).coming = c.pipeIn.offer := coming_edge clocked
    have now : readyAt ((c :: rest).map Cycle.control) 0 = c.control.oRdy := rfl
    have next : readyAt ((c :: rest).map Cycle.control) 1 = readyAt (rest.map Cycle.control) 0 := rfl
    rw [trace_cons, ih, offer, coming, now, next, offer_pipeIn, taken, delivered]
    cases c.control.iValid <;> simp

theorem taken_delivered {s : Regs} (empty : s.offer = none ∧ s.coming = none) (cs : List Cycle) :
    trace pipeEdge taken s cs = delivered cs := by
  rw [taken_run, empty.1, empty.2]
  simp

/-! ### Copies of the accepted samples -/

theorem copies_length (k : Nat) (cs : List Cycle) :
    (copies k (cs.map Cycle.control)).length = (cs.flatMap accepted).length := by
  induction cs generalizing k with
  | nil => rfl
  | cons c rest ih =>
    rw [List.map_cons, List.flatMap_cons, List.length_append, copies, accepted]
    cases accepts : (c.control.iValid && c.control.oRdy) with
    | false => simpa using ih _
    | true => simpa [Nat.add_comm] using ih 0

/-- Each accepted sample is delivered as often as counted, behind `k` copies of a sample that is on offer. -/
theorem delivered_copies (held : cs.IsChain Holds) (idle : ∀ c ∈ cs.getLast?, c.control.iValid = false) (k : Nat)
    (o : Operands) (offered : k = 0 ∨ ∃ c ∈ cs.head?, c.control.iValid = true ∧ c.sample.operands = o) :
    List.replicate k o ++ delivered cs =
      repeated (copies k (cs.map Cycle.control)) (cs.flatMap accepted) := by
  induction cs generalizing k o with
  | nil =>
    rcases offered with rfl | ⟨c, member, -⟩
    · rfl
    · cases member
  | cons c rest ih =>
    have later : rest.IsChain Holds := held.of_cons
    have last : ∀ c' ∈ rest.getLast?, c'.control.iValid = false := by
      cases rest with
      | nil => simp
      | cons c' rest => exact idle
    rw [List.map_cons, List.flatMap_cons, copies, delivered, accepted]
    cases valid : c.control.iValid with
    | false =>
      have none : k = 0 := by
        rcases offered with zero | ⟨c', head, offers, -⟩
        · exact zero
        · cases head
          exact absurd offers (by simp [valid])
      subst none
      simpa using ih later last 0 o (Or.inl rfl)
    | true =>
      -- All copies are of the sample on offer, the one of this edge included.
      have same : List.replicate k o = List.replicate k c.sample.operands := by
        rcases offered with rfl | ⟨c', head, -, rfl⟩
        · rfl
        · cases head
          rfl
      have one : List.replicate k c.sample.operands ++
          (if true && readyAt (rest.map Cycle.control) 1 then [c.sample.operands] else []) =
            List.replicate (k + (true && readyAt (rest.map Cycle.control) 1).toNat) c.sample.operands := by
        cases readyAt (rest.map Cycle.control) 1 <;> simp [List.replicate_succ']
      rw [same, ← List.append_assoc, one]
      generalize k + (true && readyAt (rest.map Cycle.control) 1).toNat = count
      cases ready : c.control.oRdy with
      | true =>
        have others := ih later last 0 c.sample.operands (Or.inl rfl)
        rw [List.replicate_zero, List.nil_append] at others
        rw [others]
        simp
      | false =>
        cases rest with
        | nil => exact absurd (idle c rfl) (by simp [valid])
        | cons c' rest =>
          obtain ⟨valid', kept⟩ := (List.isChain_cons_cons.mp held).1 valid ready
          have offered' : ∃ d ∈ (c' :: rest).head?, d.control.iValid = true ∧ d.sample.operands = c.sample.operands :=
            ⟨c', rfl, valid', by rw [kept]⟩
          simpa using ih later last count c.sample.operands (Or.inr offered')

/-! ### Data for a pattern -/

def Sample.zero : Sample := ⟨0, 0, 0, 0⟩

/-- A run with the pattern in which the samples are accepted in order. -/
def drive : List Sample → List Handshake → List Cycle
  | _, [] => []
  | ys, h :: rest => ⟨h, ys.headD Sample.zero⟩ :: drive (if h.iValid && h.oRdy then ys.tail else ys) rest

theorem drive_control (ys : List Sample) (hs : List Handshake) : (drive ys hs).map Cycle.control = hs := by
  induction hs generalizing ys with
  | nil => rfl
  | cons h rest ih => rw [drive, List.map_cons, ih]

theorem drive_holds (ys : List Sample) (rule : hs.IsChain HoldsValid) : (drive ys hs).IsChain Holds := by
  induction hs generalizing ys with
  | nil => exact List.IsChain.nil
  | cons h rest ih =>
    have later := ih (if h.iValid && h.oRdy then ys.tail else ys) rule.of_cons
    cases rest with
    | nil => exact List.IsChain.singleton _
    | cons h' rest =>
      refine List.isChain_cons_cons.mpr ⟨?_, later⟩
      intro valid stalled
      have next := (List.isChain_cons_cons.mp rule).1 valid stalled
      have stalled : h.oRdy = false := stalled
      exact ⟨next, by simp [stalled]⟩

theorem drive_accepted (k : Nat) {ys : List Sample} (length : ys.length = (copies k hs).length) :
    (drive ys hs).flatMap accepted = ys.map Sample.operands := by
  induction hs generalizing ys k with
  | nil =>
    cases ys with
    | nil => rfl
    | cons y ys => cases length
  | cons h rest ih =>
    rw [copies] at length
    rw [drive, List.flatMap_cons, accepted]
    cases accepts : (h.iValid && h.oRdy) with
    | false =>
      simp only [accepts, Bool.false_eq_true, if_false] at length ⊢
      exact ih _ length
    | true =>
      simp only [accepts, if_true] at length ⊢
      cases ys with
      | nil => cases length
      | cons y ys =>
        have others := ih 0 (Nat.succ.inj length)
        rw [List.tail_cons, others]
        rfl

/-- From reset, for every pattern of `i_valid` and of the ready signals in which upstream holds a sample
until it is accepted, with the pipeline empty at the end: for all data the dividers accept the operands
of the accepted samples, each once and in order, exactly if for each of these samples there is exactly one
edge that offers it and has all dividers ready two edges later. -/
theorem operands_once_exact (regs : Regs) (reset : PipeIn) (hs : List Handshake) (rst : reset.iRst = true)
    (rule : hs.IsChain HoldsValid) (drained : Drained hs) :
    (∀ cs : List Cycle, cs.map Cycle.control = hs → cs.IsChain Holds →
        trace pipeEdge taken (edge regs reset) cs = cs.flatMap accepted) ↔
      ∀ k ∈ copies 0 hs, k = 1 := by
  have empty := empty_reset regs rst
  have counted : ∀ cs : List Cycle, cs.map Cycle.control = hs → cs.IsChain Holds →
      trace pipeEdge taken (edge regs reset) cs =
        repeated (copies 0 hs) (cs.flatMap accepted) := by
    intro cs pattern held
    have idle : ∀ c ∈ cs.getLast?, c.control.iValid = false := by
      intro c last
      obtain ⟨body, h, h', same, -, invalid⟩ := drained
      have ends : (cs.map Cycle.control).getLast? = some c.control := by rw [List.getLast?_map, last]; rfl
      rw [pattern, same, List.getLast?_append] at ends
      cases ends
      exact invalid
    rw [taken_delivered empty, ← pattern]
    exact delivered_copies held idle 0 ⟨0, 0, 0, 0⟩ (Or.inl rfl)
  constructor
  · intro once
    have apart : Sample.operands ⟨1, 0, 0, 0⟩ ≠ Sample.operands Sample.zero := by decide
    refine ones_of_repeated apart fun ys length => ?_
    have control := drive_control ys hs
    have held := drive_holds ys rule
    have inputs := drive_accepted 0 length
    have all := counted _ control held
    rw [once _ control held, inputs] at all
    exact all.symm
  · intro ones cs pattern held
    rw [counted cs pattern held, ← pattern]
    refine repeated_ones (copies_length 0 cs) ?_
    rw [pattern]
    exact ones

def handshake (valid ready : Bool) : Handshake := ⟨valid, ready, ready, ready, ready, ready, ready⟩

-- The dividers are ready when the sample is accepted, and not when it reaches them.
def lostSample : List Cycle :=
  [⟨handshake true true, cmpDeltaSigma 5 3⟩, ⟨handshake false true, Sample.zero⟩,
    ⟨handshake false false, Sample.zero⟩, ⟨handshake false true, Sample.zero⟩]

-- The sample waits one edge for the dividers, and both of its copies reach them.
def doubledSample : List Cycle :=
  [⟨handshake true false, cmpDeltaSigma 5 3⟩, ⟨handshake true true, cmpDeltaSigma 5 3⟩,
    ⟨handshake false true, Sample.zero⟩, ⟨handshake false true, Sample.zero⟩]

theorem sample_lost_and_doubled :
    let start := edge Regs.idle { Sample.zero with iRst := true, iValid := false }
    let operands := (cmpDeltaSigma 5 3).operands
    (lostSample.IsChain Holds ∧ lostSample.flatMap accepted = [operands] ∧ trace pipeEdge taken start lostSample = []) ∧
      doubledSample.IsChain Holds ∧ doubledSample.flatMap accepted = [operands] ∧
        trace pipeEdge taken start doubledSample = [operands, operands] := by
  decide

theorem operands_once_exact_in_step :
    let hs := [handshake true true, handshake false false, handshake false true]
    ∀ cs : List Cycle, cs.map Cycle.control = hs → cs.IsChain Holds →
      trace pipeEdge taken (edge Regs.idle { Sample.zero with iRst := true, iValid := false }) cs =
        cs.flatMap accepted :=
  (operands_once_exact Regs.idle _ [handshake true true, handshake false false, handshake false true] rfl (by decide)
    ⟨[handshake true true], _, _, rfl, rfl, rfl⟩).mpr (by decide)

end BpmAcquisition.DeltaOverSigma
