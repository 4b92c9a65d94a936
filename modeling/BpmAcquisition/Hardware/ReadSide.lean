import BpmAcquisition.Library.Run
import BpmAcquisition.Library.Ring

/-!
# The read side of `dma_if`

The processes of `dma_if.vhd` clocked by `dma_clk_i`: the delayed read strobe, the four output
slots with their two wrapping pointers, the stream output register and the completion toggle.
`read_stream` shows for every pattern of FIFO contents and back-pressure that the stream
carries the words popped from the FIFO, in order, with at most three on their way.
-/

namespace BpmAcquisition.DmaIf

open Machine

-- `fifoHead` is the word the FIFO pops if it is read at this edge; `fifoIdle` is what its
-- output shows after an edge that does not read.
structure DmaIn (n : Nat) where
  dmaClkRst : Bool := false
  dmaReadyI : Bool
  fifoEmpty : Bool
  fifoHead : BitVec n × Bool
  fifoIdle : BitVec n × Bool

/-- `dma_data_outX` and `dma_valid_outX`; the top bit of the data is the last flag. -/
structure Slot (n : Nat) where
  dmaDataOut : BitVec n
  dmaLastOut : Bool
  dmaValidOut : Bool

structure DmaSide (n : Nat) where
  dmaOut : BitVec 2 → Slot n
  dmaValidReg0 : Bool
  preOutputCounterWr : BitVec 2
  outputCounterRd : BitVec 2
  dmaDataGlue : BitVec n
  dmaValidGlue : Bool
  dmaLastGlue : Bool
  dmaBeO : BitVec (n / 8)
  dmaComplete : Bool
  fifoDo : BitVec n × Bool

variable {n : Nat}

def dmaReadyS (s : DmaSide n) (i : DmaIn n) : Bool := i.dmaReadyI || !s.dmaValidGlue

-- Also `fifo_rden`.
def dmaValidS (i : DmaIn n) : Bool := if i.fifoEmpty then false else i.dmaReadyI

def dmaLastS (s : DmaSide n) (i : DmaIn n) : Bool := s.dmaValidGlue && i.dmaReadyI && s.dmaLastGlue

/-- The four near-identical branches of `p_dma_pre_output`, for slot `x`. -/
def pDmaPreOutput (s : DmaSide n) (i : DmaIn n) (x : BitVec 2) : Slot n :=
  if i.dmaClkRst then ⟨0, false, false⟩
  else if s.preOutputCounterWr == x && s.dmaValidReg0 then ⟨s.fifoDo.1, s.fifoDo.2, true⟩
  else if s.outputCounterRd == x && dmaReadyS s i then ⟨0, false, false⟩
  else s.dmaOut x

/-- All processes of the read side at one rising edge of `dma_clk_i`. -/
def dmaEdge (s : DmaSide n) (i : DmaIn n) : DmaSide n :=
  let out := s.dmaOut s.outputCounterRd
  let ready := dmaReadyS s i
  { dmaOut := pDmaPreOutput s i
    dmaValidReg0 := !i.dmaClkRst && dmaValidS i
    preOutputCounterWr :=
      if i.dmaClkRst then 0
      else if s.dmaValidReg0 then s.preOutputCounterWr + 1#2 else s.preOutputCounterWr
    outputCounterRd :=
      if i.dmaClkRst then 0
      else if ready && s.outputCounterRd != s.preOutputCounterWr then s.outputCounterRd + 1#2
      else s.outputCounterRd
    dmaDataGlue := if i.dmaClkRst then 0 else if ready then out.dmaDataOut else s.dmaDataGlue
    dmaValidGlue := if i.dmaClkRst then false else if ready then out.dmaValidOut else s.dmaValidGlue
    dmaLastGlue :=
      if i.dmaClkRst then false
      else if ready then out.dmaLastOut && out.dmaValidOut else s.dmaLastGlue
    dmaBeO := if i.dmaClkRst then 0 else if ready then BitVec.allOnes (n / 8) else s.dmaBeO
    dmaComplete :=
      if i.dmaClkRst then false else if dmaLastS s i then !s.dmaComplete else s.dmaComplete
    fifoDo := if dmaValidS i then i.fifoHead else i.fifoIdle }

def popped (_ : DmaSide n) (i : DmaIn n) : List (BitVec n × Bool) :=
  if dmaValidS i then [i.fifoHead] else []

def transferred (s : DmaSide n) (i : DmaIn n) : List (BitVec n × Bool) :=
  if s.dmaValidGlue && i.dmaReadyI then [(s.dmaDataGlue, s.dmaLastGlue)] else []

/-! ### The slots as a queue -/

def Slot.word (x : Slot n) : Option (BitVec n × Bool) :=
  if x.dmaValidOut then some (x.dmaDataOut, x.dmaLastOut) else none

def DmaSide.words (s : DmaSide n) (x : BitVec 2) : Option (BitVec n × Bool) := (s.dmaOut x).word

def DmaSide.output (s : DmaSide n) : Option (BitVec n × Bool) :=
  if s.dmaValidGlue then some (s.dmaDataGlue, s.dmaLastGlue) else none

def DmaSide.arriving (s : DmaSide n) : Option (BitVec n × Bool) :=
  if s.dmaValidReg0 then some s.fifoDo else none

/-- The slots from the read to the write pointer keep `q`, which has room for the word that is
arriving; `held` is everything popped and not yet transferred. -/
structure Buffered (s : DmaSide n) (held : List (BitVec n × Bool)) (q : List (BitVec n × Bool)) : Prop where
  slots : Ring.Holds s.words s.outputCounterRd q
  pointers : s.preOutputCounterWr = s.outputCounterRd + BitVec.ofNat 2 q.length
  bound : q.length + s.dmaValidReg0.toNat ≤ 2
  content : held = s.output.toList ++ q ++ s.arriving.toList

theorem word_pDmaPreOutput (s : DmaSide n) {i : DmaIn n} (clocked : i.dmaClkRst = false) (x : BitVec 2) :
    (pDmaPreOutput s i x).word =
      if x = s.preOutputCounterWr ∧ s.dmaValidReg0 then some s.fifoDo
      else if x = s.outputCounterRd ∧ dmaReadyS s i then none
      else s.words x := by
  simp only [pDmaPreOutput, clocked, Bool.and_eq_true, beq_iff_eq, Bool.false_eq_true, if_false,
    @eq_comm _ _ x]
  split
  · rfl
  · split <;> rfl

def Keeps (s : DmaSide n) (held : List (BitVec n × Bool)) : Prop := ∃ q, Buffered s held q

theorem words_step (s : DmaSide n) {i : DmaIn n} (clocked : i.dmaClkRst = false) :
    (dmaEdge s i).words =
      let cleared := if dmaReadyS s i then Ring.clear s.words s.outputCounterRd else s.words
      if s.dmaValidReg0 then Ring.put cleared s.preOutputCounterWr s.fifoDo else cleared := by
  funext x
  show (pDmaPreOutput s i x).word = _
  rw [word_pDmaPreOutput s clocked]
  cases s.dmaValidReg0 <;> cases dmaReadyS s i <;> simp [Ring.put, Ring.clear]

theorem output_step (s : DmaSide n) {i : DmaIn n} (clocked : i.dmaClkRst = false) :
    (dmaEdge s i).output = if dmaReadyS s i then s.words s.outputCounterRd else s.output := by
  unfold DmaSide.output DmaSide.words Slot.word
  simp only [dmaEdge, clocked, Bool.false_eq_true, if_false]
  cases dmaReadyS s i <;> cases valid : (s.dmaOut s.outputCounterRd).dmaValidOut <;> simp

theorem arriving_step (s : DmaSide n) {i : DmaIn n} (clocked : i.dmaClkRst = false) :
    (dmaEdge s i).arriving.toList = popped s i := by
  unfold DmaSide.arriving popped
  cases read : dmaValidS i <;> simp [dmaEdge, clocked, read]

theorem transferred_eq (s : DmaSide n) (i : DmaIn n) :
    transferred s i = if dmaReadyS s i then s.output.toList else [] := by
  unfold transferred dmaReadyS DmaSide.output
  cases s.dmaValidGlue <;> cases i.dmaReadyI <;> rfl

theorem blocked_not_read {s : DmaSide n} {i : DmaIn n} (blocked : dmaReadyS s i = false) :
    dmaValidS i = false := by
  simp only [dmaReadyS, Bool.or_eq_false_iff] at blocked
  simp [dmaValidS, blocked.1]

theorem arriving_length (s : DmaSide n) : s.arriving.toList.length = s.dmaValidReg0.toNat := by
  unfold DmaSide.arriving
  cases s.dmaValidReg0 <;> rfl

/-! ### One edge -/

theorem fill_holds {s : DmaSide n} {slots : BitVec 2 → Option (BitVec n × Bool)} {rd : BitVec 2}
    {q : List (BitVec n × Bool)} (h : Ring.Holds slots rd q)
    (pointer : s.preOutputCounterWr = rd + BitVec.ofNat 2 q.length) (room : q.length ≤ 2) :
    Ring.Holds (if s.dmaValidReg0 then Ring.put slots s.preOutputCounterWr s.fifoDo else slots) rd
      (q ++ s.arriving.toList) := by
  unfold DmaSide.arriving
  cases s.dmaValidReg0 with
  | false => simpa using h
  | true =>
    rw [pointer]
    exact Ring.put_holds _ h (by omega)

theorem wr_step (s : DmaSide n) {i : DmaIn n} (clocked : i.dmaClkRst = false) :
    (dmaEdge s i).preOutputCounterWr =
      s.preOutputCounterWr + BitVec.ofNat 2 s.arriving.toList.length := by
  rw [arriving_length]
  unfold dmaEdge
  cases s.dmaValidReg0 <;> simp [clocked]

theorem rd_step (s : DmaSide n) {i : DmaIn n} (clocked : i.dmaClkRst = false) {q : List (BitVec n × Bool)}
    (pointer : s.preOutputCounterWr = s.outputCounterRd + BitVec.ofNat 2 q.length) (room : q.length ≤ 2) :
    (dmaEdge s i).outputCounterRd =
      if dmaReadyS s i ∧ q ≠ [] then s.outputCounterRd + 1#2 else s.outputCounterRd := by
  have apart : s.outputCounterRd = s.preOutputCounterWr ↔ q = [] := by
    rw [pointer, Ring.distance_eq _ _ (by omega), BitVec.sub_self, ← List.length_eq_zero_iff]
    exact eq_comm
  simp [dmaEdge, clocked, apart]

/-- The pending words stay buffered, and what is popped comes in behind what is transferred. -/
theorem buffered_step {s : DmaSide n} {i : DmaIn n} {held q : List (BitVec n × Bool)}
    (h : Buffered s held q) (clocked : i.dmaClkRst = false) :
    ∃ next, Keeps (dmaEdge s i) next ∧ held ++ popped s i = transferred s i ++ next := by
  have bound := h.bound
  have room : q.length ≤ 2 := by omega
  have rd := rd_step s clocked h.pointers room
  have out := output_step s clocked
  have words := words_step s clocked
  have arrived := arriving_length s
  have wr := wr_step s clocked
  have read : (dmaEdge s i).dmaValidReg0 = dmaValidS i := by simp [dmaEdge, clocked]
  rw [h.content, transferred_eq]
  cases ready : dmaReadyS s i with
  | false =>
    -- The stream is blocked: nothing is read, and the arriving word waits behind the others.
    have still := blocked_not_read ready
    simp only [ready, Bool.false_eq_true, if_false, false_and] at rd out words
    refine ⟨_, ⟨q ++ s.arriving.toList, ?_, ?_, ?_, rfl⟩, ?_⟩
    · rw [words, rd]
      exact fill_holds h.slots h.pointers room
    · rw [wr, rd, h.pointers, List.length_append, BitVec.ofNat_add, BitVec.add_assoc]
    · rw [read, still, List.length_append, arrived]
      exact bound
    · rw [out, arriving_step s clocked]
      simp
  | true =>
    simp only [ready, if_true, true_and] at rd out words
    have one := Bool.toNat_le (dmaValidS i)
    cases q with
    | nil =>
      simp only [ne_eq, not_true_eq_false, if_false] at rd
      refine ⟨_, ⟨s.arriving.toList, ?_, ?_, ?_, rfl⟩, ?_⟩
      · rw [words, rd]
        exact fill_holds (Ring.clear_empty h.slots) h.pointers room
      · rw [wr, rd, h.pointers]
        simp
      · rw [read, arrived]
        have := Bool.toNat_le s.dmaValidReg0
        omega
      · rw [out, arriving_step s clocked, Ring.head_eq h.slots]
        simp
    | cons x q =>
      simp only [ne_eq, reduceCtorEq, not_false_eq_true, if_true] at rd
      have pointer : s.preOutputCounterWr = s.outputCounterRd + 1#2 + BitVec.ofNat 2 q.length := by
        rw [h.pointers, List.length_cons, Nat.add_comm, BitVec.ofNat_add, BitVec.add_assoc]
      have fewer : q.length + 1 ≤ 2 := room
      refine ⟨_, ⟨q ++ s.arriving.toList, ?_, ?_, ?_, rfl⟩, ?_⟩
      · rw [words, rd]
        exact fill_holds (Ring.clear_holds h.slots) pointer (by omega)
      · rw [wr, rd, pointer, List.length_append, BitVec.ofNat_add, BitVec.add_assoc]
      · rw [read, List.length_append, arrived]
        rw [List.length_cons] at bound
        omega
      · rw [out, arriving_step s clocked, Ring.head_eq h.slots]
        simp

/-! ### Runs from reset -/

theorem buffered_reset (s : DmaSide n) {reset : DmaIn n} (rst : reset.dmaClkRst = true) :
    Buffered (dmaEdge s reset) [] [] := by
  refine ⟨⟨Nat.zero_le _, fun j => ?_⟩, ?_, ?_, ?_⟩
  · simp [DmaSide.words, dmaEdge, pDmaPreOutput, Slot.word, rst]
  · simp [dmaEdge, rst]
  · simp [dmaEdge, rst]
  · simp [DmaSide.output, DmaSide.arriving, dmaEdge, rst]

theorem Buffered.pending {s : DmaSide n} {held q : List (BitVec n × Bool)} (h : Buffered s held q) :
    held.length ≤ 3 := by
  have bound := h.bound
  have out : s.output.toList.length ≤ 1 := Option.length_toList_le
  rw [h.content, List.length_append, List.length_append, arriving_length]
  omega

theorem Buffered.distance {s : DmaSide n} {held q : List (BitVec n × Bool)} (h : Buffered s held q) :
    (s.preOutputCounterWr - s.outputCounterRd).toNat ≤ 2 := by
  have bound := h.bound
  rw [(Ring.distance_eq _ _ (by omega)).mp h.pointers]
  omega

theorem output_stable (s : DmaSide n) {i : DmaIn n} (clocked : i.dmaClkRst = false)
    (valid : s.dmaValidGlue = true) (blocked : i.dmaReadyI = false) :
    (dmaEdge s i).dmaValidGlue = true ∧ (dmaEdge s i).dmaDataGlue = s.dmaDataGlue ∧
      (dmaEdge s i).dmaLastGlue = s.dmaLastGlue := by
  simp [dmaEdge, dmaReadyS, clocked, valid, blocked]

theorem keeps_step (s : DmaSide n) (i : DmaIn n) (held : List (BitVec n × Bool))
    (keeps : Keeps s held) (clocked : i.dmaClkRst = false) :
    ∃ next, Keeps (dmaEdge s i) next ∧ held ++ popped s i = transferred s i ++ next := by
  obtain ⟨q, buffered⟩ := keeps
  exact buffered_step buffered clocked

/-- From reset, for every FIFO and every back-pressure: the stream has carried the popped words
in order, up to at most three that are pending; the pointers are at most two apart; and a word
that is not taken stays on the outputs. -/
theorem read_stream (s : DmaSide n) (reset : DmaIn n) (is : List (DmaIn n))
    (rst : reset.dmaClkRst = true) (clocked : ∀ i ∈ is, i.dmaClkRst = false) :
    let now := run dmaEdge (dmaEdge s reset) is
    (∃ pending, trace dmaEdge popped (dmaEdge s reset) is =
        trace dmaEdge transferred (dmaEdge s reset) is ++ pending ∧ pending.length ≤ 3) ∧
      (now.preOutputCounterWr - now.outputCounterRd).toNat ≤ 2 ∧
      ∀ i : DmaIn n, i.dmaClkRst = false → now.dmaValidGlue = true → i.dmaReadyI = false →
        (dmaEdge now i).dmaValidGlue = true ∧ (dmaEdge now i).dmaDataGlue = now.dmaDataGlue ∧
          (dmaEdge now i).dmaLastGlue = now.dmaLastGlue := by
  intro now
  have along : Along dmaEdge (fun _ i => i.dmaClkRst = false) (dmaEdge s reset) is :=
    along_of_inputs clocked
  have start : Keeps (dmaEdge s reset) [] := ⟨[], buffered_reset s rst⟩
  obtain ⟨pending, ⟨q, buffered⟩, conserved⟩ := trace_conserved keeps_step start along
  exact ⟨⟨pending, conserved, buffered.pending⟩, buffered.distance, fun i => output_stable now⟩

def stalledRead : List (DmaIn 32) :=
  let edge (ready : Bool) (d : BitVec 32) : DmaIn 32 :=
    { dmaReadyI := ready, fifoEmpty := false, fifoHead := (d, d == 3), fifoIdle := (0, false) }
  [edge true 1, edge true 2, edge true 3, edge false 4, edge false 4]

theorem read_stream_stalled :
    let s : DmaSide 32 := ⟨fun _ => ⟨7, true, true⟩, true, 3, 1, 7, true, true, 0, true, (7, true)⟩
    let reset : DmaIn 32 := ⟨true, false, true, (0, false), (0, false)⟩
    let now := run dmaEdge (dmaEdge s reset) stalledRead
    (∃ pending, trace dmaEdge popped (dmaEdge s reset) stalledRead =
        trace dmaEdge transferred (dmaEdge s reset) stalledRead ++ pending ∧ pending.length ≤ 3) ∧
      (now.preOutputCounterWr - now.outputCounterRd).toNat ≤ 2 ∧
      ∀ i : DmaIn 32, i.dmaClkRst = false → now.dmaValidGlue = true → i.dmaReadyI = false →
        (dmaEdge now i).dmaValidGlue = true ∧ (dmaEdge now i).dmaDataGlue = now.dmaDataGlue ∧
          (dmaEdge now i).dmaLastGlue = now.dmaLastGlue :=
  read_stream _ _ stalledRead rfl (by decide)

end BpmAcquisition.DmaIf
