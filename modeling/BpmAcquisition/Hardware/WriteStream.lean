import BpmAcquisition.Hardware.DataSide

/-!
# What reaches the FIFO

`fifo_wren`, `data_i_d1` and `last_data_reg` together are a write register in front of the
FIFO: the enable is held while the FIFO is full, the data and the last flag are not.
`fifo_stream_exact` says for every run from reset when the FIFO gets the counted samples;
`capture_run` counts the samples of one capture and finds the last flag on its final one.
-/

namespace BpmAcquisition.DmaIf

open Machine

variable {n c : Nat}

/-! ### The write register -/

def writeEdge (s : DataSide n c) (i : DataIn n) : WriteRegister.Edge (BitVec n × Bool) :=
  ⟨(i.dataI, sLastData s i), s.capturing && i.dataValidI, i.fifoFull⟩

def writeEdges (s : DataSide n c) (is : List (DataIn n)) : List (WriteRegister.Edge (BitVec n × Bool)) :=
  trace dataEdge (fun s i => [writeEdge s i]) s is

theorem waiting_step (s : DataSide n c) {i : DataIn n} (clocked : Clocked i) :
    (dataEdge s i).waiting = WriteRegister.step s.waiting (writeEdge s i) := by
  cases full : i.fifoFull <;> cases wren : s.fifoWren <;>
    simp [DataSide.waiting, dataEdge, pFifoWrEn, WriteRegister.step, writeEdge, clocked, full, wren]

theorem fifoWrite_written (s : DataSide n c) (i : DataIn n) :
    fifoWrite s i = WriteRegister.written s.waiting (writeEdge s i) := by
  cases full : i.fifoFull <;> cases wren : s.fifoWren <;>
    simp [fifoWrite, DataSide.waiting, WriteRegister.written, writeEdge, full, wren]

theorem counted_offer (s : DataSide n c) {i : DataIn n} (clocked : Clocked i) :
    counted s i = WriteRegister.offer (writeEdge s i) := by
  cases count : (s.capturing && i.dataValidI && !i.fifoFull) with
  | false => simp only [counted, WriteRegister.offer, writeEdge, count, Bool.false_eq_true, if_false]
  | true => simp only [counted, WriteRegister.offer, writeEdge, count, sLastData_eq clocked count]

theorem fifo_stored (s : DataSide n c) {is : List (DataIn n)} (empty : s.fifoWren = false)
    (clocked : ∀ i ∈ is, Clocked i) :
    trace dataEdge fifoWrite s is ++ (run dataEdge s is).waiting.toList =
      WriteRegister.stored (writeEdges s is) := by
  have along : Along dataEdge (fun _ i => Clocked i) s is := along_of_inputs clocked
  rw [run_simulates (fun s i => waiting_step s) along,
    trace_simulates (fun s i => waiting_step s) (fun s i _ => fifoWrite_written s i) along]
  have nothing : s.waiting = none := by simp [DataSide.waiting, empty]
  simpa [nothing, writeEdges] using
    WriteRegister.written_stored (none : Option (BitVec n × Bool)) (writeEdges s is)

theorem counted_offered (s : DataSide n c) {is : List (DataIn n)} (clocked : ∀ i ∈ is, Clocked i) :
    trace dataEdge counted s is = (writeEdges s is).flatMap WriteRegister.offer := by
  have along : Along dataEdge (fun _ i => Clocked i) s is := along_of_inputs clocked
  rw [writeEdges, trace_flatMap, trace_congr (fun s i => counted_offer s) along]
  simp

theorem writeEdges_free {s : DataSide n c} {is : List (DataIn n)} (free : ∀ i ∈ is, i.fifoFull = false) :
    ∀ e ∈ writeEdges s is, e.full = false := by
  induction is generalizing s with
  | nil => simp [writeEdges]
  | cons i rest ih =>
    have first := free i List.mem_cons_self
    have others := @ih (dataEdge s i) fun j member => free j (List.mem_cons_of_mem i member)
    simpa [writeEdges, writeEdge, first] using others

theorem fifo_stored_ended (s : DataSide n c) {is : List (DataIn n)} (empty : s.fifoWren = false)
    (clocked : ∀ i ∈ is, Clocked i) (written : (run dataEdge s is).fifoWren = false) :
    trace dataEdge fifoWrite s is = WriteRegister.stored (writeEdges s is) := by
  have nothing : (run dataEdge s is).waiting = none := by simp [DataSide.waiting, written]
  have stored := fifo_stored s empty clocked
  rwa [nothing, Option.toList_none, List.append_nil] at stored

theorem fifo_stored_free (s : DataSide n c) {is : List (DataIn n)} (empty : s.fifoWren = false)
    (clocked : ∀ i ∈ is, Clocked i) (free : ∀ i ∈ is, i.fifoFull = false)
    (written : (run dataEdge s is).fifoWren = false) : trace dataEdge fifoWrite s is = trace dataEdge counted s is := by
  rw [fifo_stored_ended s empty clocked written, counted_offered s clocked]
  exact (WriteRegister.stored_eq_offered _).mpr (WriteRegister.settled_of_never_full (writeEdges_free free))

/-- From reset, for every pattern of valid samples, full FIFO and capture commands: the FIFO
gets the counted samples in order, each with the flag that tells whether its capture ends with
it, exactly when every counted sample and its flag are on the register's input again at the
last edge of the full stretch that directly follows it, if there is one. -/
theorem fifo_stream_exact (s : DataSide n c) (reset : DataIn n) (is : List (DataIn n))
    (rst : reset.dataClkRst = true) (clocked : ∀ i ∈ is, Clocked i) :
    trace dataEdge fifoWrite (dataEdge s reset) is ++
        (run dataEdge (dataEdge s reset) is).waiting.toList =
      trace dataEdge counted (dataEdge s reset) is ↔
    WriteRegister.Settled (writeEdges (dataEdge s reset) is) := by
  have empty : (dataEdge s reset).fifoWren = false := by simp [dataEdge, pFifoWrEn, rst]
  rw [fifo_stored _ empty clocked, counted_offered _ clocked, WriteRegister.stored_eq_offered]

def refusedWrite : List (DataIn 32) :=
  let edge (full : Bool) (d : BitVec 32) : DataIn 32 :=
    { dataI := d, dataValidI := true, captureCtlI := 0x00200002#32, fifoFull := full }
  [edge false 0, edge false 0, edge false 0, edge false 0,
    edge false 1, edge true 2, edge false 3, edge false 4]

def resetEdge : DataIn 32 := { dataClkRst := true, dataI := 0, dataValidI := true, captureCtlI := 0 }

/-- The FIFO gets sample 2, which was not counted, in the place of sample 1, and its last flag. -/
theorem refused_write_replaces_word :
    let s := dataEdge (DataSide.powerUp : DataSide 32 10) resetEdge
    trace dataEdge counted s refusedWrite = [(1, false), (3, true)] ∧
      trace dataEdge fifoWrite s refusedWrite = [(2, true), (3, true)] ∧
      (run dataEdge s refusedWrite).waiting = none := by
  decide

theorem fifo_stream_exact_refused :
    let s := dataEdge (DataSide.powerUp : DataSide 32 10) resetEdge
    trace dataEdge fifoWrite s refusedWrite ++ (run dataEdge s refusedWrite).waiting.toList =
      trace dataEdge counted s refusedWrite ↔ WriteRegister.Settled (writeEdges s refusedWrite) :=
  fifo_stream_exact DataSide.powerUp resetEdge refusedWrite rfl (by decide)

/-! ### The samples of one capture -/

theorem counted_none {s : DataSide n c} {i : DataIn n}
    (none : (s.capturing && i.dataValidI && !i.fifoFull) = false) : counted s i = [] := by
  simp [counted, none]

theorem left_hold {s : DataSide n c} {i : DataIn n} {k : Nat} (quiet : NoTrigger s i) (left : s.Left k)
    (none : (s.capturing && i.dataValidI && !i.fifoFull) = false) : (dataEdge s i).Left k :=
  ⟨left.1, by rw [hold_step quiet none]; exact left.2⟩

theorem ended_step {s : DataSide n c} {i : DataIn n} (quiet : NoTrigger s i)
    (idle : s.capturing = false) : (dataEdge s i).capturing = false := by
  have held : (dataEdge s i).captureCtlReg = s.captureCtlReg := hold_step quiet (by simp [idle])
  rw [DataSide.capturing, held]
  exact idle

theorem ended_run {s : DataSide n c} {is : List (DataIn n)} (idle : s.capturing = false)
    (quiet : Along dataEdge NoTrigger s is) :
    trace dataEdge counted s is = [] ∧ (run dataEdge s is).capturing = false := by
  induction is generalizing s with
  | nil => exact ⟨rfl, idle⟩
  | cons i rest ih =>
    obtain ⟨nothing, stays⟩ := ih (ended_step quiet.1 idle) quiet.2
    exact ⟨by simp [nothing, counted_none, idle], stays⟩

/-- A capture with `k` samples to follow the next one either still runs, with fewer to follow
by what was counted and no flag so far, or has counted `k + 1` samples, the flag on the last. -/
theorem capture_run {s : DataSide n c} {is : List (DataIn n)} {k : Nat} (left : s.Left k)
    (quiet : Along dataEdge NoTrigger s is) :
    (∃ m, (trace dataEdge counted s is).map Prod.snd = List.replicate m false ∧ m ≤ k ∧
      (run dataEdge s is).Left (k - m)) ∨
    ((trace dataEdge counted s is).map Prod.snd = List.replicate k false ++ [true] ∧
      (run dataEdge s is).capturing = false) := by
  induction is generalizing s k with
  | nil => exact Or.inl ⟨0, rfl, Nat.zero_le k, by simpa using left⟩
  | cons i rest ih =>
    simp only [trace_cons, run_cons, List.map_append]
    cases count : (s.capturing && i.dataValidI && !i.fifoFull) with
    | false =>
      simp only [counted_none count, List.map_nil, List.nil_append]
      exact ih (left_hold quiet.1 left count) quiet.2
    | true =>
      have parts := count
      simp only [Bool.and_eq_true, Bool.not_eq_eq_eq_not, Bool.not_true] at parts
      obtain ⟨⟨-, offered⟩, free⟩ := parts
      rcases count_step quiet.1.1 left offered free with ⟨rfl, done⟩ | ⟨m, rfl, more⟩
      · obtain ⟨nothing, stays⟩ := ended_run done quiet.2
        exact Or.inr ⟨by simp [counted, count, done, nothing], stays⟩
      · rcases ih more quiet.2 with ⟨j, flags, below, still⟩ | ⟨flags, stays⟩
        · refine Or.inl ⟨j + 1, ?_, by omega, by simpa using still⟩
          simp [counted, count, more.capturing, flags, List.replicate_succ]
        · refine Or.inr ⟨?_, stays⟩
          simp [counted, count, more.capturing, flags, List.replicate_succ]

end BpmAcquisition.DmaIf
