import BpmAcquisition.Server.OnCore

/-!
# Sequences of register calls

`read_fmc150_register` waits for its access itself; after `write_fmc150_register` the caller has to wait. For any sequence of calls
that does so and restarts no initialization, on any board, in any timing: every call succeeds, the frames that the chips take are
those of the calls in their order, and every read gives back what its chip has sent.
-/

namespace BpmAcquisition.OnCore

open Machine SpiCtrl Fmc150 Server

/-- A call, and the delay after a write. -/
inductive RegisterCall where
  | read (c : Chip) (addr : UInt32)
  | write (c : Chip) (addr value : UInt32) (counts : Nat)

namespace RegisterCall

def Proper : RegisterCall → Prop
  | .read _ _ => True
  | .write c addr value counts => PlainWrite c addr value ∧ 0 < counts

/-- The status, and the value of a read. -/
def perform (o : Outside) : RegisterCall → Soft (Int × List UInt32)
  | .read c addr => do
    let (status, value) ← readFmc150Register o (mask c) addr 0
    return (status, [value])
  | .write c addr value counts => do
    let status ← writeFmc150Register o (mask c) addr value
    delay o counts
    return (status, [])

end RegisterCall

/-- What has come of calls: the frames that the chips have taken, and what the calls have given back. -/
inductive Served : List RegisterCall → List (Chip × List Sample) → List (Int × List UInt32) → Prop where
  | nil : Served [] [] []
  | read {c : Chip} {addr v : UInt32} {fs : List (List Sample)} {calls ts rs}
      (frames : fs.map (·.map Prod.fst) = readFrames c.serializer (chipAddress addr))
      (value : chipAddress addr ≤ c.device.addrMaxRd →
        ∃ y, fs.filterMap c.serializer.reads = [y] ∧ v.toBitVec = c.device.readBack (chipAddress addr) y)
      (later : Served calls ts rs) :
      Served (.read c addr :: calls) (fs.map (c, ·) ++ ts) ((success, [v]) :: rs)
  | write {c : Chip} {addr value : UInt32} {counts : Nat} {fs : List (List Sample)} {calls ts rs}
      (frames : fs.map (·.map Prod.fst) = writeFrames c.serializer (chipAddress addr) value.toBitVec)
      (later : Served calls ts rs) :
      Served (.write c addr value counts :: calls) (fs.map (c, ·) ++ ts) ((success, []) :: rs)

section
variable {o : Outside} {levels : Chip → Bool} {w : World}

theorem perform_read (settled : Settled levels w) (c : Chip) (addr : UInt32) :
    ∃ w' fs v, (RegisterCall.read c addr).perform o w = some ((success, [v]), w') ∧ Reads c levels w w' addr fs v := by
  obtain ⟨w', fs, v, ran, reads⟩ := read_run (o := o) settled c addr 0
  refine ⟨w', fs, v, ?_, reads⟩
  rw [RegisterCall.perform, bind_run ran]
  rfl

theorem perform_write (settled : Settled levels w) {c : Chip} {addr value : UInt32} (plain : PlainWrite c addr value)
    {counts : Nat} (some_time : 0 < counts) :
    ∃ w' fs, (RegisterCall.write c addr value counts).perform o w = some ((success, []), w') ∧
      Writes c levels w w' addr value fs := by
  obtain ⟨w₁, ran, fs, writes⟩ := write_delay_run (o := o) settled plain some_time
  refine ⟨w₁.delay o counts, fs, ?_, writes⟩
  rw [RegisterCall.perform, bind_run ran]
  rfl

/-- One call: its frames, and what it gives back, before those of the calls that come later. -/
theorem call_run (settled : Settled levels w) {call : RegisterCall} (proper : call.Proper) :
    ∃ result fs w' levels', call.perform o w = some (result, w') ∧ result.1 = success ∧ Settled levels' w' ∧
      w'.taken = w.taken ++ fs ∧ w'.loaded = w.loaded ∧
      ∀ {calls ts rs}, Served calls ts rs → Served (call :: calls) (fs ++ ts) (result :: rs) := by
  cases call with
  | read c addr =>
    obtain ⟨w', fs, v, ran, reads⟩ := perform_read (o := o) settled c addr
    exact ⟨_, _, w', _, ran, rfl, reads.settled, reads.taken, reads.loaded, .read reads.frames reads.value⟩
  | write c addr value counts =>
    obtain ⟨w', fs, ran, writes⟩ := perform_write (o := o) settled proper.1 proper.2
    exact ⟨_, _, w', _, ran, rfl, writes.settled, writes.taken, writes.loaded, .write writes.frames⟩

theorem mapM_run {α β : Type} {f : α → Soft β} {a : α} {rest : List α} {b : β} {bs : List β} {w₁ w₂ : World}
    (first : f a w = some (b, w₁)) (others : rest.mapM f w₁ = some (bs, w₂)) :
    (a :: rest).mapM f w = some (b :: bs, w₂) := by
  rw [List.mapM_cons, bind_run first, bind_run others]
  rfl

end

/-- On a settled board every sequence of calls, with a delay after each write and no restart of an initialization, is carried out:
every call succeeds, the chips take the frames of the calls in their order and no others, and a read of a register gives back what
its chip has sent. -/
theorem calls_are_served (o : Outside) {levels : Chip → Bool} {w : World} (settled : Settled levels w)
    {calls : List RegisterCall} (proper : ∀ call ∈ calls, call.Proper) :
    ∃ rs ts w', calls.mapM (RegisterCall.perform o) w = some (rs, w') ∧ (∃ levels', Settled levels' w') ∧
      w'.taken = w.taken ++ ts ∧ w'.loaded = w.loaded ∧ Served calls ts rs := by
  induction calls generalizing levels w with
  | nil => exact ⟨[], [], w, rfl, ⟨levels, settled⟩, (List.append_nil _).symm, rfl, .nil⟩
  | cons call rest ih =>
    obtain ⟨here, others⟩ := List.forall_mem_cons.mp proper
    obtain ⟨result, fs, w₁, levels₁, ran, -, settled₁, taken₁, loaded₁, served₁⟩ := call_run (o := o) settled here
    obtain ⟨rs, ts, w₂, ran₂, settled₂, taken₂, loaded₂, served₂⟩ := ih settled₁ others
    refine ⟨result :: rs, fs ++ ts, w₂, mapM_run ran ran₂, settled₂, ?_, ?_, served₁ served₂⟩
    · rw [taken₂, taken₁, List.append_assoc]
    · rw [loaded₂, loaded₁]

/-- After the power-up, before any call. -/
def restedWorld : World := { core := ⟨fun _ => 0, idleBus, {}, ⟨0, 15, 15⟩⟩ }

theorem restedWorld_settled : Settled low restedWorld :=
  ⟨⟨idleBus_atRest, rfl, funext fun _ => BitVec.getLsbD_zero, rfl, rfl⟩, ⟨rfl, rfl⟩⟩

/-- Calm pins, and an edge before each access. -/
def calmOutside : Outside := ⟨oneWord, fun _ => calmPins, fun _ _ => 1, fun _ => 0⟩

/-- A write of register 1 of `cdce72010`, a read of it, and a read of `ads62p49`. -/
def threeCalls : List RegisterCall := [.write .cdce72010 1 0x68840041 10, .read .cdce72010 1, .read .ads62p49 0x20]

theorem threeCalls_proper : ∀ call ∈ threeCalls, call.Proper := by
  intro call member
  rcases List.mem_cons.mp member with rfl | later
  · exact ⟨fun global => absurd global (by decide), by decide⟩
  · rcases List.mem_pair.mp later with rfl | rfl <;> trivial

theorem threeCalls_are_served :
    ∃ rs ts w', threeCalls.mapM (RegisterCall.perform calmOutside) restedWorld = some (rs, w') ∧
      (∃ levels', Settled levels' w') ∧ w'.taken = restedWorld.taken ++ ts ∧ w'.loaded = restedWorld.loaded ∧
      Served threeCalls ts rs :=
  calls_are_served calmOutside restedWorld_settled threeCalls_proper

end BpmAcquisition.OnCore
