import BpmAcquisition.Server.RegisterCalls
import BpmAcquisition.Server.Request

/-!
# Register commands of clients

`FMC150_READ` and `FMC150_WRITE` as `handle_request` answers them, over the core. Whatever the counters and the packet of the
connection are, a client that leaves the board time after a write is given the words that the chips have sent.
-/

namespace BpmAcquisition.OnCore

open Machine SpiCtrl Fmc150 Server

namespace RegisterCall

/-- The packet that a client sends for the call. -/
def command : RegisterCall → CommandPacket
  | .read c addr => ⟨4, mask c, addr, 0⟩
  | .write c addr value _ => ⟨5, mask c, addr, value⟩

/-- The return of `handle_request` where the call succeeds and gives back these values. -/
def answer (r : ResponsePacket) (b : Board) : List UInt32 → Int × ResponsePacket × Board
  | [v] => (4, { r with comm := fmc150NewData, num := 4 }, b.effect (.memcpy r.buf v))
  | _ => (22, { r with comm := messageId, num := 22 }, b.effect (.sprintf r.buf "Write to register ok!"))

end RegisterCall

/-- Commands handled one after the other: each finds the registers as its call meets them, and is answered with what the call
gives back. -/
inductive Requested (o : Outside) : World → List RegisterCall → List (Int × List UInt32) → World → Prop where
  | nil (w : World) : Requested o w [] [] w
  | cons {w w₁ w₂ : World} {call : RegisterCall} {calls result rs} (dataout : UInt32)
      (ran : call.perform o w = some (result, w₁))
      (handled : ∀ r handler, handleRequest (w.driver o dataout) call.command r ⟨handler, w.log⟩ =
        RegisterCall.answer r ⟨handler, w₁.log⟩ result.2)
      (later : Requested o w₁ calls rs w₂) :
      Requested o w (call :: calls) (result :: rs) w₂

section
variable {drv : Driver} {c : CommandPacket} {b b' : Board}

theorem handleRequest_read (code : CommandType.ofCode c.comm = some .fmc150Read) {v : UInt32}
    (read : Server.readFmc150Register drv c.cs c.addr c.val b = (success, b', v)) (r : ResponsePacket) :
    handleRequest drv c r b = RegisterCall.answer r b' [v] := by
  unfold handleRequest
  rw [code]
  simp only [getCommandHandler, getResponseHandler, getLowLevelHandler, handleCommand, handleRead, fmc150CommOps, read]
  rfl

theorem handleRequest_write (code : CommandType.ofCode c.comm = some .fmc150Write)
    (written : Server.writeFmc150Register drv c.cs c.addr c.val b = (success, b')) (r : ResponsePacket) :
    handleRequest drv c r b = RegisterCall.answer r b' [] := by
  unfold handleRequest
  rw [code]
  simp only [getCommandHandler, getResponseHandler, getLowLevelHandler, handleCommand, handleWrite, fmc150CommOps, written]
  rfl

end

section
variable {o : Outside} {w w' : World}

/-- A call that succeeds on the core answers its command. -/
theorem call_answered {call : RegisterCall} {result : Int × List UInt32} (ran : call.perform o w = some (result, w'))
    (good : result.1 = success) :
    ∃ dataout, ∀ r handler, handleRequest (w.driver o dataout) call.command r ⟨handler, w.log⟩ =
      RegisterCall.answer r ⟨handler, w'.log⟩ result.2 := by
  cases call with
  | read c addr =>
    obtain ⟨⟨⟨status, v⟩, w₁⟩, first, last⟩ := Option.bind_eq_some_iff.mp ran
    obtain ⟨rfl, rfl⟩ := Prod.mk.inj (Option.some.inj last)
    obtain rfl : status = success := good
    exact ⟨v, fun r handler => handleRequest_read rfl (read_agrees first handler) r⟩
  | write c addr value counts =>
    obtain ⟨w₁, first⟩ : ∃ w₁, writeFmc150Register o (mask c) addr value w = some (success, w₁) := ⟨_, rfl⟩
    rw [RegisterCall.perform, bind_run first, bind_run (delay_run counts)] at ran
    obtain ⟨rfl, rfl⟩ := Prod.mk.inj (Option.some.inj ran)
    exact ⟨0, fun r handler => handleRequest_write rfl (write_agrees first 0 handler) r⟩

/-- On a settled board every sequence of register commands, with time after each write and no restart of an initialization, is
answered: each write with its text, each read with the word that its chip has sent, and the chips take the frames of the commands in
their order and no others. -/
theorem requests_are_answered (o : Outside) {levels : Chip → Bool} {w : World} (settled : Settled levels w)
    {calls : List RegisterCall} (proper : ∀ call ∈ calls, call.Proper) :
    ∃ rs ts w', Requested o w calls rs w' ∧ (∃ levels', Settled levels' w') ∧ w'.taken = w.taken ++ ts ∧
      w'.loaded = w.loaded ∧ Served calls ts rs := by
  induction calls generalizing levels w with
  | nil => exact ⟨[], [], w, .nil w, ⟨levels, settled⟩, (List.append_nil _).symm, rfl, .nil⟩
  | cons call rest ih =>
    obtain ⟨here, others⟩ := List.forall_mem_cons.mp proper
    obtain ⟨result, fs, w₁, levels₁, ran, good, settled₁, taken₁, loaded₁, served₁⟩ := call_run (o := o) settled here
    obtain ⟨dataout, handled⟩ := call_answered ran good
    obtain ⟨rs, ts, w₂, requested, settled₂, taken₂, loaded₂, served₂⟩ := ih settled₁ others
    refine ⟨result :: rs, fs ++ ts, w₂, .cons dataout ran handled requested, settled₂, ?_, ?_, served₁ served₂⟩
    · rw [taken₂, taken₁, List.append_assoc]
    · rw [loaded₂, loaded₁]

theorem threeCalls_are_answered :
    ∃ rs ts w', Requested calmOutside restedWorld threeCalls rs w' ∧ (∃ levels', Settled levels' w') ∧
      w'.taken = restedWorld.taken ++ ts ∧ w'.loaded = restedWorld.loaded ∧ Served threeCalls ts rs :=
  requests_are_answered calmOutside restedWorld_settled threeCalls_proper

end

end BpmAcquisition.OnCore
