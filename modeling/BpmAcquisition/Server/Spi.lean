import BpmAcquisition.Library.Run
import BpmAcquisition.Server.LowLevel

/-!
# Commands to the SPI engine

The registers of `p_reg_write` and the SPI engine behind them, which starts a command on every
change of `CHIPSELECT` and is busy with it for as long as it takes. `read_fmc150_register` and
`write_fmc150_register` are the functions of `low_level_op.c`: what they write is carried out on
the registers in order. `spi_exact` says for every sequence of calls and every timing which
calls give the engine a command only while it is idle.
-/

namespace BpmAcquisition.Server

open Machine

/-- The registers as the bus shows them, and how long the engine is still busy. -/
structure Spi where
  registers : UInt32 → UInt32
  busy : Nat

/-- The time that passes before a call and before each of its writes, and how long the engine is
busy once `CHIPSELECT` has changed, also where the change meets a busy engine. -/
structure Timing where
  wait : Nat
  before : Nat → Nat
  duration : Nat

inductive SpiCall where
  | read (chipselect addr value : UInt32)
  | write (chipselect addr value : UInt32)

/-- A write of `CHIPSELECT`: the registers and the engine that it finds, and the new value. -/
structure Toggle where
  found : Spi
  select : UInt32

namespace Spi

def elapse (s : Spi) (time : Nat) : Spi := { s with busy := s.busy - time }

/-- `FLAGS_OUT_0` shows whether the engine is busy. -/
def in32 (s : Spi) (addr : UInt32) : UInt32 :=
  if addr = fmc150Reg offsetFmc150FlagsOut0 then
    if s.busy = 0 then s.registers addr &&& ~~~maskAndFlagsout0SpiBusy
    else s.registers addr ||| maskAndFlagsout0SpiBusy
  else s.registers addr

def out32 (s : Spi) (duration : Nat) (addr value : UInt32) : Spi where
  registers := Function.update s.registers addr value
  busy := if addr = fmc150Reg offsetFmc150Chipselect ∧ value ≠ s.registers addr then duration else s.busy

/-- The writes of a call from the `i`-th on: what they leave, and the changes of `CHIPSELECT`. -/
def perform (t : Timing) : Nat → Spi → List Effect → Spi × List Toggle
  | _, s, [] => (s, [])
  | i, s, .out32 addr value :: es =>
    let found := s.elapse (t.before i)
    let (last, toggles) := perform t (i + 1) (found.out32 t.duration addr value) es
    (last, if addr = fmc150Reg offsetFmc150Chipselect then ⟨found, value⟩ :: toggles else toggles)
  | i, s, _ :: es => perform t i s es

def driver (s : Spi) : Driver := ⟨xstSuccess, fun _ => false, s.in32⟩

/-- What the function returns and writes, by what it reads. -/
def answer (s : Spi) : SpiCall → Int × List Effect
  | .read chipselect addr value =>
    let (status, b, _) := readFmc150Register s.driver chipselect addr value Board.boot
    (status, b.log)
  | .write chipselect addr value =>
    let (status, b) := writeFmc150Register s.driver chipselect addr value Board.boot
    (status, b.log)

def status (s : Spi) (c : SpiCall) (t : Timing) : Int := ((s.elapse t.wait).answer c).1

def toggles (s : Spi) (c : SpiCall) (t : Timing) : List Toggle :=
  (perform t 0 (s.elapse t.wait) ((s.elapse t.wait).answer c).2).2

def call (s : Spi) (i : SpiCall × Timing) : Spi :=
  (perform i.2 0 (s.elapse i.2.wait) ((s.elapse i.2.wait).answer i.1).2).1

end Spi

/-- `CHIPSELECT` changes in the bits of the call, once, with the engine idle and the registers
set for the call. -/
def Selects (s : Spi) (c : SpiCall) (toggles : List Toggle) : Prop :=
  ∃ toggle, toggles = [toggle] ∧ toggle.found.busy = 0 ∧
    match c with
    | .read chipselect addr _ =>
      toggle.select = s.registers (fmc150Reg offsetFmc150Chipselect) ^^^ chipselect ∧
        toggle.found.registers (fmc150Reg offsetFmc150FlagsIn0) =
          s.registers (fmc150Reg offsetFmc150FlagsIn0) ||| maskOrFlagsin0SpiRead ∧
        toggle.found.registers (fmc150Reg offsetFmc150Addr) = addr
    | .write chipselect addr value =>
      toggle.select = s.registers (fmc150Reg offsetFmc150Chipselect) ^^^ chipselect ∧
        toggle.found.registers (fmc150Reg offsetFmc150FlagsIn0) =
          s.registers (fmc150Reg offsetFmc150FlagsIn0) &&& maskAndFlagsin0SpiWrite ∧
        toggle.found.registers (fmc150Reg offsetFmc150Addr) = addr ∧
        toggle.found.registers (fmc150Reg offsetFmc150Datain) = value

/-- A call that succeeds gives its command to an idle engine; one that finds the engine busy
fails and writes nothing. -/
def SpiOk (s : Spi) (i : SpiCall × Timing) : Prop :=
  (s.status i.1 i.2 = success → Selects s i.1 (s.toggles i.1 i.2)) ∧
    ((s.elapse i.2.wait).busy ≠ 0 →
      s.status i.1 i.2 = error ∧ s.toggles i.1 i.2 = [] ∧ (s.call i).registers = s.registers)

/-- A write finds the engine idle. -/
def WriteFindsIdle (s : Spi) : SpiCall × Timing → Prop
  | (.read _ _ _, _) => True
  | (.write _ _ _, t) => (s.elapse t.wait).busy = 0

section
variable {s : Spi} {t : Timing} {chipselect addr value : UInt32}

theorem in32_other (s : Spi) {a : UInt32} (other : a ≠ fmc150Reg offsetFmc150FlagsOut0) : s.in32 a = s.registers a :=
  if_neg other

theorem in32_busy (s : Spi) :
    s.in32 (fmc150Reg offsetFmc150FlagsOut0) &&& maskAndFlagsout0SpiBusy = maskAndFlagsout0SpiBusy ↔ s.busy ≠ 0 := by
  unfold Spi.in32
  rw [if_pos rfl]
  split
  case isTrue idle =>
    refine iff_of_false (fun set => ?_) (not_not.mpr idle)
    rw [UInt32.and_assoc] at set
    exact absurd set (by simp [maskAndFlagsout0SpiBusy])
  case isFalse busy =>
    refine iff_of_true ?_ busy
    apply UInt32.toBitVec_inj.mp
    ext i
    rw [UInt32.toBitVec_and, UInt32.toBitVec_or, BitVec.getElem_and, BitVec.getElem_or]
    cases maskAndFlagsout0SpiBusy.toBitVec[i] with
    | false => exact Bool.and_false _
    | true => rw [Bool.and_true, Bool.or_true]

theorem answer_read_busy (busy : s.busy ≠ 0) : s.answer (.read chipselect addr value) = (error, []) := by
  have shown := (in32_busy s).mpr busy
  unfold Spi.answer readFmc150Register Spi.driver
  simp only [shown, ne_eq, not_true_eq_false, if_false]
  rfl

theorem answer_read_idle (idle : s.busy = 0) :
    s.answer (.read chipselect addr value) =
      (success,
        [.out32 (fmc150Reg offsetFmc150FlagsIn0)
            (s.registers (fmc150Reg offsetFmc150FlagsIn0) ||| maskOrFlagsin0SpiRead),
          .out32 (fmc150Reg offsetFmc150Addr) addr,
          .out32 (fmc150Reg offsetFmc150Chipselect)
            (s.registers (fmc150Reg offsetFmc150Chipselect) ^^^ chipselect)]) := by
  have shown := mt (in32_busy s).mp (not_not.mpr idle)
  unfold Spi.answer readFmc150Register Spi.driver
  simp only [shown, ne_eq, not_false_eq_true, if_true]
  rw [in32_other s (by decide), in32_other s (by decide)]
  rfl

theorem answer_write :
    s.answer (.write chipselect addr value) =
      (success,
        [.out32 (fmc150Reg offsetFmc150FlagsIn0)
            (s.registers (fmc150Reg offsetFmc150FlagsIn0) &&& maskAndFlagsin0SpiWrite),
          .out32 (fmc150Reg offsetFmc150Addr) addr,
          .out32 (fmc150Reg offsetFmc150Datain) value,
          .out32 (fmc150Reg offsetFmc150Chipselect)
            (s.registers (fmc150Reg offsetFmc150Chipselect) ^^^ chipselect)]) := by
  unfold Spi.answer writeFmc150Register Spi.driver
  simp only
  rw [in32_other s (by decide), in32_other s (by decide)]
  rfl

/-! ### The writes one after the other -/

theorem out32_registers (s : Spi) (duration : Nat) (a v : UInt32) :
    (s.out32 duration a v).registers a = v := Function.update_self _ _ _

theorem out32_other (s : Spi) (duration : Nat) {a a' : UInt32} (v : UInt32) (other : a' ≠ a) :
    (s.out32 duration a v).registers a' = s.registers a' := Function.update_of_ne other _ _

theorem out32_idle (s : Spi) (duration : Nat) {a : UInt32} (v : UInt32)
    (other : a ≠ fmc150Reg offsetFmc150Chipselect) : (s.out32 duration a v).busy = s.busy :=
  if_neg fun h => other h.1

@[simp] theorem elapse_registers (s : Spi) (time : Nat) : (s.elapse time).registers = s.registers := rfl

theorem elapse_idle (idle : s.busy = 0) (time : Nat) : (s.elapse time).busy = 0 := by
  unfold Spi.elapse
  simp only
  omega

/-- A write of another register is no toggle, and leaves an idle engine idle. -/
theorem perform_other {a : UInt32} (v : UInt32) (other : a ≠ fmc150Reg offsetFmc150Chipselect) (i : Nat)
    (es : List Effect) :
    Spi.perform t i s (.out32 a v :: es) =
      Spi.perform t (i + 1) ((s.elapse (t.before i)).out32 t.duration a v) es := by
  rw [Spi.perform]
  simp only [if_neg other]

theorem perform_select (v : UInt32) (i : Nat) :
    (Spi.perform t i s [.out32 (fmc150Reg offsetFmc150Chipselect) v]).2 = [⟨s.elapse (t.before i), v⟩] := by
  simp only [Spi.perform, if_true]

/-- A register that is written before stays so and keeps an idle engine idle. -/
theorem written_idle (idle : s.busy = 0) (time duration : Nat) {a : UInt32} (v : UInt32)
    (other : a ≠ fmc150Reg offsetFmc150Chipselect) : ((s.elapse time).out32 duration a v).busy = 0 := by
  rw [out32_idle _ _ _ other]
  exact elapse_idle idle time

/-! ### Calls -/

theorem read_ok (s : Spi) (t : Timing) (chipselect addr value : UInt32) :
    SpiOk s (.read chipselect addr value, t) := by
  have registers : (s.elapse t.wait).registers = s.registers := rfl
  unfold SpiOk Selects Spi.status Spi.toggles Spi.call
  simp only
  rw [← registers]
  generalize s.elapse t.wait = found
  by_cases idle : found.busy = 0
  · rw [answer_read_idle idle]
    refine ⟨fun _ => ?_, fun busy => absurd idle busy⟩
    rw [perform_other _ (by decide), perform_other _ (by decide), perform_select]
    refine ⟨_, rfl, ?_, rfl, ?_, ?_⟩
    · exact elapse_idle (written_idle (written_idle idle _ _ _ (by decide)) _ _ _ (by decide)) _
    · rw [elapse_registers, out32_other _ _ _ (by decide), elapse_registers, out32_registers]
    · rw [elapse_registers, out32_registers]
  · rw [answer_read_busy idle]
    exact ⟨fun passed => absurd passed (by decide), fun _ => ⟨rfl, rfl, rfl⟩⟩

theorem write_ok (s : Spi) (t : Timing) (chipselect addr value : UInt32) :
    SpiOk s (.write chipselect addr value, t) ↔ (s.elapse t.wait).busy = 0 := by
  have registers : (s.elapse t.wait).registers = s.registers := rfl
  unfold SpiOk Selects Spi.status Spi.toggles Spi.call
  simp only
  rw [← registers]
  generalize s.elapse t.wait = found
  rw [answer_write]
  constructor
  · rintro ⟨-, refuses⟩
    refine not_not.mp fun busy => ?_
    exact absurd (refuses busy).1 (by decide : success ≠ error)
  · intro idle
    refine ⟨fun _ => ?_, fun busy => absurd idle busy⟩
    rw [perform_other _ (by decide), perform_other _ (by decide), perform_other _ (by decide), perform_select]
    have flags := written_idle idle (t.before 0) t.duration
      (found.registers (fmc150Reg offsetFmc150FlagsIn0) &&& maskAndFlagsin0SpiWrite)
      (by decide : fmc150Reg offsetFmc150FlagsIn0 ≠ fmc150Reg offsetFmc150Chipselect)
    refine ⟨_, rfl, ?_, rfl, ?_, ?_, ?_⟩
    · exact elapse_idle (written_idle (written_idle flags _ _ _ (by decide)) _ _ _ (by decide)) _
    · rw [elapse_registers, out32_other _ _ _ (by decide), elapse_registers, out32_other _ _ _ (by decide),
        elapse_registers, out32_registers]
    · rw [elapse_registers, out32_other _ _ _ (by decide), elapse_registers, out32_registers]
    · rw [elapse_registers, out32_registers]

end

/-- For every sequence of calls, all times between and within them and every time the engine
takes: each call that succeeds gives its command, with its registers, to an idle engine, and each
that finds it busy fails without a write, exactly if every write finds it idle. -/
theorem spi_exact (s : Spi) (calls : List (SpiCall × Timing)) :
    Along Spi.call SpiOk s calls ↔ Along Spi.call WriteFindsIdle s calls := by
  have each : ∀ (s : Spi) i, SpiOk s i ↔ WriteFindsIdle s i := by
    rintro s ⟨c, t⟩
    cases c with
    | read chipselect addr value => exact iff_of_true (read_ok s t chipselect addr value) trivial
    | write chipselect addr value => exact write_ok s t chipselect addr value
  exact along_congr each calls

def idleSpi : Spi := ⟨fun _ => 0, 0⟩

def secondAtOnce : Timing := ⟨1, fun _ => 1, 1000⟩

/-- Two writes one after the other while the engine takes longer than the time between them. -/
def twoWrites : List (SpiCall × Timing) :=
  [(.write 1 0 0x683C0310, secondAtOnce), (.write 1 1 0x68000021, secondAtOnce)]

/-- The second write succeeds, and its command meets a busy engine. -/
theorem write_meets_busy_engine :
    (Spi.call idleSpi (.write 1 0 0x683C0310, secondAtOnce)).status (.write 1 1 0x68000021) secondAtOnce = success ∧
      ((Spi.call idleSpi (.write 1 0 0x683C0310, secondAtOnce)).toggles (.write 1 1 0x68000021)
        secondAtOnce).map (·.found.busy) = [995] ∧
      ¬ Along Spi.call SpiOk idleSpi twoWrites := by
  refine ⟨by decide +kernel, by decide +kernel, fun along => ?_⟩
  have idle := (write_ok _ _ _ _ _).mp along.2.1
  exact absurd idle (by decide +kernel)

end BpmAcquisition.Server
