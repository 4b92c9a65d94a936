import BpmAcquisition.Hardware.Pulse

/-!
# Commands to a register interface

`fmc150_stellar_cmd.vhd` takes command packets at `clk_cmd` and offers their registers at `clk_reg`:
an address and a word with `out_reg_val` for a write, an address with `in_reg_req` for a read. Each
of the two is a crossing, so that what the registers are given is what was commanded. Answers and
mailbox values come back over links of their own, and are taken from `in_reg` and `mbx_in_reg` when
their packets are sent; an answer goes first, and a mailbox value that meets one waits at its port.
-/

namespace BpmAcquisition.StellarCmd

open Machine Pulse2pulse

def cmdWr : BitVec 4 := 0x1
def cmdRd : BitVec 4 := 0x2
def cmdRdAck : BitVec 4 := 0x4

abbrev Address := BitVec 28
abbrev Word := BitVec 32

structure Generics where
  startAddr : Address := 0
  stopAddr : Address := 0x10

structure Stellar where
  registerWr : Bool := false
  registerRd : Bool := false
  inRegAddrSig : Address := 0
  mbxReceived : Bool := false
  outCmd : BitVec 64 := 0
  outCmdVal : Bool := false
  outRegAddr : Address := 0
  outReg : Word := 0
  p2p0 : Link := {}
  p2p1 : Link := {}
  p2p2 : Link := {}
  p2p3 : Link := {}

/-- What an edge of `clk_cmd` finds. -/
structure CmdIn where
  inCmdVal : Bool := false
  inCmd : BitVec 64 := 0
  inReg : Word := 0
  mbxInReg : Word := 0

/-- What an edge of `clk_reg` finds. -/
structure RegIn where
  inRegVal : Bool := false
  mbxInVal : Bool := false

structure ClockEdges where
  cmd : Option CmdIn := none
  reg : Option RegIn := none

namespace CmdIn

def code (i : CmdIn) : BitVec 4 := i.inCmd.extractLsb' 60 4
def address (i : CmdIn) : Address := i.inCmd.extractLsb' 32 28
def word (i : CmdIn) : Word := i.inCmd.extractLsb' 0 32

def hits (g : Generics) (command : BitVec 4) (i : CmdIn) : Bool :=
  i.inCmdVal && i.code == command && decide (g.startAddr ≤ i.address) && decide (i.address ≤ g.stopAddr)

/-- The write that a packet commands. -/
def write (g : Generics) (i : CmdIn) : Option (Address × Word) :=
  if i.hits g cmdWr then some (i.address - g.startAddr, i.word) else none

def read (g : Generics) (i : CmdIn) : Option Address :=
  if i.hits g cmdRd then some (i.address - g.startAddr) else none

end CmdIn

def packet (command : BitVec 4) (addr : Address) (w : Word) : BitVec 64 := command ++ addr ++ w

theorem packet_code (command : BitVec 4) (addr : Address) (w : Word) : (packet command addr w).extractLsb' 60 4 = command := by
  rw [packet, BitVec.extractLsb'_append_eq_of_le (by decide)]
  exact BitVec.extractLsb'_append_eq_left

theorem packet_address (command : BitVec 4) (addr : Address) (w : Word) :
    (packet command addr w).extractLsb' 32 28 = addr := by
  rw [packet, BitVec.extractLsb'_append_eq_of_le (by decide)]
  exact BitVec.extractLsb'_append_eq_right

theorem packet_word (command : BitVec 4) (addr : Address) (w : Word) : (packet command addr w).extractLsb' 0 32 = w :=
  BitVec.extractLsb'_append_eq_right

def answer (g : Generics) (s : Stellar) (i : CmdIn) : BitVec 64 := cmdRdAck ++ (s.inRegAddrSig + g.startAddr) ++ i.inReg

def mailbox (g : Generics) (i : CmdIn) : BitVec 64 := (0 : BitVec 4) ++ g.startAddr ++ i.mbxInReg

def cmdEdge (g : Generics) (s : Stellar) (i : CmdIn) : Stellar :=
  { s with
    inRegAddrSig := if i.hits g cmdRd then i.address - g.startAddr else s.inRegAddrSig
    registerRd := i.hits g cmdRd
    mbxReceived :=
      if s.p2p2.pulseout && s.p2p3.pulseout then true
      else if s.mbxReceived && !s.p2p2.pulseout then false
      else s.mbxReceived
    outCmd :=
      if s.p2p2.pulseout then answer g s i
      else if s.p2p3.pulseout || s.mbxReceived then mailbox g i
      else 0
    outCmdVal := if s.p2p2.pulseout then true else if s.p2p3.pulseout || s.mbxReceived then true else false
    outRegAddr := if i.hits g cmdWr then i.address - g.startAddr else s.outRegAddr
    outReg := if i.hits g cmdWr then i.word else s.outReg
    registerWr := i.hits g cmdWr }

def stellarEdge (g : Generics) (s : Stellar) (e : ClockEdges) : Stellar :=
  let next := e.cmd.elim s (cmdEdge g s)
  { next with
    p2p0 := edge s.p2p0 ⟨e.cmd.map fun _ => s.registerWr, e.reg.isSome, false⟩
    p2p1 := edge s.p2p1 ⟨e.cmd.map fun _ => s.registerRd, e.reg.isSome, false⟩
    p2p2 := edge s.p2p2 ⟨e.reg.map (·.inRegVal), e.cmd.isSome, false⟩
    p2p3 := edge s.p2p3 ⟨e.reg.map (·.mbxInVal), e.cmd.isSome, false⟩ }

/-! ### Writes and read requests -/

/-- `out_reg_addr` and `out_reg` with `register_wr`. -/
def Stellar.writes (s : Stellar) : Crossing (Address × Word) := ⟨(s.outRegAddr, s.outReg), s.registerWr, s.p2p0⟩

def Stellar.reads (s : Stellar) : Crossing Address := ⟨s.inRegAddrSig, s.registerRd, s.p2p1⟩

def givesWrite (g : Generics) (e : ClockEdges) : Given (Address × Word) := ⟨e.cmd.map (·.write g), e.reg.isSome⟩

def givesRead (g : Generics) (e : ClockEdges) : Given Address := ⟨e.cmd.map (·.read g), e.reg.isSome⟩

theorem writes_edge (g : Generics) (s : Stellar) (e : ClockEdges) :
    (stellarEdge g s e).writes = cross s.writes (givesWrite g e) := by
  obtain ⟨cmd, reg⟩ := e
  cases cmd with
  | none => rfl
  | some i => cases hit : i.hits g cmdWr <;> simp [stellarEdge, cmdEdge, Stellar.writes, cross, givesWrite, CmdIn.write, hit, Crossing.edges]

theorem reads_edge (g : Generics) (s : Stellar) (e : ClockEdges) :
    (stellarEdge g s e).reads = cross s.reads (givesRead g e) := by
  obtain ⟨cmd, reg⟩ := e
  cases cmd with
  | none => rfl
  | some i => cases hit : i.hits g cmdRd <;> simp [stellarEdge, cmdEdge, Stellar.reads, cross, givesRead, CmdIn.read, hit, Crossing.edges]

def writesCommanded (g : Generics) (_ : Stellar) (e : ClockEdges) : List (Address × Word) := (e.cmd.bind (·.write g)).toList

def readsCommanded (g : Generics) (_ : Stellar) (e : ClockEdges) : List Address := (e.cmd.bind (·.read g)).toList

/-- `out_reg_addr` and `out_reg` where `clk_reg` finds `out_reg_val`. -/
def registersWritten (s : Stellar) (e : ClockEdges) : List (Address × Word) :=
  if e.reg.isSome && s.p2p0.pulseout then [(s.outRegAddr, s.outReg)] else []

/-- `in_reg_addr` where `clk_reg` finds `in_reg_req`. -/
def registersAsked (s : Stellar) (e : ClockEdges) : List Address :=
  if e.reg.isSome && s.p2p1.pulseout then [s.inRegAddrSig] else []

/-- A command comes when the link that takes it is ready. -/
def Unhurried (g : Generics) (s : Stellar) (e : ClockEdges) : Prop :=
  (writesCommanded g s e ≠ [] → s.writes.Ready) ∧ (readsCommanded g s e ≠ [] → s.reads.Ready)

theorem given_write (g : Generics) (s : Stellar) (e : ClockEdges) :
    given s.writes (givesWrite g e) = writesCommanded g s e := by
  obtain ⟨cmd, reg⟩ := e
  cases cmd <;> rfl

theorem given_read (g : Generics) (s : Stellar) (e : ClockEdges) :
    given s.reads (givesRead g e) = readsCommanded g s e := by
  obtain ⟨cmd, reg⟩ := e
  cases cmd <;> rfl

theorem holds_short {α : Type} {x : Crossing α} {held : List α} (holds : x.Holds held) : held.length ≤ 1 := by
  rcases holds with ⟨rfl, -⟩ | ⟨y, rfl, -⟩ <;> simp

theorem holds_reset {α : Type} (data : α) : Crossing.Holds ⟨data, false, {}⟩ [] :=
  Or.inl ⟨rfl, sound_reset, rfl, rfl⟩

/-- The registers are written and asked as it was commanded, in that order and each time once, however the
edges of the two clocks fall; the last command may still be on its way. -/
theorem commands_reach_registers (g : Generics) {es : List ClockEdges} (unhurried : Along (stellarEdge g) (Unhurried g) {} es) :
    ∃ write read, write.length ≤ 1 ∧ read.length ≤ 1 ∧
      trace (stellarEdge g) (writesCommanded g) {} es = trace (stellarEdge g) registersWritten {} es ++ write ∧
      trace (stellarEdge g) (readsCommanded g) {} es = trace (stellarEdge g) registersAsked {} es ++ read := by
  have writes : ∀ s e held, s.writes.Holds held → Unhurried g s e →
      ∃ next, (stellarEdge g s e).writes.Holds next ∧ held ++ writesCommanded g s e = registersWritten s e ++ next := by
    intro s e held holds ready
    rw [writes_edge, ← given_write]
    exact holds_cross s.writes (givesWrite g e) held holds (by rw [WhenReady, given_write]; exact ready.1)
  have reads : ∀ s e held, s.reads.Holds held → Unhurried g s e →
      ∃ next, (stellarEdge g s e).reads.Holds next ∧ held ++ readsCommanded g s e = registersAsked s e ++ next := by
    intro s e held holds ready
    rw [reads_edge, ← given_read]
    exact holds_cross s.reads (givesRead g e) held holds (by rw [WhenReady, given_read]; exact ready.2)
  obtain ⟨write, holdsWrite, written⟩ := trace_conserved writes (holds_reset _) unhurried
  obtain ⟨read, holdsRead, asked⟩ := trace_conserved reads (holds_reset _) unhurried
  exact ⟨write, read, holds_short holdsWrite, holds_short holdsRead, written, asked⟩

/-- A write of register 3, and seven edges of both clocks. -/
def oneWrite : List ClockEdges :=
  ⟨some { inCmdVal := true, inCmd := packet cmdWr 3 0x55 }, none⟩ :: List.replicate 7 ⟨some {}, some {}⟩

theorem oneWrite_reaches_registers :
    ∃ write read, write.length ≤ 1 ∧ read.length ≤ 1 ∧
      trace (stellarEdge {}) (writesCommanded {}) {} oneWrite = trace (stellarEdge {}) registersWritten {} oneWrite ++ write ∧
      trace (stellarEdge {}) (readsCommanded {}) {} oneWrite = trace (stellarEdge {}) registersAsked {} oneWrite ++ read := by
  refine commands_reach_registers {} ⟨⟨fun _ => ⟨sound_reset, rfl, rfl⟩, fun _ => ⟨sound_reset, rfl, rfl⟩⟩, along_of_all ?_⟩
  intro s e member
  obtain rfl := List.eq_of_mem_replicate member
  exact ⟨fun some => absurd rfl some, fun some => absurd rfl some⟩

example : trace (stellarEdge {}) registersWritten {} oneWrite = [(3, 0x55)] := by decide

/-! ### Answers and mailbox values -/

/-- The command interface, and what was at `in_reg` and `mbx_in_reg` at the last edge. -/
structure Interface where
  stellar : Stellar := {}
  inReg : Word := 0
  mbxInReg : Word := 0

/-- An edge of `clk_cmd` with `in_cmd_val` and `in_cmd`, one of `clk_reg`, or both, and what is at `in_reg`
and `mbx_in_reg` then. -/
structure PortEdges where
  cmd : Option (Bool × BitVec 64) := none
  reg : Option RegIn := none
  inReg : Word := 0
  mbxInReg : Word := 0

namespace PortEdges

def edges (e : PortEdges) : ClockEdges := ⟨e.cmd.map fun c => ⟨c.1, c.2, e.inReg, e.mbxInReg⟩, e.reg⟩

def answer (e : PortEdges) : Edges := ⟨e.reg.map (·.inRegVal), e.cmd.isSome, false⟩

def mailbox (e : PortEdges) : Edges := ⟨e.reg.map (·.mbxInVal), e.cmd.isSome, false⟩

end PortEdges

def portEdge (g : Generics) (s : Interface) (e : PortEdges) : Interface :=
  ⟨stellarEdge g s.stellar e.edges, e.inReg, e.mbxInReg⟩

/-- The values that the registers hand over, where the link takes their pulses. -/
def answersGiven (s : Interface) (e : PortEdges) : List Word :=
  (accepted s.stellar.p2p2 e.answer).map fun _ => e.inReg

def mailboxesGiven (s : Interface) (e : PortEdges) : List Word :=
  (accepted s.stellar.p2p3 e.mailbox).map fun _ => e.mbxInReg

/-- The packet that `out_cmd` shows after an edge of `clk_cmd`. -/
def packets (g : Generics) (s : Interface) (e : PortEdges) : List (BitVec 64) :=
  let next := (portEdge g s e).stellar
  if e.cmd.isSome && next.outCmdVal then [next.outCmd] else []

def answerWord (p : BitVec 64) : List Word := if p.extractLsb' 60 4 = cmdRdAck then [p.extractLsb' 0 32] else []

def mailboxWord (p : BitVec 64) : List Word := if p.extractLsb' 60 4 = 0 then [p.extractLsb' 0 32] else []

def answersUnsent (s : Interface) : List Word := (pending s.stellar.p2p2).map fun _ => s.inReg

def mailboxesUnsent (s : Interface) : List Word :=
  (pending s.stellar.p2p3).map (fun _ => s.mbxInReg) ++ if s.stellar.mbxReceived then [s.mbxInReg] else []

/-- A value that has been handed over stays at its port until it is sent. -/
def Steady (s : Interface) (e : PortEdges) : Prop :=
  (answersUnsent s ≠ [] → e.inReg = s.inReg) ∧ (mailboxesUnsent s ≠ [] → e.mbxInReg = s.mbxInReg)

section
variable {g : Generics} {s : Interface} {e : PortEdges}

theorem answerWord_packet (command : BitVec 4) (addr : Address) (w : Word) :
    answerWord (packet command addr w) = if command = cmdRdAck then [w] else [] := by
  rw [answerWord, packet_code, packet_word]

theorem mailboxWord_packet (command : BitVec 4) (addr : Address) (w : Word) :
    mailboxWord (packet command addr w) = if command = 0 then [w] else [] := by
  rw [mailboxWord, packet_code, packet_word]

def answersSent (s : Interface) (e : PortEdges) : List Word :=
  (delivered s.stellar.p2p2 e.answer).map fun _ => e.inReg

/-- A mailbox value goes out with its pulse, or after it has waited. -/
def mailboxesSent (s : Interface) (e : PortEdges) : List Word :=
  if e.cmd.isSome && !s.stellar.p2p2.pulseout && (s.stellar.p2p3.pulseout || s.stellar.mbxReceived) then [e.mbxInReg] else []

theorem packets_edge (g : Generics) (s : Interface) (e : PortEdges) :
    packets g s e =
      (answersSent s e).map (packet cmdRdAck (s.stellar.inRegAddrSig + g.startAddr)) ++
        (mailboxesSent s e).map (packet 0 g.startAddr) := by
  obtain ⟨cmd, reg, inReg, mbxInReg⟩ := e
  cases cmd with
  | none => simp [packets, answersSent, mailboxesSent, delivered, PortEdges.answer]
  | some c =>
    cases answer : s.stellar.p2p2.pulseout <;> cases mailbox : s.stellar.p2p3.pulseout || s.stellar.mbxReceived <;>
      simp [packets, answersSent, mailboxesSent, delivered, PortEdges.answer, portEdge, stellarEdge, cmdEdge, PortEdges.edges,
        StellarCmd.answer, StellarCmd.mailbox, packet, answer, mailbox]

theorem packets_code (g : Generics) (s : Interface) (e : PortEdges) :
    ∀ p ∈ packets g s e, p.extractLsb' 60 4 = cmdRdAck ∨ p.extractLsb' 60 4 = 0 := by
  rw [packets_edge, List.forall_mem_append, List.forall_mem_map, List.forall_mem_map]
  constructor <;> intros
  · exact Or.inl (packet_code _ _ _)
  · exact Or.inr (packet_code _ _ _)

theorem packets_answers (g : Generics) (s : Interface) (e : PortEdges) :
    (packets g s e).flatMap answerWord = answersSent s e := by
  rw [packets_edge, List.flatMap_append, List.flatMap_map, List.flatMap_map]
  simp [answerWord_packet, cmdRdAck]

theorem packets_mailboxes (g : Generics) (s : Interface) (e : PortEdges) :
    (packets g s e).flatMap mailboxWord = mailboxesSent s e := by
  rw [packets_edge, List.flatMap_append, List.flatMap_map, List.flatMap_map]
  simp [mailboxWord_packet, cmdRdAck]

/-! ### Over one edge -/

/-- Pulses that stand for a word that stays. -/
theorem words_conserved {l : Link} (sound : l.Sound) {i : Edges} (clocked : i.rst = false) {now before : Word}
    (steady : (pending l).map (fun _ => before) ≠ [] → now = before) :
    (pending l).map (fun _ => before) ++ (accepted l i).map (fun _ => now) =
      (delivered l i).map (fun _ => now) ++ (pending (edge l i)).map fun _ => now := by
  obtain ⟨next, ⟨-, rfl⟩, conserved⟩ := pending_edge l i (pending l) ⟨sound, rfl⟩ clocked
  have same : (pending l).map (fun _ => before) = (pending l).map fun _ => now := by
    cases held : pending l with
    | nil => rfl
    | cons u rest => rw [steady (by simp [held])]
  rw [same, ← List.map_append, conserved, List.map_append]

theorem answer_edge (g : Generics) (s : Interface) (e : PortEdges) :
    (portEdge g s e).stellar.p2p2 = edge s.stellar.p2p2 e.answer := by
  simp [portEdge, stellarEdge, PortEdges.edges, PortEdges.answer]

theorem answers_keep (g : Generics) (sound : s.stellar.p2p2.Sound) (steady : Steady s e) :
    answersUnsent s ++ answersGiven s e = answersSent s e ++ answersUnsent (portEdge g s e) := by
  unfold answersUnsent
  rw [answer_edge]
  exact words_conserved sound rfl steady.1

/-- The pulse has come out, and its level is not yet answered at `clk_reg`. -/
def Late (l : Link) : Prop := ∃ p : Phase, l = p.link ∧ 4 ≤ p.position ∧ p.position ≤ 8

theorem late_out {l : Link} (sound : l.Sound) (out : l.pulseout = true) (pulsein : Option Bool) :
    (edge l ⟨pulsein, true, false⟩).pulseout = false ∧ Late (edge l ⟨pulsein, true, false⟩) := by
  obtain ⟨p, rfl⟩ := sound
  rw [edge_link]
  suffices later : (p.next ⟨pulsein, true, false⟩).link.pulseout = false ∧ 4 ≤ (p.next ⟨pulsein, true, false⟩).position ∧
      (p.next ⟨pulsein, true, false⟩).position ≤ 8 from ⟨later.1, _, rfl, later.2⟩
  obtain ⟨level, reached⟩ := p
  revert level reached pulsein
  decide

theorem late_stays {l : Link} (late : Late l) (pulsein : Option Bool) : Late (edge l ⟨pulsein, false, false⟩) := by
  obtain ⟨p, rfl, atLeast, atMost⟩ := late
  rw [edge_link]
  refine ⟨_, rfl, ?_⟩
  obtain ⟨level, reached⟩ := p
  revert level reached pulsein
  decide

theorem late_pending {l : Link} (late : Late l) : pending l = [] := by
  obtain ⟨p, rfl, atLeast, -⟩ := late
  rw [pending, (landed_position p).mpr atLeast, if_neg Bool.false_ne_true]

theorem late_accepted {l : Link} (late : Late l) (i : Edges) : accepted l i = [] := by
  obtain ⟨p, rfl, -, atMost⟩ := late
  have busy : p.link.inbusy = true := by
    refine Bool.eq_true_of_not_eq_false fun free => ?_
    have far := (ready_position p).mp free
    omega
  simp [accepted, busy]

theorem pulse_stays (l : Link) (pulsein : Option Bool) : (edge l ⟨pulsein, false, false⟩).pulseout = l.pulseout := by
  cases pulsein <;> rfl

/-- A mailbox value that waits has no answer beside it, and `clk_reg` cannot hand over another before the
next edge of `clk_cmd` has sent it. -/
structure Waits (s : Interface) : Prop where
  answer : s.stellar.p2p2.Sound
  mailbox : s.stellar.p2p3.Sound
  alone : s.stellar.mbxReceived = true → s.stellar.p2p2.pulseout = false ∧ Late s.stellar.p2p3

theorem mailbox_edge (g : Generics) (s : Interface) (e : PortEdges) :
    (portEdge g s e).stellar.p2p3 = edge s.stellar.p2p3 e.mailbox := by
  simp [portEdge, stellarEdge, PortEdges.edges, PortEdges.mailbox]

theorem received_edge (g : Generics) (s : Interface) (e : PortEdges) (waits : Waits s) :
    (portEdge g s e).stellar.mbxReceived =
      if e.cmd.isSome then s.stellar.p2p2.pulseout && s.stellar.p2p3.pulseout else s.stellar.mbxReceived := by
  obtain ⟨cmd, reg, inReg, mbxInReg⟩ := e
  cases cmd with
  | none => rfl
  | some c =>
    cases received : s.stellar.mbxReceived with
    | true => simp [portEdge, stellarEdge, PortEdges.edges, cmdEdge, received, waits.alone received]
    | false =>
      cases both : s.stellar.p2p2.pulseout && s.stellar.p2p3.pulseout <;>
        simp [portEdge, stellarEdge, PortEdges.edges, cmdEdge, received, both]

theorem waits_edge (g : Generics) (s : Interface) (e : PortEdges) (waits : Waits s) : Waits (portEdge g s e) := by
  have received' := received_edge g s e waits
  obtain ⟨answer, mailbox, alone⟩ := waits
  refine ⟨?_, ?_, ?_⟩
  · rw [answer_edge]
    exact sound_edge _ _ answer
  · rw [mailbox_edge]
    exact sound_edge _ _ mailbox
  · rw [received', answer_edge, mailbox_edge]
    obtain ⟨cmd, reg, inReg, mbxInReg⟩ := e
    cases cmd with
    | none =>
      intro received
      obtain ⟨noAnswer, late⟩ := alone received
      exact ⟨(pulse_stays _ _).trans noAnswer, late_stays late _⟩
    | some c =>
      intro both
      obtain ⟨out, out'⟩ := Bool.and_eq_true_iff.mp both
      exact ⟨(late_out answer out _).1, (late_out mailbox out' _).2⟩

/-- A mailbox value is sent when its pulse comes, waits then, or has waited and is sent. -/
theorem mailboxes_keep (g : Generics) (waits : Waits s) (steady : Steady s e) :
    mailboxesUnsent s ++ mailboxesGiven s e = mailboxesSent s e ++ mailboxesUnsent (portEdge g s e) := by
  have received' := received_edge g s e waits
  cases received : s.stellar.mbxReceived with
  | true =>
    obtain ⟨noAnswer, late⟩ := waits.alone received
    have silent : pending s.stellar.p2p3 = [] := late_pending late
    have same : e.mbxInReg = s.mbxInReg := steady.2 (by simp [mailboxesUnsent, received])
    obtain ⟨next, ⟨-, rfl⟩, conserved⟩ := pending_edge s.stellar.p2p3 e.mailbox _ ⟨waits.mailbox, rfl⟩ rfl
    rw [silent, late_accepted late, List.append_nil] at conserved
    have silent' : pending (portEdge g s e).stellar.p2p3 = [] := by
      rw [mailbox_edge]
      exact (List.append_eq_nil_iff.mp conserved.symm).2
    simp only [mailboxesUnsent, mailboxesGiven, mailboxesSent, silent, silent', late_accepted late, received', received, noAnswer]
    cases e.cmd.isSome <;> simp [portEdge, same]
  | false =>
    have words := words_conserved (i := e.mailbox) waits.mailbox rfl
      fun held => steady.2 (by simpa [mailboxesUnsent, received] using held)
    by_cases meets : e.cmd.isSome = true ∧ s.stellar.p2p2.pulseout = true ∧ s.stellar.p2p3.pulseout = true
    · obtain ⟨cmd, answer, mailbox⟩ := meets
      have late : Late (edge s.stellar.p2p3 e.mailbox) := by
        have out := (late_out waits.mailbox mailbox (e.reg.map (·.mbxInVal))).2
        rw [PortEdges.mailbox, cmd]
        exact out
      have out : delivered s.stellar.p2p3 e.mailbox = [()] := by simp [delivered, PortEdges.mailbox, cmd, mailbox]
      rw [late_pending late, out] at words
      simp only [mailboxesUnsent, mailboxesGiven, mailboxesSent, received, received', mailbox_edge, late_pending late, cmd, answer,
        mailbox]
      simpa [portEdge] using words
    · have sent : mailboxesSent s e = (delivered s.stellar.p2p3 e.mailbox).map fun _ => e.mbxInReg := by
        cases cmd : e.cmd.isSome <;> cases answer : s.stellar.p2p2.pulseout <;> cases mailbox : s.stellar.p2p3.pulseout <;>
          simp_all [mailboxesSent, delivered, PortEdges.mailbox]
      have none : (portEdge g s e).stellar.mbxReceived = false := by
        rw [received', received]
        cases cmd : e.cmd.isSome <;> simp_all
      simp only [mailboxesUnsent, mailboxesGiven, received, none, sent, mailbox_edge]
      simpa [portEdge] using words

end

/-- As long as a value that has been handed over stays at its port until it is sent: every packet is an
answer or a mailbox packet, the answers carry the values from `in_reg` in their order and each once, and the
mailbox packets those from `mbx_in_reg`, also where the two meet. What is not sent at the end has its pulse on the
way, or waits in `mbx_received`. -/
theorem values_are_sent_once (g : Generics) {es : List PortEdges} (steady : Along (portEdge g) Steady {} es) :
    (∀ p ∈ trace (portEdge g) (packets g) {} es, p.extractLsb' 60 4 = cmdRdAck ∨ p.extractLsb' 60 4 = 0) ∧
      trace (portEdge g) answersGiven {} es =
        (trace (portEdge g) (packets g) {} es).flatMap answerWord ++ answersUnsent (run (portEdge g) {} es) ∧
      trace (portEdge g) mailboxesGiven {} es =
        (trace (portEdge g) (packets g) {} es).flatMap mailboxWord ++ mailboxesUnsent (run (portEdge g) {} es) := by
  have start : Waits {} := ⟨sound_reset, sound_reset, fun received => absurd received Bool.false_ne_true⟩
  have answered : ∀ s e held, (Waits s ∧ held = answersUnsent s) → Steady s e →
      ∃ next, (Waits (portEdge g s e) ∧ next = answersUnsent (portEdge g s e)) ∧
        held ++ answersGiven s e = (packets g s e).flatMap answerWord ++ next := by
    rintro s e held ⟨waits, rfl⟩ steady
    rw [packets_answers]
    exact ⟨_, ⟨waits_edge g s e waits, rfl⟩, answers_keep g waits.answer steady⟩
  have mailed : ∀ s e held, (Waits s ∧ held = mailboxesUnsent s) → Steady s e →
      ∃ next, (Waits (portEdge g s e) ∧ next = mailboxesUnsent (portEdge g s e)) ∧
        held ++ mailboxesGiven s e = (packets g s e).flatMap mailboxWord ++ next := by
    rintro s e held ⟨waits, rfl⟩ steady
    rw [packets_mailboxes]
    exact ⟨_, ⟨waits_edge g s e waits, rfl⟩, mailboxes_keep g waits steady⟩
  obtain ⟨answer, ⟨-, rfl⟩, answers⟩ := trace_conserved answered ⟨start, rfl⟩ steady
  obtain ⟨mailbox, ⟨-, rfl⟩, mailboxes⟩ := trace_conserved mailed ⟨start, rfl⟩ steady
  refine ⟨trace_forall (packets_code g) es, ?_, ?_⟩
  · rw [trace_flatMap]
    exact answers
  · rw [trace_flatMap]
    exact mailboxes

/-- An answer and a mailbox value at the same edge, and six edges of both clocks. -/
def bothHanded : List PortEdges :=
  ⟨none, some ⟨true, true⟩, 0x11, 0x22⟩ :: List.replicate 6 ⟨some (false, 0), some {}, 0x11, 0x22⟩

theorem bothHanded_sent_once :
    (∀ p ∈ trace (portEdge {}) (packets {}) {} bothHanded, p.extractLsb' 60 4 = cmdRdAck ∨ p.extractLsb' 60 4 = 0) ∧
      trace (portEdge {}) answersGiven {} bothHanded =
        (trace (portEdge {}) (packets {}) {} bothHanded).flatMap answerWord ++
          answersUnsent (run (portEdge {}) {} bothHanded) ∧
      trace (portEdge {}) mailboxesGiven {} bothHanded =
        (trace (portEdge {}) (packets {}) {} bothHanded).flatMap mailboxWord ++
          mailboxesUnsent (run (portEdge {}) {} bothHanded) :=
  values_are_sent_once {} (by unfold Steady; decide)

example : trace (portEdge {}) (packets {}) {} bothHanded = [packet cmdRdAck 0 0x11, packet 0 0 0x22] := by decide

end BpmAcquisition.StellarCmd
