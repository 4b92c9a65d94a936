import BpmAcquisition.Library.Bytes
import BpmAcquisition.Library.Cache
import BpmAcquisition.Server.ResponseBuffer

/-!
# Samples behind the data cache

The DMA engines write the sample buffers behind the data cache that `init_platform` turns on,
and nothing invalidates it before `prepare_to_write_response` copies the samples out.
`payload_exact` says for every run when the bytes of a response are what the engine wrote.
-/

namespace BpmAcquisition.Server

open CachedMemory Machine

abbrev Ram := CachedMemory UInt32 UInt32 UInt8

abbrev RamOp := CachedMemory.Op UInt32 UInt32 UInt8

def dcacheBaseaddr : UInt32 := 0xC0000000
def dcacheHighaddr : UInt32 := 0xCFFFFFFF

/-- Lines of four words. -/
def dcacheLine (a : UInt32) : Option UInt32 :=
  if dcacheBaseaddr ≤ a ∧ a ≤ dcacheHighaddr then some (a >>> 4) else none

/-- What happens to memory meanwhile: an engine writes to its buffer, a line is evicted, some
address is read. -/
inductive Action where
  | dma (ch : Channel) (a : UInt32) (v : UInt8)
  | evict (l : UInt32)
  | read (a : UInt32)

-- An engine that was found idle writes nothing before its next transfer.
def Action.ops (idle : Option Channel) : Action → List RamOp
  | .dma ch a v => if InBuffer ch a ∧ idle ≠ some ch then [.device a v] else []
  | .evict l => [.evict l]
  | .read a => [.fill a]

def storeBytes : UInt32 → List UInt8 → List RamOp
  | _, [] => []
  | a, v :: vs => .store a v :: storeBytes (a + 1) vs

/-- The stores of an effect; the processor is little-endian. -/
def Effect.ops : Effect → List RamOp
  | .sprintf buf text => storeBytes buf (text.toList.map (fun c => UInt8.ofNat c.toNat) ++ [0])
  | .memcpy buf value => storeBytes buf (Bytes.little 4 value.toNat)
  | _ => []

/-- What one round of the response loop meets: the drivers, the network, and what happens to
memory while the request is handled and before each byte of the response is copied. -/
structure Turn where
  driver : Driver
  lwipSend : Nat → Int
  before : List Action
  during : Nat → List Action

namespace Turn

variable (turn : Turn)

def idleRam (ram : Ram) : Ram := run (apply dcacheLine) ram (turn.before.flatMap (·.ops none))

/-- What happens to memory before byte `i` of the response is copied, the bytes before included. -/
def copied (idle : Option Channel) (buf : UInt32) (i : Nat) : List RamOp :=
  (List.range i).flatMap fun j => (turn.during j).flatMap (·.ops idle) ++ [.fill (buf + UInt32.ofNat j)]

def untilByte (idle : Option Channel) (buf : UInt32) (i : Nat) : List RamOp :=
  turn.copied idle buf i ++ (turn.during i).flatMap (·.ops idle)

/-- What the copy of a response at `buf` reads, from `buf` upwards. -/
def view (ram : Ram) (idle : Option Channel) (buf : UInt32) : Memory := fun a =>
  look dcacheLine (run (apply dcacheLine) ram (turn.untilByte idle buf (a - buf).toNat)) a

end Turn

structure Station where
  server : Application
  ram : Ram

inductive Happening where
  | world (action : Action)
  | receive (c : Nat) (command : CommandPacket)
  | respond (c : Nat) (turn : Turn)
  | hangUp (c : Nat)

def Station.handle (s : Station) (c : Nat) (turn : Turn) : Int × ResponsePacket × Board :=
  handleRequest turn.driver (s.server.connection c).command (s.server.connection c).response s.server.board

/-- The engine that `get_samples` has found idle. -/
def Station.idle (s : Station) (c : Nat) (turn : Turn) : Option Channel :=
  if (s.handle c turn).1 < 0 then none
  else
    match CommandType.ofCode (s.server.connection c).command.comm with
    | some .fmc150GetSamples => some .adc
    | some .ddcGetSamples => some .ddc
    | _ => none

/-- Memory when the request is handled, with the texts that were written. -/
def Station.handledRam (s : Station) (c : Nat) (turn : Turn) : Ram :=
  run (apply dcacheLine) (turn.idleRam s.ram)
    (((s.handle c turn).2.2.log.drop s.server.board.log.length).flatMap Effect.ops)

def Station.view (s : Station) (c : Nat) (turn : Turn) : Memory :=
  turn.view (s.handledRam c turn) (s.idle c turn) (s.handle c turn).2.1.buf

/-- The bytes that are read for the response; a text is read up to its zero. -/
def Station.readLength (s : Station) (c : Nat) (turn : Turn) : Nat :=
  let r := (s.handle c turn).2.1
  if Sendable r then
    if isData r.comm then r.num.toNat else (cString (s.view c turn) addressSpace r.buf).length + 1
  else 0

def happen (s : Station) : Happening → Station
  | .world action => { s with ram := run (apply dcacheLine) s.ram (action.ops none) }
  | .receive c command => { s with server := serve s.server (.receive c command) }
  | .respond c turn =>
    if (s.server.connection c).phase = .responding then
      { server := serve s.server (.respond c ⟨turn.driver, s.view c turn, turn.lwipSend⟩)
        ram := run (apply dcacheLine) (s.handledRam c turn)
          (turn.copied (s.idle c turn) (s.handle c turn).2.1.buf (s.readLength c turn)) }
    else s
  | .hangUp c => { s with server := serve s.server (.hangUp c) }

def Station.boot (command : Nat → CommandPacket) (response : Nat → ResponsePacket) (main : UInt32 → UInt8) : Station :=
  ⟨Application.boot command response, ⟨main, fun _ => none, fun _ => none⟩⟩

/-- Every byte of the samples in a response is what the engine wrote there last before it was
found idle. -/
def PayloadOk (s : Station) : Happening → Prop
  | .respond c turn => (s.server.connection c).phase = .responding → ∀ ch : Channel,
      CommandType.ofCode (s.server.connection c).command.comm = some ch.getCommand → 0 ≤ (s.handle c turn).1 →
      ∀ i v, (memcpy (s.view c turn) (s.handle c turn).2.1.buf (s.handle c turn).2.1.num.toNat)[i]? = some v →
        (turn.idleRam s.ram).device ((s.handle c turn).2.1.buf + UInt32.ofNat i) = some v
  | _ => True

/-- Where a request for samples is answered: memory still has what the engine wrote last to the
samples that are due, and what the cache holds of them agrees or is evicted before it is copied. -/
def SamplesCurrent (s : Station) : Happening → Prop
  | .respond c turn => (s.server.connection c).phase = .responding → ∀ ch : Channel,
      CommandType.ofCode (s.server.connection c).command.comm = some ch.getCommand →
      (s.server.connection c).command.val.toNat ≤ ch.maxSamples.toNat → Delivers ch turn.driver s.server.board →
      let slice := ((s.server.board.cursor ch).next ch.limit (s.server.connection c).command.val.toNat).1
      let start := ch.attr.memStartAddr + UInt32.ofNat (slice.start * ch.width)
      ∀ i, i < slice.size * ch.width →
        Current dcacheLine (turn.idleRam s.ram) (turn.untilByte (some ch) start i) (start + UInt32.ofNat i)
  | _ => True

/-! ### A turn for samples -/

theorem ops_quiet {es : List Effect} (none : ∀ e ∈ es, e.target = none) : es.flatMap Effect.ops = [] := by
  rw [List.flatMap_eq_nil_iff]
  intro e member
  have target := none e member
  cases e with
  | sprintf => cases target
  | memcpy => cases target
  | out32 => rfl
  | simpleTransfer => rfl

theorem inBuffer_unique {ch ch' : Channel} {a : UInt32} (inside : InBuffer ch a) (inside' : InBuffer ch' a) :
    ch' = ch := by
  have adc : Channel.adc.attr.memStartAddr.toNat + Channel.adc.memSize.toNat ≤ Channel.ddc.attr.memStartAddr.toNat := by
    decide
  unfold InBuffer at inside inside'
  cases ch <;> cases ch' <;> first | rfl | omega

theorem ops_leave {ch : Channel} {a : UInt32} (inside : InBuffer ch a) (action : Action) :
    ∀ op ∈ action.ops (some ch), op.Leaves a := by
  intro op member
  cases action with
  | dma ch' a' v =>
    by_cases happens : InBuffer ch' a' ∧ some ch ≠ some ch'
    · rw [Action.ops, if_pos happens, List.mem_singleton] at member
      subst member
      rintro rfl
      exact happens.2 (congrArg some (inBuffer_unique inside happens.1).symm)
    · rw [Action.ops, if_neg happens] at member
      cases member
  | evict l =>
    rw [Action.ops, List.mem_singleton] at member
    subst member
    trivial
  | read a' =>
    rw [Action.ops, List.mem_singleton] at member
    subst member
    trivial

theorem untilByte_leaves {ch : Channel} {a : UInt32} (inside : InBuffer ch a) (turn : Turn) (buf : UInt32) (i : Nat) :
    ∀ op ∈ turn.untilByte (some ch) buf i, op.Leaves a := by
  have during : ∀ j, ∀ op ∈ (turn.during j).flatMap (·.ops (some ch)), op.Leaves a := by
    intro j op member
    obtain ⟨action, -, happens⟩ := List.mem_flatMap.mp member
    exact ops_leave inside action op happens
  intro op member
  rcases List.mem_append.mp member with copied | last
  · obtain ⟨j, -, step⟩ := List.mem_flatMap.mp copied
    rcases List.mem_append.mp step with other | fill
    · exact during j op other
    · rw [List.mem_singleton] at fill
      subst fill
      trivial
  · exact during i op last

theorem handle_samples {s : Station} {c : Nat} (turn : Turn) {ch : Channel} (sound : s.server.Sound)
    (busy : (s.server.connection c).phase = .responding)
    (get : CommandType.ofCode (s.server.connection c).command.comm = some ch.getCommand) :
    (0 ≤ (s.handle c turn).1 ↔
        (s.server.connection c).command.val.toNat ≤ ch.maxSamples.toNat ∧ Delivers ch turn.driver s.server.board) ∧
      (0 ≤ (s.handle c turn).1 →
        (s.handle c turn).2.1 =
            ch.packet ((s.server.board.cursor ch).next ch.limit (s.server.connection c).command.val.toNat).1 ∧
          s.handledRam c turn = turn.idleRam s.ram ∧ s.idle c turn = some ch) := by
  have asked := sound.asked c busy
  have some := get_positive get asked
  have handling : Handling turn.driver (s.server.connection c).command (s.server.connection c).response
      s.server.board (s.handle c turn) := handleRequest_handling sound.board asked
  have quiet : 0 ≤ (s.handle c turn).1 →
      (s.server.connection c).command.val.toNat ≤ ch.maxSamples.toNat ∧ Delivers ch turn.driver s.server.board ∧
        Quiet s.server.board (s.handle c turn).2.2 := by
    generalize s.handle c turn = result at handling ⊢
    cases handling with
    | unhandled => exact fun passed => absurd passed (by decide : ¬ 0 ≤ error)
    | delivered _ get' bound delivers _ _ quiet =>
      have same := getCommand_unique get get'
      subst same
      exact fun _ => ⟨bound, delivers, quiet⟩
    | wrote _ failed => exact fun passed => absurd passed (Int.not_le.mpr (failed ch get).1)
  refine ⟨⟨fun passed => ⟨(quiet passed).1, (quiet passed).2.1⟩, fun ok => ?_⟩, fun passed => ?_⟩
  · obtain ⟨r', b', equation, answers⟩ :=
      handleRequest_answers ok.2 sound.board ⟨get, rfl, some, ok.1⟩ (s.server.connection c).response
    obtain ⟨-, -, packet⟩ := next_packet ch some (s.server.board.cursor ch)
    rw [← answers.packet] at packet
    have status : (s.handle c turn).1 = asInt r'.num := congrArg Prod.fst equation
    rw [status, asInt_eq (by omega)]
    exact Int.natCast_nonneg _
  · obtain ⟨bound, delivers, es, log, none⟩ := quiet passed
    obtain ⟨r', b', equation, answers⟩ :=
      handleRequest_answers delivers sound.board ⟨get, rfl, some, bound⟩ (s.server.connection c).response
    refine ⟨(congrArg (·.2.1) equation).trans answers.packet, ?_, ?_⟩
    · unfold Station.handledRam
      rw [log, List.drop_left, ops_quiet none]
      rfl
    · unfold Station.idle
      rw [if_neg (Int.not_lt.mpr passed), get]
      cases ch <;> rfl

structure Station.Sound (s : Station) : Prop where
  server : s.server.Sound
  ram : Explained dcacheLine s.ram

theorem happen_sound (s : Station) (e : Happening) (sound : s.Sound) : (happen s e).Sound := by
  obtain ⟨server, ram⟩ := sound
  cases e with
  | world action => exact ⟨server, run_explained _ ram⟩
  | receive c command => exact ⟨serve_sound s.server (.receive c command) server, ram⟩
  | hangUp c => exact ⟨serve_sound s.server (.hangUp c) server, ram⟩
  | respond c turn =>
    by_cases busy : (s.server.connection c).phase = .responding
    · rw [happen, if_pos busy]
      exact ⟨serve_sound s.server (.respond c ⟨turn.driver, s.view c turn, turn.lwipSend⟩) server,
        run_explained _ (run_explained _ (run_explained _ ram))⟩
    · rw [happen, if_neg busy]
      exact ⟨server, ram⟩

theorem memcpy_getElem? (memory : Memory) (p : UInt32) (n i : Nat) :
    (memcpy memory p n)[i]? = if i < n then some (memory (p + UInt32.ofNat i)) else none := by
  unfold memcpy
  rw [List.getElem?_map]
  by_cases within : i < n
  · rw [List.getElem?_range within, if_pos within]
    rfl
  · rw [if_neg within, List.getElem?_eq_none (by rw [List.length_range]; omega)]
    rfl

theorem byte_small {ch : Channel} {n i : Nat} {c : Cursor} (within : i < (c.next ch.limit n).1.size * ch.width) :
    i < 2 ^ 32 := by
  have packet := Nat.mul_le_mul_right ch.width (Cursor.next_size_le n c ch.limit_positive)
  rw [ch.limit_bytes] at packet
  omega

theorem slice_inBuffer {b : Board} (valid : b.Valid) (ch : Channel) {n : Nat} (asked : 0 < n)
    (bound : n ≤ ch.maxSamples.toNat) {i : Nat}
    (within : i < ((b.cursor ch).next ch.limit n).1.size * ch.width) :
    InBuffer ch ((ch.packet ((b.cursor ch).next ch.limit n).1).buf + UInt32.ofNat i) := by
  obtain ⟨read, below⟩ := Cursor.next_valid ch.limit asked (valid ch).1
  have count : ((b.cursor ch).next ch.limit n).2.count ≤ ch.maxSamples.toNat :=
    Nat.le_trans below (Nat.max_le.mpr ⟨(valid ch).2, bound⟩)
  have position := Nat.mul_le_mul_right ch.width (Nat.le_trans read count)
  have split := congrArg (· * ch.width) (Cursor.next_read ch.limit n (b.cursor ch))
  simp only [Nat.add_mul] at split
  have capture := ch.capture_bytes
  have fits := ch.buffer_fits
  have first : (UInt32.ofNat (((b.cursor ch).next ch.limit n).1.start * ch.width)).toNat =
      ((b.cursor ch).next ch.limit n).1.start * ch.width := UInt32.toNat_ofNat_of_lt (by show _ < 2 ^ 32; omega)
  have offset : (UInt32.ofNat i).toNat = i := UInt32.toNat_ofNat_of_lt (by show _ < 2 ^ 32; omega)
  have buf : (ch.packet ((b.cursor ch).next ch.limit n).1).buf.toNat =
      ch.attr.memStartAddr.toNat + ((b.cursor ch).next ch.limit n).1.start * ch.width := by
    unfold Channel.packet
    rw [toNat_add_of_lt (by omega), first]
  unfold InBuffer
  rw [toNat_add_of_lt (by omega), offset, buf]
  omega

theorem byte_current {s : Station} {c : Nat} {turn : Turn} {ch : Channel} {r : ResponsePacket}
    (explained : Explained dcacheLine s.ram) (packet : (s.handle c turn).2.1 = r)
    (ram : s.handledRam c turn = turn.idleRam s.ram) (idle : s.idle c turn = some ch) {i : Nat}
    (small : i < 2 ^ 32) (inside : InBuffer ch (r.buf + UInt32.ofNat i)) :
    (turn.idleRam s.ram).device (r.buf + UInt32.ofNat i) = some (s.view c turn (r.buf + UInt32.ofNat i)) ↔
      Current dcacheLine (turn.idleRam s.ram) (turn.untilByte (some ch) r.buf i) (r.buf + UInt32.ofNat i) := by
  have offset : (r.buf + UInt32.ofNat i - r.buf).toNat = i := by
    rw [UInt32.add_comm, UInt32.add_sub_cancel]
    exact UInt32.toNat_ofNat_of_lt small
  unfold Station.view Turn.view
  rw [packet, ram, idle, offset]
  exact current_iff (run_explained _ explained) (untilByte_leaves inside turn r.buf i)

theorem payload_current (s : Station) (e : Happening) (sound : s.Sound) : PayloadOk s e ↔ SamplesCurrent s e := by
  cases e with
  | world => exact Iff.rfl
  | receive => exact Iff.rfl
  | hangUp => exact Iff.rfl
  | respond c turn =>
    apply imp_congr_right
    intro busy
    apply forall_congr'
    intro ch
    apply imp_congr_right
    intro get
    obtain ⟨succeeds, answer⟩ := handle_samples turn sound.server busy get
    rw [succeeds, and_imp]
    apply imp_congr_right
    intro bound
    apply imp_congr_right
    intro delivers
    obtain ⟨packet, ram, idle⟩ := answer (succeeds.mpr ⟨bound, delivers⟩)
    have asked := get_positive get (sound.server.asked c busy)
    have num := packet_num (Cursor.next_size_le (s.server.connection c).command.val.toNat (s.server.board.cursor ch)
      ch.limit_positive)
    rw [packet, num]
    simp only [memcpy_getElem?]
    apply forall_congr'
    intro i
    by_cases within : i < ((s.server.board.cursor ch).next ch.limit
        (s.server.connection c).command.val.toNat).1.size * ch.width
    · have inside := slice_inBuffer sound.server.board ch asked bound within
      have current := byte_current sound.ram packet ram idle (byte_small within) inside
      simp only [within, if_true, forall_const, Option.some.injEq, forall_eq']
      exact current
    · simp only [within, if_false, false_implies, reduceCtorEq, implies_true]

/-- For every run of the station, with any commands, driver results, networks and evictions: all
bytes of all samples that are sent are what the DMA engine wrote there last exactly if, in every
turn that sends samples, memory still has what the engine wrote and the cache does not hold
something else. -/
theorem payload_exact (command : Nat → CommandPacket) (response : Nat → ResponsePacket) (main : UInt32 → UInt8)
    (es : List Happening) :
    Along happen PayloadOk (Station.boot command response main) es ↔
      Along happen SamplesCurrent (Station.boot command response main) es := by
  have start : (Station.boot command response main).Sound := by
    refine ⟨boot_sound command response, fun a v held => ?_⟩
    have nothing : cached dcacheLine (Station.boot command response main).ram a = none := by
      unfold cached Station.boot
      cases dcacheLine a <;> rfl
    rw [nothing] at held
    cases held
  exact along_iff_keeps happen_sound payload_current start _

theorem payload_device {s : Station} {c : Nat} {turn : Turn} (ch : Channel) {v : UInt8} {rest : List UInt8}
    (ok : PayloadOk s (.respond c turn)) (busy : (s.server.connection c).phase = .responding)
    (get : CommandType.ofCode (s.server.connection c).command.comm = some ch.getCommand) (passed : 0 ≤ (s.handle c turn).1)
    (payload : memcpy (s.view c turn) (s.handle c turn).2.1.buf (s.handle c turn).2.1.num.toNat = v :: rest) :
    (turn.idleRam s.ram).device (s.handle c turn).2.1.buf = some v := by
  have first := ok busy ch get passed 0 v (by rw [payload]; rfl)
  have here : (s.handle c turn).2.1.buf + UInt32.ofNat 0 = (s.handle c turn).2.1.buf := UInt32.add_zero _
  rw [here] at first
  exact first

/-- A turn in which the engine writes one sample of four bytes `v`; nothing is evicted. -/
def captureTurn (v : UInt8) : Turn where
  driver := workingEnv.driver
  lwipSend := workingEnv.lwipSend
  before := [.dma .adc ddr3DmaAdcBuffer v, .dma .adc (ddr3DmaAdcBuffer + 1) v, .dma .adc (ddr3DmaAdcBuffer + 2) v,
    .dma .adc (ddr3DmaAdcBuffer + 3) v]
  during _ := []

def freshStation : Station := Station.boot (fun _ => ⟨0, 0, 0, 0⟩) (fun _ => ⟨0, 0, 0⟩) (fun _ => 0)

def getOneTwice : List Happening :=
  [.receive 0 ⟨3, 0, 0, 1⟩, .respond 0 (captureTurn 1), .receive 0 ⟨3, 0, 0, 1⟩]

/-- The second request captures again, and the sample of the first capture is sent again. -/
theorem stale_sample_sent :
    let s := run happen freshStation getOneTwice
    let r := (s.handle 0 (captureTurn 9)).2.1
    memcpy (s.view 0 (captureTurn 9)) r.buf r.num.toNat = [1, 1, 1, 1] ∧
      ((captureTurn 9).idleRam s.ram).device r.buf = some 9 ∧
      ¬ Along happen PayloadOk freshStation (getOneTwice ++ [.respond 0 (captureTurn 9)]) := by
  have payload : memcpy ((run happen freshStation getOneTwice).view 0 (captureTurn 9))
      ((run happen freshStation getOneTwice).handle 0 (captureTurn 9)).2.1.buf
      ((run happen freshStation getOneTwice).handle 0 (captureTurn 9)).2.1.num.toNat = [1, 1, 1, 1] := by
    decide +kernel
  have written : ((captureTurn 9).idleRam (run happen freshStation getOneTwice).ram).device
      ((run happen freshStation getOneTwice).handle 0 (captureTurn 9)).2.1.buf = some 9 := by
    decide +kernel
  refine ⟨payload, written, fun along => ?_⟩
  rw [along_append] at along
  obtain ⟨-, ok, -⟩ := along
  have sent := payload_device .adc ok (by decide +kernel) (by decide +kernel) (by decide +kernel) payload
  rw [written] at sent
  exact absurd sent (by decide)

end BpmAcquisition.Server
