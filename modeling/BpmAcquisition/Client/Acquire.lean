import BpmAcquisition.Client.Reader
import BpmAcquisition.Server.Transfer

/-!
# Acquiring samples

`bpm_adc_ddc_acquire_data.m`: the command packet, the receive loop and the arrays it fills.
`acquire_exact` follows a sample from the word the hardware stores to the array element: for a
drained channel the arrays are the captured fields.
-/

namespace BpmAcquisition.Client

open Bytes Machine Server Slices

/-! ### Captured words -/

/-- A captured sample: the two channels of the ADC or the four values of the DDC. -/
inductive Sample where
  | adc (a b : BitVec 16)
  | ddc (sum x y z : BitVec 26)

inductive Field where
  | adcA | adcB | sum | posX | posY | posZ
deriving DecidableEq

namespace Sample

def channel : Sample → Channel
  | adc _ _ => .adc
  | ddc _ _ _ _ => .ddc

def dmaData : Sample → Nat
  | adc a b => (a ++ b).toNat
  | ddc sum x y z => (sum.signExtend 32 ++ x.signExtend 32 ++ y.signExtend 32 ++ z.signExtend 32).toNat

def bytes (s : Sample) : List UInt8 := little s.channel.width s.dmaData

def field : Sample → Field → Int
  | adc a _, .adcA => a.toInt
  | adc _ b, .adcB => b.toInt
  | ddc sum _ _ _, .sum => sum.toInt
  | ddc _ x _ _, .posX => x.toInt
  | ddc _ _ y _, .posY => y.toInt
  | ddc _ _ _ z, .posZ => z.toInt
  | _, _ => 0

end Sample

/-! ### The script -/

def getSamplesComm : Channel → UInt8
  | .adc => 3
  | .ddc => 7

/-- The packet with the number of samples in big-endian order. -/
def commandPacket (ch : Channel) (nrSamples : Nat) : List UInt8 :=
  [0, 0, 0, getSamplesComm ch, 0, 0, 0, 0, 0, 0, 0, 0] ++ (little 4 nrSamples).reverse

/-- The arrays that a channel fills, with the bytes of a sample they take, from 1 on; the
element type is the signed integer of that many bytes. -/
def layout : Channel → List (Field × Nat × Nat)
  | .adc => [(.adcA, 3, 4), (.adcB, 1, 2)]
  | .ddc => [(.sum, 13, 16), (.posX, 9, 12), (.posY, 5, 8), (.posZ, 1, 4)]

abbrev Arrays := Field → List Int

def typecast (bytes : List UInt8) : Int := (BitVec.ofNat (8 * bytes.length) (value bytes)).toInt

-- An assignment behind the end of an array extends it with zeros.
def assign (xs : List Int) (i : Nat) (v : Int) : List Int :=
  if i < xs.length then xs.set i v else xs ++ List.replicate (i - xs.length) 0 ++ [v]

/-- The body of the `for` loop, `i` from 0 on; for positions it stops before the scaling. -/
def storeSample (ch : Channel) (msgDataIn : List UInt8) (base : Nat) (arrays : Arrays) (i : Nat) : Arrays :=
  (layout ch).foldl (fun arrays (f, first, last) =>
    Function.update arrays f (assign (arrays f) (i + base)
      (typecast ((msgDataIn.drop (i * ch.width + (first - 1))).take (last - first + 1))))) arrays

-- Dividing a `uint32` rounds to the nearest.
def divide (x d : Nat) : Nat := (x + d / 2) / d

structure Acquisition where
  totalBytesReceived : Nat
  arrays : Arrays

def storePacket (ch : Channel) (a : Acquisition) (f : Frame) : Acquisition where
  totalBytesReceived := min (a.totalBytesReceived + f.validBytes.toNat) (2 ^ 32 - 1)
  arrays :=
    if f.msgType ≠ 1 then
      (List.range (divide f.validBytes.toNat ch.width)).foldl
        (storeSample ch f.payload (divide a.totalBytesReceived ch.width)) a.arrays
    else a.arrays

/-- The receive loop; it gives nothing while it waits for bytes, and a message ends it. -/
def receive (ch : Channel) (totalBytesToReceive : Nat) : Nat → Acquisition → List UInt8 → Option Acquisition
  | fuel, a, stream =>
    if a.totalBytesReceived < totalBytesToReceive then
      match fuel, readPacket stream with
      | fuel + 1, some (f, rest) =>
        if f.msgType = 1 then some (storePacket ch a f)
        else receive ch totalBytesToReceive fuel (storePacket ch a f) rest
      | _, _ => none
    else some a

def preallocated (nrSamples : Nat) : Arrays := fun _ => List.replicate nrSamples 0

-- Every packet takes bytes off the stream, so its length is enough.
def acquireData (ch : Channel) (nrSamples : Nat) (stream : List UInt8) : Option Acquisition :=
  receive ch (nrSamples * ch.width) stream.length ⟨0, preallocated nrSamples⟩ stream

/-! ### Fields in memory -/

theorem typecast_little (k n : Nat) : typecast (little k n) = (BitVec.ofNat (8 * k) n).toInt := by
  unfold typecast
  have bits : 256 ^ k = 2 ^ (8 * k) := by rw [Nat.pow_mul]
  rw [little_length, value_little, bits]
  congr 1
  apply BitVec.eq_of_toNat_eq
  simp only [BitVec.toNat_ofNat, Nat.mod_mod]

theorem typecast_bits {w lo k v start len : Nat} (x : BitVec v) (within : lo + k ≤ w) (first : start = 8 * lo)
    (size : len = 8 * k) :
    typecast (((little w x.toNat).drop lo).take k) = (x.extractLsb' start len).toInt := by
  subst first size
  have bits : 256 ^ lo = 2 ^ (8 * lo) := by rw [Nat.pow_mul]
  rw [little_slice within, typecast_little]
  congr 1
  apply BitVec.eq_of_toNat_eq
  rw [BitVec.toNat_ofNat, BitVec.extractLsb'_toNat, Nat.shiftRight_eq_div_pow, bits]

theorem signExtend_value (x : BitVec 26) : (x.signExtend 32).toInt = x.toInt :=
  BitVec.toInt_signExtend_of_le (by decide)

theorem field_bytes (s : Sample) {f : Field} {first last : Nat} (member : (f, first, last) ∈ layout s.channel) :
    typecast ((s.bytes.drop (first - 1)).take (last - first + 1)) = s.field f := by
  cases s with
  | adc a b =>
    simp only [Sample.channel, layout, List.mem_cons, Prod.mk.injEq, List.not_mem_nil, or_false] at member
    have word : ∀ (lo : Nat) (v : BitVec 16), lo + 2 ≤ 4 → (a ++ b).extractLsb' (8 * lo) 16 = v →
        typecast (((Sample.adc a b).bytes.drop lo).take 2) = v.toInt := fun lo v within bits => by
      rw [← bits]
      exact typecast_bits _ within rfl rfl
    rcases member with ⟨rfl, rfl, rfl⟩ | ⟨rfl, rfl, rfl⟩
    · exact word 2 a (by decide) BitVec.extractLsb'_append_eq_left
    · exact word 0 b (by decide) BitVec.extractLsb'_append_eq_right
  | ddc sum x y z =>
    simp only [Sample.channel, layout, List.mem_cons, Prod.mk.injEq, List.not_mem_nil, or_false] at member
    have word : ∀ (lo : Nat) (v : BitVec 26), lo + 4 ≤ 16 →
        (sum.signExtend 32 ++ x.signExtend 32 ++ y.signExtend 32 ++ z.signExtend 32).extractLsb' (8 * lo) 32 =
          v.signExtend 32 →
        typecast (((Sample.ddc sum x y z).bytes.drop lo).take 4) = v.toInt := fun lo v within bits => by
      rw [← signExtend_value, ← bits]
      exact typecast_bits _ within rfl rfl
    rcases member with ⟨rfl, rfl, rfl⟩ | ⟨rfl, rfl, rfl⟩ | ⟨rfl, rfl, rfl⟩ | ⟨rfl, rfl, rfl⟩
    · exact word 12 sum (by decide) (by
        rw [BitVec.extractLsb'_append_eq_of_le (by decide), BitVec.extractLsb'_append_eq_of_le (by decide)]
        exact BitVec.extractLsb'_append_eq_left)
    · exact word 8 x (by decide) (by
        rw [BitVec.extractLsb'_append_eq_of_le (by decide), BitVec.extractLsb'_append_eq_of_le (by decide)]
        exact BitVec.extractLsb'_append_eq_right)
    · exact word 4 y (by decide) (by
        rw [BitVec.extractLsb'_append_eq_of_le (by decide)]
        exact BitVec.extractLsb'_append_eq_right)
    · exact word 0 z (by decide) BitVec.extractLsb'_append_eq_right

/-! ### Filling the arrays -/

theorem assign_next (xs : List Int) (k : Nat) (v : Int) :
    assign (xs ++ List.replicate (k + 1) 0) xs.length v = xs ++ [v] ++ List.replicate k 0 := by
  have within : xs.length < (xs ++ List.replicate (k + 1) (0 : Int)).length := by simp
  unfold assign
  rw [if_pos within, List.set_append_right _ _ (Nat.le_refl _), Nat.sub_self, List.replicate_succ,
    List.set_cons_zero, List.append_assoc]
  rfl

/-- The channel's arrays hold the fields of `done`, and `k` elements are still zero. -/
def Filled (ch : Channel) (done : List Sample) (k : Nat) (arrays : Arrays) : Prop :=
  ∀ f first last, (f, first, last) ∈ layout ch → arrays f = done.map (·.field f) ++ List.replicate k 0

theorem layout_within {ch : Channel} {f : Field} {first last : Nat} (member : (f, first, last) ∈ layout ch) :
    last - first + 1 ≤ ch.width - (first - 1) := by
  cases ch <;> simp only [layout, List.mem_cons, Prod.mk.injEq, List.not_mem_nil, or_false] at member
  · rcases member with ⟨-, rfl, rfl⟩ | ⟨-, rfl, rfl⟩ <;> decide
  · rcases member with ⟨-, rfl, rfl⟩ | ⟨-, rfl, rfl⟩ | ⟨-, rfl, rfl⟩ | ⟨-, rfl, rfl⟩ <;> decide

theorem storeSample_array {ch : Channel} {msgDataIn : List UInt8} {base i : Nat} {arrays : Arrays} {f : Field}
    {first last : Nat} (member : (f, first, last) ∈ layout ch) :
    storeSample ch msgDataIn base arrays i f =
      assign (arrays f) (i + base)
        (typecast ((msgDataIn.drop (i * ch.width + (first - 1))).take (last - first + 1))) := by
  cases ch <;> simp only [layout, List.mem_cons, Prod.mk.injEq, List.not_mem_nil, or_false] at member
  · rcases member with ⟨rfl, rfl, rfl⟩ | ⟨rfl, rfl, rfl⟩ <;> rfl
  · rcases member with ⟨rfl, rfl, rfl⟩ | ⟨rfl, rfl, rfl⟩ | ⟨rfl, rfl, rfl⟩ | ⟨rfl, rfl, rfl⟩ <;> rfl

theorem storeSample_filled {ch : Channel} {done : List Sample} {s : Sample} {k i base : Nat} {msgDataIn : List UInt8}
    {arrays : Arrays} (filled : Filled ch done (k + 1) arrays) (kind : s.channel = ch)
    (index : i + base = done.length) (data : (msgDataIn.drop (i * ch.width)).take ch.width = s.bytes) :
    Filled ch (done ++ [s]) k (storeSample ch msgDataIn base arrays i) := by
  subst kind
  have value : ∀ f first last, (f, first, last) ∈ layout s.channel →
      typecast ((msgDataIn.drop (i * s.channel.width + (first - 1))).take (last - first + 1)) = s.field f := by
    intro f first last member
    rw [← field_bytes s member, ← data, List.drop_take, List.drop_drop, List.take_take,
      Nat.min_eq_left (layout_within member)]
  have stored : ∀ f first last, (f, first, last) ∈ layout s.channel →
      assign (arrays f) (i + base) (s.field f) = (done ++ [s]).map (·.field f) ++ List.replicate k 0 := by
    intro f first last member
    have length : i + base = (done.map (·.field f)).length := by rw [List.length_map, index]
    rw [filled f first last member, length, assign_next, List.map_append]
    rfl
  intro f first last member
  rw [← stored f first last member, ← value f first last member]
  exact storeSample_array member

theorem bytes_length {ch : Channel} {s : Sample} (kind : s.channel = ch) : s.bytes.length = ch.width := by
  rw [Sample.bytes, little_length, kind]

theorem uniform_bytes {ch : Channel} {ss : List Sample} (kind : ∀ s ∈ ss, s.channel = ch) :
    ∀ s ∈ ss, s.bytes.length = ch.width := fun s member => bytes_length (kind s member)

theorem block_slice {ch : Channel} {ss : List Sample} (kind : ∀ s ∈ ss, s.channel = ch) (a k : Nat) :
    ((ss.flatMap Sample.bytes).drop (a * ch.width)).take (k * ch.width) =
      ((ss.drop a).take k).flatMap Sample.bytes := by
  rw [blocks_drop (uniform_bytes kind),
    blocks_take (uniform_bytes fun s member => kind s (List.mem_of_mem_drop member))]

/-- A packet stores the samples it carries behind those that are there. -/
theorem storePacket_filled {ch : Channel} {done ss : List Sample} {k base m : Nat} {arrays : Arrays}
    (filled : Filled ch done (ss.length + k) arrays) (kind : ∀ s ∈ ss, s.channel = ch) (index : base = done.length)
    (processed : m ≤ ss.length) :
    Filled ch (done ++ ss.take m) (ss.length - m + k)
      ((List.range m).foldl (storeSample ch (ss.flatMap Sample.bytes) base) arrays) := by
  induction m with
  | zero => simpa using filled
  | succ m ih =>
    have within : m < ss.length := processed
    have before := ih (Nat.le_of_lt within)
    have count : ss.length - m + k = ss.length - (m + 1) + k + 1 := by omega
    have next : (((ss.flatMap Sample.bytes).drop (m * ch.width)).take ch.width) = ss[m].bytes := by
      have one := block_slice kind m 1
      rw [Nat.one_mul, List.drop_eq_getElem_cons within, List.take_succ_cons, List.take_zero] at one
      rw [one]
      simp
    rw [count] at before
    rw [List.range_succ, List.foldl_append, List.take_succ_eq_append_getElem within, ← List.append_assoc]
    refine storeSample_filled before (kind _ (List.getElem_mem within)) ?_ next
    rw [List.length_append, List.length_take, index]
    omega

/-! ### The receive loop -/

/-- The DMA buffer holds the words of the samples, low byte first. -/
def Holds (ch : Channel) (samples : List Sample) (memory : Memory) : Prop :=
  memcpy memory ch.attr.memStartAddr (samples.length * ch.width) = samples.flatMap Sample.bytes

theorem packet_frame {ch : Channel} {samples : List Sample} {memory : Memory} {slice : Slice}
    (holds : Holds ch samples memory) (kind : ∀ s ∈ samples, s.channel = ch) (limited : slice.size ≤ ch.limit)
    (within : slice.start + slice.size ≤ samples.length) :
    ∃ f : Frame, wireBytes memory (ch.packet slice) = writePacket f ∧ f.msgType ≠ 1 ∧
      f.validBytes.toNat = slice.size * ch.width ∧
      f.payload = ((samples.drop slice.start).take slice.size).flatMap Sample.bytes := by
  have bytes : slice.start * ch.width + slice.size * ch.width ≤ samples.length * ch.width := by
    rw [← Nat.add_mul]
    exact Nat.mul_le_mul_right _ within
  refine ⟨⟨(ch.packet slice).comm, (ch.packet slice).num,
    memcpy memory (ch.packet slice).buf (ch.packet slice).num.toNat, by simp [memcpy]⟩, ?_, ?_, packet_num limited, ?_⟩
  · rw [wireBytes, if_pos (packet_isData ch slice)]
    rfl
  · intro text
    have data := packet_isData ch slice
    rw [show (ch.packet slice).comm = 1 from text] at data
    exact absurd data (by decide)
  · show memcpy memory (ch.attr.memStartAddr + UInt32.ofNat (slice.start * ch.width)) _ = _
    rw [packet_num limited, memcpy_slice memory _ bytes, holds, block_slice kind]

theorem divide_exact (x : Nat) {d : Nat} (positive : 0 < d) : divide (x * d) d = x := by
  unfold divide
  rw [Nat.mul_comm, Nat.mul_add_div positive, Nat.div_eq_of_lt (Nat.div_lt_self positive (by decide)), Nat.add_zero]

theorem receive_done {ch : Channel} {samples : List Sample} {start fuel : Nat} {a : Acquisition}
    {stream : List UInt8} (whole : samples.length ≤ start) (received : a.totalBytesReceived = start * ch.width)
    (filled : Filled ch (samples.take start) (samples.length - start) a.arrays) :
    ∃ a', receive ch (samples.length * ch.width) fuel a stream = some a' ∧ Filled ch samples 0 a'.arrays := by
  have bytes := Nat.mul_le_mul_right ch.width whole
  have stops : ¬ a.totalBytesReceived < samples.length * ch.width := by omega
  rw [List.take_of_length_le whole, Nat.sub_eq_zero_of_le whole] at filled
  refine ⟨a, ?_, filled⟩
  unfold receive
  cases fuel <;> exact if_neg stops

theorem receive_packet {ch : Channel} {toReceive fuel : Nat} {a : Acquisition} {stream rest : List UInt8} {f : Frame}
    (running : a.totalBytesReceived < toReceive) (read : readPacket stream = some (f, rest)) (data : f.msgType ≠ 1) :
    receive ch toReceive (fuel + 1) a stream = receive ch toReceive fuel (storePacket ch a f) rest := by
  conv => lhs; unfold receive
  simp only [if_pos running, read, if_neg data]

theorem storePacket_step {ch : Channel} {samples : List Sample} {start size : Nat} {a : Acquisition} {f : Frame}
    (kind : ∀ s ∈ samples, s.channel = ch) (bound : samples.length ≤ ch.maxSamples.toNat)
    (within : start + size ≤ samples.length) (received : a.totalBytesReceived = start * ch.width)
    (filled : Filled ch (samples.take start) (samples.length - start) a.arrays) (data : f.msgType ≠ 1)
    (num : f.validBytes.toNat = size * ch.width)
    (payload : f.payload = ((samples.drop start).take size).flatMap Sample.bytes) :
    (storePacket ch a f).totalBytesReceived = (start + size) * ch.width ∧
      Filled ch (samples.take (start + size)) (samples.length - (start + size)) (storePacket ch a f).arrays := by
  have bytes := Nat.mul_le_mul_right ch.width within
  have small := Nat.lt_of_le_of_lt (Nat.mul_le_mul_right ch.width bound) ch.maxSamples_small
  have carried : ((samples.drop start).take size).length = size := by
    rw [List.length_take, List.length_drop]
    omega
  have done : start = (samples.take start).length := by
    rw [List.length_take]
    omega
  constructor
  · unfold storePacket
    rw [received, num, ← Nat.add_mul]
    exact Nat.min_eq_left (by omega)
  · unfold storePacket
    rw [if_pos data, num, received, divide_exact _ ch.width_positive, divide_exact _ ch.width_positive, payload]
    have count : samples.length - start = ((samples.drop start).take size).length + (samples.length - (start + size)) := by
      omega
    rw [count] at filled
    have result := storePacket_filled filled
      (fun s member => kind s (List.mem_of_mem_drop (List.mem_of_mem_take member))) done (Nat.le_of_eq carried.symm)
    rw [carried, Nat.sub_self, Nat.zero_add, List.take_take, Nat.min_self, ← List.take_add] at result
    exact result

/-- The loop over packets with consecutive slices of the captured samples fills the arrays. -/
theorem receive_slices {ch : Channel} {samples : List Sample} {slices : List Slice} {replies : List Reply}
    {start fuel : Nat} {a : Acquisition} (kind : ∀ s ∈ samples, s.channel = ch)
    (bound : samples.length ≤ ch.maxSamples.toNat) (packets : replies.map (·.packet) = slices.map ch.packet)
    (wires : ∀ r ∈ replies, ∃ memory, Holds ch samples memory ∧ r.wire = wireBytes memory r.packet)
    (consecutive : Consecutive start slices) (whole : start + total slices = samples.length)
    (limited : ∀ s ∈ slices, s.size ≤ ch.limit) (received : a.totalBytesReceived = start * ch.width)
    (filled : Filled ch (samples.take start) (samples.length - start) a.arrays) (enough : replies.length ≤ fuel) :
    ∃ a', receive ch (samples.length * ch.width) fuel a (replies.flatMap (·.wire)) = some a' ∧
      Filled ch samples 0 a'.arrays := by
  induction slices generalizing replies start fuel a with
  | nil =>
    have done : start = samples.length := whole
    exact receive_done (Nat.le_of_eq done.symm) received filled
  | cons slice rest ih =>
    cases replies with
    | nil => simp at packets
    | cons r replies =>
      simp only [List.map_cons, List.cons.injEq] at packets
      obtain ⟨first, later⟩ := packets
      obtain ⟨begins, consecutive⟩ := consecutive
      obtain ⟨memory, holds, wire⟩ := wires r List.mem_cons_self
      rw [total_cons] at whole
      subst begins
      obtain ⟨f, written, data, num, payload⟩ :=
        packet_frame holds kind (limited slice List.mem_cons_self) (by omega)
      by_cases more : slice.start < samples.length
      case neg => exact receive_done (Nat.le_of_not_lt more) received filled
      have running : a.totalBytesReceived < samples.length * ch.width := by
        rw [received]
        exact Nat.mul_lt_mul_of_pos_right more ch.width_positive
      cases fuel with
      | zero => simp at enough
      | succ fuel =>
        have read : readPacket (r.wire ++ replies.flatMap (·.wire)) = some (f, replies.flatMap (·.wire)) := by
          rw [wire, first, written]
          exact readPacket_writePacket f _
        obtain ⟨received', filled'⟩ := storePacket_step kind bound (by omega) received filled data num payload
        obtain ⟨a', result, complete⟩ := ih later (fun r' member => wires r' (List.mem_cons_of_mem r member))
          consecutive (by omega) (fun s member => limited s (List.mem_cons_of_mem slice member)) received' filled'
          (Nat.le_of_succ_le_succ enough)
        refine ⟨a', ?_, complete⟩
        rw [List.flatMap_cons, receive_packet running read data]
        exact result

/-! ### From the captured words to the arrays -/

theorem unpacku32_toNat (b₀ b₁ b₂ b₃ : UInt8) : (unpacku32 b₀ b₁ b₂ b₃).toNat = value [b₃, b₂, b₁, b₀] := by
  have h₀ := b₀.toNat_lt
  have h₁ := b₁.toNat_lt
  have h₂ := b₂.toNat_lt
  have h₃ := b₃.toNat_lt
  have s₀ : b₀.toNat <<< 24 % 2 ^ 32 = b₀.toNat <<< 24 := Nat.mod_eq_of_lt (by rw [Nat.shiftLeft_eq]; omega)
  have s₁ : b₁.toNat <<< 16 % 2 ^ 32 = b₁.toNat <<< 16 := Nat.mod_eq_of_lt (by rw [Nat.shiftLeft_eq]; omega)
  have s₂ : b₂.toNat <<< 8 % 2 ^ 32 = b₂.toNat <<< 8 := Nat.mod_eq_of_lt (by rw [Nat.shiftLeft_eq]; omega)
  simp only [unpacku32, UInt32.toNat_or, UInt32.toNat_shiftLeft, UInt8.toNat_toUInt32]
  show (b₀.toNat <<< 24 % 2 ^ 32 ||| b₁.toNat <<< 16 % 2 ^ 32 ||| b₂.toNat <<< 8 % 2 ^ 32 ||| b₃.toNat) = _
  have or₁ := shifted_or b₁.toNat (by omega : 2 ^ 8 * b₂.toNat + b₃.toNat < 2 ^ 16)
  have or₀ := shifted_or b₀.toNat
    (by omega : 2 ^ 16 * b₁.toNat + (2 ^ 8 * b₂.toNat + b₃.toNat) < 2 ^ 24)
  rw [s₀, s₁, s₂, Nat.or_assoc, Nat.or_assoc, shifted_or _ h₃, or₁, or₀]
  simp only [value, List.foldr]
  omega

theorem command_asks {ch : Channel} {n : Nat} (some : 0 < n) (bound : n ≤ ch.maxSamples.toNat) :
    ∃ get, prepareToReadCommand (commandPacket ch n) = .some get ∧ get.val.toNat = n ∧ Asks ch n get := by
  have small : n % 256 ^ 4 = n := Nat.mod_eq_of_lt (Nat.lt_trans (Nat.lt_of_le_of_lt bound ch.maxSamples_lt) (by decide))
  have val : (unpacku32 (UInt8.ofNat (n / 256 / 256 / 256)) (UInt8.ofNat (n / 256 / 256)) (UInt8.ofNat (n / 256))
      (UInt8.ofNat n)).toNat = n := by
    rw [unpacku32_toNat]
    exact (value_little 4 n).trans small
  refine ⟨_, rfl, val, ?_, val, some, bound⟩
  cases ch with
  | adc => exact (by decide : CommandType.ofCode (unpacku32 0 0 0 3) = .some .fmc150GetSamples)
  | ddc => exact (by decide : CommandType.ofCode (unpacku32 0 0 0 7) = .some .ddcGetSamples)

theorem replies_length {replies : List Reply} (wires : ∀ r ∈ replies, ∃ memory, r.wire = wireBytes memory r.packet) :
    replies.length ≤ (replies.flatMap (·.wire)).length := by
  induction replies with
  | nil => exact Nat.le_refl 0
  | cons r replies ih =>
    obtain ⟨memory, wire⟩ := wires r List.mem_cons_self
    have rest := ih fun r' member => wires r' (List.mem_cons_of_mem r member)
    have header : 8 ≤ (wireBytes memory r.packet).length := by
      simp only [wireBytes, List.length_append, packi32_length]
      omega
    rw [List.flatMap_cons, List.length_append, wire, List.length_cons]
    omega

/-- For both channels and all captured words: if the channel is drained when the command of the
script arrives, no other connection is served meanwhile and no call fails, then the arrays of
the script are, element by element, the captured fields. -/
theorem acquire_exact (command : Nat → CommandPacket) (response : Nat → ResponsePacket) (es : List Event)
    {ch : Channel} {c : Nat} {samples : List Sample} {envs : List Env} (fresh : ∀ e ∈ es, e.connection ≠ c)
    (drained : ((run serve (Application.boot command response) es).board.cursor ch).left = 0) (some : 0 < samples.length)
    (bound : samples.length ≤ ch.maxSamples.toNat) (kind : ∀ s ∈ samples, s.channel = ch)
    (works : ∀ env ∈ envs, env.Works) (holds : ∀ env ∈ envs, Holds ch samples env.memory)
    (enough : samples.length ≤ envs.length) :
    let s := run serve (Application.boot command response) es
    ∃ get a, prepareToReadCommand (commandPacket ch samples.length) = .some get ∧
      acquireData ch samples.length ((trace serve replies s (transfer c get envs)).flatMap (·.wire)) = .some a ∧
      ∀ f first last, (f, first, last) ∈ layout ch → a.arrays f = samples.map (·.field f) := by
  intro s
  obtain ⟨get, read, val, asks⟩ := command_asks some bound
  have sound : s.Sound := reachable_sound command response es
  have mine : s.connection c = .accepted (command c) (response c) := run_other fresh
  have idle : (s.connection c).phase = .receiving := by rw [mine]; rfl
  have clear : (s.connection c).error = false := by rw [mine]; rfl
  have serving : Serving ch samples.length samples.length
      ((s.update c ((s.connection c).receive get) s.board).connection c) := by
    rw [Application.connection_update, Function.update_self]
    exact receive_serving asks clear
  obtain ⟨packets, wires, -⟩ := loop_run serving sound.board works
  rw [Application.board_update] at packets
  obtain ⟨consecutive, whole⟩ :=
    Cursor.slices_drained ch.limit_positive some drained (sound.board ch).1 enough
  have start : Filled ch (samples.take 0) (samples.length - 0) (preallocated samples.length) := by
    intro f first last _
    rfl
  have stream : trace serve replies s (transfer c get envs) =
      trace serve replies (s.update c ((s.connection c).receive get) s.board) (envs.map (.respond c)) := by
    unfold transfer
    rw [trace_cons, serve_receiving get idle]
    rfl
  obtain ⟨a, result, filled⟩ := receive_slices (a := ⟨0, preallocated samples.length⟩) kind bound packets
    (fun r member => by
      obtain ⟨env, member', wire⟩ := wires r member
      exact ⟨env.memory, holds env member', wire⟩)
    consecutive (by rw [whole, Nat.zero_add]) (Cursor.slices_limited ch.limit_positive) (by simp) start
    (replies_length fun r member => by
      obtain ⟨env, -, wire⟩ := wires r member
      exact ⟨env.memory, wire⟩)
  refine ⟨get, a, read, ?_, ?_⟩
  · rw [stream]
    exact result
  · intro f first last member
    simpa using filled f first last member

def twoSamples : List Sample := [.adc 0x1234#16 0xFFFE#16, .adc 7 8]

def twoSamplesEnv : Env :=
  { workingEnv with
    memory := fun p => (twoSamples.flatMap Sample.bytes).getD (p - Channel.adc.attr.memStartAddr).toNat 0 }

theorem twoSamplesEnv_works : twoSamplesEnv.Works := ⟨workingEnv_works.driver, workingEnv_works.network⟩

theorem twoSamplesEnv_holds : Holds .adc twoSamples twoSamplesEnv.memory := by
  unfold Holds
  decide +kernel

theorem acquire_exact_two_samples :
    let s := run serve freshServer []
    ∃ get a, prepareToReadCommand (commandPacket .adc twoSamples.length) = some get ∧
      acquireData .adc twoSamples.length
          ((trace serve replies s (transfer 0 get [twoSamplesEnv, twoSamplesEnv])).flatMap (·.wire)) = some a ∧
      ∀ f first last, (f, first, last) ∈ layout .adc → a.arrays f = twoSamples.map (·.field f) :=
  acquire_exact _ _ [] (by simp) (by decide) (by decide) (by decide) (by simp [twoSamples, Sample.channel])
    (by simp [twoSamplesEnv_works]) (by simp [twoSamplesEnv_holds]) (by decide)

end BpmAcquisition.Client
