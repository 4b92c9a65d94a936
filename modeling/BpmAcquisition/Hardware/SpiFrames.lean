import BpmAcquisition.Hardware.SpiDevice

/-!
# The frames of the serial machines

What the shift register gives out, period by period, is the instruction that was loaded, and what it
holds at the end of a read is what the chip has sent: `framedSerializer` for the three devices that send one
frame for an access, `cdceSerializer` for `cdce72010`, which reads in a second frame.
-/

namespace BpmAcquisition.SpiCtrl

open StellarCmd ShiftRegister

theorem one_frame {taken : List (List Sample)} {bits : List (Option Bool)}
    (same : taken.map (·.map Prod.fst) = [bits]) : ∃ frame, taken = [frame] ∧ frame.map Prod.fst = bits := by
  obtain ⟨frame, rest, rfl, first, none⟩ := List.map_eq_cons_iff.mp same
  obtain rfl := List.map_eq_nil_iff.mp none
  exact ⟨frame, rfl, first⟩

theorem reads_one {β : Type} {reads : List Sample → Option β} {frame : List Sample} {y : Option β}
    (read : reads frame = y) : [frame].filterMap reads = y.toList := by
  cases y <;> simp [read]

/-! ### One frame for an access -/

section
variable {header dataBits : Nat}

/-- Most significant bit first; the data of a read are left to the chip. -/
def frameBits (header dataBits : Nat) (rw : Bool) (word : BitVec (header + dataBits)) : List (Option Bool) :=
  (List.range (header + dataBits)).map fun i => if rw && decide (header ≤ i) then none else some (word.getMsbD i)

def frameReads (header dataBits : Nat) (frame : List Sample) : Option (BitVec dataBits) :=
  if frame.any (·.1.isNone) then some (((frame.drop header).map Prod.snd).foldl left 0) else none

/-- A frame of which `bits` are gone. -/
structure Sending (header dataBits : Nat) (f : Fsm) (r : BitVec (header + dataBits)) (bits : List Sample)
    (word : BitVec (header + dataBits)) : Prop where
  short : bits.length < header + dataBits
  ncs : f.ncsInt = false
  shifting : f.shifting = true
  state : f.shState = if bits.length < header then .instruct else .dataIo
  counter : f.shCounter = (if bits.length < header then header else header + dataBits) - 1 - bits.length
  register : r = (bits.map Prod.snd).foldl left word
  gone : bits.map Prod.fst = (frameBits header dataBits f.readNWrite word).take bits.length

variable {f : Fsm} {r word : BitVec (header + dataBits)} {bits : List Sample}

theorem frameBits_length (rw : Bool) (word : BitVec (header + dataBits)) :
    (frameBits header dataBits rw word).length = header + dataBits := by
  simp [frameBits]

/-- The bit of the frame that is next is on the line. -/
theorem sending_sdo (sending : Sending header dataBits f r bits word) :
    (frameBits header dataBits f.readNWrite word)[bits.length]? =
      some (if f.shState == .dataIo && f.readNWrite then none else some r.msb) := by
  have short := sending.short
  have out : r.msb = word.getMsbD bits.length := by
    rw [sending.register, msb_lefts _ _ (by simpa using short), List.length_map]
  rw [out, sending.state]
  simp only [frameBits, List.getElem?_map, List.getElem?_range short, Option.map_some]
  by_cases inHeader : bits.length < header
  · simp [inHeader, Nat.not_le.mpr inHeader]
  · simp [inHeader, Nat.not_lt.mp inHeader, Bool.and_comm]

theorem sending_gone (sending : Sending header dataBits f r bits word) (sdi : Bool) :
    (bits ++ [((if f.shState == .dataIo && f.readNWrite then none else some r.msb), sdi)]).map Prod.fst =
      (frameBits header dataBits f.readNWrite word).take (bits.length + 1) := by
  rw [List.map_append, sending.gone, List.take_add_one, sending_sdo sending]
  rfl

theorem sending_register (sending : Sending header dataBits f r bits word) (sample : Sample) :
    left r sample.2 = ((bits ++ [sample]).map Prod.snd).foldl left word := by
  rw [sending.register, List.map_append, List.foldl_append]
  rfl

theorem machine_counts (within : f.shState = .instruct ∨ f.shState = .dataIo) (more : f.shCounter ≠ 0) (rw : Bool) :
    frameMachine header dataBits f false rw = { f with shCounter := f.shCounter - 1 } := by
  rcases within with state | state <;> simp only [frameMachine, state, if_neg more]

theorem machine_turns (state : f.shState = .instruct) (done : f.shCounter = 0) (rw : Bool) :
    frameMachine header dataBits f false rw = { f with shCounter := dataBits - 1, shState := .dataIo } := by
  simp only [frameMachine, state, if_pos done]

theorem machine_ends (state : f.shState = .dataIo) (done : f.shCounter = 0) (rw : Bool) :
    frameMachine header dataBits f false rw =
      { f with
        shCounter := header - 1
        shifting := false
        ncsInt := true
        shState := if f.readNWrite then .dataValid else .idle } := by
  simp only [frameMachine, state, if_pos done]

/-- In the header and in the data the counter says how many periods are left. -/
theorem sending_fsm (sending : Sending header dataBits f r bits word) (rw : Bool)
    (more : bits.length + 1 < header + dataBits) :
    (frameMachine header dataBits f false rw).ncsInt = false ∧
      (frameMachine header dataBits f false rw).shifting = true ∧
      (frameMachine header dataBits f false rw).readNWrite = f.readNWrite ∧
      (frameMachine header dataBits f false rw).shState = (if bits.length + 1 < header then .instruct else .dataIo) ∧
      (frameMachine header dataBits f false rw).shCounter =
        (if bits.length + 1 < header then header else header + dataBits) - 1 - (bits.length + 1) := by
  have state := sending.state
  have counter := sending.counter
  by_cases inHeader : bits.length < header
  · rw [if_pos inHeader] at state counter
    by_cases last : bits.length + 1 < header
    · have left : f.shCounter ≠ 0 := by omega
      rw [machine_counts (Or.inl state) left, if_pos last, if_pos last]
      refine ⟨sending.ncs, sending.shifting, rfl, state, ?_⟩
      show f.shCounter - 1 = _
      omega
    · have left : f.shCounter = 0 := by omega
      rw [machine_turns state left, if_neg last, if_neg last]
      refine ⟨sending.ncs, sending.shifting, rfl, rfl, ?_⟩
      show dataBits - 1 = _
      omega
  · rw [if_neg inHeader] at state counter
    have later : ¬ bits.length + 1 < header := by omega
    have left : f.shCounter ≠ 0 := by omega
    rw [machine_counts (Or.inr state) left, if_neg later, if_neg later]
    refine ⟨sending.ncs, sending.shifting, rfl, state, ?_⟩
    show f.shCounter - 1 = _
    omega

theorem sending_more (sending : Sending header dataBits f r bits word) (rw sdi : Bool)
    (more : bits.length + 1 < header + dataBits) :
    Sending header dataBits (frameMachine header dataBits f false rw) (left r sdi)
      (bits ++ [((if f.shState == .dataIo && f.readNWrite then none else some r.msb), sdi)]) word := by
  obtain ⟨ncs, shifting, kept, state, counter⟩ := sending_fsm sending rw more
  refine ⟨?_, ncs, shifting, ?_, ?_, sending_register sending (_, sdi), ?_⟩
  · simpa using more
  · simpa using state
  · simpa using counter
  · rw [kept, List.length_append]
    exact sending_gone sending sdi

theorem sending_last (positive : 0 < dataBits) (sending : Sending header dataBits f r bits word) (rw : Bool)
    (last : bits.length + 1 = header + dataBits) :
    (frameMachine header dataBits f false rw).ncsInt = true ∧
      (frameMachine header dataBits f false rw).shState = if f.readNWrite then .dataValid else .idle := by
  have state := sending.state
  have counter := sending.counter
  rw [if_neg (by omega)] at state counter
  rw [machine_ends state (by omega)]
  exact ⟨rfl, rfl⟩

/-- A whole frame reads its data, or nothing, by who has the line in the data. -/
theorem frame_reads (positive : 0 < dataBits) {frame : List Sample} {rw : Bool}
    (sent : frame.map Prod.fst = frameBits header dataBits rw word) :
    frameReads header dataBits frame =
      if rw then some (((frame.map Prod.snd).foldl left word).extractLsb' 0 dataBits) else none := by
  have length : frame.length = header + dataBits := by
    rw [← frameBits_length rw word, ← sent, List.length_map]
  have released : frame.any (·.1.isNone) = (frame.map Prod.fst).any (·.isNone) := by
    rw [List.any_map]
    rfl
  unfold frameReads
  rw [released, sent]
  cases rw with
  | false => simp [frameBits]
  | true =>
    have last : (frameBits header dataBits true word).any (·.isNone) = true := by
      simp only [frameBits, List.any_map, List.any_eq_true, List.mem_range]
      exact ⟨header, by omega, by simp⟩
    rw [if_pos last, if_pos rfl, low_lefts word _ (Nat.le_add_left _ _) (by rw [List.length_map]; omega),
      List.length_map, length, Nat.add_sub_cancel, List.map_drop]

theorem sending_start (ready : 0 < header) (f : Fsm) (rw : Bool) (word : BitVec (header + dataBits))
    (idle : f.shState = .idle) :
    Sending header dataBits (frameMachine header dataBits f true rw) word [] word ∧
      (frameMachine header dataBits f true rw).readNWrite = rw := by
  simp only [frameMachine, idle, if_true]
  refine ⟨⟨?_, rfl, rfl, ?_, ?_, rfl, ?_⟩, trivial⟩
  · simp only [List.length_nil]
    omega
  · simp [ready]
  · simp [ready]
  · simp

theorem frame_idle (f : Fsm) (rw : Bool) (idle : f.shState = .idle) :
    (frameMachine header dataBits f false rw).shState = .idle ∧
      (frameMachine header dataBits f false rw).ncsInt = true := by
  simp [frameMachine, idle]

theorem frame_valid (f : Fsm) (rw : Bool) (valid : f.shState = .dataValid) :
    (frameMachine header dataBits f false rw).shState = .idle ∧
      (frameMachine header dataBits f false rw).ncsInt = f.ncsInt := by
  simp [frameMachine, valid]

/-- A read leaves the data to the chip, so that only the header matters. -/
theorem frameBits_head {word' : BitVec (header + dataBits)} (same : ∀ k < header, word.getMsbD k = word'.getMsbD k) :
    frameBits header dataBits true word = frameBits header dataBits true word' := by
  unfold frameBits
  apply List.map_congr_left
  intro k _
  by_cases inHeader : header ≤ k
  · simp [inHeader]
  · simp [inHeader, same k (Nat.not_le.mp inHeader)]

/-- The frame goes on, or ends with what it has read. -/
theorem sending_step (positive : 0 < dataBits) (sending : Sending header dataBits f r bits word) (rw sdi : Bool) :
    let f' := frameMachine header dataBits f false rw
    let r' := if f.shifting then left r sdi else r
    let samples := bits ++ [((if f.shState == .dataIo && f.readNWrite then none else some r.msb), sdi)]
    f'.ncsInt = false ∧ f'.readNWrite = f.readNWrite ∧ Sending header dataBits f' r' samples word ∨
    f'.ncsInt = true ∧ samples.map Prod.fst = frameBits header dataBits f.readNWrite word ∧
      (f'.shState = .idle ∧ f.readNWrite = false ∧ frameReads header dataBits samples = none ∨
        f'.shState = .dataValid ∧ f.readNWrite = true ∧
          frameReads header dataBits samples = some (r'.extractLsb' 0 dataBits)) := by
  intro f' r' samples
  have moved : r' = left r sdi := if_pos sending.shifting
  rw [moved]
  by_cases more : bits.length + 1 < header + dataBits
  · obtain ⟨ncs, -, kept, -, -⟩ := sending_fsm sending rw more
    exact Or.inl ⟨ncs, kept, sending_more sending rw sdi more⟩
  · have last : bits.length + 1 = header + dataBits := by
      have := sending.short
      omega
    obtain ⟨ncs, state⟩ := sending_last positive sending rw last
    have whole : samples.map Prod.fst = frameBits header dataBits f.readNWrite word := by
      rw [sending_gone sending sdi, last, List.take_of_length_le (frameBits_length _ _).le]
    have read := frame_reads positive whole
    rw [← sending_register sending (_, sdi)] at read
    refine Or.inr ⟨ncs, whole, ?_⟩
    cases reading : f.readNWrite with
    | false =>
      rw [reading] at state read
      exact Or.inl ⟨state, rfl, read⟩
    | true =>
      rw [reading] at state read
      exact Or.inr ⟨state, rfl, read⟩

variable {instBits romBits : Nat} {addrGlobal addrMaxWr addrMaxRd : Address} {inst : Address → BitVec instBits}
  {frame : Instruction instBits dataBits → BitVec (header + dataBits)}
  {initFrame : BitVec romBits → BitVec (header + dataBits)} {lastInit : BitVec romBits → Bool}
  {controlReset : BitVec 3} {control : BitVec 3 → Option Word → BitVec 3}
  {status : (busy pin initDone : Bool) → BitVec 3 → Word}

/-- Within a frame and at its end the direction stays. -/
theorem frame_direction (f : Fsm) (rw : Bool) (within : f.shState ≠ .idle) :
    (frameMachine header dataBits f false rw).readNWrite = f.readNWrite := by
  unfold frameMachine
  split
  case h_1 idle => exact absurd idle within
  case h_2 => split <;> rfl
  case h_3 => split <;> rfl
  case h_4 => rfl
  case h_5 => rfl

theorem frame_deaf (f : Fsm) (start rw rw' : Bool) (within : f.shState ≠ .idle) :
    frameMachine header dataBits f start rw = frameMachine header dataBits f false rw' := by
  unfold frameMachine
  split
  case h_1 idle => exact absurd idle within
  all_goals rfl

theorem frame_end (f : Fsm) (rw : Bool) (within : f.shState = .instruct ∨ f.shState = .dataIo)
    (idle : (frameMachine header dataBits f false rw).shState = .idle) :
    (frameMachine header dataBits f false rw).shifting = false := by
  by_cases done : f.shCounter = 0
  · rcases within with state | state
    · rw [machine_turns state done] at idle
      cases idle
    · rw [machine_ends state done]
  · rw [machine_counts within done] at idle
    rcases within with state | state <;> exact absurd (state.symm.trans idle) (by decide)

def frameRank (dataBits : Nat) (f : Fsm) : Nat :=
  match f.shState with
  | .idle => 0
  | .instruct => f.shCounter + dataBits + 2
  | .dataIo => f.shCounter + 2
  | _ => 1

theorem frameRank_step (data_pos : 0 < dataBits) (f : Fsm) (rw : Bool) (within : f.shState ≠ .idle) :
    frameRank dataBits (frameMachine header dataBits f false rw) < frameRank dataBits f := by
  cases state : f.shState with
  | idle => exact absurd state within
  | instruct =>
    by_cases done : f.shCounter = 0
    · rw [machine_turns state done]
      simp only [frameRank, state]
      omega
    · rw [machine_counts (Or.inl state) done]
      simp only [frameRank, state]
      omega
  | dataIo =>
    by_cases done : f.shCounter = 0
    · rw [machine_ends state done]
      cases reading : f.readNWrite <;> simp [frameRank, state]
    · rw [machine_counts (Or.inr state) done]
      simp only [frameRank, state]
      omega
  | regWrite | startRegRead | regRead | dataValid => simp [frameRank, frameMachine, state]

theorem frameRank_sending {header dataBits : Nat} {f : Fsm} {r word : BitVec (header + dataBits)} {bits : List Sample}
    (sending : Sending header dataBits f r bits word) : frameRank dataBits f ≤ header + dataBits + 1 := by
  have short := sending.short
  have counter := sending.counter
  have state := sending.state
  by_cases inHeader : bits.length < header
  · rw [if_pos inHeader] at state counter
    simp only [frameRank, state]
    omega
  · rw [if_neg inHeader] at state counter
    simp only [frameRank, state]
    omega

def framedSerializer (header_pos : 0 < header) (data_pos : 0 < dataBits) (long : 4 ≤ header + dataBits) (apart : addrMaxRd < addrGlobal)
    (head : ∀ i data, ∀ k < header, (frame ⟨true, i, data⟩).getMsbD k = (frame ⟨true, i, 0⟩).getMsbD k) :
    Serializer (framed header dataBits instBits romBits addrGlobal addrMaxWr addrMaxRd inst frame initFrame lastInit
      controlReset control status) where
  bits := frameBits header dataBits false
  writeFrames addr w := [frameBits header dataBits false (frame ⟨false, inst addr, w.setWidth dataBits⟩)]
  readFrames addr := [frameBits header dataBits true (frame ⟨true, inst addr, 0⟩)]
  reads := frameReads header dataBits
  Sends f r bits frames :=
    ∃ word, Sending header dataBits f r bits word ∧ frames = [frameBits header dataBits f.readNWrite word]
  start_write f addr w idle := by
    obtain ⟨sending, rw⟩ := sending_start header_pos f false (frame ⟨false, inst addr, w.setWidth dataBits⟩) idle
    exact ⟨_, sending, congrArg (fun rw => [frameBits header dataBits rw _]) rw.symm⟩
  start_read f addr data idle := by
    obtain ⟨sending, rw⟩ := sending_start header_pos f true (frame ⟨true, inst addr, data⟩) idle
    refine ⟨_, sending, (congrArg (fun bits => [bits]) (frameBits_head (head _ data)).symm).trans ?_⟩
    exact congrArg (fun rw => [frameBits header dataBits rw _]) rw.symm
  active := by
    rintro f r bits frames ⟨word, sending, -⟩
    have state := sending.state
    constructor <;> rw [state] <;> split <;> simp
  sends_step := by
    rintro f r bits frames ⟨word, sending, rfl⟩ rw sdi
    rcases sending_step data_pos sending rw sdi with ⟨ncs, kept, more⟩ | ⟨ncs, whole, ends⟩
    · refine Or.inr (Or.inl ⟨sending.ncs, ncs, word, more, ?_⟩)
      exact congrArg (fun rw => [frameBits header dataBits rw word]) kept.symm
    · refine Or.inr (Or.inr ⟨sending.ncs, ncs, [], congrArg (fun bits => [bits]) whole.symm, ?_⟩)
      rcases ends with ⟨state, writing, read⟩ | ⟨state, reading, read⟩
      · exact Or.inl ⟨rfl, state, writing, read⟩
      · exact Or.inr (Or.inl ⟨rfl, state, reading, read⟩)
  idle_step := frame_idle
  valid_step := frame_valid
  select f rw idle := by
    show (frameMachine header dataBits f true rw).ncsInt = false ∧ (frameMachine header dataBits f true rw).readNWrite = rw
    simp [frameMachine, idle]
  start_word f word idle := by
    obtain ⟨sending, rw⟩ := sending_start header_pos f false word idle
    exact ⟨word, sending, congrArg (fun rw => [frameBits header dataBits rw word]) rw.symm⟩
  bits_length := frameBits_length false
  some_frame := by
    rintro f r samples ⟨word, -, none⟩
    cases none
  shifting := by
    rintro f r samples frames ⟨word, sending, -⟩ -
    exact sending.shifting
  idle_shifting f rw idle := by
    show (frameMachine header dataBits f false rw).shifting = false
    simp [frameMachine, idle]
  end_shifting := by
    rintro f r samples frames ⟨word, sending, -⟩ rw idle
    refine frame_end f rw ?_ idle
    rw [sending.state]
    split
    · exact Or.inl rfl
    · exact Or.inr rfl
  deaf := frame_deaf
  long := long
  direction := by
    rintro f r bits frames ⟨word, sending, -⟩ rw
    refine frame_direction f rw ?_
    rw [sending.state]
    split <;> simp
  apart := apart
  short := by
    rintro f r samples frames ⟨word, sending, -⟩ -
    exact sending.short
  rank := frameRank dataBits
  periods := header + dataBits + 1
  rank_step := frameRank_step data_pos
  rank_valid f valid := by simp [frameRank, valid]
  rank_sends := by
    rintro f r samples frames ⟨word, sending, -⟩
    exact frameRank_sending sending
  write_reads addr w taken same := by
    obtain ⟨frame, rfl, sent⟩ := one_frame same
    exact reads_one (frame_reads data_pos sent)
  read_reads addr taken same := by
    obtain ⟨frame, rfl, sent⟩ := one_frame same
    exact ⟨_, reads_one (frame_reads data_pos sent)⟩

end

theorem header_bits {a b : Nat} (x : BitVec a) (y y' : BitVec b) {k : Nat} (inHeader : k < a) :
    (x ++ y).getMsbD k = (x ++ y').getMsbD k := by
  rw [BitVec.getMsbD_append, BitVec.getMsbD_append, if_neg (Nat.not_le.mpr inHeader), if_neg (Nat.not_le.mpr inHeader)]

def adsSerializer : Serializer ads62p49 :=
  framedSerializer (by decide) (by decide) (by decide) (by decide) fun _ data _ inHeader => header_bits _ data 0 inHeader

def dacSerializer : Serializer dac3283 :=
  framedSerializer (by decide) (by decide) (by decide) (by decide) fun _ data _ inHeader => header_bits _ data 0 inHeader

def amcSerializer : Serializer amc7823 :=
  framedSerializer (by decide) (by decide) (by decide) (by decide) fun _ data _ inHeader => header_bits _ data 0 inHeader

/-! ### A second frame for a read -/

section
variable {n : Nat}

/-- Least significant bit first. -/
def lsbBits (word : BitVec n) : List (Option Bool) := (List.range n).map fun i => some (word.getLsbD i)

def answerBits (n : Nat) : List (Option Bool) := List.replicate n none

/-- The frame that the register goes out in, or the one that comes back, of which `bits` are gone. -/
structure Moving (f : Fsm) (r : BitVec n) (bits : List Sample) (word : BitVec n) : Prop where
  short : bits.length < n
  ncs : f.ncsInt = false
  shifting : f.shifting = true
  counter : f.shCounter = n - 1 - bits.length
  register : r = (bits.map Prod.snd).foldl right word

inductive TwoFrames (f : Fsm) (r : BitVec n) (bits : List Sample) : List (List (Option Bool)) → Prop
  | first (word : BitVec n) (state : f.shState = .regWrite) (moving : Moving f r bits word)
      (gone : bits.map Prod.fst = (lsbBits word).take bits.length) :
      TwoFrames f r bits (lsbBits word :: if f.readNWrite then [answerBits n] else [])
  | gap (state : f.shState = .startRegRead) (ncs : f.ncsInt = true) (reading : f.readNWrite = true) :
      TwoFrames f r bits [answerBits n]
  | second (word : BitVec n) (state : f.shState = .regRead) (reading : f.readNWrite = true) (moving : Moving f r bits word)
      (gone : bits.map Prod.fst = answerBits bits.length) : TwoFrames f r bits [answerBits n]

variable {f : Fsm} {r word : BitVec n} {bits : List Sample}

theorem lsbBits_length (word : BitVec n) : (lsbBits word).length = n := by simp [lsbBits]

theorem moving_lsb (moving : Moving f r bits word) : (lsbBits word)[bits.length]? = some (some (r.getLsbD 0)) := by
  have out : r.getLsbD 0 = word.getLsbD bits.length := by
    rw [moving.register, lsb_rights _ _ (by simpa using moving.short), List.length_map]
  rw [out]
  simp only [lsbBits, List.getElem?_map, List.getElem?_range moving.short, Option.map_some]

theorem moving_register (moving : Moving f r bits word) (sample : Sample) :
    right r sample.2 = ((bits ++ [sample]).map Prod.snd).foldl right word := by
  rw [moving.register, List.map_append, List.foldl_append]
  rfl

theorem two_counts (within : f.shState = .regWrite ∨ f.shState = .regRead) (more : f.shCounter ≠ 0) (rw : Bool) :
    twoFrameMachine n f false rw = { f with shCounter := f.shCounter - 1 } := by
  rcases within with state | state <;> simp only [twoFrameMachine, state, if_neg more]

theorem moving_more (within : f.shState = .regWrite ∨ f.shState = .regRead) (moving : Moving f r bits word)
    (rw : Bool) (sample : Sample) (more : bits.length + 1 < n) :
    (twoFrameMachine n f false rw).shState = f.shState ∧ (twoFrameMachine n f false rw).readNWrite = f.readNWrite ∧
      Moving (twoFrameMachine n f false rw) (right r sample.2) (bits ++ [sample]) word := by
  have counter := moving.counter
  have left : f.shCounter ≠ 0 := by omega
  rw [two_counts within left]
  refine ⟨rfl, rfl, ?_, moving.ncs, moving.shifting, ?_, moving_register moving sample⟩
  · simpa using more
  · show f.shCounter - 1 = _
    rw [List.length_append, List.length_singleton]
    omega

theorem moving_done (moving : Moving f r bits word) (last : bits.length + 1 = n) : f.shCounter = 0 := by
  have counter := moving.counter
  omega

end

def cdceReads (frame : List Sample) : Option (BitVec 28) :=
  if frame.any (·.1.isNone) then some (((frame.map Prod.snd).foldl right (0 : BitVec 32)).extractLsb' 4 28) else none

theorem cdceReads_out {frame : List Sample} {word : BitVec 32} (sent : frame.map Prod.fst = lsbBits word) :
    cdceReads frame = none := by
  have released : frame.any (·.1.isNone) = (frame.map Prod.fst).any (·.isNone) := by
    rw [List.any_map]
    rfl
  unfold cdceReads
  rw [released, sent]
  simp [lsbBits]

theorem cdceReads_in {frame : List Sample} (sent : frame.map Prod.fst = answerBits 32) (word : BitVec 32) :
    cdceReads frame = some (((frame.map Prod.snd).foldl right word).extractLsb' 4 28) := by
  have released : frame.any (·.1.isNone) = (frame.map Prod.fst).any (·.isNone) := by
    rw [List.any_map]
    rfl
  have full : (frame.map Prod.snd).length = 32 := by
    rw [List.length_map, ← List.length_map (f := Prod.fst), sent]
    rfl
  unfold cdceReads
  rw [released, sent, filled_rights word full]
  rfl

theorem cdce_start (f : Fsm) (rw : Bool) (word : BitVec 32) (idle : f.shState = .idle) :
    TwoFrames (twoFrameMachine 32 f true rw) word [] (lsbBits word :: if rw then [answerBits 32] else []) := by
  have started : twoFrameMachine 32 f true rw = ⟨.regWrite, 31, true, rw, false⟩ := by
    simp only [twoFrameMachine, idle, if_true]
  rw [started]
  exact .first word rfl ⟨by decide, rfl, rfl, rfl, rfl⟩ rfl

theorem cdce_step {f : Fsm} {r : BitVec 32} {bits : List Sample} {frames : List (List (Option Bool))}
    (sends : TwoFrames f r bits frames) (rw sdi : Bool) :
    let f' := twoFrameMachine 32 f false rw
    let r' := if f.shifting then right r sdi else r
    let samples := bits ++ [((if f.shState == .regRead then none else some (r.getLsbD 0)), sdi)]
    f.ncsInt = true ∧ f'.ncsInt = false ∧ TwoFrames f' r' [] frames ∨
    f.ncsInt = false ∧ f'.ncsInt = false ∧ TwoFrames f' r' samples frames ∨
    f.ncsInt = false ∧ f'.ncsInt = true ∧ ∃ rest, frames = samples.map Prod.fst :: rest ∧
      (rest = [] ∧ f'.shState = .idle ∧ f.readNWrite = false ∧ cdceReads samples = none ∨
        rest = [] ∧ f'.shState = .dataValid ∧ f.readNWrite = true ∧ cdceReads samples = some (r'.extractLsb' 4 28) ∨
        cdceReads samples = none ∧ TwoFrames f' r' [] rest) := by
  intro f' r' samples
  cases sends with
  | gap state ncs reading =>
    have started : f' = { f with shCounter := 31, shifting := true, ncsInt := false, shState := .regRead } := by
      simp only [f', twoFrameMachine, state]
    rw [started]
    exact Or.inl ⟨ncs, rfl, .second r' rfl reading ⟨by decide, rfl, rfl, rfl, rfl⟩ rfl⟩
  | first word state moving gone =>
    have moved : r' = right r sdi := if_pos moving.shifting
    have sample : samples = bits ++ [(some (r.getLsbD 0), sdi)] := by simp [samples, state]
    have sent : samples.map Prod.fst = (lsbBits word).take (bits.length + 1) := by
      rw [sample, List.map_append, gone, List.take_add_one, moving_lsb moving]
      rfl
    rw [moved]
    by_cases more : bits.length + 1 < 32
    · obtain ⟨kept, reading, next⟩ := moving_more (Or.inl state) moving rw (some (r.getLsbD 0), sdi) more
      rw [← reading]
      refine Or.inr (Or.inl ⟨moving.ncs, next.ncs, ?_⟩)
      rw [sample] at sent ⊢
      refine .first word (kept.trans state) next ?_
      rw [sent, List.length_append]
      rfl
    · have last : bits.length + 1 = 32 := by
        have := moving.short
        omega
      have done := moving_done moving last
      rw [last, List.take_of_length_le (lsbBits_length word).le] at sent
      have ended : f' =
          { f with
            shCounter := 31
            shifting := false
            ncsInt := true
            shState := if f.readNWrite then .startRegRead else .idle } := by
        simp only [f', twoFrameMachine, state, if_pos done]
      rw [ended]
      refine Or.inr (Or.inr ⟨moving.ncs, rfl, _, by rw [sent], ?_⟩)
      cases reading : f.readNWrite with
      | false => exact Or.inl ⟨rfl, rfl, rfl, cdceReads_out sent⟩
      | true => exact Or.inr (Or.inr ⟨cdceReads_out sent, .gap rfl rfl rfl⟩)
  | second word state reading moving gone =>
    have moved : r' = right r sdi := if_pos moving.shifting
    have sample : samples = bits ++ [(none, sdi)] := by simp [samples, state]
    have sent : samples.map Prod.fst = answerBits (bits.length + 1) := by
      rw [sample, List.map_append, gone]
      exact List.replicate_succ'.symm
    rw [moved]
    by_cases more : bits.length + 1 < 32
    · obtain ⟨kept, direction, next⟩ := moving_more (Or.inr state) moving rw (none, sdi) more
      refine Or.inr (Or.inl ⟨moving.ncs, next.ncs, ?_⟩)
      rw [sample] at sent ⊢
      refine .second word (kept.trans state) (direction.trans reading) next ?_
      rw [sent, List.length_append]
      rfl
    · have last : bits.length + 1 = 32 := by
        have := moving.short
        omega
      have done := moving_done moving last
      rw [last] at sent
      have ended : f' = { f with shCounter := 31, shifting := false, ncsInt := true, shState := .dataValid } := by
        simp only [f', twoFrameMachine, state, if_pos done]
      rw [ended]
      refine Or.inr (Or.inr ⟨moving.ncs, rfl, [], by rw [sent], Or.inr (Or.inl ⟨rfl, rfl, reading, ?_⟩)⟩)
      rw [cdceReads_in sent word, sample, ← moving_register moving (none, sdi)]

theorem two_direction (f : Fsm) (rw : Bool) (within : f.shState ≠ .idle) :
    (twoFrameMachine 32 f false rw).readNWrite = f.readNWrite := by
  unfold twoFrameMachine
  split
  case h_1 idle => exact absurd idle within
  case h_2 => split <;> rfl
  case h_3 => rfl
  case h_4 => split <;> rfl
  case h_5 => rfl
  case h_6 => rfl

def cdceFrames (rw : Bool) (inst : BitVec 4) (data : BitVec 28) : List (List (Option Bool)) :=
  lsbBits (data ++ inst) :: if rw then [answerBits 32] else []

theorem two_deaf (f : Fsm) (start rw rw' : Bool) (within : f.shState ≠ .idle) :
    twoFrameMachine 32 f start rw = twoFrameMachine 32 f false rw' := by
  unfold twoFrameMachine
  split
  case h_1 idle => exact absurd idle within
  all_goals rfl

theorem two_end {f : Fsm} {r : BitVec 32} {bits : List Sample} {frames : List (List (Option Bool))}
    (sends : TwoFrames f r bits frames) (rw : Bool) (idle : (twoFrameMachine 32 f false rw).shState = .idle) :
    (twoFrameMachine 32 f false rw).shifting = false := by
  cases sends with
  | gap state => exact absurd idle (by simp [twoFrameMachine, state])
  | first word state moving gone =>
    by_cases done : f.shCounter = 0
    · simp only [twoFrameMachine, state, if_pos done]
    · rw [two_counts (Or.inl state) done] at idle
      exact absurd (state.symm.trans idle) (by decide)
  | second word state reading moving gone =>
    by_cases done : f.shCounter = 0
    · simp only [twoFrameMachine, state, if_pos done]
    · rw [two_counts (Or.inr state) done] at idle
      exact absurd (state.symm.trans idle) (by decide)

/-- `regWrite` may be followed by the gap and a frame that reads. -/
def twoRank (n : Nat) (f : Fsm) : Nat :=
  match f.shState with
  | .idle => 0
  | .regWrite => f.shCounter + n + 3
  | .startRegRead => n + 2
  | .regRead => f.shCounter + 2
  | _ => 1

theorem twoRank_step (positive : 0 < n) (f : Fsm) (rw : Bool) (within : f.shState ≠ .idle) :
    twoRank n (twoFrameMachine n f false rw) < twoRank n f := by
  cases state : f.shState with
  | idle => exact absurd state within
  | regWrite =>
    by_cases done : f.shCounter = 0
    · cases reading : f.readNWrite <;> simp [twoRank, twoFrameMachine, state, done, reading]
    · rw [two_counts (Or.inl state) done]
      simp only [twoRank, state]
      omega
  | startRegRead =>
    simp only [twoRank, twoFrameMachine, state]
    omega
  | regRead =>
    by_cases done : f.shCounter = 0
    · simp [twoRank, twoFrameMachine, state, done]
    · rw [two_counts (Or.inr state) done]
      simp only [twoRank, state]
      omega
  | instruct | dataIo | dataValid => simp [twoRank, twoFrameMachine, state]

theorem twoRank_sends {f : Fsm} {r : BitVec n} {bits : List Sample} {frames : List (List (Option Bool))}
    (sends : TwoFrames f r bits frames) : twoRank n f ≤ 2 * n + 2 := by
  cases sends with
  | first word state moving gone =>
    have counter := moving.counter
    have short := moving.short
    simp only [twoRank, state]
    omega
  | gap state =>
    simp only [twoRank, state]
    omega
  | second word state reading moving gone =>
    have counter := moving.counter
    have short := moving.short
    simp only [twoRank, state]
    omega

def cdceSerializer : Serializer cdce72010 where
  bits := lsbBits
  writeFrames addr w := cdceFrames false (addr.extractLsb' 0 4) (w.extractLsb' 4 28)
  readFrames addr := cdceFrames true 0b1110 ((0 : BitVec 24) ++ addr.extractLsb' 0 4)
  reads := cdceReads
  Sends := TwoFrames (n := 32)
  start_write f _ _ idle := cdce_start f false _ idle
  start_read f _ _ idle := cdce_start f true _ idle
  active := by
    rintro f r bits frames sends
    cases sends with
    | first _ state | gap state | second _ state => constructor <;> rw [state] <;> decide
  sends_step := by
    rintro f r bits frames sends rw sdi
    exact cdce_step sends rw sdi
  idle_step f rw idle := by
    show (twoFrameMachine 32 f false rw).shState = .idle ∧ (twoFrameMachine 32 f false rw).ncsInt = true
    simp [twoFrameMachine, idle]
  valid_step f rw valid := by
    show (twoFrameMachine 32 f false rw).shState = .idle ∧ (twoFrameMachine 32 f false rw).ncsInt = f.ncsInt
    simp [twoFrameMachine, valid]
  select f rw idle := by
    show (twoFrameMachine 32 f true rw).ncsInt = false ∧ (twoFrameMachine 32 f true rw).readNWrite = rw
    simp [twoFrameMachine, idle]
  start_word f word idle := cdce_start f false word idle
  bits_length := lsbBits_length
  some_frame := by
    rintro f r samples sends
    cases sends
  shifting := by
    rintro f r samples frames sends ncs
    cases sends with
    | gap _ high => exact absurd (ncs.symm.trans high) Bool.false_ne_true
    | first _ _ moving => exact moving.shifting
    | second _ _ _ moving => exact moving.shifting
  idle_shifting f rw idle := by
    show (twoFrameMachine 32 f false rw).shifting = false
    simp [twoFrameMachine, idle]
  end_shifting := by
    rintro f r samples frames sends rw idle
    exact two_end sends rw idle
  deaf := two_deaf
  long := by decide
  direction := by
    rintro f r bits frames sends rw
    refine two_direction f rw ?_
    cases sends with
    | first _ state | gap state | second _ state => rw [state]; decide
  apart := by decide
  short := by
    rintro f r samples frames sends ncs
    cases sends with
    | gap _ high => exact absurd (ncs.symm.trans high) Bool.false_ne_true
    | first _ _ moving => exact moving.short
    | second _ _ _ moving => exact moving.short
  rank := twoRank 32
  periods := 66
  rank_step := twoRank_step (by decide)
  rank_valid f valid := by simp [twoRank, valid]
  rank_sends := by
    rintro f r samples frames sends
    exact twoRank_sends sends
  write_reads addr w taken same := by
    obtain ⟨frame, rfl, sent⟩ := one_frame same
    exact reads_one (cdceReads_out sent)
  read_reads addr taken same := by
    obtain ⟨frame, rest, rfl, first, second⟩ := List.map_eq_cons_iff.mp same
    obtain ⟨frame', rfl, sent⟩ := one_frame second
    have answers : [frame, frame'].filterMap cdceReads = [frame'].filterMap cdceReads := by
      rw [List.filterMap_cons, cdceReads_out first]
    exact ⟨_, answers.trans (reads_one (cdceReads_in sent 0))⟩

end BpmAcquisition.SpiCtrl
