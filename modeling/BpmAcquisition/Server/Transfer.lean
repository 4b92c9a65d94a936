import BpmAcquisition.Server.Acquisition

/-!
# Transfers of samples

A response loop that is served without interruption runs the channel's cursor.
`transfer_exact` says for every reachable server and every request for samples when the loop
sends the bytes that were asked for.
-/

namespace BpmAcquisition.Server

open Machine Slices

def Channel.getCommand : Channel → CommandType
  | .adc => .fmc150GetSamples
  | .ddc => .ddcGetSamples

def Channel.newDataId : Channel → UInt32
  | .adc => fmc150NewData
  | .ddc => BpmAcquisition.Server.ddcNewData

def Channel.remainingDataId : Channel → UInt32
  | .adc => fmc150RemainingData
  | .ddc => BpmAcquisition.Server.ddcRemainingData

/-- A command for `n` samples of the channel, within the limits. -/
structure Asks (ch : Channel) (n : Nat) (c : CommandPacket) : Prop where
  command : CommandType.ofCode c.comm = some ch.getCommand
  val : c.val.toNat = n
  some : 0 < n
  bound : n ≤ ch.maxSamples.toNat

/-- No driver call and no send fails. -/
structure Env.Works (env : Env) : Prop where
  driver : env.driver.Works
  network : Accepts env.lwipSend

/-! ### One request -/

/-- The response with the samples of a slice. -/
def Channel.packet (ch : Channel) (s : Slice) : ResponsePacket where
  comm := if s.start = 0 then ch.newDataId else ch.remainingDataId
  num := UInt32.ofNat (s.size * ch.width)
  buf := ch.attr.memStartAddr + UInt32.ofNat (s.start * ch.width)

/-- The response and the board after one request for `n` samples. -/
structure Answers (ch : Channel) (n : Nat) (drv : Driver) (b : Board) (r : ResponsePacket) (b' : Board) :
    Prop where
  packet : r = ch.packet ((b.cursor ch).next ch.limit n).1
  cursor : b'.cursor ch = ((b.cursor ch).next ch.limit n).2
  frame : ∀ other, other ≠ ch → b'.cursor other = b.cursor other
  log : b'.log = b.log ++
    if (b.cursor ch).left = 0 then captureEffects drv (UInt32.ofNat n) ch else []

theorem packet_num {ch : Channel} {s : Slice} (limited : s.size ≤ ch.limit) :
    (ch.packet s).num.toNat = s.size * ch.width := by
  have bytes := Nat.mul_le_mul_right ch.width limited
  rw [ch.limit_bytes] at bytes
  exact UInt32.toNat_ofNat_of_lt (Nat.lt_of_le_of_lt bytes (by decide))

theorem packet_offset {ch : Channel} {s : Slice} (within : s.start ≤ ch.maxSamples.toNat) :
    ((ch.packet s).buf - ch.attr.memStartAddr).toNat = s.start * ch.width := by
  have bytes := Nat.lt_of_le_of_lt (Nat.mul_le_mul_right ch.width within) ch.maxSamples_small
  unfold Channel.packet
  rw [UInt32.add_comm, UInt32.add_sub_cancel]
  exact UInt32.toNat_ofNat_of_lt (Nat.lt_trans bytes (by decide))

theorem next_packet (ch : Channel) {n : Nat} (asked : 0 < n) (c : Cursor) :
    (ch.packet (c.next ch.limit n).1).num.toNat = (c.next ch.limit n).1.size * ch.width ∧
      0 < (ch.packet (c.next ch.limit n).1).num.toNat ∧ (ch.packet (c.next ch.limit n).1).num.toNat ≤ 4096 := by
  have limited := Cursor.next_size_le n c ch.limit_positive
  have positive := Cursor.next_size_positive c ch.limit_positive asked
  have bytes := Nat.mul_le_mul_right ch.width limited
  rw [ch.limit_bytes] at bytes
  rw [packet_num limited]
  exact ⟨rfl, Nat.mul_pos positive ch.width_positive, bytes⟩

def Channel.commandHandler : Channel → CommandHandler
  | .adc => ⟨fmc150CommAttr, fmc150CommOps⟩
  | .ddc => ⟨ddcCommAttr, ddcCommOps⟩

def Channel.responseHandler (ch : Channel) : ResponseHandler := ⟨ch.newDataId, ch.remainingDataId, 0⟩

/-- A request for samples is refused for its size, fails, or is answered with what `get_samples` says. -/
theorem handleGetSamples_channel (drv : Driver) (val : UInt32) (ch : Channel) (r : ResponsePacket) (b : Board) :
    handleGetSamples drv val ch.commandHandler ch.responseHandler (some ch) r b =
      let got := getSamples drv val ch.responseHandler.byteOffset ch b
      if val > ch.maxSamples then (true, message (invalidValue ch.maxSamples) r b)
      else if got.1 < 0 then (true, message "Error! Could not acquire data!" r got.2.2.2)
      else
        (false,
          { comm := if got.2.2.1 = 0 then ch.newDataId else ch.remainingDataId
            num := got.2.1 * ch.attr.sampleSize
            buf := ch.attr.memStartAddr + got.2.2.1 }, got.2.2.2) := by
  cases ch <;> rfl

theorem handleRequest_get {ch : Channel} {c : CommandPacket} (get : CommandType.ofCode c.comm = some ch.getCommand)
    (drv : Driver) (r : ResponsePacket) (b : Board) :
    handleRequest drv c r b =
      let (failed, r, b) :=
        handleGetSamples drv c.val ch.commandHandler ch.responseHandler (some ch) { r with comm := messageId } b
      (if failed then error else asInt r.num, r, b) := by
  unfold handleRequest
  rw [get]
  cases ch <;> rfl

theorem handleGetSamples_answers {ch : Channel} {drv : Driver} {b : Board} {val : UInt32}
    (delivers : Delivers ch drv b) (valid : b.Valid) (asked : 0 < val.toNat) (bound : val.toNat ≤ ch.maxSamples.toNat)
    (r : ResponsePacket) :
    ∃ r' b', handleGetSamples drv val ch.commandHandler ch.responseHandler (some ch) r b = (false, r', b') ∧
      Answers ch val.toNat drv b r' b' := by
  obtain ⟨size', offset', b', equation, size, offset, cursor, frame, log⟩ :=
    getSamples_next ch.responseHandler.byteOffset delivers valid asked bound
  have within : ¬ val > ch.maxSamples := UInt32.not_lt.mpr (UInt32.le_iff_toNat_le.mpr bound)
  refine ⟨⟨if offset' = 0 then ch.newDataId else ch.remainingDataId, size' * ch.attr.sampleSize,
    ch.attr.memStartAddr + offset'⟩, b', ?_, ?_, cursor, frame, ?_⟩
  · rw [handleGetSamples_channel, equation]
    simp only [if_neg within]
    rfl
  · have first : offset' = 0 ↔ ((b.cursor ch).next ch.limit val.toNat).1.start = 0 := by
      rw [← UInt32.toNat_inj, offset]
      exact Nat.mul_eq_zero.trans (or_iff_left (Nat.ne_of_gt ch.width_positive))
    have width : ch.attr.sampleSize = UInt32.ofNat ch.width := UInt32.ofNat_toNat.symm
    unfold Channel.packet
    rw [← offset, ← size, UInt32.ofNat_mul, ← width, UInt32.ofNat_toNat, UInt32.ofNat_toNat]
    simp only [first]
  · rw [log, UInt32.ofNat_toNat]

theorem handleRequest_answers {ch : Channel} {n : Nat} {drv : Driver} {b : Board} {c : CommandPacket}
    (delivers : Delivers ch drv b) (valid : b.Valid) (asks : Asks ch n c) (r : ResponsePacket) :
    ∃ r' b', handleRequest drv c r b = (asInt r'.num, r', b') ∧ Answers ch n drv b r' b' := by
  obtain ⟨command, rfl, asked, bound⟩ := asks
  obtain ⟨r', b', equation, answers⟩ := handleGetSamples_answers delivers valid asked bound { r with comm := messageId }
  refine ⟨r', b', ?_, answers⟩
  rw [handleRequest_get command, equation]
  rfl

/-! ### One round of the response loop -/

/-- The connection answers a request for `n` samples and still owes `need` of them. -/
structure Serving (ch : Channel) (n need : Nat) (k : Connection) : Prop where
  error : k.error = false
  asks : Asks ch n k.command
  phase : k.phase = if 0 < need then .responding else .receiving
  remaining : 0 < need → k.remainingBytes = ((need * ch.width : Nat) : Int)

theorem respond_serving {ch : Channel} {n need : Nat} {k : Connection} {b : Board} {env : Env}
    (serving : Serving ch n need k) (more : 0 < need) (valid : b.Valid) (works : env.Works) :
    Answers ch n env.driver b (k.handle env b).2.1 (k.respond env b).2 ∧
      0 < (k.send env b).status ∧ (k.send env b).wire = wireBytes env.memory (k.handle env b).2.1 ∧
      Serving ch n (need - ((b.cursor ch).next ch.limit n).1.size) (k.respond env b).1 := by
  obtain ⟨r, b', handled, answers⟩ := handleRequest_answers (works.driver.delivers ch b) valid serving.asks k.response
  obtain ⟨bytes, some, packet⟩ := next_packet ch serving.asks.some (b.cursor ch)
  rw [← answers.packet] at bytes some packet
  have handle : k.handle env b = (asInt r.num, r, b') := handled
  have num : asInt r.num = r.num.toNat := asInt_eq (by omega)
  obtain ⟨wire, sent⟩ :=
    sendResponsePacket_accepts works.network env.memory (sendable_of_bound some (by omega))
  have send : k.send env b = sendResponsePacket env.memory env.lwipSend r := by
    unfold Connection.send
    rw [handle]
  have passed : ¬ (k.send env b).status < 0 := by
    rw [send]
    omega
  have fine : decide (asInt r.num < 0) = false := decide_eq_false (by omega)
  have round : k.respond env b =
      ({ k with
          phase := loopPhase false (k.remainingBytes - asInt r.num)
          error := false
          remainingBytes := k.remainingBytes - asInt r.num
          response := r }, b') := by
    unfold Connection.respond
    simp only [handle, if_neg passed, serving.error, fine, Bool.or_false]
  rw [round, send, handle]
  refine ⟨answers, sent, wire, ⟨rfl, serving.asks, ?_, ?_⟩⟩
  · -- The bytes that remain are positive exactly while samples are owed.
    simp only [loopPhase, serving.remaining more, num, bytes, and_true]
    by_cases owed : ((b.cursor ch).next ch.limit n).1.size < need
    · have owes := Nat.mul_lt_mul_of_pos_right owed ch.width_positive
      rw [if_pos (by omega), if_pos (by omega)]
    · have paid := Nat.mul_le_mul_right ch.width (Nat.le_of_not_lt owed)
      rw [if_neg (by omega), if_neg (by omega)]
  · intro owed
    have within : ((b.cursor ch).next ch.limit n).1.size * ch.width ≤ need * ch.width :=
      Nat.mul_le_mul_right _ (by omega)
    simp only [serving.remaining more, num, bytes, Nat.sub_mul]
    omega

/-! ### The whole loop -/

theorem Answers.valid {ch : Channel} {n : Nat} {drv : Driver} {b b' : Board} {r : ResponsePacket}
    (answers : Answers ch n drv b r b') (valid : b.Valid) (asked : 0 < n) (bound : n ≤ ch.maxSamples.toNat) :
    b'.Valid := by
  obtain ⟨within, below⟩ := Cursor.next_valid ch.limit asked (valid ch).1
  refine valid_of_cursor ch valid ?_ ?_ answers.frame
  · rw [answers.cursor]
    exact within
  · rw [answers.cursor]
    exact Nat.le_trans below (Nat.max_le.mpr ⟨(valid ch).2, bound⟩)

/-- The packets of an undisturbed loop are the slices of the cursor, and the loop ends. -/
theorem loop_run {ch : Channel} {n need c : Nat} {s : Application} {envs : List Env}
    (serving : Serving ch n need (s.connection c)) (valid : s.board.Valid) (works : ∀ env ∈ envs, env.Works) :
    (trace serve replies s (envs.map (.respond c))).map (·.packet) =
        (Cursor.slices ch.limit n envs.length need (s.board.cursor ch)).map ch.packet ∧
      (∀ reply ∈ trace serve replies s (envs.map (.respond c)),
        ∃ env ∈ envs, reply.wire = wireBytes env.memory reply.packet) ∧
      (need ≤ envs.length → ((run serve s (envs.map (.respond c))).connection c).phase = .receiving) := by
  induction envs generalizing s need with
  | nil =>
    refine ⟨by simp [Cursor.slices], by simp, fun done => ?_⟩
    have nothing : ¬ 0 < need := Nat.not_lt_of_le done
    exact serving.phase.trans (if_neg nothing)
  | cons env envs ih =>
    have rest : ∀ env ∈ envs, env.Works := fun env member => works env (List.mem_cons_of_mem _ member)
    have phase := serving.phase
    simp only [List.map_cons, trace_cons, run_cons, List.length_cons]
    rcases Nat.eq_zero_or_pos need with rfl | more
    · rw [if_neg (Nat.lt_irrefl 0)] at phase
      have idle : (s.connection c).phase ≠ .responding := by simp [phase]
      have stays := serve_not_responding env idle
      have silent := replies_not_responding env idle
      obtain ⟨packets, wires, ends⟩ := ih serving valid rest
      rw [stays, silent, Cursor.slices_done]
      rw [Cursor.slices_done] at packets
      refine ⟨packets, fun reply member => ?_, fun _ => ends (Nat.zero_le _)⟩
      obtain ⟨env', member', wire⟩ := wires reply member
      exact ⟨env', List.mem_cons_of_mem _ member', wire⟩
    · rw [if_pos more] at phase
      obtain ⟨answers, sent, wire, next⟩ := respond_serving serving more valid (works env List.mem_cons_self)
      have step := serve_responding env phase
      have reply := replies_sent phase sent
      have positive := Cursor.next_size_positive (s.board.cursor ch) ch.limit_positive serving.asks.some
      have next' : Serving ch n (need - ((s.board.cursor ch).next ch.limit n).1.size)
          ((serve s (.respond c env)).connection c) := by
        rw [step, Application.connection_update, Function.update_self]
        exact next
      have board : (serve s (.respond c env)).board = ((s.connection c).respond env s.board).2 := by
        rw [step, Application.board_update]
      obtain ⟨packets, wires, ends⟩ :=
        ih next' (by rw [board]; exact answers.valid valid serving.asks.some serving.asks.bound) rest
      rw [reply, Cursor.slices_more more]
      refine ⟨?_, fun r member => ?_, fun enough => ends (by omega)⟩
      · rw [List.map_append, packets, board, answers.cursor, List.map_cons, List.map_cons, ← answers.packet]
        rfl
      · rcases List.mem_append.mp member with first | later
        · rw [List.mem_singleton] at first
          exact ⟨env, List.mem_cons_self, by rw [first]; exact wire⟩
        · obtain ⟨env', member', wire⟩ := wires r later
          exact ⟨env', List.mem_cons_of_mem _ member', wire⟩

/-! ### Reachable servers -/

/-- The counters are valid and a response loop has something to answer. -/
structure Application.Sound (s : Application) : Prop where
  board : s.board.Valid
  asked : ∀ c, (s.connection c).phase = .responding → 0 < prepareToHandle (s.connection c).command

theorem boot_sound (command : Nat → CommandPacket) (response : Nat → ResponsePacket) :
    (Application.boot command response).Sound :=
  ⟨boot_valid, fun _ responding => Phase.noConfusion responding⟩

theorem update_sound {s : Application} (sound : s.Sound) {c : Nat} {k : Connection} {b : Board} (board : b.Valid)
    (asked : k.phase = .responding → 0 < prepareToHandle k.command) : (s.update c k b).Sound := by
  refine ⟨board, fun c' => ?_⟩
  rw [Application.connection_update]
  by_cases same : c' = c
  · subst same
    rw [Function.update_self]
    exact asked
  · rw [Function.update_of_ne same]
    exact sound.asked c'

theorem loopPhase_responding {failed : Bool} {remaining : Int} (h : loopPhase failed remaining = .responding) :
    0 < remaining ∧ failed = false := by
  unfold loopPhase at h
  split at h
  case isTrue more => exact more
  case isFalse => exact Phase.noConfusion h

theorem respond_command (k : Connection) (env : Env) (b : Board) :
    (k.respond env b).1.command = k.command := by
  unfold Connection.respond
  simp only
  split <;> rfl

theorem respond_board (k : Connection) (env : Env) (b : Board) :
    (k.respond env b).2 = (k.handle env b).2.2 := by
  unfold Connection.respond
  simp only
  split <;> rfl

theorem serve_sound (s : Application) (e : Event) (sound : s.Sound) : (serve s e).Sound := by
  cases e with
  | receive c command =>
    by_cases ready : (s.connection c).phase = .receiving
    · rw [serve_receiving command ready]
      exact update_sound sound sound.board fun responding => (loopPhase_responding responding).1
    · rw [serve, if_neg ready]
      exact sound
  | respond c env =>
    by_cases busy : (s.connection c).phase = .responding
    · have asked := sound.asked c busy
      rw [serve_responding env busy]
      refine update_sound sound ?_ fun _ => ?_
      · rw [respond_board]
        exact handleRequest_valid sound.board asked
      · rw [respond_command]
        exact asked
    · rw [serve_not_responding env busy]
      exact sound
  | hangUp c =>
    by_cases ready : (s.connection c).phase = .receiving
    · rw [serve, if_pos ready]
      exact update_sound sound sound.board fun responding => Phase.noConfusion responding
    · rw [serve, if_neg ready]
      exact sound

theorem reachable_sound (command : Nat → CommandPacket) (response : Nat → ResponsePacket) (es : List Event) :
    (run serve (Application.boot command response) es).Sound :=
  run_keeps serve_sound (boot_sound command response) es

/-! ### The bytes of a transfer -/

theorem prepareToHandle_get {ch : Channel} {n : Nat} {c : CommandPacket} (asks : Asks ch n c) :
    prepareToHandle c = ((n * ch.width : Nat) : Int) := by
  have bytes := Nat.lt_of_le_of_lt (Nat.mul_le_mul_right ch.width asks.bound) ch.maxSamples_small
  have product : asInt (c.val * ch.attr.sampleSize) = ((n * ch.width : Nat) : Int) := by
    have exact_product : (c.val * ch.attr.sampleSize).toNat = n * ch.width := by
      rw [toNat_mul_of_lt (by rw [asks.val]; exact Nat.lt_trans bytes (by decide)), asks.val]
      rfl
    rw [asInt_eq (by omega), exact_product]
  unfold prepareToHandle
  rw [asks.command]
  cases ch <;> exact product

theorem receive_serving {ch : Channel} {n : Nat} {k : Connection} {c : CommandPacket} (asks : Asks ch n c)
    (clear : k.error = false) : Serving ch n n (k.receive c) := by
  have bytes : 0 < n * ch.width := Nat.mul_pos asks.some ch.width_positive
  refine ⟨clear, asks, ?_, fun _ => prepareToHandle_get asks⟩
  show loopPhase k.error (prepareToHandle c) = _
  unfold loopPhase
  rw [prepareToHandle_get asks, if_pos ⟨by omega, clear⟩, if_pos asks.some]

/-- What a connection sends for a command, when its response loop is not disturbed. -/
def transfer (c : Nat) (command : CommandPacket) (envs : List Env) : List Event :=
  .receive c command :: envs.map (.respond c)

/-- The sum of the `num` fields of the data packets. -/
def bytesSent (replies : List Reply) : Nat :=
  ((replies.filter fun r => isData r.packet.comm).map (·.packet.num.toNat)).sum

theorem packet_isData (ch : Channel) (s : Slice) : isData (ch.packet s).comm = true := by
  unfold Channel.packet
  split <;> cases ch <;> rfl

theorem bytesSent_packets {ch : Channel} {replies : List Reply} {ss : List Slice}
    (packets : replies.map (·.packet) = ss.map ch.packet) (limited : ∀ s ∈ ss, s.size ≤ ch.limit) :
    bytesSent replies = total ss * ch.width := by
  induction replies generalizing ss with
  | nil =>
    cases ss with
    | nil => simp [bytesSent]
    | cons s rest => simp at packets
  | cons r replies ih =>
    cases ss with
    | nil => simp at packets
    | cons s rest =>
      simp only [List.map_cons, List.cons.injEq] at packets
      have others := ih packets.2 fun s' member => limited s' (List.mem_cons_of_mem s member)
      unfold bytesSent at others ⊢
      rw [List.filter_cons_of_pos (by rw [packets.1]; exact packet_isData ch s), List.map_cons, List.sum_cons,
        others, packets.1, packet_num (limited s List.mem_cons_self), total_cons, Nat.add_mul]

/-- For every history of commands on all connections and every request that meets no failure:
the response loop ends, and the data packets it has sent are as many bytes as were asked for
exactly if no command failed on the connection before and the samples that are left of the
last capture are cut so that `Cursor.Cuts` holds. -/
theorem transfer_exact (command : Nat → CommandPacket) (response : Nat → ResponsePacket) (es : List Event)
    {ch : Channel} {c : Nat} {get : CommandPacket} {envs : List Env}
    (idle : ((run serve (Application.boot command response) es).connection c).phase = .receiving)
    (asks : Asks ch get.val.toNat get) (works : ∀ env ∈ envs, env.Works) (enough : get.val.toNat ≤ envs.length) :
    let s := run serve (Application.boot command response) es
    ((run serve s (transfer c get envs)).connection c).phase = .receiving ∧
      (bytesSent (trace serve replies s (transfer c get envs)) = get.val.toNat * ch.width ↔
        (s.connection c).error = false ∧ Cursor.Cuts ch.limit get.val.toNat (s.board.cursor ch).left) := by
  intro s
  have sound : s.Sound := reachable_sound command response es
  have limit := ch.limit_positive
  have received := serve_receiving get idle
  unfold transfer
  rw [run_cons, trace_cons, received]
  have silent : replies s (.receive c get) = [] := rfl
  rw [silent, List.nil_append]
  cases failed : (s.connection c).error with
  | false =>
    have serving : Serving ch get.val.toNat get.val.toNat
        ((s.update c ((s.connection c).receive get) s.board).connection c) := by
      rw [Application.connection_update, Function.update_self]
      exact receive_serving asks failed
    obtain ⟨packets, -, ends⟩ := loop_run serving sound.board works
    have sent := bytesSent_packets packets (Cursor.slices_limited limit)
    rw [Application.board_update] at sent
    refine ⟨ends enough, ?_⟩
    rw [sent, Nat.mul_left_inj (Nat.ne_of_gt ch.width_positive),
      Cursor.slices_exact limit asks.some (sound.board ch).1 enough]
    simp
  | true =>
    -- The error flag keeps the loop from running, whatever is asked for.
    have waits : ((s.update c ((s.connection c).receive get) s.board).connection c).phase = .receiving := by
      rw [Application.connection_update, Function.update_self]
      show loopPhase (s.connection c).error _ = _
      rw [failed]
      exact if_neg fun h => Bool.noConfusion h.2
    obtain ⟨stays, nothing⟩ := loop_not_responding envs (by rw [waits]; exact Phase.noConfusion)
    have asked := Nat.mul_pos asks.some ch.width_positive
    rw [stays, nothing]
    refine ⟨waits, ?_⟩
    simp only [bytesSent, List.filter_nil, List.map_nil, List.sum_nil, Bool.true_eq_false, false_and, iff_false]
    omega

def freshServer : Application := Application.boot (fun _ => ⟨0, 0, 0, 0⟩) (fun _ => ⟨0, 0, 0⟩)

def workingEnv : Env := ⟨⟨xstSuccess, fun _ => false, fun _ => 0⟩, fun _ => 0, fun _ => 4104⟩

def captureOne : List Event := [.receive 0 ⟨2, 0, 0, 1⟩, .respond 0 workingEnv]

def getTwo : CommandPacket := ⟨3, 0, 0, 2⟩

theorem workingEnv_works : workingEnv.Works := ⟨⟨rfl, by decide⟩, fun _ => (by decide : (0 : Int) < 4104)⟩

theorem getTwo_asks : Asks .adc getTwo.val.toNat getTwo := ⟨by decide, rfl, by decide, by decide⟩

/-- After a capture of one sample, a request for two of them gets three. -/
theorem get_two_sends_three :
    let s := run serve freshServer captureOne
    (s.connection 0).phase = .receiving ∧ (s.connection 0).error = false ∧
      s.board.handler .adc = ⟨1, 0⟩ ∧
      bytesSent (trace serve replies s (transfer 0 getTwo [workingEnv, workingEnv])) = 12 ∧
      getTwo.val.toNat * Channel.adc.width = 8 := by
  decide +kernel

theorem transfer_exact_get_two :
    let s := run serve freshServer captureOne
    ((run serve s (transfer 0 getTwo [workingEnv, workingEnv])).connection 0).phase = .receiving ∧
      (bytesSent (trace serve replies s (transfer 0 getTwo [workingEnv, workingEnv])) =
          getTwo.val.toNat * Channel.adc.width ↔
        (s.connection 0).error = false ∧
          Cursor.Cuts Channel.adc.limit getTwo.val.toNat (s.board.cursor .adc).left) :=
  transfer_exact _ _ captureOne (by decide +kernel) getTwo_asks
    (by simp [workingEnv_works]) (by decide)

end BpmAcquisition.Server
