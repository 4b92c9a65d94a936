import BpmAcquisition.Server.Transfer
import BpmAcquisition.Server.Turns

/-!
# Two connections on one channel

Every interleaving of two response loops for samples of the same channel runs `Turns`, so that
`sharing_exact` says from which interleavings each client gets one capture of its own.
-/

namespace BpmAcquisition.Server

open Machine Slices

def Effect.starts (ch : Channel) : Effect → Bool
  | .simpleTransfer ch' _ _ => ch' = ch
  | _ => false

def captures (ch : Channel) (log : List Effect) : Nat := log.countP (·.starts ch)

def Handout.scale (w : Nat) (h : Handout) : Handout := { h with slice := Slices.scale w h.slice }

/-- The responses of a step as slices of the channel's buffer, in bytes. -/
def handouts (ch : Channel) (s : Application) (e : Event) : List Handout :=
  (replies s e).map fun r =>
    { connection := r.connection
      capture := captures ch (serve s e).board.log
      slice := ⟨(r.packet.buf - ch.attr.memStartAddr).toNat, r.packet.num.toNat⟩ }

theorem captureEffects_starts (drv : Driver) (qwCount : UInt32) (ch : Channel) :
    captures ch (captureEffects drv qwCount ch) = 1 := by
  unfold captures captureEffects
  split <;> simp [Effect.starts]

theorem oneCapture_scale {w n : Nat} (positive : 0 < w) {hs : List Handout} :
    OneCapture (n * w) (hs.map (·.scale w)) ↔ OneCapture n hs := by
  have slices : (hs.map (·.scale w)).map (·.slice) = (hs.map (·.slice)).map (Slices.scale w) := by
    rw [List.map_map, List.map_map]
    rfl
  have order := @consecutive_scale w 0 positive (hs.map (·.slice))
  rw [Nat.zero_mul] at order
  constructor
  · rintro ⟨⟨k, capture⟩, consecutive, total⟩
    rw [slices] at consecutive total
    rw [total_scale] at total
    exact ⟨⟨k, fun h member => capture (h.scale w) (List.mem_map_of_mem member)⟩, order.mp consecutive,
      Nat.eq_of_mul_eq_mul_right positive total⟩
  · rintro ⟨⟨k, capture⟩, consecutive, total⟩
    refine ⟨⟨k, List.forall_mem_map.mpr capture⟩, ?_, ?_⟩
    · rw [slices]
      exact order.mpr consecutive
    · rw [slices, total_scale, total]

theorem handoutsOf_scale (w c : Nat) (hs : List Handout) :
    handoutsOf c (hs.map (·.scale w)) = (handoutsOf c hs).map (·.scale w) := List.filter_map

/-! ### The server runs `Turns` -/

section
variable {ch : Channel} {served : Nat → Prop} {asks : Nat → Nat} {s : Application} {t : Turns}

/-- The served connections are in their loops, and owe what `t` says. -/
structure TakingTurns (ch : Channel) (served : Nat → Prop) (asks : Nat → Nat) (s : Application) (t : Turns) : Prop where
  valid : s.board.Valid
  cursor : s.board.cursor ch = t.cursor
  captures : captures ch s.board.log = t.captures
  serving : ∀ c, served c → Serving ch (asks c) (t.need c) (s.connection c)

/-- A round of a served connection in which no driver call and no send fails. -/
def Round (served : Nat → Prop) (e : Event) : Prop := ∃ c env, e = .respond c env ∧ served c ∧ env.Works

theorem Answers.captures {n : Nat} {drv : Driver} {b b' : Board} {r : ResponsePacket}
    (answers : Answers ch n drv b r b') :
    Server.captures ch b'.log =
      if (b.cursor ch).left = 0 then Server.captures ch b.log + 1 else Server.captures ch b.log := by
  rw [answers.log, Server.captures, List.countP_append]
  split
  · exact congrArg _ (captureEffects_starts drv (UInt32.ofNat n) ch)
  · rfl

theorem handout_scale {n capture : Nat} {c : Cursor} {k : Nat} (valid : c.pos ≤ ch.maxSamples.toNat) :
    (⟨k, capture, ⟨((ch.packet (c.next ch.limit n).1).buf - ch.attr.memStartAddr).toNat,
        (ch.packet (c.next ch.limit n).1).num.toNat⟩⟩ : Handout) =
      Handout.scale ch.width ⟨k, capture, (c.next ch.limit n).1⟩ := by
  rw [packet_num (Cursor.next_size_le n c ch.limit_positive),
    packet_offset (Nat.le_trans (Cursor.next_start_le ch.limit n c) valid)]
  rfl

theorem serve_takes {e : Event} (turns : TakingTurns ch served asks s t) (round : Round served e) :
    TakingTurns ch served asks (serve s e) (t.take ch.limit asks e.connection) ∧
      handouts ch s e = (t.given ch.limit asks e.connection).map (·.scale ch.width) := by
  obtain ⟨c, env, rfl, member, works⟩ := round
  obtain ⟨valid, cursor, counted, serving⟩ := turns
  have mine := serving c member
  have phase := mine.phase
  unfold handouts
  show TakingTurns ch served asks _ (t.take ch.limit asks c) ∧ _ = (t.given ch.limit asks c).map _
  rcases Nat.eq_zero_or_pos (t.need c) with done | more
  · rw [done, if_neg (Nat.lt_irrefl 0)] at phase
    have idle : (s.connection c).phase ≠ .responding := by simp [phase]
    rw [serve_not_responding env idle, replies_not_responding env idle, Turns.take_done done, Turns.given_done done]
    exact ⟨⟨valid, cursor, counted, serving⟩, rfl⟩
  · rw [if_pos more] at phase
    obtain ⟨answers, sent, -, next⟩ := respond_serving mine more valid works
    have kept := answers.valid valid mine.asks.some mine.asks.bound
    have started := answers.captures
    rw [serve_responding env phase, replies_sent phase sent, Turns.take_more more, Turns.given_more more]
    rw [counted, cursor] at started
    refine ⟨⟨kept, ?_, started, ?_⟩, ?_⟩
    · rw [Application.board_update, answers.cursor, cursor]
    · intro d other
      rw [Application.connection_update]
      by_cases same : d = c
      · subst same
        show Serving ch (asks d) (Function.update t.need d _ d) _
        rw [Function.update_self, Function.update_self, ← cursor]
        exact next
      · show Serving ch (asks d) (Function.update t.need c _ d) _
        rw [Function.update_of_ne same, Function.update_of_ne same]
        exact serving d other
    · have within := Nat.le_trans (valid ch).1 (valid ch).2
      rw [List.map_singleton, List.map_singleton, Application.board_update, started, answers.packet, ← cursor,
        handout_scale within, cursor]
      rfl

theorem run_takes {es : List Event} (turns : TakingTurns ch served asks s t) (rounds : ∀ e ∈ es, Round served e) :
    TakingTurns ch served asks (run serve s es) (run (Turns.take ch.limit asks) t (es.map (·.connection))) ∧
      trace serve (handouts ch) s es =
        (trace (Turns.take ch.limit asks) (Turns.given ch.limit asks) t (es.map (·.connection))).map
          (·.scale ch.width) :=
  trace_refines (fun _ _ _ turns round => serve_takes turns round) turns (along_of_inputs rounds)

theorem TakingTurns.ended (turns : TakingTurns ch served asks s t) {c : Nat} (member : served c) :
    (s.connection c).phase = .receiving ↔ t.need c = 0 := by
  rw [(turns.serving c member).phase]
  rcases Nat.eq_zero_or_pos (t.need c) with done | more
  · simp [done]
  · simp [more, Nat.ne_of_gt more]

end

/-! ### Both clients -/

/-- Both connections have read their command, and no round is served yet. -/
def bothAsk (a b : Nat) (getA getB : CommandPacket) : List Event := [.receive a getA, .receive b getB]

/-- The client of `c` has got its `n` samples from one capture. -/
def Served (ch : Channel) (n c : Nat) (hs : List Handout) : Prop := OneCapture (n * ch.width) (handoutsOf c hs)

section
variable {ch : Channel} {a b : Nat} {getA getB : CommandPacket} {s : Application}

theorem bothAsk_turns (sound : s.Sound) (apart : a ≠ b)
    (ready : ∀ c, c = a ∨ c = b → (s.connection c).phase = .receiving ∧ (s.connection c).error = false)
    (asksA : Asks ch getA.val.toNat getA) (asksB : Asks ch getB.val.toNat getB) :
    let asks := fun c => if c = a then getA.val.toNat else getB.val.toNat
    TakingTurns ch (fun c => c = a ∨ c = b) asks (run serve s (bothAsk a b getA getB))
      ⟨s.board.cursor ch, captures ch s.board.log, asks⟩ := by
  intro asks
  obtain ⟨readyA, clearA⟩ := ready a (Or.inl rfl)
  obtain ⟨readyB, clearB⟩ := ready b (Or.inr rfl)
  have first := serve_receiving getA readyA
  have other : (serve s (.receive a getA)).connection b = s.connection b := serve_other s apart
  have second := @serve_receiving (serve s (.receive a getA)) b getB (by rw [other]; exact readyB)
  show TakingTurns ch _ asks (serve (serve s (.receive a getA)) (.receive b getB)) _
  rw [second, other, first]
  refine ⟨sound.board, rfl, rfl, fun c member => ?_⟩
  show Serving ch (asks c) (asks c) _
  rcases member with rfl | rfl
  · have mine : asks c = getA.val.toNat := if_pos rfl
    rw [Application.connection_update, Function.update_of_ne apart, Application.connection_update, Function.update_self, mine]
    exact receive_serving asksA clearA
  · have mine : asks c = getB.val.toNat := if_neg (Ne.symm apart)
    rw [Application.connection_update, Function.update_self, mine]
    exact receive_serving asksB clearB

/-- For every history of the server after which the channel is drained, and every interleaving
of the rounds of two connections that have asked for samples of it: the loops end, and both
clients get what they asked for from one capture each, exactly if the interleaving begins with
as many rounds of one of them as its loop takes. -/
theorem sharing_exact (command : Nat → CommandPacket) (response : Nat → ResponsePacket) (history es : List Event)
    (apart : a ≠ b) (drained : ((run serve (Application.boot command response) history).board.cursor ch).left = 0)
    (ready : ∀ c, c = a ∨ c = b →
      ((run serve (Application.boot command response) history).connection c).phase = .receiving ∧
        ((run serve (Application.boot command response) history).connection c).error = false)
    (asksA : Asks ch getA.val.toNat getA) (asksB : Asks ch getB.val.toNat getB)
    (rounds : ∀ e ∈ es, Round (fun c => c = a ∨ c = b) e) :
    let s := run serve (Application.boot command response) (history ++ bothAsk a b getA getB)
    let schedule := es.map (·.connection)
    let ended := ∀ c, c = a ∨ c = b → ((run serve s es).connection c).phase = .receiving
    (getA.val.toNat ≤ schedule.count a ∧ getB.val.toNat ≤ schedule.count b → ended) ∧
      (ended →
        (Served ch getA.val.toNat a (trace serve (handouts ch) s es) ∧
            Served ch getB.val.toNat b (trace serve (handouts ch) s es) ↔
          getA.val.toNat ≤ lead a schedule * ch.limit ∨ getB.val.toNat ≤ lead b schedule * ch.limit)) := by
  intro s schedule ended
  have sound := reachable_sound command response history
  have begun := bothAsk_turns sound apart ready asksA asksB
  rw [← run_append] at begun
  obtain ⟨final, handed⟩ := run_takes begun rounds
  generalize shared : (fun c => if c = a then getA.val.toNat else getB.val.toNat) = asks at begun final handed
  have mineA : asks a = getA.val.toNat := by rw [← shared]; exact if_pos rfl
  have mineB : asks b = getB.val.toNat := by rw [← shared]; exact if_neg (Ne.symm apart)
  have askedA : 0 < asks a := mineA ▸ asksA.some
  have askedB : 0 < asks b := mineB ▸ asksB.some
  have members : ∀ c ∈ schedule, c = a ∨ c = b := by
    refine List.forall_mem_map.mpr fun e member => ?_
    obtain ⟨c, env, rfl, served, -⟩ := rounds e member
    exact served
  refine ⟨?_, fun finished => ?_⟩
  · rintro ⟨enoughA, enoughB⟩ c member
    rw [final.ended member]
    rcases member with rfl | rfl
    · exact Turns.run_ended ch.limit_positive askedA (Nat.le_trans (Nat.le_of_eq mineA) enoughA)
    · exact Turns.run_ended ch.limit_positive askedB (Nat.le_trans (Nat.le_of_eq mineB) enoughB)
  · have endedA := (final.ended (Or.inl rfl)).mp (finished a (Or.inl rfl))
    have endedB := (final.ended (Or.inr rfl)).mp (finished b (Or.inr rfl))
    have within := (sound.board ch).1
    unfold Served
    rw [handed, handoutsOf_scale, handoutsOf_scale, oneCapture_scale ch.width_positive,
      oneCapture_scale ch.width_positive, ← mineA, ← mineB]
    refine Turns.turns_exact ch.limit_positive ?_ apart ⟨rfl, rfl⟩ ⟨askedA, askedB⟩ members ⟨endedA, endedB⟩
    unfold Cursor.left at drained
    show _ = _
    simp only
    omega

end

def getMany : CommandPacket := ⟨3, 0, 0, 1025⟩

def getOne : CommandPacket := ⟨3, 0, 0, 1⟩

theorem getMany_asks : Asks .adc getMany.val.toNat getMany :=
  ⟨by decide, rfl, by decide +kernel, by decide +kernel⟩

theorem getOne_asks : Asks .adc getOne.val.toNat getOne :=
  ⟨by decide, rfl, by decide +kernel, by decide +kernel⟩

/-- The second client's round comes between the two of the first. -/
def roundBetween : List Event := [.respond 0 workingEnv, .respond 1 workingEnv, .respond 0 workingEnv]

def bothStarted : Application := run serve freshServer (bothAsk 0 1 getMany getOne)

def handedBetween : List Handout := trace serve (handouts .adc) bothStarted roundBetween

theorem handed_between : handoutsOf 0 handedBetween = [⟨0, 1, ⟨0, 4096⟩⟩, ⟨0, 2, ⟨0, 4096⟩⟩] ∧
    handoutsOf 1 handedBetween = [⟨1, 1, ⟨4096, 4⟩⟩] := by
  decide +kernel

/-- The second client gets the last sample of the first client's capture, and the first client
the beginning of another one instead. -/
theorem round_between_shares_capture :
    (freshServer.board.cursor .adc).left = 0 ∧
      ((run serve bothStarted roundBetween).connection 0).phase = .receiving ∧
      ((run serve bothStarted roundBetween).connection 1).phase = .receiving ∧
      ¬ Served .adc getMany.val.toNat 0 handedBetween ∧ ¬ Served .adc getOne.val.toNat 1 handedBetween := by
  obtain ⟨first, second⟩ := handed_between
  refine ⟨by decide, by decide +kernel, by decide +kernel, ?_, ?_⟩
  · intro served
    rw [Served, first] at served
    obtain ⟨k, capture⟩ := served.capture
    have one := capture _ List.mem_cons_self
    have two := capture _ (List.mem_cons_of_mem _ List.mem_cons_self)
    exact absurd (one.trans two.symm) (by decide)
  · intro served
    rw [Served, second] at served
    exact absurd served.consecutive.1 (by decide)

theorem roundBetween_rounds : ∀ e ∈ roundBetween, Round (fun c => c = 0 ∨ c = 1) e := by
  simp only [roundBetween, List.forall_mem_cons]
  refine ⟨⟨0, workingEnv, rfl, Or.inl rfl, workingEnv_works⟩, ⟨1, workingEnv, rfl, Or.inr rfl, workingEnv_works⟩,
    ⟨0, workingEnv, rfl, Or.inl rfl, workingEnv_works⟩, ?_⟩
  simp

theorem sharing_exact_round_between :
    let s := run serve (Application.boot (fun _ => ⟨0, 0, 0, 0⟩) (fun _ => ⟨0, 0, 0⟩)) ([] ++ bothAsk 0 1 getMany getOne)
    let schedule := roundBetween.map (·.connection)
    let ended := ∀ c, c = 0 ∨ c = 1 → ((run serve s roundBetween).connection c).phase = .receiving
    (getMany.val.toNat ≤ schedule.count 0 ∧ getOne.val.toNat ≤ schedule.count 1 → ended) ∧
      (ended →
        (Served .adc getMany.val.toNat 0 (trace serve (handouts .adc) s roundBetween) ∧
            Served .adc getOne.val.toNat 1 (trace serve (handouts .adc) s roundBetween) ↔
          getMany.val.toNat ≤ lead 0 schedule * Channel.adc.limit ∨
            getOne.val.toNat ≤ lead 1 schedule * Channel.adc.limit)) :=
  sharing_exact _ _ [] roundBetween (by decide) (by decide)
    (by rintro c (rfl | rfl) <;> exact ⟨rfl, rfl⟩) getMany_asks getOne_asks roundBetween_rounds

end BpmAcquisition.Server
