import BpmAcquisition.Server.Bounds
import BpmAcquisition.Server.Replies

/-!
# Where responses are written

`response_packet_s->buf` is a pointer that nothing but a successful request for samples sets, to
the samples themselves. `storage_exact` says for every run which commands write through it to
storage that is not theirs: every one that writes a text or a register value.
-/

namespace BpmAcquisition.Server

open Machine

/-- The last effect writes through `buf`, and the pointer stays. -/
def Writes (r : ResponsePacket) (b : Board) (response : ResponsePacket × Board) : Prop :=
  ∃ es e n, response.2.log = b.log ++ es ++ [e] ∧ (∀ e ∈ es, e.target = none) ∧
    e.target = some (r.buf, n) ∧ 0 < n ∧ response.1.buf = r.buf

/-! ### What a request writes -/

section
variable {drv : Driver} {b b' : Board} {r : ResponsePacket} {ch : Channel}

theorem effect_writes {e : Effect} {n : Nat} {r' : ResponsePacket} (quiet : Quiet b b')
    (target : e.target = some (r.buf, n)) (some : 0 < n) (same : r'.buf = r.buf) :
    Writes r b (r', b'.effect e) := by
  obtain ⟨es, log, none⟩ := quiet
  exact ⟨es, e, n, by rw [Board.log_effect, log], none, target, some, same⟩

theorem message_writes (quiet : Quiet b b') (text : String) (r : ResponsePacket) :
    Writes r b (message text { r with comm := messageId } b') :=
  effect_writes quiet rfl (Nat.succ_pos text.length) rfl

theorem getCommand_unique {comm : UInt32} {ch ch' : Channel} (get : CommandType.ofCode comm = some ch.getCommand)
    (get' : CommandType.ofCode comm = some ch'.getCommand) : ch' = ch := by
  rw [get] at get'
  cases ch <;> cases ch' <;> first | rfl | cases get'

/-- What `handle_request` comes to. -/
inductive Handling (drv : Driver) (c : CommandPacket) (r : ResponsePacket) (b : Board) :
    Int × ResponsePacket × Board → Prop
  | unhandled (unknown : handled c = false) : Handling drv c r b (error, r, b)
  | delivered {ch : Channel} {status : Int} {r' : ResponsePacket} {b' : Board} (known : handled c = true)
    (get : CommandType.ofCode c.comm = some ch.getCommand) (bound : c.val.toNat ≤ ch.maxSamples.toNat)
    (delivers : Delivers ch drv b) (passed : 0 ≤ status) (within : WithinBuffer ch (b'.handler ch) r')
    (quiet : Quiet b b') : Handling drv c r b (status, r', b')
  | wrote {status : Int} {r' : ResponsePacket} {b' : Board} (known : handled c = true)
    (failed : ∀ ch : Channel, CommandType.ofCode c.comm = some ch.getCommand →
      status < 0 ∧ ¬ (c.val.toNat ≤ ch.maxSamples.toNat ∧ Delivers ch drv b))
    (writes : Writes r b (r', b')) : Handling drv c r b (status, r', b')

theorem get_handling {c : CommandPacket} (get : CommandType.ofCode c.comm = some ch.getCommand) (valid : b.Valid)
    (asked : 0 < c.val.toNat) (known : handled c = true) : Handling drv c r b (handleRequest drv c r b) := by
  have quiet : Quiet b (getSamples drv c.val ch.responseHandler.byteOffset ch b).2.2.2 := getSamples_quiet _ _ _ _
  by_cases ok : c.val.toNat ≤ ch.maxSamples.toNat ∧ Delivers ch drv b
  · obtain ⟨bound, delivers⟩ := ok
    have passed := (getSamples_delivers ch.responseHandler.byteOffset valid asked bound).mpr delivers
    obtain ⟨r', b', equation, rfl, within⟩ := handleRequest_slice get r valid asked bound passed
    have small : r'.num.toNat ≤ 4096 := within.packet
    rw [equation]
    apply Handling.delivered known get bound delivers _ within quiet
    rw [asInt_eq (by omega)]
    exact Int.natCast_nonneg _
  · have refused : ¬ c.val.toNat ≤ ch.maxSamples.toNat ∨
        (getSamples drv c.val ch.responseHandler.byteOffset ch b).1 < 0 := by
      by_cases bound : c.val.toNat ≤ ch.maxSamples.toNat
      · have failed := mt (getSamples_delivers ch.responseHandler.byteOffset valid asked bound).mp
          fun delivers => ok ⟨bound, delivers⟩
        exact Or.inr (not_not.mp failed)
      · exact Or.inl bound
    obtain ⟨text, b', equation, board⟩ := handleRequest_refused get r refused
    have before : Quiet b b' := by
      rcases board with rfl | rfl
      · exact Quiet.refl _
      · exact quiet
    rw [equation]
    refine .wrote known (fun ch' get' => ?_) (message_writes before text r)
    have same := getCommand_unique get get'
    subst same
    exact ⟨by decide, ok⟩

theorem other_handling {c : CommandPacket} (other : ∀ ch : Channel, CommandType.ofCode c.comm ≠ some ch.getCommand)
    (known : handled c = true) : Handling drv c r b (handleRequest drv c r b) := by
  obtain ⟨type, answer, code, form, equation⟩ := handleRequest_answer drv b known
  rw [equation]
  cases form with
  | text failed text b' quiet short refused same =>
    rw [same]
    exact .wrote known (fun ch get => absurd get (other ch)) (message_writes quiet text r)
  | value comm value b' quiet _ same =>
    rw [same]
    exact .wrote known (fun ch get => absurd get (other ch)) (effect_writes quiet rfl (by decide) rfl)
  | samples ch _ _ _ _ get => exact absurd (by rw [code, get]) (other ch)

theorem handleRequest_handling {c : CommandPacket} (valid : b.Valid) (asked : 0 < prepareToHandle c) :
    Handling drv c r b (handleRequest drv c r b) := by
  cases known : handled c with
  | false =>
    rw [handleRequest_unhandled known]
    exact .unhandled known
  | true =>
    by_cases request : ∃ ch : Channel, CommandType.ofCode c.comm = some ch.getCommand
    · obtain ⟨ch, get⟩ := request
      exact get_handling get valid (get_positive get asked) known
    · exact other_handling (fun ch get => request ⟨ch, get⟩) known

end

/-! ### The pointer over a run -/

def InBuffer (ch : Channel) (a : UInt32) : Prop :=
  ch.attr.memStartAddr.toNat ≤ a.toNat ∧ a.toNat < ch.attr.memStartAddr.toNat + ch.memSize.toNat

instance (ch : Channel) (a : UInt32) : Decidable (InBuffer ch a) := inferInstanceAs (Decidable (_ ∧ _))

def Connection.assigns (k : Connection) (env : Env) (b : Board) : Prop :=
  (CommandType.ofCode k.command.comm = some .fmc150GetSamples ∨ CommandType.ofCode k.command.comm = some .ddcGetSamples) ∧
    0 ≤ (k.handle env b).1

instance (k : Connection) (env : Env) (b : Board) : Decidable (k.assigns env b) := inferInstanceAs (Decidable (_ ∧ _))

/-- A server and, as ghost history, the connections whose `buf` was set. -/
structure Tracked where
  server : Application
  assigned : Nat → Bool

def track (s : Tracked) (e : Event) : Tracked where
  server := serve s.server e
  assigned :=
    match e with
    | .respond c env =>
      if (s.server.connection c).phase = .responding ∧ (s.server.connection c).assigns env s.server.board then
        Function.update s.assigned c true
      else s.assigned
    | _ => s.assigned

def Connection.effects (k : Connection) (env : Env) (b : Board) : List Effect :=
  (k.handle env b).2.2.log.drop b.log.length

/-- Every `sprintf` and `memcpy` of a round of the connection writes through a pointer that was
set, and to no DMA buffer. -/
def StorageOk (c : Nat) (s : Tracked) : Event → Prop
  | .respond d env => d = c → (s.server.connection c).phase = .responding →
      ∀ e ∈ (s.server.connection c).effects env s.server.board, ∀ a n, e.target = some (a, n) →
        s.assigned c = true ∧ ∀ i, i < n → ∀ ch, ¬ InBuffer ch (a + UInt32.ofNat i)
  | _ => True

/-- A round of the connection is for a command without a handler or for samples, within the
limits and without a failure. -/
def Silent (c : Nat) (s : Tracked) : Event → Prop
  | .respond d env => d = c → (s.server.connection c).phase = .responding →
      handled (s.server.connection c).command = false ∨
        ∃ ch : Channel, CommandType.ofCode (s.server.connection c).command.comm = some ch.getCommand ∧
          (s.server.connection c).command.val.toNat ≤ ch.maxSamples.toNat ∧
          Delivers ch env.driver s.server.board
  | _ => True

/-- A pointer that was set points to samples. -/
structure Tracked.Sound (s : Tracked) : Prop where
  server : s.server.Sound
  points : ∀ c, s.assigned c = true → ∃ ch, InBuffer ch (s.server.connection c).response.buf

theorem within_inBuffer {ch : Channel} {h : LowLevelHandler} {r : ResponsePacket} (within : WithinBuffer ch h r) :
    InBuffer ch r.buf := by
  have start := within.start
  have some := within.some
  have captured := within.captured
  have memory := within.memory
  unfold InBuffer
  omega

theorem respond_response (k : Connection) (env : Env) (b : Board) :
    (k.respond env b).1.response = (k.handle env b).2.1 := by
  unfold Connection.respond
  simp only
  split <;> rfl

theorem handle_handling {s : Application} (sound : s.Sound) {c : Nat} (env : Env)
    (busy : (s.connection c).phase = .responding) :
    Handling env.driver (s.connection c).command (s.connection c).response s.board
      ((s.connection c).handle env s.board) :=
  handleRequest_handling sound.board (sound.asked c busy)

/-- After a round the pointer is where it was, or the round has set it to samples. -/
theorem handle_points {s : Application} (sound : s.Sound) {c : Nat} (env : Env)
    (busy : (s.connection c).phase = .responding) :
    ((s.connection c).handle env s.board).2.1.buf = (s.connection c).response.buf ∧
        ¬ (s.connection c).assigns env s.board ∨
      ∃ ch, InBuffer ch ((s.connection c).handle env s.board).2.1.buf := by
  have handling := handle_handling sound env busy
  unfold Connection.assigns
  generalize (s.connection c).handle env s.board = result at handling ⊢
  cases handling with
  | unhandled => exact Or.inl ⟨rfl, fun assigns => absurd assigns.2 (by decide : ¬ 0 ≤ error)⟩
  | delivered _ _ _ _ _ within => exact Or.inr ⟨_, within_inBuffer within⟩
  | wrote _ failed writes =>
    obtain ⟨_, _, _, _, _, _, _, same⟩ := writes
    refine Or.inl ⟨same, fun assigns => ?_⟩
    rcases assigns.1 with get | get
    · exact absurd assigns.2 (Int.not_le.mpr (failed .adc get).1)
    · exact absurd assigns.2 (Int.not_le.mpr (failed .ddc get).1)

theorem track_sound (s : Tracked) (e : Event) (sound : s.Sound) : (track s e).Sound := by
  refine ⟨serve_sound s.server e sound.server, fun c assigned => ?_⟩
  by_cases mine : e.connection = c
  case neg =>
    have before : s.assigned c = true := by
      cases e with
      | respond d env =>
        have other : c ≠ d := Ne.symm mine
        simp only [track] at assigned
        split at assigned
        · rw [Function.update_of_ne other] at assigned
          exact assigned
        · exact assigned
      | _ => exact assigned
    show ∃ ch, InBuffer ch ((serve s.server e).connection c).response.buf
    rw [serve_other s.server mine]
    exact sound.points c before
  subst mine
  cases e with
  | respond c env =>
    simp only [track, Event.connection] at assigned ⊢
    by_cases busy : (s.server.connection c).phase = .responding
    · rw [serve_responding env busy, Application.connection_update, Function.update_self, respond_response]
      rcases handle_points sound.server env busy with ⟨same, kept⟩ | points
      · rw [if_neg fun h => kept h.2] at assigned
        rw [same]
        exact sound.points c assigned
      · exact points
    · rw [if_neg fun h => busy h.1] at assigned
      rw [serve_not_responding env busy]
      exact sound.points c assigned
  | receive c command =>
    have points := sound.points c assigned
    simp only [track, serve, Event.connection]
    split
    · rw [Application.connection_update, Function.update_self]
      exact points
    · exact points
  | hangUp c =>
    have points := sound.points c assigned
    simp only [track, serve, Event.connection]
    split
    · rw [Application.connection_update, Function.update_self]
      exact points
    · exact points

theorem storage_silent (c : Nat) (s : Tracked) (e : Event) (sound : s.Sound) : StorageOk c s e ↔ Silent c s e := by
  cases e with
  | receive => exact Iff.rfl
  | hangUp => exact Iff.rfl
  | respond d env =>
    apply imp_congr_right
    rintro rfl
    apply imp_congr_right
    intro busy
    have handling := handle_handling sound.server env busy
    have points := sound.points d
    unfold Connection.effects
    generalize (s.server.connection d).handle env s.server.board = result at handling ⊢
    cases handling with
    | unhandled unknown =>
      refine iff_of_true (fun e member => ?_) (Or.inl unknown)
      simp at member
    | delivered known get bound delivers passed within quiet =>
      obtain ⟨es, log, none⟩ := quiet
      refine iff_of_true (fun e member a n target => ?_) (Or.inr ⟨_, get, bound, delivers⟩)
      simp only [log, List.drop_left] at member
      rw [none e member] at target
      cases target
    | wrote known failed writes =>
      obtain ⟨es, e, n, log, -, target, some, -⟩ := writes
      refine iff_of_false (fun ok => ?_) ?_
      · simp only at log ok
        rw [log, List.append_assoc, List.drop_left] at ok
        obtain ⟨assigned, outside⟩ := ok e (by simp) _ n target
        obtain ⟨ch, inside⟩ := points assigned
        have first : (s.server.connection d).response.buf + UInt32.ofNat 0 = (s.server.connection d).response.buf :=
          UInt32.add_zero _
        apply outside 0 some ch
        rw [first]
        exact inside
      · rintro (unknown | ⟨ch, get, bound, delivers⟩)
        · rw [known] at unknown
          cases unknown
        · exact (failed ch get).2 ⟨bound, delivers⟩

def Tracked.boot (command : Nat → CommandPacket) (response : Nat → ResponsePacket) : Tracked :=
  ⟨Application.boot command response, fun _ => false⟩

/-- For every run of the server, with any commands, driver results and networks, and every
connection: all texts and register values go to storage that was set for the response and is no
DMA buffer exactly if every command of the connection is unknown or a request for samples that
meets no failure, so that there are none. -/
theorem storage_exact (command : Nat → CommandPacket) (response : Nat → ResponsePacket) (es : List Event) (c : Nat) :
    Along track (StorageOk c) (Tracked.boot command response) es ↔
      Along track (Silent c) (Tracked.boot command response) es := by
  have start : (Tracked.boot command response).Sound := ⟨boot_sound command response, fun _ => Bool.noConfusion⟩
  exact along_iff_keeps track_sound (storage_silent c) start es

def ledAfterSamples : List Event :=
  [.receive 0 ⟨3, 0, 0, 1⟩, .respond 0 workingEnv, .receive 0 ⟨13, 0, 0, 0⟩]

def freshTracked : Tracked := Tracked.boot (fun _ => ⟨0, 0, 0, 0⟩) (fun _ => ⟨0, 0, 0⟩)

/-- The text for the LEDs is written to the captured samples; on a connection without samples it
is written through a pointer that was not set. -/
theorem text_overwrites_samples :
    let s := run track freshTracked ledAfterSamples
    (s.server.connection 0).effects workingEnv s.server.board =
        [.out32 ledBaseaddr 0, .sprintf ddr3DmaAdcBuffer "Led successfully written!"] ∧
      ¬ Along track (StorageOk 0) freshTracked (ledAfterSamples ++ [.respond 0 workingEnv]) ∧
      ¬ Along track (StorageOk 0) freshTracked [.receive 0 ⟨13, 0, 0, 0⟩, .respond 0 workingEnv] := by
  have effects : ((run track freshTracked ledAfterSamples).server.connection 0).effects workingEnv
      (run track freshTracked ledAfterSamples).server.board =
        [.out32 ledBaseaddr 0, .sprintf ddr3DmaAdcBuffer "Led successfully written!"] := by
    decide +kernel
  refine ⟨effects, fun along => ?_, fun along => ?_⟩
  · rw [along_append] at along
    have ok := along.2.1 rfl (by decide +kernel)
    rw [effects] at ok
    obtain ⟨-, outside⟩ := ok (.sprintf ddr3DmaAdcBuffer "Led successfully written!") (by simp) _ _ rfl
    exact outside 0 (Nat.succ_pos _) .adc (by decide)
  · have ok := along.2.1 rfl (by decide +kernel)
    have unset : (track freshTracked (.receive 0 ⟨13, 0, 0, 0⟩)).assigned 0 = false := by decide +kernel
    obtain ⟨assigned, -⟩ := ok (.sprintf 0 "Led successfully written!") (by decide +kernel) _ _ rfl
    rw [unset] at assigned
    cases assigned

end BpmAcquisition.Server
