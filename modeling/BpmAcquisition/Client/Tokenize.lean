import BpmAcquisition.Library.Tokens
import BpmAcquisition.Server.Request
import Mathlib.Algebra.Order.Ring.Int

/-!
# Commands from text

`tokenize_send_buffer` of `common.c` reads a command from a line of text with `strtok` and
`atoi`. `tokenize_exact` says for every string whether it accepts exactly what the format in its
comment allows.
-/

namespace BpmAcquisition.Client

open Server Tokens

/-- The bytes of a string up to its terminating NUL. -/
structure CString where
  bytes : List UInt8
  noNul : 0 ∉ bytes

def space : UInt8 := 0x20
def newline : UInt8 := 0x0A
def plus : UInt8 := 0x2B
def minus : UInt8 := 0x2D

def maxCommands : Int := 16

/-! ### The C library -/

def strtok : List UInt8 → Option (List UInt8 × List UInt8) := next space

def isspace (c : UInt8) : Bool := c = space || 9 ≤ c && c ≤ 13

def isdigit (c : UInt8) : Bool := 0x30 ≤ c && c ≤ 0x39

def decimal (digits : List UInt8) : Nat := digits.foldl (fun n c => 10 * n + (c.toNat - 0x30)) 0

/-- `strtol` stops at the limits of `long`, which has 32 bits here. -/
def clamp (x : Int) : Int := max (-2 ^ 31) (min (2 ^ 31 - 1) x)

/-- The integer at the start of a string, zero if there is none. -/
def leading (s : List UInt8) : Int :=
  let s := s.dropWhile isspace
  if s.head? = some minus then -decimal (s.tail.takeWhile isdigit)
  else if s.head? = some plus then decimal (s.tail.takeWhile isdigit)
  else decimal (s.takeWhile isdigit)

def atoi (s : List UInt8) : Int := clamp (leading s)

/-- The conversion of `int` to `unsigned int`. -/
def asUnsigned (x : Int) : UInt32 := ⟨BitVec.ofInt 32 x⟩

/-! ### `tokenize_send_buffer` -/

def tokenizeSendBuffer (sendBuffer : CString) (p : CommandPacket) : Int × CommandPacket :=
  match strtok sendBuffer.bytes with
  | none => (error, p)
  | some (tok, rest) =>
    let comm := atoi tok
    if comm ≤ 0 ∨ comm > maxCommands then (error, p)
    else
      match strtok rest with
      | none => (error, p)
      | some (tok, rest) =>
        let cs := atoi tok
        match strtok rest with
        | none => (error, p)
        | some (tok, rest) =>
          let addr := atoi tok
          match strtok rest with
          | none => (error, p)
          | some (tok, _) =>
            let val := atoi tok
            (success, ⟨asUnsigned comm, asUnsigned cs, asUnsigned addr, asUnsigned val⟩)

/-- Four tokens whose first starts with the number of a command. -/
def Accepted (s : CString) : Prop :=
  ∃ t₁ t₂ t₃ t₄, first space 4 s.bytes = [t₁, t₂, t₃, t₄] ∧ 0 < atoi t₁ ∧ atoi t₁ ≤ maxCommands

theorem tokenize_accepted {s : CString} {t₁ t₂ t₃ t₄ : List UInt8} (tokens : first space 4 s.bytes = [t₁, t₂, t₃, t₄])
    (positive : 0 < atoi t₁) (known : atoi t₁ ≤ maxCommands) (p : CommandPacket) :
    tokenizeSendBuffer s p =
      (success, ⟨asUnsigned (atoi t₁), asUnsigned (atoi t₂), asUnsigned (atoi t₃), asUnsigned (atoi t₄)⟩) := by
  obtain ⟨r₁, next₁, tokens⟩ := first_cons tokens
  obtain ⟨r₂, next₂, tokens⟩ := first_cons tokens
  obtain ⟨r₃, next₃, tokens⟩ := first_cons tokens
  obtain ⟨r₄, next₄, -⟩ := first_cons tokens
  have fine : ¬ (atoi t₁ ≤ 0 ∨ atoi t₁ > maxCommands) := by omega
  unfold tokenizeSendBuffer strtok
  simp only [next₁, next₂, next₃, next₄, if_neg fine]

theorem tokenize_rejected {s : CString} (rejected : ¬ Accepted s) (p : CommandPacket) :
    tokenizeSendBuffer s p = (error, p) := by
  unfold tokenizeSendBuffer strtok
  cases next₁ : next space s.bytes with
  | none => rfl
  | some first₁ =>
    obtain ⟨t₁, r₁⟩ := first₁
    simp only
    split
    · rfl
    case isFalse fine =>
      cases next₂ : next space r₁ with
      | none => rfl
      | some first₂ =>
        obtain ⟨t₂, r₂⟩ := first₂
        simp only
        cases next₃ : next space r₂ with
        | none => rfl
        | some first₃ =>
          obtain ⟨t₃, r₃⟩ := first₃
          simp only
          cases next₄ : next space r₃ with
          | none => rfl
          | some first₄ =>
            obtain ⟨t₄, r₄⟩ := first₄
            refine absurd ⟨t₁, t₂, t₃, t₄, ?_, by omega, by omega⟩ rejected
            rw [first_some next₁, first_some next₂, first_some next₃, first_some next₄, first]

/-! ### The documented format -/

inductive Decimal : List UInt8 → Int → Prop
  | plain {ds : List UInt8} (some : ds ≠ []) (digits : ∀ d ∈ ds, isdigit d = true) : Decimal ds (decimal ds)
  | plus {ds : List UInt8} (some : ds ≠ []) (digits : ∀ d ∈ ds, isdigit d = true) :
      Decimal (plus :: ds) (decimal ds)
  | minus {ds : List UInt8} (some : ds ≠ []) (digits : ∀ d ∈ ds, isdigit d = true) :
      Decimal (minus :: ds) (-decimal ds)

/-- Four integers with single spaces between them, the first the number of a command; a newline
may follow. -/
inductive Sentence : List UInt8 → Int → Int → Int → Int → Prop
  | intro {t₁ t₂ t₃ t₄ ending : List UInt8} {comm cs addr val : Int} (ends : ending = [] ∨ ending = [newline])
    (first : Decimal t₁ comm) (second : Decimal t₂ cs) (third : Decimal t₃ addr) (fourth : Decimal t₄ val)
    (positive : 1 ≤ comm) (known : comm ≤ maxCommands) :
    Sentence (t₁ ++ space :: (t₂ ++ space :: (t₃ ++ space :: (t₄ ++ ending)))) comm cs addr val

/-- The field holds the integer, as an unsigned or as a signed word. -/
def IsField (field : UInt32) (x : Int) : Prop := (field.toNat : Int) = x ∨ asInt field = x

/-- Sentences are accepted with their integers as the fields, and everything else is refused
and leaves the packet as it was. -/
def FollowsFormat (s : CString) (p : CommandPacket) : Prop :=
  (∀ comm cs addr val, Sentence s.bytes comm cs addr val →
    ∃ packet, tokenizeSendBuffer s p = (success, packet) ∧ IsField packet.comm comm ∧ IsField packet.cs cs ∧
      IsField packet.addr addr ∧ IsField packet.val val) ∧
    ((¬ ∃ comm cs addr val, Sentence s.bytes comm cs addr val) → tokenizeSendBuffer s p = (error, p))

def InInt (x : Int) : Prop := -2 ^ 31 ≤ x ∧ x < 2 ^ 31

/-! ### Decimal integers as tokens -/

theorem isdigit_range {d : UInt8} (digit : isdigit d = true) : 0x30 ≤ d.toNat ∧ d.toNat ≤ 0x39 := by
  unfold isdigit at digit
  rw [Bool.and_eq_true, decide_eq_true_eq, decide_eq_true_eq, UInt8.le_iff_toNat_le, UInt8.le_iff_toNat_le] at digit
  exact digit

theorem isspace_digit {d : UInt8} (digit : isdigit d = true) : isspace d = false := by
  obtain ⟨low, -⟩ := isdigit_range digit
  have other : d ≠ space := by
    rintro rfl
    exact absurd low (by decide)
  have above : ¬ d ≤ 13 := by
    rw [UInt8.le_iff_toNat_le]
    exact fun below => absurd (Nat.le_trans low below) (by decide)
  simp [isspace, other, above]

/-- The sign and the digits of a decimal integer. -/
theorem decimal_parts {t : List UInt8} {x : Int} (h : Decimal t x) :
    ∃ c ds, t = c :: ds ∧ c ≠ space ∧ isspace c = false ∧ ∀ d ∈ ds, isdigit d = true := by
  have apart : ∀ d, isdigit d = true → d ≠ space := by
    rintro d digit rfl
    exact absurd (isdigit_range digit).1 (by decide)
  cases h with
  | @plain ds some digits =>
    obtain ⟨c, ds, rfl⟩ := List.exists_cons_of_ne_nil some
    have first := digits c List.mem_cons_self
    exact ⟨c, ds, rfl, apart c first, isspace_digit first, fun d member => digits d (List.mem_cons_of_mem c member)⟩
  | plus some digits => exact ⟨plus, _, rfl, by decide, by decide, digits⟩
  | minus some digits => exact ⟨minus, _, rfl, by decide, by decide, digits⟩

theorem decimal_clean {t ending : List UInt8} {x : Int} (h : Decimal t x) (ends : ending = [] ∨ ending = [newline]) :
    t ++ ending ≠ [] ∧ space ∉ t ++ ending := by
  obtain ⟨c, ds, rfl, other, -, digits⟩ := decimal_parts h
  refine ⟨by simp, fun member => ?_⟩
  rcases List.mem_append.mp member with inside | after
  · rcases List.mem_cons.mp inside with same | inside
    · exact other same.symm
    · exact absurd (isdigit_range (digits space inside)).1 (by decide)
  · rcases ends with rfl | rfl
    · cases after
    · exact absurd (List.mem_singleton.mp after) (by decide)

theorem takeWhile_digits {ds ending : List UInt8} (digits : ∀ d ∈ ds, isdigit d = true)
    (ends : ending = [] ∨ ending = [newline]) : (ds ++ ending).takeWhile isdigit = ds := by
  rw [List.takeWhile_append_of_pos digits]
  rcases ends with rfl | rfl
  · rw [List.takeWhile_nil, List.append_nil]
  · rw [List.takeWhile_cons_of_neg (by decide), List.append_nil]

theorem leading_decimal {t ending : List UInt8} {x : Int} (h : Decimal t x)
    (ends : ending = [] ∨ ending = [newline]) : leading (t ++ ending) = x := by
  have starts : (t ++ ending).dropWhile isspace = t ++ ending := by
    obtain ⟨c, ds, rfl, -, stays, -⟩ := decimal_parts h
    rw [List.cons_append, List.dropWhile_cons_of_neg (by simpa using stays)]
  unfold leading
  rw [starts]
  cases h with
  | @plain ds some digits =>
    have taken := takeWhile_digits digits ends
    obtain ⟨c, ds, rfl⟩ := List.exists_cons_of_ne_nil some
    obtain ⟨least, -⟩ := isdigit_range (digits c List.mem_cons_self)
    have notMinus : c ≠ minus := by
      rintro rfl
      exact absurd least (by decide)
    have notPlus : c ≠ plus := by
      rintro rfl
      exact absurd least (by decide)
    simp only [List.cons_append, List.head?_cons, Option.some.injEq, if_neg notMinus, if_neg notPlus]
    rw [← List.cons_append, taken]
  | plus some digits =>
    have other : plus ≠ minus := by decide
    simp only [List.cons_append, List.head?_cons, Option.some.injEq, if_neg other, if_true, List.tail_cons,
      takeWhile_digits digits ends]
  | minus some digits =>
    simp only [List.cons_append, List.head?_cons, if_true, List.tail_cons, takeWhile_digits digits ends]

/-! ### Fields -/

theorem asUnsigned_range {x : Int} (low : -2 ^ 31 ≤ x) (high : x < 2 ^ 31) : asInt (asUnsigned x) = x := by
  unfold asInt asUnsigned
  rw [BitVec.toInt_ofInt]
  exact Int.bmod_eq_of_le (by omega) (by omega)

theorem clamp_range (x : Int) : -2 ^ 31 ≤ clamp x ∧ clamp x < 2 ^ 31 := by
  unfold clamp
  omega

theorem clamp_eq (x : Int) : clamp x = x ↔ InInt x := by
  unfold clamp InInt
  omega

/-- A field that `atoi` has read is its integer unless that is out of range. -/
theorem isField_clamp (x : Int) : IsField (asUnsigned (clamp x)) x ↔ InInt x := by
  obtain ⟨low, high⟩ := clamp_range x
  have signed := asUnsigned_range low high
  constructor
  · rintro (natural | same)
    · have wrapped : asInt (asUnsigned (clamp x)) = (asUnsigned (clamp x)).toNat ∨
          asInt (asUnsigned (clamp x)) = (asUnsigned (clamp x)).toNat - 2 ^ 32 := by
        unfold asInt
        rw [BitVec.toInt_eq_toNat_cond, UInt32.toNat_toBitVec]
        split
        · exact Or.inl rfl
        · exact Or.inr rfl
      have bound := (asUnsigned (clamp x)).toNat_lt
      unfold InInt clamp at *
      omega
    · exact (clamp_eq x).mp (signed.symm.trans same)
  · intro inside
    exact Or.inr (signed.trans ((clamp_eq x).mpr inside))

/-- The tokens of a sentence start with its integers. -/
theorem sentence_tokens {s : List UInt8} {comm cs addr val : Int} (h : Sentence s comm cs addr val) :
    ∃ t₁ t₂ t₃ t₄, first space 4 s = [t₁, t₂, t₃, t₄] ∧ leading t₁ = comm ∧ leading t₂ = cs ∧ leading t₃ = addr ∧
      leading t₄ = val ∧ 1 ≤ comm ∧ comm ≤ maxCommands := by
  cases h with
  | @intro t₁ t₂ t₃ t₄ ending _ _ _ _ ends first₁ first₂ first₃ first₄ positive known =>
    have none : ([] : List UInt8) = [] ∨ ([] : List UInt8) = [newline] := Or.inl rfl
    have token : ∀ {t : List UInt8} {x : Int}, Decimal t x → t ≠ [] ∧ space ∉ t ∧ leading t = x := by
      intro t x h
      obtain ⟨some, clean⟩ := decimal_clean h none
      have value := leading_decimal h none
      rw [List.append_nil] at some clean value
      exact ⟨some, clean, value⟩
    obtain ⟨some₁, clean₁, value₁⟩ := token first₁
    obtain ⟨some₂, clean₂, value₂⟩ := token first₂
    obtain ⟨some₃, clean₃, value₃⟩ := token first₃
    obtain ⟨some₄, clean₄⟩ := decimal_clean first₄ ends
    refine ⟨t₁, t₂, t₃, t₄ ++ ending, ?_, value₁, value₂, value₃, leading_decimal first₄ ends, positive, known⟩
    rw [first_some (next_joined some₁ clean₁ _), first_some (next_joined some₂ clean₂ _),
      first_some (next_joined some₃ clean₃ _), first_some (next_last some₄ clean₄), first]

/-- What is done with a sentence: its integers become the fields as far as they fit `int`. -/
theorem tokenize_sentence {s : CString} {comm cs addr val : Int} (h : Sentence s.bytes comm cs addr val)
    (p : CommandPacket) :
    Accepted s ∧ tokenizeSendBuffer s p =
      (success, ⟨asUnsigned (clamp comm), asUnsigned (clamp cs), asUnsigned (clamp addr), asUnsigned (clamp val)⟩) := by
  obtain ⟨t₁, t₂, t₃, t₄, tokens, rfl, rfl, rfl, rfl, positive, known⟩ := sentence_tokens h
  have small : maxCommands = 16 := rfl
  have same : atoi t₁ = leading t₁ := (clamp_eq _).mpr ⟨by omega, by omega⟩
  have least : 0 < atoi t₁ := by omega
  have most : atoi t₁ ≤ maxCommands := by omega
  exact ⟨⟨t₁, t₂, t₃, t₄, tokens, least, most⟩, tokenize_accepted tokens least most p⟩

/-- The integers of a sentence are determined. -/
theorem sentence_unique {s : List UInt8} {comm cs addr val comm' cs' addr' val' : Int}
    (h : Sentence s comm cs addr val) (h' : Sentence s comm' cs' addr' val') :
    comm = comm' ∧ cs = cs' ∧ addr = addr' ∧ val = val' := by
  obtain ⟨t₁, t₂, t₃, t₄, tokens, rfl, rfl, rfl, rfl, -⟩ := sentence_tokens h
  obtain ⟨t₁', t₂', t₃', t₄', tokens', rfl, rfl, rfl, rfl, -⟩ := sentence_tokens h'
  rw [tokens] at tokens'
  cases tokens'
  exact ⟨rfl, rfl, rfl, rfl⟩

/-- For every string and packet: the string is treated as the format says exactly if it is a
sentence whose integers fit `int`, or it has fewer than four tokens or no number of a command at
the start of the first. -/
theorem tokenize_exact (s : CString) (p : CommandPacket) :
    FollowsFormat s p ↔
      (∃ comm cs addr val, Sentence s.bytes comm cs addr val ∧ InInt cs ∧ InInt addr ∧ InInt val) ∨ ¬ Accepted s := by
  constructor
  · rintro ⟨accepts, refuses⟩
    by_cases sentence : ∃ comm cs addr val, Sentence s.bytes comm cs addr val
    · obtain ⟨comm, cs, addr, val, h⟩ := sentence
      obtain ⟨packet, result, -, csField, addrField, valField⟩ := accepts comm cs addr val h
      rw [(tokenize_sentence h p).2, Prod.mk.injEq] at result
      obtain ⟨-, rfl⟩ := result
      exact Or.inl ⟨comm, cs, addr, val, h, (isField_clamp cs).mp csField, (isField_clamp addr).mp addrField,
        (isField_clamp val).mp valField⟩
    · refine Or.inr fun accepted => ?_
      obtain ⟨t₁, t₂, t₃, t₄, tokens, positive, known⟩ := accepted
      have refused := refuses sentence
      rw [tokenize_accepted tokens positive known p, Prod.mk.injEq] at refused
      exact absurd refused.1 (by decide)
  · rintro (⟨comm, cs, addr, val, h, csFits, addrFits, valFits⟩ | rejected)
    · refine ⟨fun comm' cs' addr' val' h' => ?_, fun none => absurd ⟨comm, cs, addr, val, h⟩ none⟩
      obtain ⟨rfl, rfl, rfl, rfl⟩ := sentence_unique h h'
      have bounds : 1 ≤ comm ∧ comm ≤ maxCommands := by
        obtain ⟨_, _, _, _, -, -, -, -, -, positive, known⟩ := sentence_tokens h
        exact ⟨positive, known⟩
      have small : maxCommands = 16 := rfl
      exact ⟨_, (tokenize_sentence h p).2, (isField_clamp comm).mpr ⟨by omega, by omega⟩,
        (isField_clamp cs).mpr csFits, (isField_clamp addr).mpr addrFits, (isField_clamp val).mpr valFits⟩
    · refine ⟨fun comm cs addr val h => absurd (tokenize_sentence h p).1 rejected, fun _ => ?_⟩
      exact tokenize_rejected rejected p

theorem decimal_bytes {t : List UInt8} {x : Int} (h : Decimal t x) :
    ∀ b ∈ t, isdigit b = true ∨ b ∈ [space, newline, plus, minus] := by
  intro b member
  cases h with
  | plain some digits => exact Or.inl (digits b member)
  | plus some digits =>
    rcases List.mem_cons.mp member with rfl | inside
    · exact Or.inr (by decide)
    · exact Or.inl (digits b inside)
  | minus some digits =>
    rcases List.mem_cons.mp member with rfl | inside
    · exact Or.inr (by decide)
    · exact Or.inl (digits b inside)

theorem sentence_bytes {s : List UInt8} {comm cs addr val : Int} (h : Sentence s comm cs addr val) :
    ∀ b ∈ s, isdigit b = true ∨ b ∈ [space, newline, plus, minus] := by
  intro b member
  cases h with
  | intro ends first₁ first₂ first₃ first₄ =>
    simp only [List.mem_append, List.mem_cons] at member
    rcases member with h | rfl | h | rfl | h | rfl | h | h
    · exact decimal_bytes first₁ b h
    · exact Or.inr (by decide)
    · exact decimal_bytes first₂ b h
    · exact Or.inr (by decide)
    · exact decimal_bytes first₃ b h
    · exact Or.inr (by decide)
    · exact decimal_bytes first₄ b h
    · rcases ends with rfl | rfl
      · cases h
      · exact Or.inr (by rw [List.mem_singleton.mp h]; decide)

/-- `12 0  0 5x 7`: two spaces, a letter after a number and a fifth token. -/
def looseLine : CString :=
  ⟨[0x31, 0x32, 0x20, 0x30, 0x20, 0x20, 0x30, 0x20, 0x35, 0x78, 0x20, 0x37], by decide⟩

/-- The line is accepted and overwrites the packet. -/
theorem loose_line_accepted :
    tokenizeSendBuffer looseLine ⟨0, 0, 0, 0⟩ = (success, ⟨12, 0, 0, 5⟩) ∧ ¬ FollowsFormat looseLine ⟨0, 0, 0, 0⟩ := by
  have accepted : tokenizeSendBuffer looseLine ⟨0, 0, 0, 0⟩ = (success, ⟨12, 0, 0, 5⟩) := by decide +kernel
  refine ⟨accepted, fun follows => ?_⟩
  have none : ¬ ∃ comm cs addr val, Sentence looseLine.bytes comm cs addr val := by
    rintro ⟨_, _, _, _, h⟩
    exact absurd (sentence_bytes h 0x78 (by decide)) (by decide)
  have refused := follows.2 none
  rw [accepted, Prod.mk.injEq] at refused
  exact absurd refused.1 (by decide)

end BpmAcquisition.Client
