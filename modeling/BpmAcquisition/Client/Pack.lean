import BpmAcquisition.Client.Commands

/-!
# Formats of `pack` and `unpack`

`pack.c` writes the arguments that a format string names and reads them back. `unpack_pack` says for every format
without floating point which arguments come back, and how a string is cut by the digits before its `s`.
-/

namespace BpmAcquisition.Pack

open Bytes Server Client

/-- The letters that the two switches know. -/
inductive Code where
  | c
  | C
  | h
  | H
  | l
  | L
  | q
  | Q
  | f
  | d
  | g
  | s

def Code.ofChar : Char → Option Code
  | 'c' => some .c
  | 'C' => some .C
  | 'h' => some .h
  | 'H' => some .H
  | 'l' => some .l
  | 'L' => some .L
  | 'q' => some .q
  | 'Q' => some .Q
  | 'f' => some .f
  | 'd' => some .d
  | 'g' => some .g
  | 's' => some .s
  | _ => none

/-- An argument as `va_arg` takes it: promoted to 32 bits, of 64 bits, or a string without its end. -/
inductive Arg where
  | word (w : UInt32)
  | quad (w : UInt64)
  | str (s : List UInt8)

/-- What `unpack` leaves where an argument points. -/
inductive Value where
  | int (i : Int)
  | str (s : List UInt8)
  deriving DecidableEq

def packi64 (i : UInt64) : List UInt8 :=
  [(i >>> 56).toUInt8, (i >>> 48).toUInt8, (i >>> 40).toUInt8, (i >>> 32).toUInt8,
    (i >>> 24).toUInt8, (i >>> 16).toUInt8, (i >>> 8).toUInt8, i.toUInt8]

def unpacku16 (b₀ b₁ : UInt8) : UInt16 := (b₀.toUInt16 <<< 8) ||| b₁.toUInt16

def unpacku64 (b₀ b₁ b₂ b₃ b₄ b₅ b₆ b₇ : UInt8) : UInt64 :=
  (b₀.toUInt64 <<< 56) ||| (b₁.toUInt64 <<< 48) ||| (b₂.toUInt64 <<< 40) ||| (b₃.toUInt64 <<< 32) |||
    (b₄.toUInt64 <<< 24) ||| (b₅.toUInt64 <<< 16) ||| (b₆.toUInt64 <<< 8) ||| b₇.toUInt64

/-- The unsigned number `u` of `bits` bits as a signed one, by comparison with the greatest. -/
def resign (bits u : Nat) : Int := if u ≤ 2 ^ (bits - 1) - 1 then u else -1 - (2 ^ bits - 1 - u : Nat)

def unpacki16 (b₀ b₁ : UInt8) : Int := resign 16 (unpacku16 b₀ b₁).toNat

def unpacki32 (b₀ b₁ b₂ b₃ : UInt8) : Int := resign 32 (unpacku32 b₀ b₁ b₂ b₃).toNat

def unpacki64 (b₀ b₁ b₂ b₃ b₄ b₅ b₆ b₇ : UInt8) : Int := resign 64 (unpacku64 b₀ b₁ b₂ b₃ b₄ b₅ b₆ b₇).toNat

/-- The size that `pack` returns, and what it has written. -/
structure Packed where
  size : UInt32
  bytes : List UInt8
  deriving DecidableEq

/-- The floats are left out, and an argument that is not of its letter has no defined behaviour. -/
def packItem : Code → Arg → Option Packed
  | .c, .word w | .C, .word w => some ⟨1, [w.toUInt8]⟩
  | .h, .word w | .H, .word w => some ⟨2, packi16 w.toUInt16.toUInt32⟩
  | .l, .word w | .L, .word w => some ⟨4, packi32 w⟩
  | .q, .quad w | .Q, .quad w => some ⟨8, packi64 w⟩
  | .s, .str s => some ⟨UInt32.ofNat s.length + 2, packi16 (UInt32.ofNat s.length) ++ s⟩
  | _, _ => none

def pack : List Char → List Arg → Option Packed
  | [], _ => some ⟨0, []⟩
  | f :: format, args =>
    match Code.ofChar f, args with
    | none, args => pack format args
    | some _, [] => none
    | some code, a :: rest => do
      let item ← packItem code a
      let later ← pack format rest
      return ⟨item.size + later.size, item.bytes ++ later.bytes⟩

/-- One value, and where `buf` points behind it. A negative `c` leaves it where it was. -/
def unpackItem (maxstrlen : UInt32) : Code → List UInt8 → Option (Value × List UInt8)
  | .c, b :: rest => some (.int (resign 8 b.toNat), if b ≤ 0x7f then rest else b :: rest)
  | .C, b :: rest => some (.int b.toNat, rest)
  | .h, b₀ :: b₁ :: rest => some (.int (unpacki16 b₀ b₁), rest)
  | .H, b₀ :: b₁ :: rest => some (.int (unpacku16 b₀ b₁).toNat, rest)
  | .l, b₀ :: b₁ :: b₂ :: b₃ :: rest => some (.int (unpacki32 b₀ b₁ b₂ b₃), rest)
  | .L, b₀ :: b₁ :: b₂ :: b₃ :: rest => some (.int (unpacku32 b₀ b₁ b₂ b₃).toNat, rest)
  | .q, b₀ :: b₁ :: b₂ :: b₃ :: b₄ :: b₅ :: b₆ :: b₇ :: rest => some (.int (unpacki64 b₀ b₁ b₂ b₃ b₄ b₅ b₆ b₇), rest)
  | .Q, b₀ :: b₁ :: b₂ :: b₃ :: b₄ :: b₅ :: b₆ :: b₇ :: rest => some (.int (unpacku64 b₀ b₁ b₂ b₃ b₄ b₅ b₆ b₇).toNat, rest)
  | .s, b₀ :: b₁ :: rest =>
    let len := (unpacku16 b₀ b₁).toUInt32
    let count := if 0 < maxstrlen ∧ maxstrlen < len then maxstrlen - 1 else len
    if len.toNat ≤ rest.length then some (.str (rest.take count.toNat), rest.drop len.toNat) else none
  | _, _ => none

/-- `maxstrlen` behind a letter that is none of the switch. -/
def tracked (maxstrlen : UInt32) (f : Char) : UInt32 :=
  if f.isDigit then maxstrlen * 10 + UInt32.ofNat (f.toNat - '0'.toNat) else 0

def unpack : UInt32 → List Char → List UInt8 → Option (List Value)
  | _, [], _ => some []
  | maxstrlen, f :: format, buf =>
    match Code.ofChar f with
    | none => unpack (tracked maxstrlen f) format buf
    | some code => do
      let (v, left) ← unpackItem maxstrlen code buf
      let later ← unpack 0 format left
      return v :: later

/-! ### What comes back -/

/-- The value of an argument as the letter has it. -/
def Arg.read (maxstrlen : UInt32) : Code → Arg → Option Value
  | .c, .word w => some (.int (w.toBitVec.setWidth 8).toInt)
  | .C, .word w => some (.int (w.toNat % 2 ^ 8 : Nat))
  | .h, .word w => some (.int (w.toBitVec.setWidth 16).toInt)
  | .H, .word w => some (.int (w.toNat % 2 ^ 16 : Nat))
  | .l, .word w => some (.int w.toBitVec.toInt)
  | .L, .word w => some (.int w.toNat)
  | .q, .quad w => some (.int w.toBitVec.toInt)
  | .Q, .quad w => some (.int w.toNat)
  | .s, .str s => some (.str (if 0 < maxstrlen ∧ maxstrlen.toNat < s.length then s.take (maxstrlen.toNat - 1) else s))
  | _, _ => none

def readBack : UInt32 → List Char → List Arg → Option (List Value)
  | _, [], _ => some []
  | maxstrlen, f :: format, args =>
    match Code.ofChar f, args with
    | none, args => readBack (tracked maxstrlen f) format args
    | some _, [] => none
    | some code, a :: rest => do
      let v ← a.read maxstrlen code
      let later ← readBack 0 format rest
      return v :: later

/-- The length of a string is packed in 16 bits. -/
def Arg.Fits : Arg → Prop
  | .str s => s.length < 2 ^ 16
  | _ => True

/-- `unpack` does not step over a `c` that is negative. -/
def Arg.Stays : Code → Arg → Prop
  | .c, .word w => 0x7f < w.toUInt8
  | _, _ => False

/-- Strings are short, and no letter stands behind a negative `c`. -/
def Readable : List Char → List Arg → Prop
  | [], _ => True
  | f :: format, args =>
    match Code.ofChar f, args with
    | none, args => Readable format args
    | some _, [] => True
    | some code, a :: rest => a.Fits ∧ (a.Stays code → ∀ g ∈ format, Code.ofChar g = none) ∧ Readable format rest

/-! ### Numbers -/

theorem resign_toInt {n : Nat} (w : BitVec (n + 1)) : resign (n + 1) w.toNat = w.toInt := by
  have bound := w.isLt
  have double : 2 ^ (n + 1) = 2 * 2 ^ n := Nat.pow_succ'
  have some : 0 < 2 ^ n := Nat.two_pow_pos n
  rw [BitVec.toInt_eq_toNat_cond, resign, Nat.add_sub_cancel]
  by_cases low : w.toNat ≤ 2 ^ n - 1
  · rw [if_pos low, if_pos (by omega)]
  · rw [if_neg low, if_neg (by omega)]
    omega

theorem shifted_small {b k n : Nat} (byte : b < 2 ^ 8) (within : k + 8 ≤ n) : b <<< k % 2 ^ n = 2 ^ k * b := by
  rw [Nat.shiftLeft_eq, Nat.mul_comm]
  apply Nat.mod_eq_of_lt
  calc 2 ^ k * b < 2 ^ k * 2 ^ 8 := Nat.mul_lt_mul_of_pos_left byte (Nat.two_pow_pos k)
    _ = 2 ^ (k + 8) := (Nat.pow_add 2 k 8).symm
    _ ≤ 2 ^ n := Nat.pow_le_pow_right Nat.two_pos within

theorem multiple_or (b : Nat) {a k : Nat} (small : a < 2 ^ k) : 2 ^ k * b ||| a = 2 ^ k * b + a :=
  (Nat.two_pow_add_eq_or_of_lt small b).symm

theorem unpacku16_toNat (b₀ b₁ : UInt8) : (unpacku16 b₀ b₁).toNat = value [b₁, b₀] := by
  have h₀ := b₀.toNat_lt
  have h₁ := b₁.toNat_lt
  simp only [unpacku16, UInt16.toNat_or, UInt16.toNat_shiftLeft, UInt8.toNat_toUInt16]
  show (b₀.toNat <<< 8 % 2 ^ 16 ||| b₁.toNat) = _
  rw [shifted_small h₀ (by decide), multiple_or _ h₁]
  simp only [value, List.foldr]
  omega

theorem unpacku64_toNat (b₀ b₁ b₂ b₃ b₄ b₅ b₆ b₇ : UInt8) :
    (unpacku64 b₀ b₁ b₂ b₃ b₄ b₅ b₆ b₇).toNat = value [b₇, b₆, b₅, b₄, b₃, b₂, b₁, b₀] := by
  have h₀ := b₀.toNat_lt
  have h₁ := b₁.toNat_lt
  have h₂ := b₂.toNat_lt
  have h₃ := b₃.toNat_lt
  have h₄ := b₄.toNat_lt
  have h₅ := b₅.toNat_lt
  have h₆ := b₆.toNat_lt
  have h₇ := b₇.toNat_lt
  simp only [unpacku64, UInt64.toNat_or, UInt64.toNat_shiftLeft, UInt8.toNat_toUInt64]
  show (b₀.toNat <<< 56 % 2 ^ 64 ||| b₁.toNat <<< 48 % 2 ^ 64 ||| b₂.toNat <<< 40 % 2 ^ 64 |||
    b₃.toNat <<< 32 % 2 ^ 64 ||| b₄.toNat <<< 24 % 2 ^ 64 ||| b₅.toNat <<< 16 % 2 ^ 64 |||
    b₆.toNat <<< 8 % 2 ^ 64 ||| b₇.toNat) = _
  simp only [Nat.or_assoc]
  rw [shifted_small h₀ (by decide), shifted_small h₁ (by decide), shifted_small h₂ (by decide),
    shifted_small h₃ (by decide), shifted_small h₄ (by decide), shifted_small h₅ (by decide),
    shifted_small h₆ (by decide), multiple_or b₆.toNat h₇, multiple_or b₅.toNat (by omega),
    multiple_or b₄.toNat (by omega), multiple_or b₃.toNat (by omega), multiple_or b₂.toNat (by omega),
    multiple_or b₁.toNat (by omega), multiple_or b₀.toNat (by omega)]
  simp only [value, List.foldr]
  omega

theorem unpacku16_packi16 (i : UInt32) : unpacku16 (i >>> 8).toUInt8 i.toUInt8 = i.toUInt16 := by
  apply UInt16.toNat_inj.mp
  rw [unpacku16_toNat]
  simp only [value, List.foldr, UInt32.toNat_toUInt8, UInt32.toNat_toUInt16, UInt32.toNat_shiftRight]
  show i.toNat % 2 ^ 8 + 256 * ((i.toNat >>> 8) % 2 ^ 8 + 256 * 0) = i.toNat % 2 ^ 16
  rw [Nat.shiftRight_eq_div_pow]
  omega

theorem unpacku32_packi32 (i : UInt32) :
    unpacku32 (i >>> 24).toUInt8 (i >>> 16).toUInt8 (i >>> 8).toUInt8 i.toUInt8 = i := by
  apply UInt32.toNat_inj.mp
  have bytes := congrArg (fun l => value l.reverse) (packi32_eq i)
  rw [unpacku32_toNat]
  refine bytes.trans ?_
  rw [List.reverse_reverse, value_little]
  exact Nat.mod_eq_of_lt i.toNat_lt

theorem packi64_eq (i : UInt64) : packi64 i = (little 8 i.toNat).reverse := by
  simp only [packi64, little, List.reverse_cons, List.reverse_nil, List.nil_append, List.cons_append,
    List.cons.injEq, and_true]
  refine ⟨?_, ?_, ?_, ?_, ?_, ?_, ?_, ?_⟩ <;> apply UInt8.toNat_inj.mp <;>
    simp [UInt64.toNat_shiftRight, Nat.shiftRight_eq_div_pow, Nat.div_div_eq_div_mul]

theorem unpacku64_packi64 (i : UInt64) :
    unpacku64 (i >>> 56).toUInt8 (i >>> 48).toUInt8 (i >>> 40).toUInt8 (i >>> 32).toUInt8 (i >>> 24).toUInt8
      (i >>> 16).toUInt8 (i >>> 8).toUInt8 i.toUInt8 = i := by
  apply UInt64.toNat_inj.mp
  have bytes := congrArg (fun l => value l.reverse) (packi64_eq i)
  rw [unpacku64_toNat]
  refine bytes.trans ?_
  rw [List.reverse_reverse, value_little]
  exact Nat.mod_eq_of_lt i.toNat_lt

theorem resign_word (n : Nat) (w : UInt32) {u : Nat} (same : u = w.toNat % 2 ^ (n + 1)) :
    resign (n + 1) u = (w.toBitVec.setWidth (n + 1)).toInt := by
  rw [← resign_toInt, BitVec.toNat_setWidth, same]
  rfl

theorem unpacku16_short (w : UInt32) :
    unpacku16 (w.toUInt16.toUInt32 >>> 8).toUInt8 w.toUInt16.toUInt32.toUInt8 = w.toUInt16 := by
  rw [unpacku16_packi16, UInt16.toUInt16_toUInt32]

theorem unpacki16_packi16 (w : UInt32) :
    unpacki16 (w.toUInt16.toUInt32 >>> 8).toUInt8 w.toUInt16.toUInt32.toUInt8 = (w.toBitVec.setWidth 16).toInt := by
  rw [unpacki16, unpacku16_short]
  exact resign_word 15 w (UInt32.toNat_toUInt16 w)

theorem unpacki32_packi32 (w : UInt32) :
    unpacki32 (w >>> 24).toUInt8 (w >>> 16).toUInt8 (w >>> 8).toUInt8 w.toUInt8 = w.toBitVec.toInt := by
  rw [unpacki32, unpacku32_packi32]
  exact resign_toInt w.toBitVec

theorem unpacki64_packi64 (w : UInt64) :
    unpacki64 (w >>> 56).toUInt8 (w >>> 48).toUInt8 (w >>> 40).toUInt8 (w >>> 32).toUInt8 (w >>> 24).toUInt8
      (w >>> 16).toUInt8 (w >>> 8).toUInt8 w.toUInt8 = w.toBitVec.toInt := by
  rw [unpacki64, unpacku64_packi64]
  exact resign_toInt w.toBitVec

/-! ### One argument -/

theorem packItem_size {code : Code} {a : Arg} {item : Packed} (packed : packItem code a = some item) :
    item.size = UInt32.ofNat item.bytes.length := by
  cases a with
  | word w =>
    cases code with
    | c | C | h | H | l | L =>
      obtain rfl := Option.some.inj packed
      rfl
    | q | Q | f | d | g | s => cases packed
  | quad w =>
    cases code with
    | q | Q =>
      obtain rfl := Option.some.inj packed
      rfl
    | c | C | h | H | l | L | f | d | g | s => cases packed
  | str s =>
    cases code with
    | s =>
      obtain rfl := Option.some.inj packed
      show _ = UInt32.ofNat (s.length + 2)
      rw [UInt32.ofNat_add]
      rfl
    | c | C | h | H | l | L | q | Q | f | d | g => cases packed

theorem string_back (maxstrlen : UInt32) {s : List UInt8} (fits : s.length < 2 ^ 16) (rest : List UInt8) :
    unpackItem maxstrlen .s (packi16 (UInt32.ofNat s.length) ++ s ++ rest) =
      some (.str (if 0 < maxstrlen ∧ maxstrlen.toNat < s.length then s.take (maxstrlen.toNat - 1) else s), rest) := by
  have len : (UInt32.ofNat s.length).toUInt16.toUInt32.toNat = s.length := by
    rw [UInt16.toNat_toUInt32, UInt32.toNat_toUInt16, UInt32.toNat_ofNat']
    omega
  have below : maxstrlen < (UInt32.ofNat s.length).toUInt16.toUInt32 ↔ maxstrlen.toNat < s.length := by
    rw [UInt32.lt_iff_toNat_lt, len]
  have within : s.length ≤ (s ++ rest).length := by
    rw [List.length_append]
    exact Nat.le_add_right _ _
  simp only [packi16, List.cons_append, List.nil_append, unpackItem, unpacku16_packi16, len, if_pos within, below,
    List.drop_left]
  congr 3
  by_cases cut : 0 < maxstrlen ∧ maxstrlen.toNat < s.length
  · have one : (maxstrlen - 1).toNat = maxstrlen.toNat - 1 := UInt32.toNat_sub_of_le _ _ (UInt32.le_iff_toNat_le.mpr cut.1)
    rw [if_pos cut, if_pos cut, one, List.take_append_of_le_length (by omega)]
  · rw [if_neg cut, if_neg cut, len, List.take_left]

/-- An argument comes back from its bytes, and unless it is a negative `c` what stands behind it is next. -/
theorem item_back (maxstrlen : UInt32) {code : Code} {a : Arg} {item : Packed} (packed : packItem code a = some item)
    (fits : a.Fits) (rest : List UInt8) :
    ∃ v left, a.read maxstrlen code = some v ∧ unpackItem maxstrlen code (item.bytes ++ rest) = some (v, left) ∧
      (¬ a.Stays code → left = rest) := by
  cases a with
  | word w =>
    cases code with
    | c =>
      obtain rfl := Option.some.inj packed
      have number : resign 8 w.toUInt8.toNat = (w.toBitVec.setWidth 8).toInt := resign_word 7 w (UInt32.toNat_toUInt8 w)
      refine ⟨_, _, rfl, congrArg some (Prod.ext (congrArg Value.int number) rfl), fun steps => ?_⟩
      exact if_pos (UInt8.not_lt.mp steps)
    | C =>
      obtain rfl := Option.some.inj packed
      exact ⟨_, _, rfl, rfl, fun _ => rfl⟩
    | h =>
      obtain rfl := Option.some.inj packed
      exact ⟨_, _, rfl, congrArg some (Prod.ext (congrArg Value.int (unpacki16_packi16 w)) rfl), fun _ => rfl⟩
    | H =>
      obtain rfl := Option.some.inj packed
      have number := (congrArg UInt16.toNat (unpacku16_short w)).trans (UInt32.toNat_toUInt16 w)
      exact ⟨_, _, rfl, congrArg some (Prod.ext (congrArg (fun n : Nat => Value.int n) number) rfl), fun _ => rfl⟩
    | l =>
      obtain rfl := Option.some.inj packed
      exact ⟨_, _, rfl, congrArg some (Prod.ext (congrArg Value.int (unpacki32_packi32 w)) rfl), fun _ => rfl⟩
    | L =>
      obtain rfl := Option.some.inj packed
      have number := congrArg UInt32.toNat (unpacku32_packi32 w)
      exact ⟨_, _, rfl, congrArg some (Prod.ext (congrArg (fun n : Nat => Value.int n) number) rfl), fun _ => rfl⟩
    | q | Q | f | d | g | s => cases packed
  | quad w =>
    cases code with
    | q =>
      obtain rfl := Option.some.inj packed
      exact ⟨_, _, rfl, congrArg some (Prod.ext (congrArg Value.int (unpacki64_packi64 w)) rfl), fun _ => rfl⟩
    | Q =>
      obtain rfl := Option.some.inj packed
      have number := congrArg UInt64.toNat (unpacku64_packi64 w)
      exact ⟨_, _, rfl, congrArg some (Prod.ext (congrArg (fun n : Nat => Value.int n) number) rfl), fun _ => rfl⟩
    | c | C | h | H | l | L | f | d | g | s => cases packed
  | str s =>
    cases code with
    | s =>
      obtain rfl := Option.some.inj packed
      exact ⟨_, _, rfl, string_back maxstrlen fits rest, fun _ => rfl⟩
    | c | C | h | H | l | L | q | Q | f | d | g => cases packed

/-! ### Whole formats -/

section
variable {f : Char} {format : List Char} {code : Code} {a : Arg} {args : List Arg}

theorem pack_other (other : Code.ofChar f = none) : pack (f :: format) args = pack format args := by
  simp only [pack, other]

theorem pack_letter (letter : Code.ofChar f = some code) {p : Packed} (packed : pack (f :: format) args = some p) :
    ∃ a rest item later, args = a :: rest ∧ packItem code a = some item ∧ pack format rest = some later ∧
      p = ⟨item.size + later.size, item.bytes ++ later.bytes⟩ := by
  cases args with
  | nil =>
    simp only [pack, letter] at packed
    cases packed
  | cons a rest =>
    simp only [pack, letter] at packed
    obtain ⟨item, first, packed⟩ := Option.bind_eq_some_iff.mp packed
    obtain ⟨later, others, equation⟩ := Option.bind_eq_some_iff.mp packed
    exact ⟨a, rest, item, later, rfl, first, others, (Option.some.inj equation).symm⟩

theorem readBack_other (other : Code.ofChar f = none) (maxstrlen : UInt32) :
    readBack maxstrlen (f :: format) args = readBack (tracked maxstrlen f) format args := by
  simp only [readBack, other]

theorem readBack_letter (letter : Code.ofChar f = some code) {maxstrlen : UInt32} {v : Value} {vs : List Value}
    (read : a.read maxstrlen code = some v) (later : readBack 0 format args = some vs) :
    readBack maxstrlen (f :: format) (a :: args) = some (v :: vs) := by
  simp only [readBack, letter, read, later]
  rfl

theorem unpack_other (other : Code.ofChar f = none) (maxstrlen : UInt32) (buf : List UInt8) :
    unpack maxstrlen (f :: format) buf = unpack (tracked maxstrlen f) format buf := by
  simp only [unpack, other]

theorem unpack_letter (letter : Code.ofChar f = some code) {maxstrlen : UInt32} {v : Value} {vs : List Value}
    {buf left : List UInt8} (item : unpackItem maxstrlen code buf = some (v, left)) (later : unpack 0 format left = some vs) :
    unpack maxstrlen (f :: format) buf = some (v :: vs) := by
  simp only [unpack, letter, item]
  show (unpack 0 format left).bind (fun vs => some (v :: vs)) = some (v :: vs)
  rw [later]
  rfl

theorem readable_other (other : Code.ofChar f = none) : Readable (f :: format) args ↔ Readable format args := by
  simp only [Readable, other]

theorem readable_letter (letter : Code.ofChar f = some code) :
    Readable (f :: format) (a :: args) ↔
      a.Fits ∧ (a.Stays code → ∀ g ∈ format, Code.ofChar g = none) ∧ Readable format args := by
  simp only [Readable, letter]

end

theorem readBack_plain {format : List Char} (plain : ∀ g ∈ format, Code.ofChar g = none) (maxstrlen : UInt32)
    (args : List Arg) : readBack maxstrlen format args = some [] := by
  induction format generalizing maxstrlen with
  | nil => rfl
  | cons f format ih =>
    obtain ⟨here, others⟩ := List.forall_mem_cons.mp plain
    rw [readBack_other here]
    exact ih others _

theorem unpack_plain {format : List Char} (plain : ∀ g ∈ format, Code.ofChar g = none) (maxstrlen : UInt32)
    (buf : List UInt8) : unpack maxstrlen format buf = some [] := by
  induction format generalizing maxstrlen with
  | nil => rfl
  | cons f format ih =>
    obtain ⟨here, others⟩ := List.forall_mem_cons.mp plain
    rw [unpack_other here]
    exact ih others _

theorem pack_size {format : List Char} {args : List Arg} {p : Packed} (packed : pack format args = some p) :
    p.size = UInt32.ofNat p.bytes.length := by
  induction format generalizing args p with
  | nil =>
    obtain rfl := Option.some.inj packed
    rfl
  | cons f format ih =>
    cases letter : Code.ofChar f with
    | none =>
      rw [pack_other letter] at packed
      exact ih packed
    | some code =>
      obtain ⟨a, rest, item, later, -, first, others, rfl⟩ := pack_letter letter packed
      rw [List.length_append, UInt32.ofNat_add, ← packItem_size first, ← ih others]

/-- What `pack` has written, whatever stands behind it, is read back with the same format. -/
theorem unpack_bytes {format : List Char} {args : List Arg} {p : Packed} (packed : pack format args = some p)
    (readable : Readable format args) (maxstrlen : UInt32) (rest : List UInt8) :
    ∃ vs, readBack maxstrlen format args = some vs ∧ unpack maxstrlen format (p.bytes ++ rest) = some vs := by
  induction format generalizing args p maxstrlen with
  | nil => exact ⟨[], rfl, rfl⟩
  | cons f format ih =>
    cases letter : Code.ofChar f with
    | none =>
      rw [pack_other letter] at packed
      rw [readBack_other letter, unpack_other letter]
      exact ih packed ((readable_other letter).mp readable) _
    | some code =>
      obtain ⟨a, others, item, later, rfl, first, following, rfl⟩ := pack_letter letter packed
      obtain ⟨fits, last, readable⟩ := (readable_letter letter).mp readable
      obtain ⟨v, left, read, unpacked, steps⟩ := item_back maxstrlen first fits (later.bytes ++ rest)
      rw [← List.append_assoc] at unpacked
      -- Behind a negative `c` nothing is read, so that it does not matter where `buf` points.
      obtain ⟨vs, known, more⟩ : ∃ vs, readBack 0 format others = some vs ∧ unpack 0 format left = some vs := by
        by_cases stays : a.Stays code
        · exact ⟨[], readBack_plain (last stays) 0 others, unpack_plain (last stays) 0 left⟩
        · rw [steps stays]
          exact ih following readable 0
      exact ⟨v :: vs, readBack_letter letter read known, unpack_letter letter unpacked more⟩

/-- `pack` returns the number of bytes that it has written. Whatever stands behind them, `unpack` with the same format
gives back each argument in the width and the sign of its letter, and of a string what the digits before its
`s` allow. -/
theorem unpack_pack {format : List Char} {args : List Arg} {p : Packed} (packed : pack format args = some p)
    (readable : Readable format args) (rest : List UInt8) :
    p.size = UInt32.ofNat p.bytes.length ∧
      ∃ vs, readBack 0 format args = some vs ∧ unpack 0 format (p.bytes ++ rest) = some vs :=
  ⟨pack_size packed, unpack_bytes packed readable 0 rest⟩

def fiveArgs : List Arg := [.word 0xffff8000, .str [66, 80, 77, 32], .quad 0xfffffffffffffffe, .word 0x80000001, .word 0xff]

theorem fiveArgs_unpack :
    ∃ p, pack ['h', '3', 's', 'q', 'L', 'c'] fiveArgs = some p ∧ p.size = UInt32.ofNat p.bytes.length ∧
      ∃ vs, readBack 0 ['h', '3', 's', 'q', 'L', 'c'] fiveArgs = some vs ∧
        unpack 0 ['h', '3', 's', 'q', 'L', 'c'] (p.bytes ++ [1]) = some vs := by
  refine ⟨_, rfl, unpack_pack rfl ?_ [1]⟩
  simp [Readable, fiveArgs, Code.ofChar, Arg.Fits, Arg.Stays]

/-! ### The formats of the server -/

theorem digit_other {f : Char} (digit : f.isDigit = true) : Code.ofChar f = none := by
  unfold Code.ofChar
  split <;> first | rfl | cases digit

theorem pack_digits {digits : List Char} (all : ∀ g ∈ digits, g.isDigit = true) (format : List Char) (args : List Arg) :
    pack (digits ++ format) args = pack format args := by
  induction digits with
  | nil => rfl
  | cons f digits ih =>
    obtain ⟨here, others⟩ := List.forall_mem_cons.mp all
    rw [List.cons_append, pack_other (digit_other here)]
    exact ih others

/-- The format `LLLL` of `prepare_to_read_command`. -/
theorem prepareToReadCommand_unpack (bytes : List UInt8) :
    unpack 0 ['L', 'L', 'L', 'L'] bytes = (prepareToReadCommand bytes).map fun c =>
      [.int c.comm.toNat, .int c.cs.toNat, .int c.addr.toNat, .int c.val.toNat] := by
  rcases bytes with _ | ⟨_, _ | ⟨_, _ | ⟨_, _ | ⟨_, _ | ⟨_, _ | ⟨_, _ | ⟨_, _ | ⟨_, _ | ⟨_, _ | ⟨_, _ | ⟨_, _ | ⟨_,
    _ | ⟨_, _ | ⟨_, _ | ⟨_, _ | ⟨_, _⟩⟩⟩⟩⟩⟩⟩⟩⟩⟩⟩⟩⟩⟩⟩⟩ <;> rfl

/-- A text response is the formats `LL` and, with the digits of its length, `s`. -/
theorem prepareToWriteResponse_pack {memory : Memory} {len : Int} {r : ResponsePacket} {bytes : List UInt8}
    (written : prepareToWriteResponse memory len r = some bytes) (text : isData r.comm = false) {digits : List Char}
    (all : ∀ g ∈ digits, g.isDigit = true) :
    ∃ header payload, pack ['L', 'L'] [.word r.comm, .word r.num] = some header ∧
      pack (digits ++ ['s']) [.str (cString memory addressSpace r.buf)] = some payload ∧
      bytes = header.bytes ++ payload.bytes := by
  refine ⟨_, _, rfl, (pack_digits all _ _).trans rfl, ?_⟩
  unfold prepareToWriteResponse at written
  rw [text] at written
  split at written
  · cases written
  · obtain rfl := Option.some.inj written
    simp [packString]

end BpmAcquisition.Pack
