/-!
# Streams of frames

A codec writes an item as a non-empty list of symbols and reads one back from the front of a
stream. `read` takes items off a stream until nothing is left. `read_iff` says that a stream
is read as the items `as` exactly when it is the concatenation of what `as` are written as.
-/

structure Codec (α β : Type) where
  encode : α → List β
  decode : List β → Option (α × List β)
  decode_encode : ∀ a rest, decode (encode a ++ rest) = some (a, rest)
  decode_sound : ∀ xs a rest, decode xs = some (a, rest) → xs = encode a ++ rest
  encode_some : ∀ a, encode a ≠ []

namespace Codec

variable {α β : Type} (codec : Codec α β)

def readRounds : Nat → List β → Option (List α)
  | _, [] => some []
  | 0, _ => none
  | fuel + 1, xs =>
    match codec.decode xs with
    | none => none
    | some (a, rest) => (readRounds fuel rest).map (a :: ·)

-- Every round takes a symbol, so the length of the stream is enough.
def read (xs : List β) : Option (List α) := readRounds codec xs.length xs

theorem readRounds_more {fuel : Nat} {xs rest : List β} {a : α} (decoded : codec.decode xs = some (a, rest))
    (some : xs ≠ []) : readRounds codec (fuel + 1) xs = (readRounds codec fuel rest).map (a :: ·) := by
  cases xs with
  | nil => exact absurd rfl some
  | cons x xs => simp only [readRounds, decoded]

theorem readRounds_flatMap (as : List α) (fuel : Nat) (enough : (as.flatMap codec.encode).length ≤ fuel) :
    readRounds codec fuel (as.flatMap codec.encode) = some as := by
  induction as generalizing fuel with
  | nil => cases fuel <;> rfl
  | cons a rest ih =>
    have positive := List.length_pos_iff.mpr (codec.encode_some a)
    rw [List.flatMap_cons] at enough ⊢
    rw [List.length_append] at enough
    cases fuel with
    | zero => omega
    | succ fuel =>
      rw [readRounds_more codec (codec.decode_encode a _) (by simp [codec.encode_some]), ih fuel (by omega)]
      rfl

theorem flatMap_of_readRounds {fuel : Nat} {xs : List β} {as : List α}
    (h : readRounds codec fuel xs = some as) : xs = as.flatMap codec.encode := by
  induction fuel generalizing xs as with
  | zero =>
    cases xs with
    | nil => cases h; rfl
    | cons x xs => cases h
  | succ fuel ih =>
    cases xs with
    | nil => cases h; rfl
    | cons x xs =>
      unfold readRounds at h
      split at h
      case h_1 => cases h
      case h_2 a rest decoded =>
        obtain ⟨more, read, rfl⟩ := Option.map_eq_some_iff.mp h
        rw [codec.decode_sound _ _ _ decoded, List.flatMap_cons, ih read]

theorem read_iff (xs : List β) (as : List α) : codec.read xs = some as ↔ xs = as.flatMap codec.encode := by
  constructor
  · exact flatMap_of_readRounds codec
  · rintro rfl
    exact readRounds_flatMap codec as _ (Nat.le_refl _)

end Codec
