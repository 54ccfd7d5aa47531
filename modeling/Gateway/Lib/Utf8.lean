import Mathlib.Data.List.Basic

/-!
UTF-8 with replacement.

`decode` reads bytes the way `bytes.decode("utf-8", "replace")` does: well-formed
characters as they are, and U+FFFD for every malformed part. A malformed part is the
longest beginning of what is left that could still begin a character, or one byte.
Decoding what was encoded gives it back (`decode_encode`), so the bytes of a text survive
decoding and encoding again, and only those do (`encode_decode_iff`).
-/

namespace Gateway.Utf8

/-- `s.encode("utf-8")`. -/
def encode (s : String) : List UInt8 := s.toList.flatMap String.utf8EncodeChar

/-- A continuation byte. -/
def continues (b : UInt8) : Bool := 0x80 ≤ b && b ≤ 0xBF

/-- The bytes that may follow a first byte of three or four. -/
def mayFollow (first second : UInt8) : Bool :=
  if first = 0xE0 then 0xA0 ≤ second && second ≤ 0xBF
  else if first = 0xED then 0x80 ≤ second && second ≤ 0x9F
  else if first = 0xF0 then 0x90 ≤ second && second ≤ 0xBF
  else if first = 0xF4 then 0x80 ≤ second && second ≤ 0x8F
  else continues second

/-- The length of the malformed part at the beginning of some bytes that do not begin with
a character. -/
def malformedLen : List UInt8 → Nat
  | first :: second :: rest =>
      if 0xE0 ≤ first && first ≤ 0xF4 && mayFollow first second then
        if 0xF0 ≤ first && rest.head?.any continues then 3 else 2
      else 1
  | _ => 1

/-- The characters of some bytes. Every turn reads at least one byte. -/
def decodeLoop : Nat → List UInt8 → List Char
  | 0, _ => []
  | _ + 1, [] => []
  | fuel + 1, b :: bs =>
      match (b :: bs).toByteArray.utf8DecodeChar? 0 with
      | some c => c :: decodeLoop fuel ((b :: bs).drop c.utf8Size)
      | none => '\uFFFD' :: decodeLoop fuel ((b :: bs).drop (malformedLen (b :: bs)))

/-- `bytes.decode("utf-8", "replace")`. -/
def decode (bytes : List UInt8) : String := String.ofList (decodeLoop bytes.length bytes)

/-- Well-formed bytes decode character by character. -/
theorem decodeLoop_encodeChar (c : Char) (bytes : List UInt8) (fuel : Nat) :
    decodeLoop (fuel + 1) (String.utf8EncodeChar c ++ bytes) = c :: decodeLoop fuel bytes := by
  have first : (String.utf8EncodeChar c ++ bytes).toByteArray.utf8DecodeChar? 0 = some c := by
    rw [List.toByteArray_append']
    exact ByteArray.utf8DecodeChar?_utf8EncodeChar_append
  have rest : (String.utf8EncodeChar c ++ bytes).drop c.utf8Size = bytes := by
    rw [← String.length_utf8EncodeChar, List.drop_left]
  have some_left : String.utf8EncodeChar c ++ bytes ≠ [] := by
    intro none
    have length := congrArg List.length none
    rw [List.length_append, String.length_utf8EncodeChar, List.length_nil] at length
    have := c.utf8Size_pos
    omega
  obtain ⟨b, bs, found⟩ := List.exists_cons_of_ne_nil some_left
  rw [found] at first rest ⊢
  simp only [decodeLoop, first, rest]

theorem decodeLoop_encode (cs : List Char) {fuel : Nat}
    (enough : (cs.flatMap String.utf8EncodeChar).length ≤ fuel) :
    decodeLoop fuel (cs.flatMap String.utf8EncodeChar) = cs := by
  induction cs generalizing fuel with
  | nil => cases fuel <;> rfl
  | cons c cs ih =>
      rw [List.flatMap_cons] at enough ⊢
      rw [List.length_append, String.length_utf8EncodeChar] at enough
      have := c.utf8Size_pos
      obtain ⟨fuel', rfl⟩ : ∃ fuel', fuel = fuel' + 1 :=
        Nat.exists_eq_succ_of_ne_zero (by omega)
      rw [decodeLoop_encodeChar, ih (by omega)]

/-- **What was encoded is decoded.** -/
theorem decode_encode (s : String) : decode (encode s) = s := by
  rw [decode, encode, decodeLoop_encode s.toList (Nat.le_refl _), String.ofList_toList]

/-- The bytes of a text. -/
def WellFormed (bytes : List UInt8) : Prop := ∃ s, encode s = bytes

/-- Bytes survive decoding and encoding precisely if they are well-formed. -/
theorem encode_decode_iff {bytes : List UInt8} :
    encode (decode bytes) = bytes ↔ WellFormed bytes := by
  constructor
  · intro same
    exact ⟨decode bytes, same⟩
  · rintro ⟨s, rfl⟩
    rw [decode_encode]

instance decidableWellFormed (bytes : List UInt8) : Decidable (WellFormed bytes) :=
  decidable_of_iff _ encode_decode_iff

end Gateway.Utf8
