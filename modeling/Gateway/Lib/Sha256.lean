import Mathlib.Algebra.Group.Nat.Defs
import Mathlib.Data.List.Basic

/-!
SHA-256 as the standard defines it, on lists of bytes.

The message schedule is a window of sixteen words that slides by one word a round.
`hexdigest_lt`: a digest is written in ASCII.
-/

namespace Gateway.Sha256

/-- The constants of the sixty-four rounds. -/
def roundConstants : List UInt32 :=
  [0x428A2F98, 0x71374491, 0xB5C0FBCF, 0xE9B5DBA5, 0x3956C25B, 0x59F111F1,
    0x923F82A4, 0xAB1C5ED5, 0xD807AA98, 0x12835B01, 0x243185BE, 0x550C7DC3,
    0x72BE5D74, 0x80DEB1FE, 0x9BDC06A7, 0xC19BF174, 0xE49B69C1, 0xEFBE4786,
    0x0FC19DC6, 0x240CA1CC, 0x2DE92C6F, 0x4A7484AA, 0x5CB0A9DC, 0x76F988DA,
    0x983E5152, 0xA831C66D, 0xB00327C8, 0xBF597FC7, 0xC6E00BF3, 0xD5A79147,
    0x06CA6351, 0x14292967, 0x27B70A85, 0x2E1B2138, 0x4D2C6DFC, 0x53380D13,
    0x650A7354, 0x766A0ABB, 0x81C2C92E, 0x92722C85, 0xA2BFE8A1, 0xA81A664B,
    0xC24B8B70, 0xC76C51A3, 0xD192E819, 0xD6990624, 0xF40E3585, 0x106AA070,
    0x19A4C116, 0x1E376C08, 0x2748774C, 0x34B0BCB5, 0x391C0CB3, 0x4ED8AA4A,
    0x5B9CCA4F, 0x682E6FF3, 0x748F82EE, 0x78A5636F, 0x84C87814, 0x8CC70208,
    0x90BEFFFA, 0xA4506CEB, 0xBEF9A3F7, 0xC67178F2]

/-- The eight working words. -/
structure State where
  a : UInt32
  b : UInt32
  c : UInt32
  d : UInt32
  e : UInt32
  f : UInt32
  g : UInt32
  h : UInt32

def initial : State :=
  ⟨0x6A09E667, 0xBB67AE85, 0x3C6EF372, 0xA54FF53A, 0x510E527F,
    0x9B05688C, 0x1F83D9AB, 0x5BE0CD19⟩

/-! ### Rounds -/

def rotr (x n : UInt32) : UInt32 := (x >>> n) ||| (x <<< (32 - n))

/-- The next word of the schedule. -/
def nextWord (w : List UInt32) : UInt32 :=
  let s0 := fun x => rotr x 7 ^^^ rotr x 18 ^^^ (x >>> 3)
  let s1 := fun x => rotr x 17 ^^^ rotr x 19 ^^^ (x >>> 10)
  s1 (w.getD 14 0) + w.getD 9 0 + s0 (w.getD 1 0) + w.getD 0 0

def round (s : State) (k w : UInt32) : State :=
  let sum1 := rotr s.e 6 ^^^ rotr s.e 11 ^^^ rotr s.e 25
  let choice := (s.e &&& s.f) ^^^ (~~~s.e &&& s.g)
  let t1 := s.h + sum1 + choice + k + w
  let sum0 := rotr s.a 2 ^^^ rotr s.a 13 ^^^ rotr s.a 22
  let majority := (s.a &&& s.b) ^^^ (s.a &&& s.c) ^^^ (s.b &&& s.c)
  ⟨t1 + (sum0 + majority), s.a, s.b, s.c, s.d + t1, s.e, s.f, s.g⟩

/-- All rounds; `w` is the window of the schedule. -/
def rounds : List UInt32 → List UInt32 → State → State
  | [], _, s => s
  | k :: ks, w, s => rounds ks (w.drop 1 ++ [nextWord w]) (round s k (w.getD 0 0))

/-- The big-endian words of some bytes. -/
def words : List UInt8 → List UInt32
  | b0 :: b1 :: b2 :: b3 :: rest =>
      ((b0.toUInt32 <<< 24) ||| (b1.toUInt32 <<< 16) ||| (b2.toUInt32 <<< 8) ||| b3.toUInt32) ::
        words rest
  | _ => []

/-- One block of sixty-four bytes. -/
def compress (s : State) (block : List UInt8) : State :=
  let t := rounds roundConstants (words block) s
  ⟨s.a + t.a, s.b + t.b, s.c + t.c, s.d + t.d, s.e + t.e, s.f + t.f, s.g + t.g, s.h + t.h⟩

/-! ### Messages -/

/-- The message, a marker, zeros up to eight bytes before the end of a block, and the
number of bits. -/
def pad (message : List UInt8) : List UInt8 :=
  let bits := 8 * message.length
  message ++ 0x80 :: List.replicate ((119 - message.length % 64) % 64) 0 ++
    [56, 48, 40, 32, 24, 16, 8, 0].map fun shift => UInt8.ofNat (bits / 2 ^ shift)

def blockLoop : Nat → State → List UInt8 → State
  | 0, s, _ => s
  | n + 1, s, bytes => blockLoop n (compress s (bytes.take 64)) (bytes.drop 64)

/-- The final state of a message. -/
def hash (message : List UInt8) : State :=
  let padded := pad message
  blockLoop (padded.length / 64) initial padded

/-- A word in eight hexadecimal digits. -/
def hexWord (x : UInt32) : List Char :=
  [28, 24, 20, 16, 12, 8, 4, 0].map fun shift => Nat.digitChar (x.toNat / 2 ^ shift % 16)

/-- `hashlib.sha256(message).hexdigest()`. -/
def hexdigest (message : List UInt8) : String :=
  let s := hash message
  String.ofList ([s.a, s.b, s.c, s.d, s.e, s.f, s.g, s.h].flatMap hexWord)

theorem hexdigest_lt {message : List UInt8} {c : Char} (member : c ∈ (hexdigest message).toList) :
    c.toNat < 128 := by
  have digit : ∀ n < 16, (Nat.digitChar n).toNat < 128 := by decide
  rw [hexdigest, String.toList_ofList] at member
  obtain ⟨x, -, inside⟩ := List.mem_flatMap.mp member
  obtain ⟨shift, -, rfl⟩ := List.mem_map.mp inside
  exact digit _ (Nat.mod_lt _ (by decide))

example : hexdigest [0x61, 0x62, 0x63] =
    "ba7816bf8f01cfea414140de5dae2223b00361a396177a9cb410ff61f20015ad" := by decide +kernel

end Gateway.Sha256
