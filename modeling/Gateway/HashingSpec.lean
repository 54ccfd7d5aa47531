import Mathlib.Data.Int.GCD
import Mathlib.Data.Nat.Bitwise
import Mathlib.Data.Nat.ModEq
import Gateway.Hashing

/-!
What chained block hashing tells apart.

* `chain_congr`, `take_chain`: the first hashes are a function of the first blocks.
* `fnvRound_injective`, `fnvRound_byte_injective`: a round loses neither the state nor
  the byte, the prime being odd.
* `encode_append`: the bytes of a prompt are those of its parts.
* `prefixExact_fullBlocks`: block for block, equal prefixes give equal hashes and a
  block in which one byte changed gives another hash.
* `take_fullBlocks_append`: a prompt begins with the hashes of its beginnings.
-/

namespace Gateway.Hashing

/-! ### Chains -/

section Chain

variable {U : Type} (hash : Nat → List U → Nat) (size : Nat)

/-- The chain hash after `k` blocks. -/
def link : Nat → Nat → List U → Nat
  | 0, prev, _ => prev
  | k + 1, prev, units => link k (hash prev (units.take size)) (units.drop size)

variable {hash size}

@[simp] theorem length_chain (n prev : Nat) (xs : List U) :
    (chain hash size n prev xs).length = n := by
  induction n generalizing prev xs with
  | zero => rfl
  | succ n ih => rw [chain, List.length_cons, ih]

theorem take_chain (k n prev : Nat) (xs : List U) :
    (chain hash size n prev xs).take k = chain hash size (min k n) prev xs := by
  induction k generalizing n prev xs with
  | zero => rw [List.take_zero, Nat.zero_min, chain]
  | succ k ih =>
      cases n with
      | zero => rw [chain, List.take_nil, Nat.min_zero, chain]
      | succ n => rw [chain, List.take_succ_cons, ih, Nat.succ_min_succ, chain]

/-- The units of the first block and those of the blocks after it. -/
theorem take_blocks {n : Nat} {xs ys : List U}
    (same : xs.take ((n + 1) * size) = ys.take ((n + 1) * size)) :
    xs.take size = ys.take size ∧
      (xs.drop size).take (n * size) = (ys.drop size).take (n * size) := by
  have total : (n + 1) * size = size + n * size := by rw [Nat.succ_mul, Nat.add_comm]
  constructor
  · have first := congrArg (List.take size) same
    rwa [List.take_take, List.take_take, total, Nat.min_eq_left (Nat.le_add_right _ _)] at first
  · rw [List.take_drop, List.take_drop, ← total, same]

/-- The hashes of `n` blocks are a function of the units in them. -/
theorem chain_congr {n prev : Nat} {xs ys : List U}
    (same : xs.take (n * size) = ys.take (n * size)) :
    chain hash size n prev xs = chain hash size n prev ys := by
  induction n generalizing prev xs ys with
  | zero => rfl
  | succ n ih =>
      obtain ⟨first, rest⟩ := take_blocks same
      rw [chain, chain, first, ih rest]

theorem link_congr {k prev : Nat} {xs ys : List U}
    (same : xs.take (k * size) = ys.take (k * size)) :
    link hash size k prev xs = link hash size k prev ys := by
  induction k generalizing prev xs ys with
  | zero => rfl
  | succ k ih =>
      obtain ⟨first, rest⟩ := take_blocks same
      rw [link, link, first, ih rest]

/-- Block `k` is hashed onto the chain hash of the blocks before it. -/
theorem link_succ (k prev : Nat) (xs : List U) :
    link hash size (k + 1) prev xs =
      hash (link hash size k prev xs) ((xs.drop (k * size)).take size) := by
  induction k generalizing prev xs with
  | zero => rw [link, link, link, Nat.zero_mul, List.drop_zero]
  | succ k ih => rw [link, ih, link, List.drop_drop, Nat.succ_mul, Nat.add_comm size]

theorem getElem?_chain {k n : Nat} (inside : k < n) (prev : Nat) (xs : List U) :
    (chain hash size n prev xs)[k]? = some (link hash size (k + 1) prev xs) := by
  induction k generalizing n prev xs with
  | zero =>
      obtain ⟨m, rfl⟩ := Nat.exists_eq_succ_of_ne_zero inside.ne'
      rfl
  | succ k ih =>
      obtain ⟨m, rfl⟩ := Nat.exists_eq_succ_of_ne_zero (Nat.ne_of_gt (Nat.zero_lt_of_lt inside))
      rw [chain, List.getElem?_cons_succ, ih (Nat.lt_of_succ_lt_succ inside)]
      rfl

end Chain

/-! ### FNV-1a -/

theorem fnvRound_lt (h : Nat) (byte : UInt8) : fnvRound h byte < modulus :=
  Nat.mod_lt _ (by decide)

theorem foldl_fnvRound_lt {h : Nat} (bounded : h < modulus) (data : List UInt8) :
    data.foldl fnvRound h < modulus := by
  induction data generalizing h with
  | nil => exact bounded
  | cons byte data ih => exact ih (fnvRound_lt h byte)

/-- Multiplying by the prime is injective modulo `2 ^ 64`. -/
theorem mul_fnvPrime_injective {a b : Nat} (ha : a < modulus) (hb : b < modulus)
    (same : a * fnvPrime % modulus = b * fnvPrime % modulus) : a = b := by
  have coprime : Nat.gcd modulus fnvPrime = 1 := by decide
  have congruent : a ≡ b [MOD modulus] := Nat.ModEq.cancel_right_of_coprime coprime same
  exact Nat.ModEq.eq_of_lt_of_lt congruent ha hb

theorem xor_byte_lt {h : Nat} (bounded : h < modulus) (byte : UInt8) :
    h ^^^ byte.toNat < modulus := by
  refine Nat.xor_lt_two_pow bounded (byte.toNat_lt.trans ?_)
  decide

theorem fnvRound_eq_iff {h h' : Nat} (bounded : h < modulus) (bounded' : h' < modulus)
    (byte byte' : UInt8) :
    fnvRound h byte = fnvRound h' byte' ↔ h ^^^ byte.toNat = h' ^^^ byte'.toNat := by
  constructor
  · exact mul_fnvPrime_injective (xor_byte_lt bounded byte) (xor_byte_lt bounded' byte')
  · intro same
    rw [fnvRound, fnvRound, same]

/-- A round does not forget the state it was in. -/
theorem fnvRound_injective {h h' : Nat} (bounded : h < modulus) (bounded' : h' < modulus)
    {byte : UInt8} (same : fnvRound h byte = fnvRound h' byte) : h = h' :=
  Nat.xor_left_inj.mp ((fnvRound_eq_iff bounded bounded' byte byte).mp same)

/-- Nor the byte it folded in. -/
theorem fnvRound_byte_injective {h : Nat} (bounded : h < modulus) {byte byte' : UInt8}
    (same : fnvRound h byte = fnvRound h byte') : byte = byte' := by
  have mixed := (fnvRound_eq_iff bounded bounded byte byte').mp same
  exact UInt8.toNat_inj.mp (Nat.xor_right_inj.mp mixed)

theorem foldl_fnvRound_injective {h h' : Nat} (bounded : h < modulus) (bounded' : h' < modulus)
    {data : List UInt8} (same : data.foldl fnvRound h = data.foldl fnvRound h') : h = h' := by
  induction data generalizing h h' with
  | nil => exact same
  | cons byte data ih =>
      exact fnvRound_injective bounded bounded' (ih (fnvRound_lt h byte) (fnvRound_lt h' byte) same)

/-- Two byte strings that differ in exactly one byte. -/
def OneByteApart (a b : List UInt8) : Prop :=
  ∃ front byte byte' back,
    a = front ++ byte :: back ∧ b = front ++ byte' :: back ∧ byte ≠ byte'

theorem fnv1a_ne_of_oneByteApart {a b : List UInt8} (apart : OneByteApart a b) :
    fnv1a a ≠ fnv1a b := by
  obtain ⟨front, byte, byte', back, rfl, rfl, differ⟩ := apart
  intro same
  rw [fnv1a, fnv1a, List.foldl_append, List.foldl_append, List.foldl_cons, List.foldl_cons] at same
  have state : front.foldl fnvRound fnvOffset < modulus := foldl_fnvRound_lt (by decide) front
  have rounds := foldl_fnvRound_injective (fnvRound_lt _ _) (fnvRound_lt _ _) same
  exact differ (fnvRound_byte_injective state rounds)

theorem hashChars_ne_of_oneByteApart {a b : List UInt8} (apart : OneByteApart a b) (prev : Nat) :
    hashChars prev a ≠ hashChars prev b := by
  obtain ⟨front, byte, byte', back, rfl, rfl, differ⟩ := apart
  refine fnv1a_ne_of_oneByteApart ⟨toBytesLittle 8 prev ++ front, byte, byte', back, ?_, ?_, differ⟩
  · rw [List.append_assoc]
  · rw [List.append_assoc]

/-! ### The bytes of a prompt -/

theorem toList_loop (bytes : ByteArray) (i : Nat) (r : List UInt8) :
    ByteArray.toList.loop bytes i r = r.reverse ++ bytes.data.toList.drop i := by
  fun_induction ByteArray.toList.loop bytes i r with
  | case1 i r inside ih =>
      have here : i < bytes.data.toList.length := inside
      rw [ih, List.reverse_cons, List.append_assoc, List.drop_eq_getElem_cons here]
      simp [ByteArray.get!, getElem!_pos, inside]
  | case2 i r outside =>
      have past : bytes.data.toList.length ≤ i := Nat.le_of_not_lt outside
      rw [List.drop_eq_nil_of_le past, List.append_nil]

theorem encode_eq (s : String) : encode s = s.toByteArray.data.toList := by
  rw [encode, ByteArray.toList, toList_loop]
  rfl

theorem encode_append (s t : String) : encode (s ++ t) = encode s ++ encode t := by
  rw [encode_eq, encode_eq, encode_eq, String.toByteArray_append, ByteArray.toList_data_append]

/-! ### Prefixes of prompts -/

theorem length_fullBlocks {U : Type} (hash : Nat → List U → Nat) (size cutoff seed : Nat)
    (units : List U) :
    (fullBlocks hash size cutoff seed units).length = min cutoff (units.length / size) := by
  rw [fullBlocks, length_chain, Nat.min_comm]

/-- `raw[i * block_chars : (i + 1) * block_chars]` on the bytes of a prompt. -/
def block (size i : Nat) (p : String) : List UInt8 := ((encode p).drop (i * size)).take size

/-- Both prompts have `k` full blocks, and the same ones. -/
structure ShareBlocks (size k : Nat) (p q : String) : Prop where
  left : k * size ≤ (encode p).length
  right : k * size ≤ (encode q).length
  same : (encode p).take (k * size) = (encode q).take (k * size)

/-- What makes a hash list prefix-exact at the granularity of blocks. -/
structure PrefixExact {H : Type} (size cutoff : Nat) (hashes : String → List H) : Prop where
  length : ∀ p, (hashes p).length = min cutoff ((encode p).length / size)
  agree : ∀ {p q k}, ShareBlocks size k p q →
    (hashes p).take (min k cutoff) = (hashes q).take (min k cutoff)
  differ : ∀ {p q k}, ShareBlocks size k p q → k < cutoff →
    (k + 1) * size ≤ (encode p).length → (k + 1) * size ≤ (encode q).length →
    OneByteApart (block size k p) (block size k q) →
    ∃ h h', (hashes p)[k]? = some h ∧ (hashes q)[k]? = some h' ∧ h ≠ h'

/-- Hashes that are told apart after a translation are told apart before it. -/
theorem PrefixExact.of_map {H K : Type} {size cutoff : Nat} {hashes : String → List H}
    {read : H → K} (injective : Function.Injective read)
    (exact : PrefixExact size cutoff fun p => (hashes p).map read) :
    PrefixExact size cutoff hashes where
  length p := by rw [← exact.length p, List.length_map]
  agree := by
    intro p q k shared
    have agree := exact.agree shared
    rw [← List.map_take, ← List.map_take] at agree
    exact injective.list_map agree
  differ := by
    intro p q k shared inside long long' apart
    obtain ⟨_, _, here, there, differ⟩ := exact.differ shared inside long long' apart
    rw [List.getElem?_map, Option.map_eq_some_iff] at here there
    obtain ⟨h, here, rfl⟩ := here
    obtain ⟨h', there, rfl⟩ := there
    exact ⟨h, h', here, there, fun same => differ (congrArg read same)⟩

theorem prefixExact_fullBlocks {size : Nat} (positive : 1 ≤ size) (cutoff seed : Nat) :
    PrefixExact size cutoff fun p => fullBlocks hashChars size cutoff seed (encode p) where
  length p := length_fullBlocks hashChars size cutoff seed (encode p)
  agree := by
    intro p q k shared
    have full : k ≤ (encode p).length / size := (Nat.le_div_iff_mul_le positive).mpr shared.left
    have full' : k ≤ (encode q).length / size := (Nat.le_div_iff_mul_le positive).mpr shared.right
    rw [fullBlocks, fullBlocks, take_chain, take_chain,
      show min (min k cutoff) (min ((encode p).length / size) cutoff) = min k cutoff by omega,
      show min (min k cutoff) (min ((encode q).length / size) cutoff) = min k cutoff by omega]
    apply chain_congr
    have within : min k cutoff * size ≤ k * size := Nat.mul_le_mul_right size (Nat.min_le_left _ _)
    have first := congrArg (List.take (min k cutoff * size)) shared.same
    rwa [List.take_take, List.take_take, Nat.min_eq_left within] at first
  differ := by
    intro p q k shared inside long long' apart
    have full := (Nat.le_div_iff_mul_le positive).mpr long
    have full' := (Nat.le_div_iff_mul_le positive).mpr long'
    refine ⟨_, _, getElem?_chain (Nat.lt_min.mpr ⟨full, inside⟩) _ _,
      getElem?_chain (Nat.lt_min.mpr ⟨full', inside⟩) _ _, ?_⟩
    rw [link_succ, link_succ, link_congr shared.same]
    exact hashChars_ne_of_oneByteApart apart _

/-- The hashes of a beginning are the first hashes of every prompt that continues it. -/
theorem take_fullBlocks_append (stem s : String) (size cutoff seed : Nat) :
    (fullBlocks hashChars size cutoff seed (encode (stem ++ s))).take
        (min cutoff ((encode stem).length / size)) =
      fullBlocks hashChars size cutoff seed (encode stem) := by
  have longer : (encode stem).length / size ≤ (encode (stem ++ s)).length / size := by
    rw [encode_append, List.length_append]
    exact Nat.div_le_div_right (Nat.le_add_right _ _)
  have blocks : min (min cutoff ((encode stem).length / size))
      (min ((encode (stem ++ s)).length / size) cutoff) =
        min ((encode stem).length / size) cutoff := by omega
  have within : min ((encode stem).length / size) cutoff * size ≤ (encode stem).length :=
    (Nat.mul_le_mul_right size (Nat.min_le_left _ _)).trans (Nat.div_mul_le_self _ _)
  rw [fullBlocks, fullBlocks, take_chain, blocks]
  apply chain_congr
  rw [encode_append, List.take_append_of_le_length within]

end Gateway.Hashing
