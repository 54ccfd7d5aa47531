import Mathlib.Algebra.Group.Nat.Defs
import Mathlib.Data.List.Basic

/-!
Chained block hashing, from `gateway/hashing.py` and `gateway/extensions/bpe_hashing.py`.

The tokenizer is a third-party library: `tokenize` is what it returns for a prompt, and
`none` when it cannot be loaded. A block size of 0 is a division by zero: the hashers are
`none` there (`blockHashes_eq_some_iff`).
-/

namespace Gateway

namespace Hashing

/-- `_FNV_OFFSET`. -/
def fnvOffset : Nat := 0xCBF29CE484222325

/-- `_FNV_PRIME`. -/
def fnvPrime : Nat := 0x100000001B3

/-- `_MASK + 1`. -/
def modulus : Nat := 2 ^ 64

/-- One round of FNV-1a. -/
def fnvRound (h : Nat) (byte : UInt8) : Nat := (h ^^^ byte.toNat) * fnvPrime % modulus

/-- `_fnv1a(data)`. -/
def fnv1a (data : List UInt8) : Nat := data.foldl fnvRound fnvOffset

/-- `n.to_bytes(size, "little")`. -/
def toBytesLittle : Nat → Nat → List UInt8
  | 0, _ => []
  | size + 1, n => UInt8.ofNat n :: toBytesLittle size (n / 256)

/-- `s.encode("utf-8", "ignore")`. -/
def encode (s : String) : List UInt8 := s.toUTF8.toList

/-- `stable_seed(s)`. -/
def stableSeed (s : String) : Nat := fnv1a (encode s)

/-- The loop over the full blocks: chain the hashes of `n` blocks of `size` units. -/
def chain {U : Type} (hash : Nat → List U → Nat) (size : Nat) : Nat → Nat → List U → List Nat
  | 0, _, _ => []
  | n + 1, prev, units =>
      let h := hash prev (units.take size)
      h :: chain hash size n h (units.drop size)

/-- What either hasher returns for its units, given the block size it could divide by. -/
def fullBlocks {U : Type} (hash : Nat → List U → Nat) (size cutoffBlocks seed : Nat)
    (units : List U) : List Nat :=
  chain hash size (min (units.length / size) cutoffBlocks) (seed % modulus) units

/-- `_fnv1a(prev.to_bytes(8, "little") + chunk)`. -/
def hashChars (prev : Nat) (chunk : List UInt8) : Nat := fnv1a (toBytesLittle 8 prev ++ chunk)

/-- `block_hashes(prompt, block_chars, cutoff_blocks, seed)`. -/
def blockHashes (prompt : String) (blockChars cutoffBlocks seed : Nat) : Option (List Nat) :=
  if blockChars = 0 then none
  else some (fullBlocks hashChars blockChars cutoffBlocks seed (encode prompt))

/-- `_hash_block(prev, ids)`. -/
def hashBlock (prev : Nat) (ids : List Nat) : Nat :=
  fnv1a (toBytesLittle 8 prev ++ ids.flatMap (toBytesLittle 4))

/-- `bpe_block_hashes` on the token ids of the prompt. -/
def bpeBlockHashes (ids : List Nat) (blockTokens cutoffBlocks seed : Nat) : Option (List Nat) :=
  if blockTokens = 0 then none
  else some (fullBlocks hashBlock blockTokens cutoffBlocks seed ids)

/-- The `hash_mode` of a route. -/
inductive Mode where
  | char
  | bpe
  deriving DecidableEq, Repr

/-- `block_hashes_with_fallback`. -/
def blockHashesWithFallback (tokenize : String → Option (List Nat)) (prompt : String)
    (blockChars blockTokens cutoffBlocks seed : Nat) : Option (List Nat × Mode) :=
  match tokenize prompt with
  | some ids => (bpeBlockHashes ids blockTokens cutoffBlocks seed).map fun hashes => (hashes, .bpe)
  | none => (blockHashes prompt blockChars cutoffBlocks seed).map fun hashes => (hashes, .char)

theorem blockHashes_eq {blockChars : Nat} (nonzero : blockChars ≠ 0) (prompt : String)
    (cutoffBlocks seed : Nat) :
    blockHashes prompt blockChars cutoffBlocks seed =
      some (fullBlocks hashChars blockChars cutoffBlocks seed (encode prompt)) :=
  if_neg nonzero

/-- The char hasher returns unless the block size is 0. -/
theorem blockHashes_eq_some_iff {prompt : String} {blockChars cutoffBlocks seed : Nat}
    {hashes : List Nat} :
    blockHashes prompt blockChars cutoffBlocks seed = some hashes ↔
      blockChars ≠ 0 ∧
        fullBlocks hashChars blockChars cutoffBlocks seed (encode prompt) = hashes := by
  by_cases zero : blockChars = 0
  · simp [blockHashes, zero]
  · simp [blockHashes, zero]

/-! ### Equal chains -/

/-- The blocks that `chain` hashes. -/
def blocks {U : Type} (size : Nat) : Nat → List U → List (List U)
  | 0, _ => []
  | n + 1, units => units.take size :: blocks size n (units.drop size)

/-- The same blocks one after the other, but for blocks on which the hash collides. -/
def Indistinct {U : Type} (hash : Nat → List U → Nat) : Nat → List (List U) → List (List U) → Prop
  | _, [], [] => True
  | prev, a :: as, b :: bs =>
      (a = b ∨ a ≠ b ∧ hash prev a = hash prev b) ∧ Indistinct hash (hash prev a) as bs
  | _, _, _ => False

/-- Two chains with the same start are equal exactly if their blocks are, up to collisions. -/
theorem chain_eq_iff {U : Type} {hash : Nat → List U → Nat} {size n m prev : Nat} {xs ys : List U} :
    chain hash size n prev xs = chain hash size m prev ys ↔
      Indistinct hash prev (blocks size n xs) (blocks size m ys) := by
  induction n generalizing m prev xs ys with
  | zero =>
      cases m with
      | zero => simp [chain, blocks, Indistinct]
      | succ m => simp [chain, blocks, Indistinct]
  | succ n ih =>
      cases m with
      | zero => simp [chain, blocks, Indistinct]
      | succ m =>
          have head : hash prev (xs.take size) = hash prev (ys.take size) ↔
              xs.take size = ys.take size ∨ xs.take size ≠ ys.take size ∧
                hash prev (xs.take size) = hash prev (ys.take size) := by
            constructor
            · intro same
              by_cases equal : xs.take size = ys.take size
              · exact .inl equal
              · exact .inr ⟨equal, same⟩
            · rintro (equal | ⟨-, same⟩)
              · rw [equal]
              · exact same
          rw [blocks, blocks, Indistinct, ← head, chain, chain, List.cons.injEq]
          constructor
          · rintro ⟨same, rest⟩
            rw [← same] at rest
            exact ⟨same, ih.mp rest⟩
          · rintro ⟨same, rest⟩
            constructor
            · exact same
            · rw [← same]
              exact ih.mpr rest

theorem Indistinct.refl {U : Type} (hash : Nat → List U → Nat) (prev : Nat)
    (xs : List (List U)) : Indistinct hash prev xs xs := by
  induction xs generalizing prev with
  | nil => trivial
  | cons a as ih => exact ⟨.inl rfl, ih _⟩

end Hashing

end Gateway
