import Gateway.HashingSpec

/-!
The hash chain of the Rust gateway (`rust/src/hashing.rs`), in 64-bit words.

`toNat_blockHashes` reads the words as numbers: they are those of `gateway/hashing.py`
for the same prompt, and the two gateways are prefix-exact together
(`blockHashes_prefixExact`).
-/

namespace Gateway.Rust.Wrapping

/-- `FNV_OFFSET`. -/
def fnvOffset : UInt64 := 0xCBF29CE484222325

/-- `FNV_PRIME`. -/
def fnvPrime : UInt64 := 0x100000001B3

/-- One round of `fnv1a`; the product is `wrapping_mul`. -/
def fnvRound (h : UInt64) (b : UInt8) : UInt64 := (h ^^^ b.toUInt64) * fnvPrime

/-- `fnv1a(data)`. -/
def fnv1a (data : List UInt8) : UInt64 := data.foldl fnvRound fnvOffset

/-- `prev.to_le_bytes()`. -/
def toLeBytes (prev : UInt64) : List UInt8 :=
  [prev, prev >>> 8, prev >>> 16, prev >>> 24, prev >>> 32, prev >>> 40, prev >>> 48,
    prev >>> 56].map UInt64.toUInt8

/-- The loop of `block_hashes` over `n` full blocks. -/
def blockLoop (blockChars : Nat) : Nat → UInt64 → List UInt8 → List UInt64
  | 0, _, _ => []
  | n + 1, prev, raw =>
      let h := fnv1a (toLeBytes prev ++ raw.take blockChars)
      h :: blockLoop blockChars n h (raw.drop blockChars)

/-- `block_hashes(prompt, block_chars, cutoff_blocks, seed)`; dividing by a block size of 0
panics. -/
def blockHashes (prompt : String) (blockChars cutoffBlocks : Nat) (seed : UInt64) :
    Option (List UInt64) :=
  let raw := Hashing.encode prompt
  if blockChars = 0 then none
  else some (blockLoop blockChars (min (raw.length / blockChars) cutoffBlocks) seed raw)

/-! ### The same numbers as in Python -/

theorem toNat_fnvRound (h : UInt64) (b : UInt8) :
    (fnvRound h b).toNat = Hashing.fnvRound h.toNat b := by
  rw [fnvRound, UInt64.toNat_mul, UInt64.toNat_xor, UInt8.toNat_toUInt64]
  rfl

theorem toNat_fnv1a (data : List UInt8) : (fnv1a data).toNat = Hashing.fnv1a data := by
  have rounds (h : UInt64) :
      (data.foldl fnvRound h).toNat = data.foldl Hashing.fnvRound h.toNat := by
    induction data generalizing h with
    | nil => rfl
    | cons b data ih => rw [List.foldl_cons, List.foldl_cons, ih, toNat_fnvRound]
  exact rounds fnvOffset

theorem toLeBytes_eq (prev : UInt64) : toLeBytes prev = Hashing.toBytesLittle 8 prev.toNat := by
  have digit (k : UInt64) :
      (prev >>> k).toUInt8 = UInt8.ofNat (prev.toNat / 2 ^ (k.toNat % 64)) := by
    apply UInt8.toNat_inj.mp
    rw [UInt64.toNat_toUInt8, UInt64.toNat_shiftRight, Nat.shiftRight_eq_div_pow,
      UInt8.toNat_ofNat']
  have lowest : prev.toUInt8 = UInt8.ofNat prev.toNat := by
    apply UInt8.toNat_inj.mp
    rw [UInt64.toNat_toUInt8, UInt8.toNat_ofNat']
  simp only [toLeBytes, Hashing.toBytesLittle, List.map_cons, List.map_nil, digit, lowest,
    Nat.div_div_eq_div_mul]
  rfl

theorem toNat_blockLoop (blockChars n : Nat) (prev : UInt64) (raw : List UInt8) :
    (blockLoop blockChars n prev raw).map UInt64.toNat =
      Hashing.chain Hashing.hashChars blockChars n prev.toNat raw := by
  induction n generalizing prev raw with
  | zero => rfl
  | succ n ih =>
      have head : (fnv1a (toLeBytes prev ++ raw.take blockChars)).toNat =
          Hashing.hashChars prev.toNat (raw.take blockChars) := by
        rw [toNat_fnv1a, toLeBytes_eq, Hashing.hashChars]
      rw [blockLoop, List.map_cons, ih, Hashing.chain, head]

theorem toNat_blockHashes (prompt : String) (blockChars cutoffBlocks : Nat) (seed : UInt64) :
    (blockHashes prompt blockChars cutoffBlocks seed).map (List.map UInt64.toNat) =
      Hashing.blockHashes prompt blockChars cutoffBlocks seed.toNat := by
  have masked : seed.toNat % Hashing.modulus = seed.toNat := Nat.mod_eq_of_lt seed.toNat_lt
  by_cases zero : blockChars = 0
  · simp [blockHashes, Hashing.blockHashes, zero]
  · simp [blockHashes, Hashing.blockHashes, zero, toNat_blockLoop, Hashing.fullBlocks, masked]

/-- In both gateways every prompt is hashed, and a block's hash stands for the prompt up to the
end of that block. -/
theorem blockHashes_prefixExact {size : Nat} (positive : 1 ≤ size) (cutoff seed : Nat)
    (word : UInt64) :
    (∃ hashes : String → List Nat,
      (∀ p, Hashing.blockHashes p size cutoff seed = some (hashes p)) ∧
        Hashing.PrefixExact size cutoff hashes) ∧
      ∃ hashes : String → List UInt64,
        (∀ p, blockHashes p size cutoff word = some (hashes p)) ∧
          Hashing.PrefixExact size cutoff hashes := by
  have nonzero : size ≠ 0 := Nat.ne_of_gt positive
  constructor
  · exact ⟨_, fun p => Hashing.blockHashes_eq nonzero p cutoff seed,
      Hashing.prefixExact_fullBlocks positive cutoff seed⟩
  · refine ⟨_, fun p => if_neg nonzero, Hashing.PrefixExact.of_map (fun _ _ => UInt64.toNat_inj.mp) ?_⟩
    have masked : word.toNat % Hashing.modulus = word.toNat := Nat.mod_eq_of_lt word.toNat_lt
    have exact := Hashing.prefixExact_fullBlocks positive cutoff word.toNat
    simpa only [toNat_blockLoop, Hashing.fullBlocks, masked] using exact

/-- The two prompts share their first block and differ in one byte of the second. -/
theorem blockHashes_prefixExact_one_byte :
    Hashing.ShareBlocks 2 1 "XXAA" "XXAB" ∧
      Hashing.OneByteApart (Hashing.block 2 1 "XXAA") (Hashing.block 2 1 "XXAB") ∧
      (∃ hs hs' h h', Hashing.blockHashes "XXAA" 2 8 7 = some hs ∧
        Hashing.blockHashes "XXAB" 2 8 7 = some hs' ∧
        hs[1]? = some h ∧ hs'[1]? = some h' ∧ h ≠ h') ∧
      ∃ hs hs' h h', blockHashes "XXAA" 2 8 7 = some hs ∧ blockHashes "XXAB" 2 8 7 = some hs' ∧
        hs[1]? = some h ∧ hs'[1]? = some h' ∧ h ≠ h' := by
  have shared : Hashing.ShareBlocks 2 1 "XXAA" "XXAB" :=
    ⟨by decide +kernel, by decide +kernel, by decide +kernel⟩
  have apart : Hashing.OneByteApart (Hashing.block 2 1 "XXAA") (Hashing.block 2 1 "XXAB") :=
    ⟨[65], 65, 66, [], by decide +kernel, by decide +kernel, by decide⟩
  have long : (1 + 1) * 2 ≤ (Hashing.encode "XXAA").length := by decide +kernel
  have long' : (1 + 1) * 2 ≤ (Hashing.encode "XXAB").length := by decide +kernel
  obtain ⟨⟨python, reads, exact⟩, rust, reads', exact'⟩ :=
    blockHashes_prefixExact (show 1 ≤ 2 by decide) 8 7 7
  obtain ⟨h, h', here, there, differ⟩ := exact.differ shared (by decide) long long' apart
  obtain ⟨g, g', here', there', differ'⟩ := exact'.differ shared (by decide) long long' apart
  exact ⟨shared, apart, ⟨_, _, h, h', reads "XXAA", reads "XXAB", here, there, differ⟩,
    _, _, g, g', reads' "XXAA", reads' "XXAB", here', there', differ'⟩

end Gateway.Rust.Wrapping
