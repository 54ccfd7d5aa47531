import Mathlib.Algebra.Order.Field.Rat
import Mathlib.Data.List.MinMax
import Gateway.LoadTracker
import Gateway.Router
import Gateway.Rust.RadixTree

/-!
The router of the Rust gateway (`rust/src/router.rs`) and its configuration
(`rust/src/config.rs`).

It mirrors the Python router without peers and without a trained model. `choose` is
`none` where the source panics: a block size of zero, no candidate, or a negative
hysteresis that leaves no backend within reach of the best. `choose_isSome` says that
nothing else makes it panic.

The tokenizer is a third-party library, present in builds with the feature `bpe`:
`tokenize` is what it returns for a prompt, and `none` when it fails. The load tracker
(`load.rs`) and the circuit breaker (`circuit.rs`) do what their Python namesakes do, and are
those; so is the hash chain (`hashing.rs`), by `Wrapping.toNat_blockHashes`. Arithmetic is
exact.
-/

namespace Gateway.Rust

/-- `Strategy`. -/
inductive Strategy where
  | roundRobin
  | consistentHash
  | prefixTree
  deriving DecidableEq, Repr

/-- `Config`, as far as a modelled function reads it. -/
structure Config where
  blockChars : Nat := 64
  blockTokens : Nat := 16
  hashCutoffBlocks : Nat := 512
  backendCacheBlocks : Nat := 2000
  prefillMsPerToken : ℚ := 1 / 20
  serviceMsPerRequest : ℚ := 200
  kvPressureCutoff : ℚ := 9 / 10
  maxInflight : Nat := 64
  hysteresisMs : ℚ := 5
  strategy : Strategy := .prefixTree
  maxRetries : Nat := 2
  circuitFailThreshold : Nat := 3
  circuitCooldown : ℚ := 5
  rateLimitEnabled : Bool := false
  prefixIsolation : Bool := true
  defaultOutputTokens : Nat := 256
  maxOutputTokens : Nat := 4096
  charsPerToken : Nat := 4
  useBpeHashing : Bool := false
  tokenize : String → Option (List Nat) := fun _ => none

namespace Config

/-- The token ids of a prompt, when hashing goes by tokens and the tokenizer works. -/
def tokenIds (cfg : Config) (prompt : String) : Option (List Nat) :=
  if cfg.useBpeHashing then cfg.tokenize prompt else none

/-- `(hashes, hash_mode)` of a prompt; the division by a block size of zero panics. -/
def hashes (cfg : Config) (prompt : String) (seed : Nat) : Option (List Nat × Hashing.Mode) :=
  match cfg.tokenIds prompt with
  | some ids =>
      (Hashing.bpeBlockHashes ids cfg.blockTokens cfg.hashCutoffBlocks seed).map
        fun hashes => (hashes, .bpe)
  | none =>
      (Hashing.blockHashes prompt cfg.blockChars cfg.hashCutoffBlocks seed).map
        fun hashes => (hashes, .char)

/-- The size of a block of this prompt is not zero, and the hysteresis, where it is
used, not negative. -/
def Routes (cfg : Config) (prompt : String) (strategy : Strategy) : Prop :=
  0 < (if (cfg.tokenIds prompt).isSome then cfg.blockTokens else cfg.blockChars) ∧
    (strategy = .prefixTree → 0 ≤ cfg.hysteresisMs)

instance decidableRoutes (cfg : Config) (prompt : String) (strategy : Strategy) :
    Decidable (cfg.Routes prompt strategy) :=
  inferInstanceAs (Decidable (_ ∧ (_ → _)))

theorem hashes_isSome {cfg : Config} {prompt : String} {strategy : Strategy}
    (routes : cfg.Routes prompt strategy) (seed : Nat) :
    (cfg.hashes prompt seed).isSome = true := by
  obtain ⟨sized, -⟩ := routes
  unfold hashes
  cases ids : cfg.tokenIds prompt with
  | some ids =>
      rw [ids] at sized
      simp [Hashing.bpeBlockHashes, Nat.ne_of_gt (show 0 < cfg.blockTokens from sized)]
  | none =>
      rw [ids] at sized
      simp [Hashing.blockHashes, Nat.ne_of_gt (show 0 < cfg.blockChars from sized)]

end Config

/-- `Router`: the rotation, next to the configuration it was made with. -/
structure Router where
  rr : Nat

namespace Router

variable (cfg : Config) (r : Router) (load : LoadTracker String)

/-- `est_ttft(tokens, match_blocks, backend, load)`. -/
def estTtft (tokens matchBlocks : Nat) (b : String) : ℚ :=
  let cached := matchBlocks * cfg.blockTokens
  let uncached := tokens - cached
  let prefillMs := cfg.prefillMsPerToken * (uncached : ℚ)
  let queueMs := load.inflightOf b * cfg.serviceMsPerRequest
  prefillMs + queueMs

/-- The hard cutoff of `choose`. -/
def saturated (b : String) : Bool :=
  decide (cfg.kvPressureCutoff < load.kvUsageOf b) || decide (cfg.maxInflight < load.inflightOf b)

/-- `saturated_fallback.unwrap_or_else(|| backends[0])`, where every backend is
saturated: the first of the least busy. -/
def saturatedFallback (backends : List String) : Option String :=
  match backends.argmin load.inflightOf with
  | some b => some b
  | none => backends.head?

/-- The `PrefixTree` branch. Also whether the rotation advances. -/
def choosePrefixTree (tokens : Nat) (found : Dict String Nat) (backends : List String) :
    Option (String × Nat × Bool) :=
  let scored := (backends.filter fun b => !saturated cfg load b).map fun b =>
    (estTtft cfg load tokens (found.getD b 0) b, b, found.getD b 0)
  match (scored.map Prod.fst).min? with
  | none => (saturatedFallback load backends).map fun b => (b, found.getD b 0, false)
  | some minTtft =>
      let good := (scored.filter fun s => decide (s.1 ≤ minTtft + cfg.hysteresisMs)).map Prod.snd
      match (good.map fun g => load.inflightOf g.1).min? with
      | none => none
      | some minLoad =>
          let tied := good.filter fun g => load.inflightOf g.1 = minLoad
          tied[r.rr % tied.length]?.map fun g => (g.1, g.2, true)

/-- `choose(prompt, backends, tree, load, strategy, seed)`, with the router it leaves. -/
def choose (tree : RustTree Nat String) (prompt : String) (backends : List String)
    (strategy : Strategy) (seed : Nat) : Option (RouteResult × Router) :=
  (cfg.hashes prompt seed).bind fun (hashes, mode) =>
    let tokens := hashes.length * cfg.blockTokens
    match strategy with
    | .roundRobin =>
        backends[r.rr % backends.length]?.map fun b =>
          (⟨b, hashes, tokens, 0, mode⟩, ⟨r.rr + 1⟩)
    | .consistentHash =>
        backends[hashes.headD 0 % backends.length]?.map fun b =>
          (⟨b, hashes, tokens, 0, mode⟩, r)
    | .prefixTree =>
        (choosePrefixTree cfg r load tokens (tree.matchPrefix hashes) backends).map
          fun (b, matchBlocks, advance) =>
            (⟨b, hashes, tokens, matchBlocks, mode⟩, if advance then ⟨r.rr + 1⟩ else r)

variable {cfg r load} {tree : RustTree Nat String} {prompt : String} {backends : List String}
  {strategy : Strategy} {seed : Nat}

theorem choosePrefixTree_isSome {tokens : Nat} {found : Dict String Nat}
    (some_left : backends ≠ []) (within : 0 ≤ cfg.hysteresisMs) :
    (choosePrefixTree cfg r load tokens found backends).isSome = true := by
  unfold choosePrefixTree
  dsimp only
  split
  · rw [Option.isSome_map, saturatedFallback]
    split
    · rfl
    · rw [List.isSome_head?]
      simpa using some_left
  · rename_i minTtft least
    obtain ⟨best, scored, rfl⟩ := List.mem_map.mp (List.min?_mem least)
    split
    · rename_i nobody
      -- the best itself is within its own hysteresis
      rw [List.min?_eq_none_iff, List.map_eq_nil_iff, List.map_eq_nil_iff,
        List.filter_eq_nil_iff] at nobody
      exact absurd (decide_eq_true (le_add_of_nonneg_right within)) (nobody best scored)
    · rename_i minLoad lightest
      obtain ⟨g, member, same⟩ := List.mem_map.mp (List.min?_mem lightest)
      rw [Option.isSome_map]
      apply Gateway.Router.getElem?_mod_isSome
      exact List.ne_nil_of_mem (List.mem_filter.mpr ⟨member, decide_eq_true same⟩)

/-- Some candidate is chosen whenever there is one, and nothing panics. -/
theorem choose_isSome (routes : cfg.Routes prompt strategy) (some_left : backends ≠ []) :
    (choose cfg r load tree prompt backends strategy seed).isSome = true := by
  obtain ⟨⟨hashes, mode⟩, hashed⟩ :=
    Option.isSome_iff_exists.mp (Config.hashes_isSome routes seed)
  unfold choose
  rw [hashed, Option.bind_some]
  cases strategy with
  | roundRobin =>
      rw [Option.isSome_map]
      exact Gateway.Router.getElem?_mod_isSome some_left _
  | consistentHash =>
      rw [Option.isSome_map]
      exact Gateway.Router.getElem?_mod_isSome some_left _
  | prefixTree =>
      rw [Option.isSome_map]
      exact choosePrefixTree_isSome some_left (routes.2 rfl)

end Router

end Gateway.Rust
