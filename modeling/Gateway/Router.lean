import Mathlib.Algebra.Order.Field.Rat
import Mathlib.Data.List.MinMax
import Mathlib.Data.List.Sort
import Mathlib.Data.Prod.Lex
import Mathlib.Data.String.Basic
import Gateway.Cluster.Coordinator
import Gateway.Hashing
import Gateway.LoadTracker

/-!
Routing strategies, from `gateway/router.py` and the ranking of
`gateway/extensions/speculative.py`.

`choose` is `none` where the source raises: on a block size of 0, on an empty candidate
list, and, for the prefix tree, when a negative hysteresis leaves no backend within reach of
the best (`choose_isSome`). What it returns is a candidate (`choose_mem`), and so is everything
that `topKBackends` returns (`topKBackends_subset`). The trained TTFT model is a
third-party object: `predictor` is its `predict`, and `none` when none is loaded.
-/

namespace Gateway

/-- Counters are compared in the order of the integers themselves, not in the one that
their conditional completeness would give, so that `argmin` on them computes. -/
instance intPreorder : Preorder ℤ := Int.instLinearOrder.toPreorder

/-- The strategies of `cfg.strategy` and the `x-routing-strategy` header. -/
inductive Strategy where
  | roundRobin
  | consistentHash
  | prefixTree
  | speculative
  deriving DecidableEq, Repr

/-- `Config`, as far as a modelled function reads it. `tokenize` is the tokenizer
named by `tokenizer_model`, and `backendAdapters` whether adapters are configured. -/
structure Config where
  blockChars : Nat := 64
  blockTokens : Nat := 16
  hashCutoffBlocks : Nat := 512
  prefillMsPerToken : ℚ := 1 / 20
  serviceMsPerRequest : ℚ := 200
  kvPressureCutoff : ℚ := 9 / 10
  maxInflight : Int := 64
  hysteresisMs : ℚ := 5
  strategy : Strategy := .prefixTree
  sessionAffinityEnabled : Bool := false
  useBpeHashing : Bool := false
  tokenize : String → Option (List Nat) := fun _ => none
  ttftPredictorWeight : ℚ := 1 / 2
  speculativeK : Int := 2
  backendAdapters : Bool := false
  loraFallbackToBase : Bool := true
  semanticCacheEnabled : Bool := false
  maxRetries : Int := 2
  rateLimitEnabled : Bool := false
  prefixIsolation : Bool := true
  tokenAccurateAccounting : Bool := false
  defaultOutputTokens : Int := 256
  maxOutputTokens : Int := 4096
  charsPerToken : Int := 4

/-- `hashes, mode` of a prompt. -/
def Config.hashes (cfg : Config) (prompt : String) (seed : Nat) :
    Option (List Nat × Hashing.Mode) :=
  if cfg.useBpeHashing then
    Hashing.blockHashesWithFallback cfg.tokenize prompt cfg.blockChars cfg.blockTokens
      cfg.hashCutoffBlocks seed
  else (Hashing.blockHashes prompt cfg.blockChars cfg.hashCutoffBlocks seed).map
    fun hashes => (hashes, .char)

/-- The block size that a prompt is hashed with. -/
def Config.blockSize (cfg : Config) (prompt : String) : Nat :=
  if cfg.useBpeHashing && (cfg.tokenize prompt).isSome then cfg.blockTokens else cfg.blockChars

/-- A prompt is hashed unless its block size is 0. -/
theorem Config.hashes_isSome {cfg : Config} {prompt : String} (seed : Nat) :
    (cfg.hashes prompt seed).isSome = true ↔ cfg.blockSize prompt ≠ 0 := by
  unfold hashes blockSize Hashing.blockHashesWithFallback
  cases cfg.useBpeHashing with
  | false => simp [Hashing.blockHashes]
  | true =>
      cases cfg.tokenize prompt with
      | none => simp [Hashing.blockHashes]
      | some ids => simp [Hashing.bpeBlockHashes]

theorem Config.hashes_eq_none {cfg : Config} {prompt : String} (seed : Nat)
    (zero : cfg.blockSize prompt = 0) : cfg.hashes prompt seed = none := by
  rw [← Option.not_isSome_iff_eq_none, hashes_isSome]
  exact not_not_intro zero

theorem Config.exists_hashes {cfg : Config} {prompt : String} (sized : cfg.blockSize prompt ≠ 0)
    (seed : Nat) : ∃ hashes mode, cfg.hashes prompt seed = some (hashes, mode) := by
  obtain ⟨⟨hashes, mode⟩, hashed⟩ := Option.isSome_iff_exists.mp ((hashes_isSome seed).mpr sized)
  exact ⟨hashes, mode, hashed⟩

/-- `RouteResult`. -/
structure RouteResult where
  backendId : String
  hashes : List Nat
  tokens : Nat
  matchBlocks : Nat
  hashMode : Hashing.Mode
  deriving DecidableEq

/-- `Router`, without the tree and the load tracker it shares with the server. -/
structure Router where
  rr : Nat
  predictor : Option (List ℚ → Option ℚ)
  fleet : Option (FleetLoadView String String)

namespace Router

/-- `_inflight(backend_id)`: this replica's requests and those of its peers. -/
def inflight (r : Router) (load : LoadTracker String) (b : String) : Int :=
  load.inflightOf b + (r.fleet.map fun v => v.peerInflight b).getD 0

/-- `_backend_idx(backend_id)`. -/
def backendIdx (b : String) : Nat :=
  (Hashing.encode b).foldl (fun h c => (h * 31 + c.toNat) % 2 ^ 32) 0 % 64

/-- `features_for(...)`. -/
def featuresFor (promptTokens matchBlocks blockTokens : Nat) (inflight : Int) (kvUsage : ℚ)
    (b : String) : List ℚ :=
  [promptTokens, matchBlocks, (promptTokens - matchBlocks * blockTokens : Nat), inflight, kvUsage,
    backendIdx b]

/-- `blended_ttft(static_ms, predicted_ms, weight)`. -/
def blendedTtft (static : ℚ) (predicted : Option ℚ) (weight : ℚ) : ℚ :=
  match predicted with
  | none => static
  | some predicted =>
      let w := max 0 (min 1 weight)
      (1 - w) * static + w * predicted

/-- `_est_ttft(tokens, match_blocks, backend_id)`. -/
def estTtft (cfg : Config) (r : Router) (load : LoadTracker String) (tokens matchBlocks : Nat)
    (b : String) : ℚ :=
  let uncached := tokens - matchBlocks * cfg.blockTokens
  let prefillMs := cfg.prefillMsPerToken * uncached
  let queueMs := r.inflight load b * cfg.serviceMsPerRequest
  let staticTtft := prefillMs + queueMs
  match r.predictor with
  | none => staticTtft
  | some predict =>
      blendedTtft staticTtft
        (predict (featuresFor tokens matchBlocks cfg.blockTokens (r.inflight load b)
          (load.kvUsageOf b) b))
        cfg.ttftPredictorWeight

/-- The hard cutoff of `choose`: shed by a peer, out of KV memory, or too busy. -/
def saturated (cfg : Config) (r : Router) (load : LoadTracker String) (b : String) : Bool :=
  r.fleet.any (fun v => v.peerUnhealthy b) || decide (cfg.kvPressureCutoff < load.kvUsageOf b) ||
    decide (cfg.maxInflight < r.inflight load b)

/-- `saturated_fallback or cands[0]`: the least busy candidate, unless its id is empty. -/
def saturatedFallback (r : Router) (load : LoadTracker String) (cands : List String) :
    Option String :=
  match cands.argmin (r.inflight load) with
  | some b => if b = "" then cands.head? else some b
  | none => cands.head?

/-- The `prefix_tree` branch: the least loaded of the backends whose estimate is within
the hysteresis of the best, in rotation. Also whether the rotation advances. -/
def choosePrefixTree (cfg : Config) (r : Router) (load : LoadTracker String) (tokens : Nat)
    (found : Dict String Nat) (cands : List String) : Option (String × Nat × Bool) :=
  let scored := (cands.filter fun b => !r.saturated cfg load b).map fun b =>
    (r.estTtft cfg load tokens (found.getD b 0) b, b, found.getD b 0)
  match (scored.map Prod.fst).min? with
  | none => (r.saturatedFallback load cands).map fun b => (b, found.getD b 0, false)
  | some minTtft =>
      let good := (scored.filter fun s => decide (s.1 ≤ minTtft + cfg.hysteresisMs)).map Prod.snd
      match (good.map fun g => r.inflight load g.1).min? with
      | none => none
      | some minLoad =>
          let tied := good.filter fun g => r.inflight load g.1 = minLoad
          tied[r.rr % tied.length]?.map fun g => (g.1, g.2, true)

/-- `choose` once the prompt is hashed. -/
def chooseHashed (cfg : Config) (r : Router) (tree : RadixTree Nat String)
    (load : LoadTracker String) (hashes : List Nat) (mode : Hashing.Mode) (cands : List String)
    (strategy : Option Strategy) : Option (RouteResult × Router) :=
  let tokens := hashes.length * cfg.blockTokens
  match strategy.getD cfg.strategy with
  | .roundRobin =>
      cands[r.rr % cands.length]?.map fun b =>
        (⟨b, hashes, tokens, 0, mode⟩, { r with rr := r.rr + 1 })
  | .consistentHash =>
      cands[hashes.headD 0 % cands.length]?.map fun b => (⟨b, hashes, tokens, 0, mode⟩, r)
  | _ =>
      (r.choosePrefixTree cfg load tokens (tree.matchPrefix hashes) cands).map
        fun (b, matchBlocks, advance) =>
          (⟨b, hashes, tokens, matchBlocks, mode⟩,
            if advance then { r with rr := r.rr + 1 } else r)

/-- `choose(prompt, backends, strategy, seed)`, with the router it leaves. -/
def choose (cfg : Config) (r : Router) (tree : RadixTree Nat String) (load : LoadTracker String)
    (prompt : String) (cands : List String) (strategy : Option Strategy) (seed : Nat) :
    Option (RouteResult × Router) :=
  (cfg.hashes prompt seed).bind fun hashed =>
    r.chooseHashed cfg tree load hashed.1 hashed.2 cands strategy

/-! ### Ranking for speculative routing -/

/-- `TopKResult`. -/
structure TopK where
  backendIds : List String
  matchBlocks : Dict String Nat
  hashes : List Nat
  tokens : Nat
  hashMode : Hashing.Mode

/-- `top_k_backends` once the prompt is hashed. Its cutoff looks at this replica's requests
alone. -/
def topKHashed (cfg : Config) (r : Router) (tree : RadixTree Nat String)
    (load : LoadTracker String) (hashes : List Nat) (mode : Hashing.Mode) (backends : List String)
    (k : Int) : TopK :=
  let tokens := hashes.length * cfg.blockTokens
  let found := tree.matchPrefix hashes
  let tooBusy := fun b => decide (cfg.kvPressureCutoff < load.kvUsageOf b) ||
    decide (cfg.maxInflight < load.inflightOf b)
  let scored := ((backends.filter fun b => !tooBusy b).map fun b =>
    (r.estTtft cfg load tokens (found.getD b 0) b, b)).insertionSort fun x y => x.1 ≤ y.1
  let chosen :=
    if scored.isEmpty then
      match (backends.filter tooBusy).argmin fun b => toLex (load.inflightOf b, b) with
      | some b => [b]
      | none => backends.take 1
    else (scored.take (max 1 k).toNat).map Prod.snd
  ⟨chosen, chosen.foldl (fun d b => d.set b (found.getD b 0)) .empty, hashes, tokens, mode⟩

/-- `top_k_backends(router, prompt, backends, k, seed)`. -/
def topKBackends (cfg : Config) (r : Router) (tree : RadixTree Nat String)
    (load : LoadTracker String) (prompt : String) (backends : List String) (k : Int)
    (seed : Nat) : Option TopK :=
  (cfg.hashes prompt seed).map fun hashed =>
    r.topKHashed cfg tree load hashed.1 hashed.2 backends k

/-! ### What is returned is a candidate -/

variable {cfg : Config} {r r' : Router} {tree : RadixTree Nat String} {load : LoadTracker String}
  {prompt : String} {cands : List String} {strategy : Option Strategy} {seed : Nat}
  {hashes : List Nat} {mode : Hashing.Mode}

theorem choose_of_hashed (hashed : cfg.hashes prompt seed = some (hashes, mode)) :
    r.choose cfg tree load prompt cands strategy seed =
      r.chooseHashed cfg tree load hashes mode cands strategy := by
  rw [choose, hashed, Option.bind_some]

/-- A choice hashed the prompt. -/
theorem choose_eq_some {route : RouteResult}
    (chosen : r.choose cfg tree load prompt cands strategy seed = some (route, r')) :
    ∃ hashes mode, cfg.hashes prompt seed = some (hashes, mode) ∧
      r.chooseHashed cfg tree load hashes mode cands strategy = some (route, r') := by
  obtain ⟨⟨hashes, mode⟩, hashed, rest⟩ := Option.bind_eq_some_iff.mp chosen
  exact ⟨hashes, mode, hashed, rest⟩

/-- And so did a ranking. -/
theorem topKBackends_eq_some {k : Int} {top : TopK}
    (ranked : r.topKBackends cfg tree load prompt cands k seed = some top) :
    ∃ hashes mode, cfg.hashes prompt seed = some (hashes, mode) ∧
      r.topKHashed cfg tree load hashes mode cands k = top := by
  obtain ⟨⟨hashes, mode⟩, hashed, rest⟩ := Option.map_eq_some_iff.mp ranked
  exact ⟨hashes, mode, hashed, rest⟩

theorem saturatedFallback_mem {b : String} (found : r.saturatedFallback load cands = some b) :
    b ∈ cands := by
  unfold saturatedFallback at found
  split at found
  · rename_i least minimal
    split at found
    · exact List.mem_of_head? found
    · cases found
      exact List.argmin_mem minimal
  · exact List.mem_of_head? found

theorem choosePrefixTree_mem {tokens : Nat} {found : Dict String Nat} {b : String}
    {matchBlocks : Nat} {advance : Bool}
    (chosen : r.choosePrefixTree cfg load tokens found cands = some (b, matchBlocks, advance)) :
    b ∈ cands := by
  unfold choosePrefixTree at chosen
  dsimp only at chosen
  split at chosen
  · obtain ⟨b', fallback, same⟩ := Option.map_eq_some_iff.mp chosen
    cases same
    exact saturatedFallback_mem fallback
  · split at chosen
    · cases chosen
    · obtain ⟨g, rotation, same⟩ := Option.map_eq_some_iff.mp chosen
      cases same
      have good := (List.mem_filter.mp (List.mem_of_getElem? rotation)).1
      obtain ⟨s, scored, rfl⟩ := List.mem_map.mp good
      obtain ⟨b', unsaturated, rfl⟩ := List.mem_map.mp (List.mem_filter.mp scored).1
      exact (List.mem_filter.mp unsaturated).1

/-- The route is one of the candidates. -/
theorem choose_mem {route : RouteResult}
    (chosen : r.choose cfg tree load prompt cands strategy seed = some (route, r')) :
    route.backendId ∈ cands := by
  obtain ⟨hashes, mode, -, chosen⟩ := choose_eq_some chosen
  unfold chooseHashed at chosen
  dsimp only at chosen
  split at chosen
  · obtain ⟨b, rotation, same⟩ := Option.map_eq_some_iff.mp chosen
    cases same
    exact List.mem_of_getElem? rotation
  · obtain ⟨b, slot, same⟩ := Option.map_eq_some_iff.mp chosen
    cases same
    exact List.mem_of_getElem? slot
  · obtain ⟨⟨b, matchBlocks, advance⟩, picked, same⟩ := Option.map_eq_some_iff.mp chosen
    cases same
    exact choosePrefixTree_mem picked

/-- Everything ranked is one of the candidates. -/
theorem topKBackends_subset {k : Int} {top : TopK}
    (ranked : r.topKBackends cfg tree load prompt cands k seed = some top) {b : String}
    (member : b ∈ top.backendIds) : b ∈ cands := by
  obtain ⟨hashes, mode, -, rfl⟩ := topKBackends_eq_some ranked
  unfold topKHashed at member
  dsimp only at member
  split at member
  · split at member
    · rename_i least minimal
      rw [List.mem_singleton] at member
      rw [member]
      exact (List.mem_filter.mp (List.argmin_mem minimal)).1
    · exact List.mem_of_mem_take member
  · obtain ⟨s, taken, rfl⟩ := List.mem_map.mp member
    have scored := (List.perm_insertionSort _ _).mem_iff.mp (List.mem_of_mem_take taken)
    obtain ⟨b', unsaturated, rfl⟩ := List.mem_map.mp scored
    exact (List.mem_filter.mp unsaturated).1

/-! ### When a route is found -/

/-- The prompt can be hashed, and the hysteresis cannot leave the prefix tree without a
choice. -/
def Routes (cfg : Config) (prompt : String) (strategy : Option Strategy) : Prop :=
  cfg.blockSize prompt ≠ 0 ∧
    (0 ≤ cfg.hysteresisMs ∨ strategy.getD cfg.strategy = .roundRobin ∨
      strategy.getD cfg.strategy = .consistentHash)

instance : Decidable (Routes cfg prompt strategy) := inferInstanceAs (Decidable (_ ∧ _))

theorem getElem?_mod_isSome {α : Type} {l : List α} (some_left : l ≠ []) (n : Nat) :
    (l[n % l.length]?).isSome = true := by
  rw [List.getElem?_eq_getElem (Nat.mod_lt _ (List.length_pos_iff.mpr some_left))]
  rfl

theorem saturatedFallback_isSome (some_left : cands ≠ []) :
    (r.saturatedFallback load cands).isSome = true := by
  have head : cands.head?.isSome = true := by
    rw [List.isSome_head?]
    simpa using some_left
  unfold saturatedFallback
  split
  · split
    · exact head
    · rfl
  · exact head

theorem choosePrefixTree_isSome {tokens : Nat} {found : Dict String Nat} (some_left : cands ≠ [])
    (within : 0 ≤ cfg.hysteresisMs) :
    (r.choosePrefixTree cfg load tokens found cands).isSome = true := by
  unfold choosePrefixTree
  dsimp only
  split
  · rw [Option.isSome_map]
    exact saturatedFallback_isSome some_left
  · rename_i minTtft least
    obtain ⟨best, scored, rfl⟩ := List.mem_map.mp (List.min?_mem least)
    split
    · rename_i nobody
      -- the best itself is within its own hysteresis
      rw [List.min?_eq_none_iff, List.map_eq_nil_iff, List.map_eq_nil_iff,
        List.filter_eq_nil_iff] at nobody
      exact absurd (decide_eq_true (le_add_of_nonneg_right within)) (nobody best scored)
    · rename_i minLoad lightest
      obtain ⟨g, member, same⟩ := List.mem_map.mp (List.min?_mem lightest)
      rw [Option.isSome_map]
      refine getElem?_mod_isSome (List.ne_nil_of_mem (List.mem_filter.mpr ⟨member, ?_⟩)) _
      exact decide_eq_true same

/-- Some candidate is chosen whenever there is one. -/
theorem choose_isSome (routes : Routes cfg prompt strategy) (some_left : cands ≠ []) :
    (r.choose cfg tree load prompt cands strategy seed).isSome = true := by
  obtain ⟨sized, routes⟩ := routes
  obtain ⟨hashes, mode, hashed⟩ := Config.exists_hashes sized seed
  rw [choose_of_hashed hashed]
  unfold chooseHashed
  dsimp only
  split
  · rw [Option.isSome_map]
    exact getElem?_mod_isSome some_left _
  · rw [Option.isSome_map]
    exact getElem?_mod_isSome some_left _
  · rename_i notRotation notHash
    rw [Option.isSome_map]
    rcases routes with within | rotation | hash
    · exact choosePrefixTree_isSome some_left within
    · exact absurd rotation notRotation
    · exact absurd hash notHash

theorem topKBackends_isSome {k : Int} (sized : cfg.blockSize prompt ≠ 0) :
    (r.topKBackends cfg tree load prompt cands k seed).isSome = true := by
  rw [topKBackends, Option.isSome_map]
  exact (Config.hashes_isSome seed).mpr sized

/-! ### The backends in rotation -/

/-- The backends among which the prefix tree rotates; `none` when all are saturated. -/
def tied (cfg : Config) (r : Router) (load : LoadTracker String) (tokens : Nat)
    (found : Dict String Nat) (cands : List String) : Option (List (String × Nat)) :=
  let scored := (cands.filter fun b => !r.saturated cfg load b).map fun b =>
    (r.estTtft cfg load tokens (found.getD b 0) b, b, found.getD b 0)
  (scored.map Prod.fst).min?.map fun minTtft =>
    let good := (scored.filter fun s => decide (s.1 ≤ minTtft + cfg.hysteresisMs)).map Prod.snd
    match (good.map fun g => r.inflight load g.1).min? with
    | none => []
    | some minLoad => good.filter fun g => r.inflight load g.1 = minLoad

theorem choosePrefixTree_eq (cfg : Config) (r : Router) (load : LoadTracker String) (tokens : Nat)
    (found : Dict String Nat) (cands : List String) :
    r.choosePrefixTree cfg load tokens found cands =
      match r.tied cfg load tokens found cands with
      | none => (r.saturatedFallback load cands).map fun b => (b, found.getD b 0, false)
      | some tied => tied[r.rr % tied.length]?.map fun g => (g.1, g.2, true) := by
  unfold choosePrefixTree tied
  dsimp only
  split
  · rename_i none_left
    rw [none_left]
    rfl
  · rename_i minTtft least
    rw [least]
    dsimp only [Option.map_some]
    split
    · rename_i nobody
      simp only [List.getElem?_nil, Option.map_none]
    · rename_i minLoad lightest
      rfl

end Router

end Gateway
