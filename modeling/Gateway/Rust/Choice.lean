import Gateway.Rust.Router

/-!
The routers of the two gateways choose alike.

With one configuration, trees that stand for each other (`Sim`), the same load tracker and the same
rotation, `choose` of `rust/src/router.rs` and `choose` of `gateway/router.py` return the same
route and advance the rotation alike (`choose_eq`), if there are neither peers nor a trained model.
The Python router compares counts as integers and the Rust router as naturals, so the lemmas
before it move the cast out of the minima.
-/

namespace Gateway

/-- The strategy that the Python router follows by a name. Any other name routes as
`prefix_tree`. -/
def Strategy.ofName : String → Strategy
  | "round_robin" => .roundRobin
  | "consistent_hash" => .consistentHash
  | "speculative" => .speculative
  | _ => .prefixTree

/-- The strategy of the Rust gateway by the same name. -/
def Strategy.toRust : Strategy → Option Rust.Strategy
  | .roundRobin => some .roundRobin
  | .consistentHash => some .consistentHash
  | .prefixTree => some .prefixTree
  | .speculative => none

namespace Rust

/-- `parse_strategy(s)`. -/
def parseStrategy : String → Option Strategy
  | "round_robin" => some .roundRobin
  | "consistent_hash" => some .consistentHash
  | "prefix_tree" => some .prefixTree
  | _ => none

/-- One routing configuration for both gateways. -/
structure SameRouting (cfg : Gateway.Config) (cfg' : Config) : Prop where
  blockChars : cfg.blockChars = cfg'.blockChars
  blockTokens : cfg.blockTokens = cfg'.blockTokens
  hashCutoffBlocks : cfg.hashCutoffBlocks = cfg'.hashCutoffBlocks
  prefillMsPerToken : cfg.prefillMsPerToken = cfg'.prefillMsPerToken
  serviceMsPerRequest : cfg.serviceMsPerRequest = cfg'.serviceMsPerRequest
  kvPressureCutoff : cfg.kvPressureCutoff = cfg'.kvPressureCutoff
  maxInflight : cfg.maxInflight = cfg'.maxInflight
  hysteresisMs : cfg.hysteresisMs = cfg'.hysteresisMs
  useBpeHashing : cfg.useBpeHashing = cfg'.useBpeHashing
  tokenize : cfg.tokenize = cfg'.tokenize
  sized : 0 < cfg'.blockChars ∧ 0 < cfg'.blockTokens
  tolerant : 0 ≤ cfg'.hysteresisMs

/-- The least of some naturals is the least of them as integers. -/
theorem min?_map_cast (l : List Nat) :
    (l.map (Nat.cast : Nat → Int)).min? = l.min?.map Nat.cast := by
  cases l with
  | nil => rfl
  | cons n rest =>
      simp only [List.map_cons, List.min?_cons', Option.map_some, Option.some.injEq]
      induction rest generalizing n with
      | nil => rfl
      | cons m rest ih =>
          have first : min (n : Int) m = (min n m : Nat) := by omega
          rw [List.map_cons, List.foldl_cons, List.foldl_cons, first, ih]

/-- Comparing as integers does not change the first of the least. -/
theorem argmin_cast (l : List String) (count : String → Nat) :
    l.argmin (fun b => (count b : Int)) = l.argmin count := by
  have below : (fun b c => (count b : Int) < count c) = fun b c => count b < count c :=
    funext fun b => funext fun c => propext Nat.cast_lt
  unfold List.argmin
  congr!

section Choice

variable {cfg : Gateway.Config} {cfg' : Config} {r : Gateway.Router} {r' : Router}
  {load : LoadTracker String} {cands : List String}

theorem inflight_plain (alone : r.fleet = none) (b : String) :
    r.inflight load b = load.inflightOf b := by
  rw [Gateway.Router.inflight, alone]
  exact add_zero _

variable (same : SameRouting cfg cfg') (alone : r.fleet = none) (untrained : r.predictor = none)
include same alone

theorem saturated_eq (b : String) : r.saturated cfg load b = Router.saturated cfg' load b := by
  rw [Gateway.Router.saturated, Router.saturated, inflight_plain alone, alone, same.kvPressureCutoff,
    same.maxInflight]
  simp only [Option.any_none, Bool.false_or, Nat.cast_lt]

include untrained in
theorem estTtft_eq (tokens matchBlocks : Nat) (b : String) :
    r.estTtft cfg load tokens matchBlocks b = Router.estTtft cfg' load tokens matchBlocks b := by
  simp only [Gateway.Router.estTtft, Router.estTtft, untrained, inflight_plain alone,
    same.blockTokens, same.prefillMsPerToken, same.serviceMsPerRequest, Int.cast_natCast]

omit same in
theorem saturatedFallback_eq (named : "" ∉ cands) :
    r.saturatedFallback load cands = Router.saturatedFallback load cands := by
  have counts : r.inflight load = fun b => (load.inflightOf b : Int) :=
    funext fun b => inflight_plain alone b
  rw [Gateway.Router.saturatedFallback, Router.saturatedFallback, counts, argmin_cast]
  cases least : cands.argmin load.inflightOf with
  | none => rfl
  | some b =>
      have member := List.argmin_mem least
      have given : b ≠ "" := by
        rintro rfl
        exact named member
      simp only [given, if_false]

include untrained in
theorem choosePrefixTree_eq (rotation : r.rr = r'.rr) (named : "" ∉ cands) (tokens : Nat)
    (found : Dict String Nat) :
    r.choosePrefixTree cfg load tokens found cands =
      Router.choosePrefixTree cfg' r' load tokens found cands := by
  have lightest : ∀ good : List (String × Nat), (good.map fun g => r.inflight load g.1).min? =
      (good.map fun g => load.inflightOf g.1).min?.map Nat.cast := by
    intro good
    rw [← min?_map_cast, List.map_map]
    congr 2
    exact funext fun g => inflight_plain alone g.1
  unfold Gateway.Router.choosePrefixTree Router.choosePrefixTree
  simp only [saturated_eq same alone, estTtft_eq same alone untrained, same.hysteresisMs,
    saturatedFallback_eq alone named]
  generalize ((cands.filter _).map _ : List (ℚ × String × Nat)) = scored
  cases (scored.map Prod.fst).min? with
  | none => rfl
  | some minTtft =>
      dsimp only
      rw [lightest]
      generalize ((scored.filter _).map Prod.snd : List (String × Nat)) = good
      cases (good.map fun g => load.inflightOf g.1).min? with
      | none => rfl
      | some minLoad =>
          have tied : (good.filter fun g => decide (r.inflight load g.1 = (minLoad : Int))) =
              good.filter fun g => decide (load.inflightOf g.1 = minLoad) := by
            refine List.filter_congr fun g _ => ?_
            rw [inflight_plain alone, decide_eq_decide]
            exact Nat.cast_inj
          simp only [Option.map_some, tied, rotation]

omit alone in
theorem hashes_eq (prompt : String) (seed : Nat) :
    cfg.hashes prompt seed = cfg'.hashes prompt seed := by
  unfold Config.hashes Config.tokenIds Gateway.Config.hashes Hashing.blockHashesWithFallback
  rw [same.useBpeHashing, same.tokenize, same.blockChars, same.blockTokens, same.hashCutoffBlocks]
  cases cfg'.useBpeHashing with
  | false => rfl
  | true =>
      cases cfg'.tokenize prompt with
      | none => rfl
      | some ids => rfl

end Choice

/-- **The routers choose alike.** -/
theorem choose_eq {cfg : Gateway.Config} {cfg' : Config} (same : SameRouting cfg cfg')
    {tree : RadixTree Nat String} {tree' : RustTree Nat String} (sim : Sim tree tree')
    (load : LoadTracker String) (r' : Router) (prompt : String) {cands : List String}
    (named : "" ∉ cands) {strategy : Option Gateway.Strategy} {strategy' : Strategy}
    (known : (strategy.getD cfg.strategy).toRust = some strategy') (seed : Nat) :
    Gateway.Router.choose cfg ⟨r'.rr, none, none⟩ tree load prompt cands strategy seed =
      (Router.choose cfg' r' load tree' prompt cands strategy' seed).map
        fun (route, r') => (route, ⟨r'.rr, none, none⟩) := by
  unfold Gateway.Router.choose Router.choose
  rw [hashes_eq same]
  cases cfg'.hashes prompt seed with
  | none => rfl
  | some hashed =>
      obtain ⟨hashes, mode⟩ := hashed
      rw [Option.bind_some, Option.bind_some, Gateway.Router.chooseHashed, same.blockTokens]
      dsimp only
      generalize strategy.getD cfg.strategy = asked at known ⊢
      cases asked with
      | roundRobin =>
          cases known
          rw [Option.map_map]
          rfl
      | consistentHash =>
          cases known
          rw [Option.map_map]
          rfl
      | prefixTree =>
          cases known
          dsimp only
          rw [sim.matchPrefix, choosePrefixTree_eq same rfl rfl rfl named, Option.map_map]
          congr 1
          funext ⟨b, matchBlocks, advance⟩
          cases advance <;> rfl
      | speculative => cases known

end Rust

end Gateway
