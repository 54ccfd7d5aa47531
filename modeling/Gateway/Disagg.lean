import Mathlib.Algebra.Order.Field.Rat
import Mathlib.Data.List.MinMax
import Gateway.LoadTracker

/-!
Disaggregated prefill and decode, from `gateway/disagg`.

The pools are built once, from the backend ids known at start-up and the parsed role
specification; `chooseDisaggregated` picks from the pools alone.
-/

namespace Gateway

/-- `DisaggConfig`, as far as the decision reads it. -/
structure DisaggConfig where
  prefillMsPerToken : ℚ := 1 / 20
  decodeMsPerToken : ℚ := 1 / 5
  prefillServiceMs : ℚ := 80
  decodeServiceMs : ℚ := 40
  blockTokens : Nat := 16
  kvBytesPerToken : ℚ := 200000
  linkGbps : ℚ := 100
  maxInflight : Int := 64
  kvPressureCutoff : ℚ := 9 / 10
  disaggMarginMs : ℚ := 1

/-- The roles of a backend. -/
structure Roles where
  prefill : Bool
  decode : Bool
  deriving DecidableEq, Repr

/-- `PoolRegistry`. -/
structure PoolRegistry where
  roles : Dict String Roles

namespace PoolRegistry

/-- `PoolRegistry(backend_ids, roles)`: an unlisted backend serves both phases. -/
def init (backendIds : List String) (parsed : Dict String Roles) : PoolRegistry :=
  ⟨backendIds.foldl (fun d b => d.set b (parsed.getD b ⟨true, true⟩)) .empty⟩

/-- `prefill_pool()`. -/
def prefillPool (p : PoolRegistry) : List String :=
  (p.roles.items.filter fun item => item.2.prefill).map Prod.fst

/-- `decode_pool()`. -/
def decodePool (p : PoolRegistry) : List String :=
  (p.roles.items.filter fun item => item.2.decode).map Prod.fst

/-- `colocatable()`. -/
def colocatable (p : PoolRegistry) : List String :=
  (p.roles.items.filter fun item => item.2.prefill && item.2.decode).map Prod.fst

end PoolRegistry

/-- Why phases were split or not. -/
inductive DisaggReason where
  | noColocatable
  | singleNode
  | splitSaves (savedMs handoffMs : ℚ)
  | colocationWins (extraMs handoffMs : ℚ)
  deriving DecidableEq

/-- `DisaggDecision`. -/
structure DisaggDecision where
  prefillBackend : String
  decodeBackend : String
  disaggregated : Bool
  estPrefillMs : ℚ
  estDecodeMs : ℚ
  estHandoffMs : ℚ
  estTotalMs : ℚ
  reason : DisaggReason
  deriving DecidableEq

namespace Disagg

/-- `kv_transfer_ms(num_tokens, kv_bytes_per_token, link_gbps)`. -/
def kvTransferMs (numTokens : Int) (kvBytesPerToken linkGbps : ℚ) : ℚ :=
  if numTokens ≤ 0 ∨ linkGbps ≤ 0 then 0
  else numTokens * kvBytesPerToken / (linkGbps * 1000000)

/-- `_prefill_ms`. -/
def prefillMs (cfg : DisaggConfig) (load : LoadTracker String) (promptTokens : Int)
    (prefillMatch : Dict String Nat) (b : String) : ℚ :=
  let cached := (prefillMatch.getD b 0 * cfg.blockTokens : Nat)
  let uncached := max 0 (promptTokens - cached)
  cfg.prefillMsPerToken * uncached + load.inflightOf b * cfg.prefillServiceMs

/-- `_decode_ms`. -/
def decodeMs (cfg : DisaggConfig) (load : LoadTracker String) (outputTokens : Int) (b : String) :
    ℚ :=
  cfg.decodeMsPerToken * outputTokens + load.inflightOf b * cfg.decodeServiceMs

/-- `_eligible`. -/
def eligible (cfg : DisaggConfig) (load : LoadTracker String) (b : String) : Bool :=
  decide ((load.inflightOf b : Int) ≤ cfg.maxInflight) &&
    decide (load.kvUsageOf b ≤ cfg.kvPressureCutoff)

/-- `_candidates`: the un-saturated nodes, or the whole pool if there is none. -/
def candidates (cfg : DisaggConfig) (load : LoadTracker String) (pool : List String) :
    List String :=
  let elig := pool.filter (eligible cfg load)
  if elig.isEmpty then pool else elig

end Disagg

open Disagg in
/-- `choose_disaggregated`. -/
def chooseDisaggregated (promptTokens : Int) (pools : PoolRegistry) (load : LoadTracker String)
    (cfg : DisaggConfig) (outputTokens : Int) (prefillMatch : Dict String Nat) :
    Option DisaggDecision :=
  let pf := prefillMs cfg load promptTokens prefillMatch
  let dc := decodeMs cfg load outputTokens
  let prefillPool := candidates cfg load pools.prefillPool
  let decodePool := candidates cfg load pools.decodePool
  -- a misconfigured specification may leave one pool empty
  let prefillCands := if prefillPool.isEmpty then decodePool else prefillPool
  let decodeCands := if decodePool.isEmpty then prefillCands else decodePool
  match prefillCands.argmin pf, decodeCands.argmin dc with
  | some bestPb, some bestDb =>
      let handoff := kvTransferMs promptTokens cfg.kvBytesPerToken cfg.linkGbps
      let disaggHandoff := if bestPb = bestDb then 0 else handoff
      let disaggTotal := pf bestPb + disaggHandoff + dc bestDb
      let colocated := fun node reason =>
        (⟨node, node, false, pf node, dc node, 0, pf node + 0 + dc node, reason⟩ : DisaggDecision)
      let split := fun reason =>
        (⟨bestPb, bestDb, decide (bestPb ≠ bestDb), pf bestPb, dc bestDb, disaggHandoff,
          disaggTotal, reason⟩ : DisaggDecision)
      match (candidates cfg load pools.colocatable).argmin fun b => pf b + dc b with
      | none => some (split .noColocatable)
      | some node =>
          let colocTotal := pf node + dc node
          if bestPb = bestDb then some (colocated node .singleNode)
          else if disaggTotal + cfg.disaggMarginMs < colocTotal then
            some (split (.splitSaves (colocTotal - disaggTotal) disaggHandoff))
          else some (colocated node (.colocationWins (disaggTotal - colocTotal) disaggHandoff))
  | _, _ => none

end Gateway
