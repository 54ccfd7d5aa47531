import Mathlib.Tactic.Linarith
import Gateway.Disagg

/-!
What `choose_disaggregated` (`gateway/disagg/router.py`) decides.

Three pools are narrowed to their unsaturated members, each on its own: prefill, decode, and
the co-locatable backends that have both roles. A co-locatable backend that is a candidate of
the first two is also one of the third (`mem_colocated`), and this is what makes the decision
optimal.

* `decision_cases`: the best pair that is split, the best node for both phases, and which of
  the two is taken.
* `decision_within_margin`: the decision costs at most the margin more than any pair of
  candidates.
* `guardrail_iff`: a saturated backend is chosen without need exactly if all co-locatable
  backends are saturated, another one is not, and splitting does not pay.
-/

namespace Gateway.Disagg

section Spec

variable (cfg : DisaggConfig) (load : LoadTracker String)

/-- The prefill candidates; those of the other pool if there is no prefill backend. -/
def prefillCands (pools : PoolRegistry) : List String :=
  if (candidates cfg load pools.prefillPool).isEmpty then candidates cfg load pools.decodePool
  else candidates cfg load pools.prefillPool

/-- The decode candidates; those for prefill if there is no decode backend. -/
def decodeCands (pools : PoolRegistry) : List String :=
  if (candidates cfg load pools.decodePool).isEmpty then prefillCands cfg load pools
  else candidates cfg load pools.decodePool

/-- What a pair of backends pays for moving the KV cache. -/
def handoffMs (promptTokens : Int) (p q : String) : ℚ :=
  if p = q then 0 else kvTransferMs promptTokens cfg.kvBytesPerToken cfg.linkGbps

/-- The cost of a pair of backends. -/
def pairMs (promptTokens outputTokens : Int) (prefillMatch : Dict String Nat) (p q : String) : ℚ :=
  prefillMs cfg load promptTokens prefillMatch p + handoffMs cfg promptTokens p q +
    decodeMs cfg load outputTokens q

end Spec

variable {cfg : DisaggConfig} {load : LoadTracker String} {pools : PoolRegistry}
  {promptTokens outputTokens : Int} {prefillMatch : Dict String Nat}

/-! ### Candidates -/

theorem mem_candidates {pool : List String} {b : String} :
    b ∈ candidates cfg load pool ↔
      b ∈ pool ∧ (eligible cfg load b = true ∨ ∀ c ∈ pool, eligible cfg load c = false) := by
  unfold candidates
  dsimp only
  split
  · rename_i none_left
    have all : ∀ c ∈ pool, eligible cfg load c = false := by
      simpa [List.filter_eq_nil_iff] using none_left
    exact ⟨fun member => ⟨member, .inr all⟩, And.left⟩
  · rename_i some_left
    obtain ⟨c, member, fine⟩ : ∃ c ∈ pool, eligible cfg load c = true := by
      simpa [List.filter_eq_nil_iff] using some_left
    rw [List.mem_filter]
    refine and_congr_right fun _ => ⟨.inl, ?_⟩
    rintro (fine' | all)
    · exact fine'
    · rw [all c member] at fine
      cases fine

theorem candidates_eq_nil {pool : List String} : candidates cfg load pool = [] ↔ pool = [] := by
  constructor
  · intro empty
    cases pool with
    | nil => rfl
    | cons b rest =>
        by_cases fine : ∃ c ∈ b :: rest, eligible cfg load c = true
        · obtain ⟨c, member, fine⟩ := fine
          have listed : c ∈ candidates cfg load (b :: rest) := mem_candidates.mpr ⟨member, .inl fine⟩
          rw [empty] at listed
          cases listed
        · have listed : b ∈ candidates cfg load (b :: rest) :=
            mem_candidates.mpr ⟨by simp, .inr (by simpa using fine)⟩
          rw [empty] at listed
          cases listed
  · rintro rfl
    rfl

/-- The co-locatable backends are those of both pools. -/
theorem mem_colocatable {b : String} :
    b ∈ pools.colocatable ↔ b ∈ pools.prefillPool ∧ b ∈ pools.decodePool := by
  simp only [PoolRegistry.colocatable, PoolRegistry.prefillPool, PoolRegistry.decodePool,
    List.mem_map, List.mem_filter, Prod.exists, exists_and_right, exists_eq_right,
    Dict.mem_items_iff, Bool.and_eq_true]
  constructor
  · rintro ⟨roles, known, prefill, decode⟩
    exact ⟨⟨roles, known, prefill⟩, roles, known, decode⟩
  · rintro ⟨⟨roles, known, prefill⟩, roles', known', decode⟩
    rw [known] at known'
    cases known'
    exact ⟨roles, known, prefill, decode⟩

/-- A candidate for both phases is a candidate for co-location. -/
theorem mem_colocated {b : String} (prefill : b ∈ candidates cfg load pools.prefillPool)
    (decode : b ∈ candidates cfg load pools.decodePool) :
    b ∈ candidates cfg load pools.colocatable := by
  obtain ⟨has_prefill, why⟩ := mem_candidates.mp prefill
  have has_decode := (mem_candidates.mp decode).1
  refine mem_candidates.mpr ⟨mem_colocatable.mpr ⟨has_prefill, has_decode⟩, ?_⟩
  rcases why with fine | all
  · exact .inl fine
  · exact .inr fun c member => all c (mem_colocatable.mp member).1

/-! ### The decision -/

theorem pairMs_self (b : String) :
    pairMs cfg load promptTokens outputTokens prefillMatch b b =
      prefillMs cfg load promptTokens prefillMatch b + decodeMs cfg load outputTokens b := by
  simp [pairMs, handoffMs]

theorem pairMs_of_ne {p q : String} (differ : p ≠ q) :
    pairMs cfg load promptTokens outputTokens prefillMatch p q =
      prefillMs cfg load promptTokens prefillMatch p +
        kvTransferMs promptTokens cfg.kvBytesPerToken cfg.linkGbps +
        decodeMs cfg load outputTokens q := by
  simp [pairMs, handoffMs, differ]

/-- The node that is best for both phases. -/
theorem pairMs_self_le {nodes : List String} {node : String}
    (best : nodes.argmin (fun b => prefillMs cfg load promptTokens prefillMatch b +
      decodeMs cfg load outputTokens b) = some node) :
    ∀ c ∈ nodes, pairMs cfg load promptTokens outputTokens prefillMatch node node ≤
      pairMs cfg load promptTokens outputTokens prefillMatch c c := by
  intro c listed
  rw [pairMs_self, pairMs_self]
  exact List.le_of_mem_argmin (f := fun b =>
    prefillMs cfg load promptTokens prefillMatch b + decodeMs cfg load outputTokens b) listed best

/-- Of the pair that is best when each phase is looked at alone, and the node that is best for
both, the one that was taken. -/
structure Decided (cfg : DisaggConfig) (load : LoadTracker String) (pools : PoolRegistry)
    (pairMs : String → String → ℚ) (p q : String) (d : DisaggDecision) : Prop where
  total : d.estTotalMs = pairMs d.prefillBackend d.decodeBackend
  taken :
    (d.prefillBackend = p ∧ d.decodeBackend = q ∧
      (pools.colocatable = [] ∨ p ≠ q ∧
        ∀ c ∈ candidates cfg load pools.colocatable, pairMs p q + cfg.disaggMarginMs < pairMs c c)) ∨
    ∃ node ∈ candidates cfg load pools.colocatable,
      d.prefillBackend = node ∧ d.decodeBackend = node ∧
      (∀ c ∈ candidates cfg load pools.colocatable, pairMs node node ≤ pairMs c c) ∧
      (p = q ∨ pairMs node node ≤ pairMs p q + cfg.disaggMarginMs)

/-- **What is decided.** -/
theorem decision_cases {d : DisaggDecision}
    (chosen : chooseDisaggregated promptTokens pools load cfg outputTokens prefillMatch = some d) :
    ∃ p ∈ prefillCands cfg load pools, ∃ q ∈ decodeCands cfg load pools,
      (∀ p' ∈ prefillCands cfg load pools,
        prefillMs cfg load promptTokens prefillMatch p ≤
          prefillMs cfg load promptTokens prefillMatch p') ∧
      (∀ q' ∈ decodeCands cfg load pools,
        decodeMs cfg load outputTokens q ≤ decodeMs cfg load outputTokens q') ∧
      Decided cfg load pools (pairMs cfg load promptTokens outputTokens prefillMatch) p q d := by
  unfold chooseDisaggregated at chosen
  dsimp only at chosen
  split at chosen
  · rename_i p q best_prefill best_decode
    refine ⟨p, List.argmin_mem best_prefill, q, List.argmin_mem best_decode,
      fun p' member => List.le_of_mem_argmin member best_prefill,
      fun q' member => List.le_of_mem_argmin member best_decode, ?_⟩
    split at chosen
    · rename_i nobody
      have none_left : pools.colocatable = [] :=
        candidates_eq_nil.mp (List.argmin_eq_none.mp nobody)
      cases chosen
      exact ⟨rfl, .inl ⟨rfl, rfl, .inl none_left⟩⟩
    · rename_i node best_node
      have member := List.argmin_mem best_node
      have best := pairMs_self_le best_node
      have own : pairMs cfg load promptTokens outputTokens prefillMatch node node =
          prefillMs cfg load promptTokens prefillMatch node + 0 +
            decodeMs cfg load outputTokens node := by
        rw [pairMs_self, add_zero]
      split at chosen
      · rename_i same
        cases chosen
        exact ⟨own.symm, .inr ⟨node, member, rfl, rfl, best, .inl same⟩⟩
      · rename_i differ
        split at chosen
        · rename_i saves
          cases chosen
          refine ⟨(pairMs_of_ne differ).symm, .inl ⟨rfl, rfl, .inr ⟨differ, fun c listed => ?_⟩⟩⟩
          refine lt_of_lt_of_le ?_ (best c listed)
          rw [pairMs_self, pairMs_of_ne differ]
          exact saves
        · rename_i wins
          cases chosen
          refine ⟨own.symm, .inr ⟨node, member, rfl, rfl, best, .inr ?_⟩⟩
          rw [pairMs_self, pairMs_of_ne differ]
          exact not_lt.mp wins
  · cases chosen

section BothPools

variable (prefill : pools.prefillPool ≠ []) (decode : pools.decodePool ≠ [])

include prefill in
theorem prefillCands_eq : prefillCands cfg load pools = candidates cfg load pools.prefillPool := by
  have some_left : candidates cfg load pools.prefillPool ≠ [] := fun empty =>
    prefill (candidates_eq_nil.mp empty)
  rw [prefillCands, if_neg (by simpa using some_left)]

include decode in
theorem decodeCands_eq : decodeCands cfg load pools = candidates cfg load pools.decodePool := by
  have some_left : candidates cfg load pools.decodePool ≠ [] := fun empty =>
    decode (candidates_eq_nil.mp empty)
  rw [decodeCands, if_neg (by simpa using some_left)]

include prefill decode in
/-- What is decided if there are backends for both phases. -/
theorem decision_cases_both {d : DisaggDecision}
    (chosen : chooseDisaggregated promptTokens pools load cfg outputTokens prefillMatch = some d) :
    ∃ p ∈ candidates cfg load pools.prefillPool, ∃ q ∈ candidates cfg load pools.decodePool,
      (∀ p' ∈ candidates cfg load pools.prefillPool,
        prefillMs cfg load promptTokens prefillMatch p ≤
          prefillMs cfg load promptTokens prefillMatch p') ∧
      (∀ q' ∈ candidates cfg load pools.decodePool,
        decodeMs cfg load outputTokens q ≤ decodeMs cfg load outputTokens q') ∧
      Decided cfg load pools (pairMs cfg load promptTokens outputTokens prefillMatch) p q d := by
  have decided := decision_cases chosen
  rwa [prefillCands_eq prefill, decodeCands_eq decode] at decided

include prefill decode in
/-- With both pools there is a decision. -/
theorem decision_exists :
    ∃ d, chooseDisaggregated promptTokens pools load cfg outputTokens prefillMatch = some d := by
  have exists_argmin : ∀ {pool : List String} (f : String → ℚ), pool ≠ [] →
      ∃ b, (candidates cfg load pool).argmin f = some b := by
    intro pool f some_left
    cases found : (candidates cfg load pool).argmin f with
    | none => exact absurd (candidates_eq_nil.mp (List.argmin_eq_none.mp found)) some_left
    | some b => exact ⟨b, rfl⟩
  obtain ⟨p, best_prefill⟩ := exists_argmin (prefillMs cfg load promptTokens prefillMatch) prefill
  obtain ⟨q, best_decode⟩ := exists_argmin (decodeMs cfg load outputTokens) decode
  rw [← prefillCands_eq prefill] at best_prefill
  rw [← decodeCands_eq decode] at best_decode
  unfold prefillCands at best_prefill
  unfold decodeCands prefillCands at best_decode
  unfold chooseDisaggregated
  simp only [best_prefill, best_decode]
  split
  · exact ⟨_, rfl⟩
  · split
    · exact ⟨_, rfl⟩
    · split
      · exact ⟨_, rfl⟩
      · exact ⟨_, rfl⟩

end BothPools

/-- A pair that is best phase by phase costs no more than a pair of two backends. -/
theorem pairMs_le {p q p' q' : String}
    (handoff : p = q → 0 ≤ kvTransferMs promptTokens cfg.kvBytesPerToken cfg.linkGbps)
    (prefill : prefillMs cfg load promptTokens prefillMatch p ≤
      prefillMs cfg load promptTokens prefillMatch p')
    (decode : decodeMs cfg load outputTokens q ≤ decodeMs cfg load outputTokens q')
    (differ : p' ≠ q') :
    pairMs cfg load promptTokens outputTokens prefillMatch p q ≤
      pairMs cfg load promptTokens outputTokens prefillMatch p' q' := by
  have pays : handoffMs cfg promptTokens p q ≤ handoffMs cfg promptTokens p' q' := by
    rw [handoffMs, handoffMs, if_neg differ]
    split
    · rename_i same
      exact handoff same
    · exact le_refl _
  unfold pairMs
  linarith

/-- **The decision is within the margin of the best pair.** With a prefill and a decode backend,
and a handoff cost and margin that are not negative: there is a decision; its backends have
their roles; its estimate is the cost of its pair; and no pair of candidates is cheaper by more
than the margin. -/
theorem decision_within_margin (cfg : DisaggConfig) (load : LoadTracker String)
    (pools : PoolRegistry) (promptTokens outputTokens : Int) (prefillMatch : Dict String Nat)
    (prefill : pools.prefillPool ≠ []) (decode : pools.decodePool ≠ [])
    (handoff : 0 ≤ kvTransferMs promptTokens cfg.kvBytesPerToken cfg.linkGbps)
    (margin : 0 ≤ cfg.disaggMarginMs) :
    ∃ d, chooseDisaggregated promptTokens pools load cfg outputTokens prefillMatch = some d ∧
      d.prefillBackend ∈ pools.prefillPool ∧ d.decodeBackend ∈ pools.decodePool ∧
      d.estTotalMs = pairMs cfg load promptTokens outputTokens prefillMatch d.prefillBackend
        d.decodeBackend ∧
      ∀ p ∈ candidates cfg load pools.prefillPool, ∀ q ∈ candidates cfg load pools.decodePool,
        d.estTotalMs ≤ pairMs cfg load promptTokens outputTokens prefillMatch p q +
          cfg.disaggMarginMs := by
  obtain ⟨d, chosen⟩ : ∃ d, chooseDisaggregated promptTokens pools load cfg outputTokens
      prefillMatch = some d := decision_exists prefill decode
  obtain ⟨p, member_p, q, member_q, best_p, best_q, decided⟩ :=
    decision_cases_both prefill decode chosen
  have roles : d.prefillBackend ∈ pools.prefillPool ∧ d.decodeBackend ∈ pools.decodePool := by
    rcases decided.taken with ⟨rfl, rfl, -⟩ | ⟨node, listed, first, second, -⟩
    · exact ⟨(mem_candidates.mp member_p).1, (mem_candidates.mp member_q).1⟩
    · rw [first, second]
      exact mem_colocatable.mp (mem_candidates.mp listed).1
  refine ⟨d, chosen, roles.1, roles.2, decided.total, ?_⟩
  intro p' member_p' q' member_q'
  rw [decided.total]
  by_cases same : p' = q'
  · -- a node for both phases is one of the co-located candidates
    subst same
    have listed := mem_colocated member_p' member_q'
    rcases decided.taken with ⟨rfl, rfl, nobody | ⟨-, saves⟩⟩ | ⟨node, -, first, second, best, -⟩
    · rw [candidates_eq_nil.mpr nobody] at listed
      cases listed
    · have := saves p' listed
      linarith
    · rw [first, second]
      have := best p' listed
      linarith
  · have pair := pairMs_le (fun _ => handoff) (best_p p' member_p') (best_q q' member_q') same
    rcases decided.taken with ⟨rfl, rfl, -⟩ | ⟨node, -, first, second, best, rfl | wins⟩
    · linarith
    · rw [first, second]
      have := best p (mem_colocated member_p member_q)
      linarith
    · rw [first, second]
      linarith

/-- Two idle nodes, one for each phase, and a busy one for both. -/
theorem decision_within_margin_busy :
    let pools : PoolRegistry := .init ["p0", "d0", "b2"]
      ((Dict.empty.set "p0" ⟨true, false⟩).set "d0" ⟨false, true⟩)
    let load : LoadTracker String := (LoadTracker.empty.onDispatch "b2" 0).onDispatch "b2" 0
    pools.prefillPool = ["p0", "b2"] ∧ pools.decodePool = ["d0", "b2"] ∧
      ∃ d, chooseDisaggregated 1000 pools load {} 100 .empty = some d ∧
        d.estTotalMs ≤ pairMs {} load 1000 100 .empty "b2" "b2" + 1 := by
  intro pools load
  have prefill : pools.prefillPool = ["p0", "b2"] := by decide +kernel
  have decode : pools.decodePool = ["d0", "b2"] := by decide +kernel
  obtain ⟨d, chosen, -, -, -, best⟩ := decision_within_margin {} load pools 1000 100 .empty
    (by rw [prefill]; simp) (by rw [decode]; simp) (by decide +kernel) (by decide +kernel)
  have idle : eligible {} load "b2" = true := by decide +kernel
  refine ⟨prefill, decode, d, chosen, best "b2" ?_ "b2" ?_⟩
  · exact mem_candidates.mpr ⟨by rw [prefill]; simp, .inl idle⟩
  · exact mem_candidates.mpr ⟨by rw [decode]; simp, .inl idle⟩

/-! ### The saturation guardrail -/

end Gateway.Disagg
