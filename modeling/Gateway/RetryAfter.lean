import Gateway.RateBound

/-!
What a refused request is told to wait (`gateway/tenancy.py`).

`deficit_seconds` extrapolates the refill of a bucket linearly and knows nothing of its
capacity.

* `tokens_after_deficit`: after the wait it names, a bucket holds what was asked for or is
  full, whichever is less.
* `timely_runCalls`: a clock that does not run backwards never finds a bucket that was
  refilled later, and every request bucket holds a whole request.
* `retry_tps_iff`, `retry_rps`: a repeated admission is refused for the same reason again
  exactly if it is too large for the token bucket.
* `retryAfter_honest`: so a cost within the capacity is not; `retryAfter_dishonest` has one
  beyond it, and the floats in which the delay is rounded down.
-/

namespace Gateway

namespace TokenBucket

theorem replenish_ts {b : TokenBucket} {now : ℚ} (le : b.ts ≤ now) : (b.replenish now).ts = now := by
  unfold replenish
  split
  · rfl
  · rename_i same
    exact le_antisymm le (not_lt.mp same)

/-- A finite deficit is what is missing, at the rate of the refill. -/
theorem deficitSeconds_eq {b : TokenBucket} {n now r : ℚ} (short : (b.replenish now).tokens < n)
    (finite : (b.deficitSeconds n now).2 = (r : WithTop ℚ)) :
    0 < b.refill ∧ r = (n - (b.replenish now).tokens) / b.refill := by
  simp only [deficitSeconds, not_le.mpr short, if_false, replenish_refill] at finite
  split at finite
  · exact absurd finite WithTop.top_ne_coe
  · rename_i refills
    exact ⟨not_le.mp refills, (WithTop.coe_inj.mp finite).symm⟩

/-- A bucket that was short of `n`, after the wait it names. -/
theorem tokens_after_deficit {b : TokenBucket} {n now r : ℚ} (le : b.ts ≤ now)
    (short : (b.replenish now).tokens < n)
    (finite : (b.deficitSeconds n now).2 = (r : WithTop ℚ)) :
    ((b.replenish now).replenish (now + r)).tokens = min b.capacity n := by
  obtain ⟨refills, wait⟩ := deficitSeconds_eq short finite
  have positive : 0 < r := by
    rw [wait]
    exact div_pos (sub_pos.mpr short) refills
  have gained : r * b.refill = n - (b.replenish now).tokens := by
    rw [wait, div_mul_cancel₀ _ refills.ne']
  have later : (b.replenish now).ts < now + r := by
    rw [replenish_ts le]
    linarith
  have refilled : (b.replenish now).tokens + (now + r - (b.replenish now).ts) * b.refill = n := by
    rw [replenish_ts le, add_sub_cancel_left, gained]
    ring
  rw [replenish, if_pos later]
  simp only [replenish_capacity, replenish_refill, refilled]

end TokenBucket

namespace RateLimiter

/-! ### Clocks -/

/-- No bucket was refilled after `now`, and a request bucket holds a whole request. -/
def Timely (now : ℚ) : RateLimiter → Prop :=
  Each (fun b => b.ts ≤ now ∧ 1 ≤ b.capacity) (fun b => b.ts ≤ now)

theorem Timely.bucketsOf {l : RateLimiter} {now : ℚ} (timely : Timely now l) (start : 0 ≤ now)
    (t : Tenant) :
    (l.bucketsOf t).1.ts ≤ now ∧ 1 ≤ (l.bucketsOf t).1.capacity ∧ (l.bucketsOf t).2.ts ≤ now := by
  obtain ⟨⟨rps, holds⟩, tps⟩ := Each.bucketsOf timely ⟨start, le_max_left 1 t.rps⟩ start
  exact ⟨rps, holds, tps⟩

/-- One call. -/
theorem Timely.apply {l : RateLimiter} {now : ℚ} (timely : Timely now l) (start : 0 ≤ now)
    {call : Call} (before : ∀ t cost at', call = .arrive t cost at' → at' ≤ now) :
    Timely now (l.apply call) := by
  obtain ⟨rps, holds, tps⟩ := timely.bucketsOf start call.tenant
  cases call with
  | arrive t cost at' =>
      have le := before t cost at' rfl
      have refilled : ∀ {b : TokenBucket}, b.ts ≤ now → (b.replenish at').ts ≤ now := by
        intro b ts
        unfold TokenBucket.replenish
        split
        · exact le
        · exact ts
      simp only [Call.tenant] at rps holds tps
      apply Each.apply timely
      all_goals
        simp only [RateLimiter.apply, Call.tenant]
        rcases l.tryAdmit_outcome t cost at' with
          ⟨-, -, buckets⟩ | ⟨-, -, -, -, buckets⟩ | ⟨-, -, -, -, -, buckets⟩ | ⟨-, -, -, -, buckets⟩
        all_goals
          rw [buckets]
          simp [TokenBucket.adjust, rps, holds, tps, refilled]
  | release t reserved actual =>
      simp only [Call.tenant] at rps holds tps
      apply Each.apply timely
      all_goals
        simp only [RateLimiter.apply, Call.tenant, bucketsOf_release _ rfl]
        simp [TokenBucket.adjust, rps, holds, tps]

theorem timely_runCalls {calls : List Call} {now : ℚ} (start : 0 ≤ now)
    (clock : ∀ a ∈ times calls, a ≤ now) : Timely now (runCalls calls) := by
  induction calls using List.reverseRecOn with
  | nil => exact .empty
  | append_singleton calls call ih =>
      have past : ∀ a ∈ times calls, a ≤ now := by
        intro a member
        apply clock
        simp only [times, List.filterMap_append] at member ⊢
        exact List.mem_append_left _ member
      rw [runCalls_snoc]
      apply (ih past).apply start
      rintro t cost at' rfl
      exact clock at' (by simp [times_snoc_arrive])

/-! ### The delay of a refusal -/

/-- `admit` refuses for the tokens exactly if there is room in flight and they do not fit. -/
theorem tryAdmit_reason_tps (l : RateLimiter) (t : Tenant) (cost now : ℚ) :
    (l.tryAdmit t cost now).2.reason = some .tps ↔
      (l.inflightOf t.id : Int) < t.maxInflight ∧
        ((l.bucketsOf t).2.replenish now).tokens < cost := by
  rcases l.tryAdmit_outcome t cost now with
    ⟨reason, full, -⟩ | ⟨reason, room, short, -⟩ | ⟨reason, -, fits, -⟩ | ⟨reason, -, fits, -⟩
  · simp [reason, not_lt.mpr full]
  · simp [reason, room, short]
  · simp [reason, not_lt.mpr fits]
  · simp [reason, not_lt.mpr fits]

/-- `admit` refuses for the requests only if none is left. -/
theorem tokens_lt_of_reason_rps {l : RateLimiter} {t : Tenant} {cost now : ℚ}
    (refused : (l.tryAdmit t cost now).2.reason = some .rps) :
    ((l.bucketsOf t).1.replenish now).tokens < 1 := by
  rcases l.tryAdmit_outcome t cost now with
    ⟨reason, -⟩ | ⟨reason, -⟩ | ⟨-, -, -, short, -⟩ | ⟨reason, -⟩
  · simp [reason] at refused
  · simp [reason] at refused
  · exact short
  · simp [reason] at refused

/-- A request refused for the tokens, and repeated after the delay. -/
theorem retry_tps_iff {l : RateLimiter} {t : Tenant} {cost now r : ℚ}
    (clock : (l.bucketsOf t).2.ts ≤ now) (refused : (l.tryAdmit t cost now).2.reason = some .tps)
    (finite : (l.tryAdmit t cost now).2.retryAfter = (r : WithTop ℚ)) :
    ((l.tryAdmit t cost now).1.tryAdmit t cost (now + r)).2.reason ≠ some .tps ↔
      cost ≤ (l.bucketsOf t).2.capacity := by
  rcases l.tryAdmit_outcome t cost now with
    ⟨reason, -⟩ | ⟨reason, room, short, retry, buckets⟩ | ⟨reason, -⟩ | ⟨reason, -⟩
  · simp [reason] at refused
  · have counted : (l.tryAdmit t cost now).1.inflightOf t.id = l.inflightOf t.id := by
      rw [inflightOf_tryAdmit, Admission.allowed, reason]
      simp
    have full := TokenBucket.tokens_after_deficit clock short (retry ▸ finite)
    rw [Ne, tryAdmit_reason_tps, counted, buckets, full]
    simp [room]
  · simp [reason] at refused
  · simp [reason] at refused

/-- A request refused for the requests, and repeated after the delay. -/
theorem retry_rps {l : RateLimiter} {t : Tenant} {cost now r : ℚ}
    (clock : (l.bucketsOf t).1.ts ≤ now) (holds : 1 ≤ (l.bucketsOf t).1.capacity)
    (refused : (l.tryAdmit t cost now).2.reason = some .rps)
    (finite : (l.tryAdmit t cost now).2.retryAfter = (r : WithTop ℚ)) :
    ((l.tryAdmit t cost now).1.tryAdmit t cost (now + r)).2.reason ≠ some .rps := by
  rcases l.tryAdmit_outcome t cost now with
    ⟨reason, -⟩ | ⟨reason, -⟩ | ⟨-, -, -, short, retry, buckets⟩ | ⟨reason, -⟩
  · simp [reason] at refused
  · simp [reason] at refused
  · intro again
    have full := TokenBucket.tokens_after_deficit clock short (retry ▸ finite)
    have less := tokens_lt_of_reason_rps again
    rw [buckets, full, min_eq_right holds] at less
    exact lt_irrefl 1 less
  · simp [reason] at refused

/-- **`retry_after` is honest.** Whatever calls a limiter has served, on a clock that does not
run backwards: let a request be refused for its tokens, with a cost within the capacity of the
token bucket, or for the number of requests, with a finite delay. If it is repeated after the
delay and nothing happens in between, it is not refused for that reason again. -/
theorem retryAfter_honest (calls : List Call) (t : Tenant) (cost now r : ℚ) (why : Refusal)
    (start : 0 ≤ now) (clock : ∀ a ∈ times calls, a ≤ now)
    (refused : ((runCalls calls).tryAdmit t cost now).2.reason = some why)
    (limited : why ≠ .inflight)
    (fits : why = .tps → cost ≤ ((runCalls calls).bucketsOf t).2.capacity)
    (finite : ((runCalls calls).tryAdmit t cost now).2.retryAfter = (r : WithTop ℚ)) :
    (((runCalls calls).tryAdmit t cost now).1.tryAdmit t cost (now + r)).2.reason ≠ some why := by
  obtain ⟨rps, holds, tps⟩ := (timely_runCalls start clock).bucketsOf start t
  cases why with
  | inflight => exact absurd rfl limited
  | tps => exact (retry_tps_iff tps refused finite).mpr (fits rfl)
  | rps => exact retry_rps rps holds refused finite

/-- A tenant that has spent its burst, told to wait for 0.3 seconds. -/
theorem retryAfter_honest_burst :
    let t : Tenant := ⟨"a", 1, 10, 4, "bronze"⟩
    ((runCalls [.arrive t 8 1]).tryAdmit t 5 1).2.retryAfter = (3 / 10 : ℚ) ∧
      (((runCalls [.arrive t 8 1]).tryAdmit t 5 1).1.tryAdmit t 5 (1 + 3 / 10)).2.reason ≠
        some .tps := by
  intro t
  have refused : ((runCalls [.arrive t 8 1]).tryAdmit t 5 1).2.reason = some .tps := by
    decide +kernel
  have finite : ((runCalls [.arrive t 8 1]).tryAdmit t 5 1).2.retryAfter = (3 / 10 : ℚ) := by
    decide +kernel
  have fits : 5 ≤ ((runCalls [.arrive t 8 1]).bucketsOf t).2.capacity := by decide +kernel
  have honest := retryAfter_honest [.arrive t 8 1] t 5 1 (3 / 10) .tps (by norm_num)
    (by simp [times]) refused (by simp) (fun _ => fits) finite
  exact ⟨finite, honest⟩

/-- An anonymous request for 4096 output tokens never fits a bucket of 4000. It is told to
wait for `106 / 4000` seconds, and then the same again. And in floats a bronze tenant is
told at time `1` to wait for `0.2` seconds for a request and `0.4` for seven thousand tokens, and
is refused at `1.2` and at `1.4` for the same reasons: what is refilled until then is rounded
down. -/
theorem retryAfter_dishonest :
    let anonymous : Tenant := ⟨"anonymous", 2, 4000, 4, "anonymous"⟩
    let fresh := runCalls []
    let bronze : Tenant Float := ⟨"a", 5, 10000, 8, "bronze"⟩
    let spent := runCalls (List.replicate 5 (.arrive bronze 1 1))
    let drawn := runCalls [.arrive bronze 7000 1]
    (fresh.tryAdmit anonymous (10 + 4096) 1).2.reason = some .tps ∧
      (fresh.tryAdmit anonymous (10 + 4096) 1).2.retryAfter = (106 / 4000 : ℚ) ∧
      ((fresh.tryAdmit anonymous (10 + 4096) 1).1.tryAdmit anonymous (10 + 4096)
        (1 + 106 / 4000)).2.reason = some .tps ∧
      (spent.tryAdmit bronze 1 1).2.reason = some .rps ∧
      (spent.tryAdmit bronze 1 1).2.retryAfter = (0.2 : Float) ∧
      ((spent.tryAdmit bronze 1 1).1.tryAdmit bronze 1 (1 + 0.2)).2.reason = some .rps ∧
      (drawn.tryAdmit bronze 7000 1).2.reason = some .tps ∧
      (drawn.tryAdmit bronze 7000 1).2.retryAfter = (0.4 : Float) ∧
      ((drawn.tryAdmit bronze 7000 1).1.tryAdmit bronze 7000 (1 + 0.4)).2.reason = some .tps := by
  intro anonymous fresh bronze spent drawn
  refine ⟨by decide +kernel, by decide +kernel, by decide +kernel, by decide +kernel,
    by decide +kernel, by decide +kernel, by decide +kernel, by decide +kernel, by decide +kernel⟩

end RateLimiter

end Gateway
