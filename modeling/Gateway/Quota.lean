import Gateway.Lib.Bucket
import Gateway.Lib.Text
import Gateway.Tenancy

/-!
Tenants that keep to their quota are never refused.

`TenantRegistry` (`gateway/tenancy.py`) resolves a request to a tenant with the quota
of a tier. A run is any interleaving of `admit` and `release` calls of all tenants on
one `RateLimiter`. The buckets of a tenant are found under its id, so the calls of a
tenant with another id leave them alone (`bucketsOf_apply_other`); its own allowed
calls keep both of them backed by its own arrivals (`Quota.arrive`), which is enough for
the next arrival as long as the arrivals conform to the quota (`conforming_allowed`).

The buckets are made by whichever record calls first under the id, and two keys may give
one id two tiers (`conforming_refused`); so the quota that counts is one that all of them
carry (`Covers`).
-/

namespace Gateway

/-! ### Tenants -/

/-- `Tier`. -/
structure Tier where
  rps : ℚ
  tps : ℚ
  maxInflight : Int
  deriving DecidableEq, Repr

/-- `DEFAULT_TIERS`. -/
def defaultTiers : Dict String Tier :=
  ((((Dict.empty.set "gold" ⟨50, 100000, 64⟩).set "silver" ⟨20, 40000, 24⟩).set
    "bronze" ⟨5, 10000, 8⟩).set "anonymous" ⟨2, 4000, 4⟩)

/-- `Tenant.from_tier`. -/
def Tenant.fromTier (id : String) (tier : Tier) (tierName : String) : Tenant :=
  ⟨id, tier.rps, tier.tps, tier.maxInflight, tierName⟩

/-- `TenantRegistry`. -/
structure TenantRegistry where
  byKey : Dict String Tenant
  anon : Tenant

namespace TenantRegistry

/-- `s.partition(c)`, without the separator. -/
def partition (c : Char) (cs : List Char) : List Char × List Char :=
  (cs.takeWhile (· ≠ c), (cs.dropWhile (· ≠ c)).drop 1)

/-- The body of the loop over the configured pairs; `none` is a `KeyError`. -/
def addPair (tiers : Dict String Tier) (byKey : Dict String Tenant) (pair : List Char) :
    Option (Dict String Tenant) := do
  let pair := Text.strip pair
  if pair.isEmpty then
    return byKey
  let (key, rest) := partition '=' pair
  let (tid, tierName) := partition ':' rest
  let name := (Text.stripOr tierName).getD "bronze"
  let name := if tiers.contains name then name else "bronze"
  let tier ← tiers.get? name
  let key := String.ofList (Text.strip key)
  return byKey.set key (.fromTier ((Text.stripOr tid).getD key) tier name)

/-- `TenantRegistry(spec, tiers)`. -/
def ofSpec (spec : String) (tiers : Dict String Tier) : Option TenantRegistry := do
  let byKey ← (spec.toList.splitOn ',').foldlM (addPair tiers) .empty
  let tier ← tiers.get? "anonymous"
  return ⟨byKey, .fromTier "anonymous" tier "anonymous"⟩

/-- `resolve(headers)`. Only ASCII letters lower to the letters of `bearer`. -/
def resolve (reg : TenantRegistry) (headers : String → Option String) : Tenant :=
  let auth := (((headers "authorization").filter (· ≠ "")).or (headers "Authorization")).getD ""
  if (auth.toList.take 7).map Char.toLower = "bearer ".toList then
    let key := String.ofList (Text.strip (auth.toList.drop 7))
    (reg.byKey.get? key).getD reg.anon
  else reg.anon

/-- Every tenant of the registry has a quota taken from a tier. -/
def FromTiers (tiers : Dict String Tier) (t : Tenant) : Prop :=
  ∃ name tier, tiers.get? name = some tier ∧ t.rps = tier.rps ∧ t.tps = tier.tps ∧
    t.maxInflight = tier.maxInflight

theorem fromTiers_addPair {tiers : Dict String Tier} {byKey byKey' : Dict String Tenant}
    {pair : List Char} (before : ∀ key t, byKey.get? key = some t → FromTiers tiers t)
    (added : addPair tiers byKey pair = some byKey') {key : String} {t : Tenant}
    (found : byKey'.get? key = some t) : FromTiers tiers t := by
  unfold addPair at added
  dsimp only at added
  split at added
  · cases added
    exact before key t found
  · simp only [Option.bind_eq_bind, Option.bind_eq_some_iff] at added
    obtain ⟨tier, named, added⟩ := added
    cases added
    rw [Dict.get?_set] at found
    split at found
    · cases found
      exact ⟨_, tier, named, rfl, rfl, rfl⟩
    · exact before key t found

theorem fromTiers_foldlM {tiers : Dict String Tier} {pairs : List (List Char)}
    {byKey byKey' : Dict String Tenant}
    (before : ∀ key t, byKey.get? key = some t → FromTiers tiers t)
    (added : pairs.foldlM (addPair tiers) byKey = some byKey') {key : String} {t : Tenant}
    (found : byKey'.get? key = some t) : FromTiers tiers t := by
  induction pairs generalizing byKey with
  | nil =>
      cases added
      exact before key t found
  | cons pair pairs ih =>
      rw [List.foldlM_cons, Option.bind_eq_bind, Option.bind_eq_some_iff] at added
      obtain ⟨mid, first, rest⟩ := added
      exact ih (fun key t found => fromTiers_addPair before first found) rest

/-- Whoever a request resolves to has the quota of some tier. -/
theorem fromTiers_resolve {spec : String} {tiers : Dict String Tier} {reg : TenantRegistry}
    (made : ofSpec spec tiers = some reg) (headers : String → Option String) :
    FromTiers tiers (reg.resolve headers) := by
  simp only [ofSpec, Option.bind_eq_bind, Option.bind_eq_some_iff] at made
  obtain ⟨byKey, pairs, tier, named, made⟩ := made
  cases made
  have anon : FromTiers tiers (Tenant.fromTier "anonymous" tier "anonymous") :=
    ⟨"anonymous", tier, named, rfl, rfl, rfl⟩
  unfold resolve
  dsimp only
  split
  · generalize String.ofList _ = key
    cases found : byKey.get? key with
    | none => exact anon
    | some t => exact fromTiers_foldlM (fun _ _ none => by cases none) pairs found
  · exact anon

/-- With the default tiers no tenant has a negative rate. -/
theorem rps_nonneg_resolve {spec : String} {reg : TenantRegistry}
    (made : ofSpec spec defaultTiers = some reg) (headers : String → Option String) :
    0 ≤ (reg.resolve headers).rps := by
  obtain ⟨name, tier, named, rps, -⟩ := fromTiers_resolve made headers
  have all : ∀ item ∈ defaultTiers.items, 0 ≤ item.2.rps := by decide +kernel
  rw [rps]
  exact all (name, tier) (Dict.mem_items_iff.mpr named)

end TenantRegistry

/-! ### A bucket and the arrivals it let through -/

namespace TokenBucket

theorem replenish_tokens_le {b : TokenBucket} (le : b.tokens ≤ b.capacity) (now : ℚ) :
    (b.replenish now).tokens ≤ (b.replenish now).capacity := by
  by_cases later : b.ts < now <;> simp [replenish, later, le]

@[simp] theorem replenish_capacity (b : TokenBucket) (now : ℚ) :
    (b.replenish now).capacity = b.capacity := by
  by_cases later : b.ts < now <;> simp [replenish, later]

@[simp] theorem replenish_refill (b : TokenBucket) (now : ℚ) :
    (b.replenish now).refill = b.refill := by
  by_cases later : b.ts < now <;> simp [replenish, later]

/-- A bucket that holds at least `cap` and refills at least at `rate` has let the arrivals
`past` through, and was last replenished at one of them. -/
structure Backs (cap rate : ℚ) (past : List (ℚ × ℚ)) (b : TokenBucket) : Prop where
  capacity : cap ≤ b.capacity
  refill : rate ≤ b.refill
  tokens : b.tokens ≤ b.capacity
  backed : Bucket.Backed cap rate past b.tokens b.ts
  ts_le : ∀ now, 0 ≤ now → (∀ a ∈ past, a.1 ≤ now) → b.ts ≤ now

variable {cap rate : ℚ} {past : List (ℚ × ℚ)} {b : TokenBucket}

/-- A new bucket. -/
theorem Backs.init {capacity refill : ℚ} (le : cap ≤ capacity) (le' : rate ≤ refill) :
    Backs cap rate [] (init capacity refill) where
  capacity := le
  refill := le'
  tokens := le_refl capacity
  backed := .inl le
  ts_le := fun _ nonneg _ => nonneg

/-- Replenishing at the time of the next arrival. -/
theorem Backs.replenish (backs : Backs cap rate past b) (nonneg : 0 ≤ rate) {now : ℚ}
    (start : 0 ≤ now) (after : ∀ a ∈ past, a.1 ≤ now) :
    (b.replenish now).ts = now ∧ Bucket.Backed cap rate past (b.replenish now).tokens now := by
  have le := backs.ts_le now start after
  unfold TokenBucket.replenish
  split
  · have elapsed : 0 ≤ now - b.ts := sub_nonneg.mpr le
    have faster : b.tokens + (now - b.ts) * rate ≤ b.tokens + (now - b.ts) * b.refill := by
      gcongr
      exact backs.refill
    exact ⟨rfl, backs.backed.refill nonneg le (min_le_min backs.capacity faster)⟩
  · rename_i same
    have now_eq : b.ts = now := le_antisymm le (not_lt.mp same)
    refine ⟨now_eq, ?_⟩
    rw [← now_eq]
    exact backs.backed

/-- `try_consume` lets the next arrival of conforming traffic through. -/
theorem Backs.tryConsume (backs : Backs cap rate past b) (nonneg : 0 ≤ rate) {cost now : ℚ}
    (start : 0 ≤ now) (after : ∀ a ∈ past, a.1 ≤ now) (cost_nonneg : 0 ≤ cost)
    (conforms : Bucket.Conforms cap rate (past ++ [(now, cost)])) :
    (b.tryConsume cost now).2 = true ∧
      Backs cap rate (past ++ [(now, cost)]) (b.tryConsume cost now).1 := by
  obtain ⟨ts, backed⟩ := backs.replenish nonneg start after
  have enough := backed.enough conforms
  have le := replenish_tokens_le backs.tokens now
  simp only [TokenBucket.tryConsume, enough, if_true, true_and]
  constructor
  · simpa using backs.capacity
  · simpa using backs.refill
  · dsimp only
    linarith
  · rw [ts]
    exact backed.serve cost
  · intro later _ bound
    rw [ts]
    exact bound (now, cost) (by simp)

/-- `adjust` with a refund. -/
theorem Backs.adjust (backs : Backs cap rate past b) {delta : ℚ} (nonneg : 0 ≤ delta) :
    Backs cap rate past (b.adjust delta) where
  capacity := backs.capacity
  refill := backs.refill
  tokens := min_le_left _ _
  backed := by
    apply backs.backed.mono
    exact le_min backs.tokens (by linarith)
  ts_le := backs.ts_le

end TokenBucket

/-! ### Runs of all tenants -/

namespace RateLimiter

/-- A call of a tenant. -/
inductive Call (F : Type := ℚ) where
  | arrive (t : Tenant F) (cost now : F)
  | release (t : Tenant F) (reserved actual : F)
  deriving DecidableEq, Repr

/-- The tenant that makes a call. -/
def Call.tenant {F : Type} : Call F → Tenant F
  | .arrive t _ _ => t
  | .release t _ _ => t

section Runs

variable {F : Type} [OfNat F 0] [OfNat F 1] [Add F] [Sub F] [Mul F] [Div F] [Min F] [Max F]
  [LT F] [DecidableLT F] [LE F] [DecidableLE F]

/-- One call. -/
def apply (l : RateLimiter F) : Call F → RateLimiter F
  | .arrive t cost now => (l.tryAdmit t cost now).1
  | .release t reserved actual => l.release t reserved actual

/-- Some calls on a fresh limiter. -/
def runCalls (calls : List (Call F)) : RateLimiter F := calls.foldl apply .empty

end Runs

@[simp] theorem runCalls_snoc (calls : List Call) (call : Call) :
    runCalls (calls ++ [call]) = (runCalls calls).apply call := by
  simp [runCalls]

/-- The times of all arrivals. -/
def times {F : Type} (calls : List (Call F)) : List F :=
  calls.filterMap fun
    | .arrive _ _ now => some now
    | .release .. => none

/-- The arrivals of one tenant: their times and costs. -/
def arrivals (t : Tenant) (calls : List Call) : List (ℚ × ℚ) :=
  calls.filterMap fun
    | .arrive t' cost now => if t'.id = t.id then some (now, cost) else none
    | .release .. => none

/-- The arrivals of one tenant, each counted as one. -/
def requests (t : Tenant) (calls : List Call) : List (ℚ × ℚ) :=
  (arrivals t calls).map fun a => (a.1, 1)

/-- The releases of one tenant: what was reserved, and what was used. -/
def refunds (t : Tenant) (calls : List Call) : List (ℚ × ℚ) :=
  calls.filterMap fun
    | .arrive .. => none
    | .release t' reserved actual => if t'.id = t.id then some (reserved, actual) else none

/-- The requests of one tenant that it has not released. Releasing when there is none
releases nothing. -/
def unreleased (t : Tenant) (calls : List Call) : Nat :=
  calls.foldl (fun n call =>
    match call with
    | .arrive t' _ _ => if t'.id = t.id then n + 1 else n
    | .release t' _ _ => if t'.id = t.id then n - 1 else n) 0

/-- Times start at `0` and do not decrease. -/
def Ordered (calls : List Call) : Prop :=
  (∀ now ∈ times calls, 0 ≤ now) ∧ (times calls).Pairwise (· ≤ ·)

/-- The calls of a tenant keep to its quota. -/
structure WithinQuota (t : Tenant) (calls : List Call) : Prop where
  requests : Bucket.Conforms (max 1 t.rps) t.rps (requests t calls)
  costs : Bucket.Conforms t.tps t.tps (arrivals t calls)
  cost_nonneg : ∀ a ∈ arrivals t calls, 0 ≤ a.2
  inflight : ∀ done t' cost now, t'.id = t.id → done ++ [.arrive t' cost now] <+: calls →
    (unreleased t done : Int) < t.maxInflight
  releases : ∀ r ∈ refunds t calls, r.2 ≤ r.1

/-- A record of the same tenant with at least its quota. -/
structure Covers (t t' : Tenant) : Prop where
  id : t'.id = t.id
  rps : t.rps ≤ t'.rps
  tps : t.tps ≤ t'.tps
  maxInflight : t.maxInflight ≤ t'.maxInflight

section Snoc

variable {t t' : Tenant} {calls : List Call} {cost now reserved actual : ℚ}

theorem times_snoc_arrive :
    times (calls ++ [.arrive t' cost now]) = times calls ++ [now] := by
  simp [times]

theorem arrivals_snoc_own (own : t'.id = t.id) :
    arrivals t (calls ++ [.arrive t' cost now]) = arrivals t calls ++ [(now, cost)] := by
  simp [arrivals, own]

theorem requests_snoc_own (own : t'.id = t.id) :
    requests t (calls ++ [.arrive t' cost now]) = requests t calls ++ [(now, 1)] := by
  simp [requests, arrivals_snoc_own own]

theorem arrivals_snoc_release :
    arrivals t (calls ++ [.release t' reserved actual]) = arrivals t calls := by
  simp [arrivals]

theorem unreleased_snoc (t : Tenant) (calls : List Call) (call : Call) :
    unreleased t (calls ++ [call]) =
      match call with
      | .arrive t' _ _ => if t'.id = t.id then unreleased t calls + 1 else unreleased t calls
      | .release t' _ _ => if t'.id = t.id then unreleased t calls - 1 else unreleased t calls := by
  cases call <;> simp [unreleased]

/-- The calls of others are not among the arrivals of a tenant. -/
theorem arrivals_snoc_other {call : Call} (other : call.tenant.id ≠ t.id) :
    arrivals t (calls ++ [call]) = arrivals t calls := by
  cases call with
  | arrive t' cost now => simp only [Call.tenant] at other; simp [arrivals, other]
  | release t' reserved actual => exact arrivals_snoc_release

theorem mem_times_of_mem_arrivals {a : ℚ × ℚ} (member : a ∈ arrivals t calls) :
    a.1 ∈ times calls := by
  simp only [arrivals, times, List.mem_filterMap] at member ⊢
  obtain ⟨call, within, found⟩ := member
  cases call with
  | arrive t' cost now =>
      dsimp only at found
      split at found
      · cases found
        exact ⟨_, within, rfl⟩
      · cases found
  | release t' reserved actual => cases found

end Snoc

/-! ### The tables of one tenant -/

/-- The buckets of a tenant; new ones if it has none yet. -/
def bucketsOf (l : RateLimiter) (t : Tenant) : TokenBucket × TokenBucket := (l.buckets t).2

theorem bucketsOf_eq (l : RateLimiter) (t : Tenant) :
    l.bucketsOf t =
      if (l.rps.get? t.id).isSome then
        (l.rps.getD t.id (.init (max 1 t.rps) t.rps), l.tps.getD t.id (.init t.tps t.tps))
      else (.init (max 1 t.rps) t.rps, .init t.tps t.tps) := by
  by_cases known : (l.rps.get? t.id).isSome = true
  · simp [bucketsOf, buckets, Dict.contains, known]
  · simp [bucketsOf, buckets, Dict.contains, known, Dict.getD_set]

theorem bucketsOf_putBuckets (l : RateLimiter) {t t' : Tenant} (own : t'.id = t.id)
    (rps tps : TokenBucket) : (l.putBuckets t' rps tps).bucketsOf t = (rps, tps) := by
  simp [bucketsOf_eq, putBuckets, Dict.getD, own]

theorem bucketsOf_congr {l l' : RateLimiter} {t : Tenant} (rps : l'.rps.get? t.id = l.rps.get? t.id)
    (tps : l'.tps.get? t.id = l.tps.get? t.id) : l'.bucketsOf t = l.bucketsOf t := by
  simp only [bucketsOf_eq, Dict.getD, rps, tps]

/-- Looking up the buckets of one tenant makes none for another. -/
theorem get?_buckets_other (l : RateLimiter) {t t' : Tenant} (other : t'.id ≠ t.id) :
    (l.buckets t').1.rps.get? t.id = l.rps.get? t.id ∧
      (l.buckets t').1.tps.get? t.id = l.tps.get? t.id := by
  unfold buckets
  dsimp only
  split
  · exact ⟨rfl, rfl⟩
  · simp [Ne.symm other]

/-- **The frame of a call**: it leaves the tables of every other tenant alone. -/
theorem get?_apply_other (l : RateLimiter) {t : Tenant} {call : Call}
    (other : call.tenant.id ≠ t.id) :
    (l.apply call).rps.get? t.id = l.rps.get? t.id ∧
      (l.apply call).tps.get? t.id = l.tps.get? t.id := by
  cases call with
  | arrive t' cost now =>
      simp only [Call.tenant] at other
      obtain ⟨rps, tps⟩ := l.get?_buckets_other other
      simp only [apply, tryAdmit]
      split
      · exact ⟨rps, tps⟩
      · split
        · simp [putBuckets, Ne.symm other, rps, tps]
        · split <;> simp [putBuckets, Ne.symm other, rps, tps]
  | release t' reserved actual =>
      simp only [Call.tenant] at other
      obtain ⟨rps, tps⟩ := ({ l with
        inflight := l.inflight.set t'.id (l.inflightOf t'.id - 1) }).get?_buckets_other other
      simp [apply, release, putBuckets, Ne.symm other, rps, tps]

theorem bucketsOf_apply_other (l : RateLimiter) {t : Tenant} {call : Call}
    (other : call.tenant.id ≠ t.id) : (l.apply call).bucketsOf t = l.bucketsOf t := by
  obtain ⟨rps, tps⟩ := l.get?_apply_other other
  exact bucketsOf_congr rps tps

/-- `admit` when neither the cap nor a bucket refuses. Every record of the tenant then finds
the buckets it leaves. -/
theorem tryAdmit_of_fits {l : RateLimiter} {t t' : Tenant} {cost now : ℚ}
    (room : (l.inflightOf t'.id : Int) < t'.maxInflight)
    (tps : ((l.bucketsOf t').2.tryConsume cost now).2 = true)
    (rps : ((l.bucketsOf t').1.tryConsume 1 now).2 = true) :
    (l.tryAdmit t' cost now).2.allowed = true ∧
      (t'.id = t.id → (l.tryAdmit t' cost now).1.bucketsOf t =
        (((l.bucketsOf t').1.tryConsume 1 now).1, ((l.bucketsOf t').2.tryConsume cost now).1)) := by
  have same : (l.buckets t').1.inflightOf t'.id = l.inflightOf t'.id := by
    rw [inflightOf, inflight_buckets, inflightOf]
  have below : ¬ t'.maxInflight ≤ (l.buckets t').1.inflightOf t'.id := by
    rw [same]
    exact not_le.mpr room
  simp only [bucketsOf] at tps rps
  simp only [tryAdmit, below, if_false, tps, rps, Bool.not_true, Bool.false_eq_true]
  refine ⟨rfl, ?_⟩
  intro own
  rw [bucketsOf_eq]
  simp [putBuckets, Dict.getD, bucketsOf, own]

/-- `release` refunds to the token bucket of its tenant, under whichever record. -/
theorem bucketsOf_release (l : RateLimiter) {t t' : Tenant} (own : t'.id = t.id)
    (reserved actual : ℚ) :
    (l.release t' reserved actual).bucketsOf t =
      ((l.bucketsOf t').1, (l.bucketsOf t').2.adjust (reserved - actual)) := by
  have same : ∀ inflight, ({ l with inflight := inflight } : RateLimiter).bucketsOf t' =
      l.bucketsOf t' := fun _ => bucketsOf_congr rfl rfl
  rw [release, bucketsOf_putBuckets _ own, ← same (l.inflight.set t'.id (l.inflightOf t'.id - 1))]
  rfl

/-! ### What conforming traffic finds -/

/-- What a limiter knows of a tenant whose calls `done` were all allowed. Whichever record
calls next, it finds the buckets the calls so far have left, or makes large enough ones. -/
structure Quota (t : Tenant) (done : List Call) (l : RateLimiter) : Prop where
  inflight : l.inflightOf t.id = unreleased t done
  rps : ∀ t', Covers t t' →
    TokenBucket.Backs (max 1 t.rps) t.rps (requests t done) (l.bucketsOf t').1
  tps : ∀ t', Covers t t' → TokenBucket.Backs t.tps t.tps (arrivals t done) (l.bucketsOf t').2

theorem Quota.start (t : Tenant) : Quota t [] .empty where
  inflight := rfl
  rps := by
    intro t' covers
    rw [bucketsOf_eq]
    exact .init (max_le_max_left 1 covers.rps) covers.rps
  tps := by
    intro t' covers
    rw [bucketsOf_eq]
    exact .init covers.tps covers.tps

/-- Calls of another tenant. -/
theorem Quota.other {t : Tenant} {done : List Call} {l : RateLimiter} (quota : Quota t done l)
    {call : Call} (other : call.tenant.id ≠ t.id) : Quota t (done ++ [call]) (l.apply call) where
  inflight := by
    rw [unreleased_snoc, ← quota.inflight]
    cases call with
    | arrive t' cost now =>
        simp only [Call.tenant] at other
        rw [apply, inflightOf_tryAdmit]
        simp [other, Ne.symm other]
    | release t' reserved actual =>
        simp only [Call.tenant] at other
        rw [apply, inflightOf_release]
        simp [other, Ne.symm other]
  rps := by
    intro t' covers
    rw [bucketsOf_apply_other l (covers.id ▸ other), requests, arrivals_snoc_other other]
    exact quota.rps t' covers
  tps := by
    intro t' covers
    rw [bucketsOf_apply_other l (covers.id ▸ other), arrivals_snoc_other other]
    exact quota.tps t' covers

/-- A release of the tenant's own. -/
theorem Quota.release {t t' : Tenant} {done : List Call} {l : RateLimiter} (quota : Quota t done l)
    (covers : Covers t t') {reserved actual : ℚ} (le : actual ≤ reserved) :
    Quota t (done ++ [.release t' reserved actual]) (l.release t' reserved actual) where
  inflight := by
    rw [unreleased_snoc, inflightOf_release, quota.inflight]
    simp [covers.id]
  rps := by
    intro u covers'
    rw [bucketsOf_release l (covers.id.trans covers'.id.symm), requests, arrivals_snoc_release]
    exact quota.rps t' covers
  tps := by
    intro u covers'
    rw [bucketsOf_release l (covers.id.trans covers'.id.symm), arrivals_snoc_release]
    exact (quota.tps t' covers).adjust (sub_nonneg.mpr le)

/-- An arrival of the tenant's own: allowed, and accounted for. -/
theorem Quota.arrive {t t' : Tenant} {done : List Call} {l : RateLimiter} (quota : Quota t done l)
    (covers : Covers t t') {cost now : ℚ} (nonneg : 0 ≤ t.rps)
    (clock : Ordered (done ++ [.arrive t' cost now]))
    (within : WithinQuota t (done ++ [.arrive t' cost now])) :
    (l.tryAdmit t' cost now).2.allowed = true ∧
      Quota t (done ++ [.arrive t' cost now]) (l.tryAdmit t' cost now).1 := by
  obtain ⟨start, sorted⟩ := clock
  rw [times_snoc_arrive] at start sorted
  have now_nonneg : 0 ≤ now := start now (by simp)
  have after : ∀ a ∈ arrivals t done, a.1 ≤ now := fun a member =>
    (List.pairwise_append.mp sorted).2.2 a.1 (mem_times_of_mem_arrivals member) now (by simp)
  have after' : ∀ a ∈ requests t done, a.1 ≤ now := by
    intro a member
    obtain ⟨a', member', rfl⟩ := List.mem_map.mp member
    exact after a' member'
  have last : (now, cost) ∈ arrivals t (done ++ [.arrive t' cost now]) := by
    simp [arrivals_snoc_own covers.id]
  have cost_nonneg : 0 ≤ cost := within.cost_nonneg (now, cost) last
  have tps_nonneg : 0 ≤ t.tps := cost_nonneg.trans (within.costs.cost_le last)
  have conforms := within.costs
  have conforms' := within.requests
  rw [arrivals_snoc_own covers.id] at conforms
  rw [requests_snoc_own covers.id] at conforms'
  obtain ⟨tps, tps'⟩ :=
    (quota.tps t' covers).tryConsume tps_nonneg now_nonneg after cost_nonneg conforms
  obtain ⟨rps, rps'⟩ :=
    (quota.rps t' covers).tryConsume nonneg now_nonneg after' zero_le_one conforms'
  have room : (l.inflightOf t'.id : Int) < t'.maxInflight := by
    rw [covers.id, quota.inflight]
    exact (within.inflight done t' cost now covers.id List.prefix_rfl).trans_le covers.maxInflight
  have fits := fun u => tryAdmit_of_fits (t := u) room tps rps
  have allowed := (fits t).1
  refine ⟨allowed, ?_, ?_, ?_⟩
  · rw [unreleased_snoc, inflightOf_tryAdmit, allowed, quota.inflight]
    simp [covers.id]
  · intro u covers'
    rw [(fits u).2 (covers.id.trans covers'.id.symm), requests_snoc_own covers.id]
    exact rps'
  · intro u covers'
    rw [(fits u).2 (covers.id.trans covers'.id.symm), arrivals_snoc_own covers.id]
    exact tps'

/-- What conforms conforms up to every point. -/
theorem Ordered.of_take {calls done : List Call} (clock : Ordered calls) (part : done <+: calls) :
    Ordered done := by
  have sublist : (times done).Sublist (times calls) := part.sublist.filterMap _
  exact ⟨fun now member => clock.1 now (sublist.subset member), clock.2.sublist sublist⟩

theorem WithinQuota.of_take {t : Tenant} {calls done : List Call} (within : WithinQuota t calls)
    (part : done <+: calls) : WithinQuota t done := by
  have arrived : arrivals t done <+: arrivals t calls := part.filterMap _
  have returned : refunds t done <+: refunds t calls := part.filterMap _
  exact {
    requests := within.requests.of_infix (arrived.map _).isInfix
    costs := within.costs.of_infix arrived.isInfix
    cost_nonneg := fun a member => within.cost_nonneg a (arrived.subset member)
    inflight := fun done' t' cost now own earlier =>
      within.inflight done' t' cost now own (earlier.trans part)
    releases := fun r member => within.releases r (returned.subset member) }

theorem runCalls_quota {t : Tenant} (nonneg : 0 ≤ t.rps) {calls : List Call}
    (covered : ∀ call ∈ calls, call.tenant.id = t.id → Covers t call.tenant)
    (clock : Ordered calls) (within : WithinQuota t calls) : Quota t calls (runCalls calls) := by
  induction calls using List.reverseRecOn with
  | nil => exact .start t
  | append_singleton calls call ih =>
      have part : calls <+: calls ++ [call] := List.prefix_append _ _
      have quota := ih (fun call member => covered call (part.subset member)) (clock.of_take part)
        (within.of_take part)
      rw [runCalls_snoc]
      by_cases own : call.tenant.id = t.id
      · have covers := covered call (by simp) own
        cases call with
        | arrive t' cost now => exact (quota.arrive covers nonneg clock within).2
        | release t' reserved actual =>
            have last : (reserved, actual) ∈ refunds t (calls ++ [.release t' reserved actual]) := by
              simp only [Call.tenant] at own
              simp [refunds, own]
            exact quota.release covers (within.releases (reserved, actual) last)
      · exact quota.other own

/-- **Tenants within their quota are never refused.** Take any interleaving of the
`admit` and `release` calls of all tenants, told apart by their ids, at times that
start at `0` and do not decrease. Let no record that calls under the id of `t` carry less
than the quota of `t`. If the calls under its id keep to that quota, every `admit` under its
id is allowed, whatever any other tenant does. (A registry never makes a tenant with a
negative rate: `TenantRegistry.rps_nonneg_resolve`.) -/
theorem conforming_allowed (t : Tenant) (nonneg : 0 ≤ t.rps) (calls : List Call)
    (covered : ∀ call ∈ calls, call.tenant.id = t.id → Covers t call.tenant)
    (clock : Ordered calls) (within : WithinQuota t calls) (done : List Call) (t' : Tenant)
    (cost now : ℚ) (own : t'.id = t.id) (reached : done ++ [.arrive t' cost now] <+: calls) :
    ((runCalls done).tryAdmit t' cost now).2.allowed = true := by
  have part : done <+: done ++ [.arrive t' cost now] := List.prefix_append _ _
  have covers : Covers t t' := covered (.arrive t' cost now) (reached.subset (by simp)) own
  have quota := runCalls_quota nonneg
    (fun call member => covered call ((part.trans reached).subset member))
    (clock.of_take (part.trans reached)) (within.of_take (part.trans reached))
  exact (quota.arrive covers nonneg (clock.of_take reached) (within.of_take reached)).1

/-- Few requests unreleased after every part of some calls. -/
theorem inflight_of_few {t : Tenant} {calls : List Call}
    (few : ∀ done ∈ calls.inits, (unreleased t done : Int) < t.maxInflight) (done : List Call)
    (t' : Tenant) (cost now : ℚ) (_ : t'.id = t.id)
    (reached : done ++ [.arrive t' cost now] <+: calls) :
    (unreleased t done : Int) < t.maxInflight := by
  refine few done ((List.mem_inits _ _).mpr ?_)
  exact (List.prefix_append _ _).trans reached

/-- A tenant that uses its whole token budget at once, is refunded and comes back, while
another one overruns its own quota. -/
theorem conforming_allowed_refunded :
    let t : Tenant := ⟨"a", 1, 10, 2, "bronze"⟩
    let u : Tenant := ⟨"b", 1, 10, 2, "bronze"⟩
    let done : List Call :=
      [.arrive u 50 0, .arrive t 10 0, .arrive u 5 (1/2), .arrive u 5 (1/2), .release t 8 3]
    WithinQuota t (done ++ [.arrive t 9 1]) ∧
      ((runCalls done).tryAdmit t 9 1).2.allowed = true := by
  intro t u done
  have within : WithinQuota t (done ++ [.arrive t 9 1]) := by
    constructor
    · decide +kernel
    · decide +kernel
    · decide +kernel
    · exact inflight_of_few (by decide +kernel)
    · decide +kernel
  have named : ∀ call ∈ done ++ [Call.arrive t 9 1], call.tenant.id = t.id → call.tenant = t := by
    decide +kernel
  have covered : ∀ call ∈ done ++ [Call.arrive t 9 1], call.tenant.id = t.id →
      Covers t call.tenant := by
    intro call member own
    rw [named call member own]
    exact ⟨rfl, le_refl _, le_refl _, le_refl _⟩
  have clock : Ordered (done ++ [Call.arrive t 9 1]) := ⟨by decide +kernel, by decide +kernel⟩
  exact ⟨within, conforming_allowed t (by decide +kernel) _ covered clock within done t 9 1 rfl
    List.prefix_rfl⟩

/-- Two keys of one tenant in different tiers. Whoever calls first makes the buckets: after a
bronze call the fifth gold call at the same time is refused, within a quota of fifty. And a
tenant with a negative rate has nothing left at time `1`. -/
theorem conforming_refused :
    let gold : Tenant := ⟨"acme", 50, 100000, 64, "gold"⟩
    let bronze : Tenant := ⟨"acme", 5, 10000, 8, "bronze"⟩
    let slowing : Tenant := ⟨"a", -1, 10, 4, "bronze"⟩
    let done : List Call := .arrive bronze 1 1 :: List.replicate 4 (.arrive gold 1 1)
    ((TenantRegistry.ofSpec "k1=acme:gold,k2=acme:bronze" defaultTiers).map fun reg =>
        (reg.byKey.get? "k1", reg.byKey.get? "k2")) = some (some gold, some bronze) ∧
      Ordered (done ++ [.arrive gold 1 1]) ∧ WithinQuota gold (done ++ [.arrive gold 1 1]) ∧
      ((runCalls done).tryAdmit gold 1 1).2.allowed = false ∧
      Ordered [.arrive slowing 1 1] ∧ WithinQuota slowing [.arrive slowing 1 1] ∧
      ((runCalls []).tryAdmit slowing 1 1).2.allowed = false := by
  intro gold bronze slowing done
  have within : WithinQuota gold (done ++ [.arrive gold 1 1]) := by
    constructor
    · decide +kernel
    · decide +kernel
    · decide +kernel
    · exact inflight_of_few (by decide +kernel)
    · decide +kernel
  have within' : WithinQuota slowing [.arrive slowing 1 1] := by
    constructor
    · decide +kernel
    · decide +kernel
    · decide +kernel
    · exact inflight_of_few (by decide +kernel)
    · decide +kernel
  exact ⟨by decide +kernel, ⟨by decide +kernel, by decide +kernel⟩, within, by decide +kernel,
    ⟨by decide +kernel, by decide +kernel⟩, within', by decide +kernel⟩

end RateLimiter

end Gateway
