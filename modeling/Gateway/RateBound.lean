import Gateway.Lib.Numeric
import Gateway.Quota

/-!
What a `RateLimiter` (`gateway/tenancy.py`) lets through, and what it takes.

`tryAdmit_cases` says what one `admit` does to the buckets of its tenant, refusal by
refusal. Two things follow.

* **`tryAdmit_refused`.** A refused admission takes nothing: the balances as of its time
  are what they would have been without it.
* **`admitted_bounded`.** Over any run and any time interval a tenant is let through at
  most as often as the capacity and the refill of its request bucket allow, and its
  in-flight counter is the number of its requests admitted and not released.
-/

namespace Gateway

namespace TokenBucket

theorem replenish_replenish (b : TokenBucket) (now : ℚ) :
    (b.replenish now).replenish now = b.replenish now := by
  by_cases later : b.ts < now <;> simp [replenish, later]

@[simp] theorem deficitSeconds_fst (b : TokenBucket) (n now : ℚ) :
    (b.deficitSeconds n now).1 = b.replenish now := by
  simp only [deficitSeconds]
  split
  · rfl
  · split <;> rfl

@[simp] theorem deficitSeconds_replenish (b : TokenBucket) (n now : ℚ) :
    (b.replenish now).deficitSeconds n now = b.deficitSeconds n now := by
  simp only [deficitSeconds, replenish_replenish]

/-- What is taken and given back leaves a bucket that is not overfull as it was. -/
theorem adjust_consumed {b : TokenBucket} (le : b.tokens ≤ b.capacity) (n : ℚ) :
    ({ b with tokens := b.tokens - n } : TokenBucket).adjust n = b := by
  simp [adjust, le]

/-- A bucket that holds at most `cap` and refills at most at `rate` has let the arrivals
`past` through; `seen` are the times it may have been replenished at. -/
structure Meters (cap rate : ℚ) (seen : List ℚ) (past : List (ℚ × ℚ)) (b : TokenBucket) : Prop where
  capacity : b.capacity ≤ cap
  refill : b.refill ≤ rate
  tokens : b.tokens ≤ cap
  metered : past = [] ∨ ∃ now ∈ seen, now ≤ b.ts ∧ Bucket.Metered cap rate past b.tokens now
  conforms : Bucket.Conforms cap rate past

section Meters

variable {cap rate : ℚ} {seen : List ℚ} {past : List (ℚ × ℚ)} {b : TokenBucket}

/-- A new bucket. -/
theorem Meters.init {capacity refill : ℚ} (le : capacity ≤ cap) (le' : refill ≤ rate)
    (seen : List ℚ) : Meters cap rate seen [] (init capacity refill) where
  capacity := le
  refill := le'
  tokens := le
  metered := .inl rfl
  conforms := by
    intro first rest window
    cases List.infix_nil.mp window

/-- Time passes without the bucket being used. -/
theorem Meters.idle (meters : Meters cap rate seen past b) {seen' : List ℚ} (le : seen ⊆ seen') :
    Meters cap rate seen' past b where
  capacity := meters.capacity
  refill := meters.refill
  tokens := meters.tokens
  metered := by
    rcases meters.metered with empty | ⟨now, member, rest⟩
    · exact .inl empty
    · exact .inr ⟨now, le member, rest⟩
  conforms := meters.conforms

/-- Replenishing at a time not before those seen. A bucket whose time is already later
gains nothing. -/
theorem Meters.metered_replenish (meters : Meters cap rate seen past b) (nonneg : 0 ≤ rate) {now : ℚ}
    (after : ∀ a ∈ seen, a ≤ now) :
    now ≤ (b.replenish now).ts ∧ (b.replenish now).tokens ≤ cap ∧
      Bucket.Metered cap rate past (b.replenish now).tokens now := by
  by_cases later : b.ts < now
  · have clipped : min b.capacity (b.tokens + (now - b.ts) * b.refill) ≤ cap :=
      (min_le_left _ _).trans meters.capacity
    simp only [replenish, later, if_true]
    refine ⟨le_refl now, clipped, ?_⟩
    rcases meters.metered with rfl | ⟨seen', member, le, metered⟩
    · exact .nil clipped rate now
    · apply metered.refill clipped
      have elapsed : 0 ≤ now - b.ts := sub_nonneg.mpr later.le
      calc min b.capacity (b.tokens + (now - b.ts) * b.refill)
          ≤ b.tokens + (now - b.ts) * b.refill := min_le_right _ _
        _ ≤ b.tokens + (now - b.ts) * rate := by gcongr; exact meters.refill
        _ ≤ b.tokens + (now - seen') * rate := by gcongr
  · simp only [replenish, later, if_false]
    refine ⟨not_lt.mp later, meters.tokens, ?_⟩
    rcases meters.metered with rfl | ⟨seen', member, le, metered⟩
    · exact .nil meters.tokens rate now
    · apply metered.refill meters.tokens
      have gained : 0 ≤ (now - seen') * rate :=
        mul_nonneg (sub_nonneg.mpr (after seen' member)) nonneg
      linarith

theorem Meters.replenish (meters : Meters cap rate seen past b) (nonneg : 0 ≤ rate) {now : ℚ}
    (after : ∀ a ∈ seen, a ≤ now) : Meters cap rate (seen ++ [now]) past (b.replenish now) := by
  obtain ⟨ts, tokens, metered⟩ := meters.metered_replenish nonneg after
  constructor
  · rw [replenish_capacity]
    exact meters.capacity
  · rw [replenish_refill]
    exact meters.refill
  · exact tokens
  · exact .inr ⟨now, by simp, ts, metered⟩
  · exact meters.conforms

/-- Letting one request through. -/
theorem Meters.consume (meters : Meters cap rate seen past b) (nonneg : 0 ≤ rate) {now : ℚ}
    (after : ∀ a ∈ seen, a ≤ now) (enough : 1 ≤ (b.replenish now).tokens) :
    Meters cap rate (seen ++ [now]) (past ++ [(now, 1)])
      { b.replenish now with tokens := (b.replenish now).tokens - 1 } := by
  obtain ⟨ts, tokens, metered⟩ := meters.metered_replenish nonneg after
  constructor
  · simpa using meters.capacity
  · simpa using meters.refill
  · have less : (b.replenish now).tokens - 1 ≤ (b.replenish now).tokens := by linarith
    exact less.trans tokens
  · exact .inr ⟨now, by simp, ts, metered.serve zero_le_one⟩
  · exact metered.conforms meters.conforms enough

end Meters

end TokenBucket

namespace RateLimiter

theorem bucketsOf_buckets (l : RateLimiter) (t : Tenant) :
    (l.buckets t).1.bucketsOf t = l.bucketsOf t := by
  by_cases known : (l.rps.get? t.id).isSome = true
  · simp [bucketsOf, buckets, Dict.contains, known]
  · simp [bucketsOf, buckets, Dict.contains, known]

/-- **One admission**: which check decides it, the delay a refusal names, and the buckets
left to the tenant. -/
theorem tryAdmit_outcome (l : RateLimiter) (t : Tenant) (cost now : ℚ) :
    let rps := (l.bucketsOf t).1
    let tps := (l.bucketsOf t).2
    let adm := (l.tryAdmit t cost now).2
    let after := (l.tryAdmit t cost now).1.bucketsOf t
    (adm.reason = some .inflight ∧ t.maxInflight ≤ l.inflightOf t.id ∧ after = (rps, tps)) ∨
    (adm.reason = some .tps ∧ (l.inflightOf t.id : Int) < t.maxInflight ∧
      (tps.replenish now).tokens < cost ∧ adm.retryAfter = (tps.deficitSeconds cost now).2 ∧
      after = (rps, tps.replenish now)) ∨
    (adm.reason = some .rps ∧ (l.inflightOf t.id : Int) < t.maxInflight ∧
      cost ≤ (tps.replenish now).tokens ∧ (rps.replenish now).tokens < 1 ∧
      adm.retryAfter = (rps.deficitSeconds 1 now).2 ∧
      after = (rps.replenish now,
        ({ tps.replenish now with tokens := (tps.replenish now).tokens - cost } :
          TokenBucket).adjust cost)) ∨
    (adm.reason = none ∧ (l.inflightOf t.id : Int) < t.maxInflight ∧
      cost ≤ (tps.replenish now).tokens ∧ 1 ≤ (rps.replenish now).tokens ∧
      after = ({ rps.replenish now with tokens := (rps.replenish now).tokens - 1 },
        { tps.replenish now with tokens := (tps.replenish now).tokens - cost })) := by
  intro rps tps adm after
  have same : (l.buckets t).1.inflightOf t.id = l.inflightOf t.id := by
    rw [inflightOf, inflight_buckets, inflightOf]
  have kept := bucketsOf_buckets l t
  have read : (l.buckets t).2 = (rps, tps) := rfl
  subst after adm
  unfold tryAdmit
  generalize l.buckets t = start at same kept read
  obtain ⟨l', rpsB, tpsB⟩ := start
  cases read
  dsimp only at same kept ⊢
  rw [same]
  split
  · rename_i full
    left
    exact ⟨rfl, full, kept⟩
  · rename_i room
    have room := not_le.mp room
    by_cases fits : cost ≤ (tps.replenish now).tokens
    · by_cases fits' : 1 ≤ (rps.replenish now).tokens
      · right; right; right
        simp only [TokenBucket.tryConsume, fits, fits', if_true, Bool.not_true, Bool.false_eq_true,
          if_false]
        refine ⟨trivial, room, trivial, trivial, ?_⟩
        rw [bucketsOf_eq]
        simp [putBuckets, Dict.getD]
      · -- the tokens reserved before the request bucket refused are given back
        right; right; left
        simp only [TokenBucket.tryConsume, fits, fits', if_true, if_false, Bool.not_true,
          Bool.not_false, Bool.false_eq_true, TokenBucket.deficitSeconds_replenish]
        refine ⟨trivial, room, trivial, not_le.mp fits', trivial, ?_⟩
        rw [bucketsOf_putBuckets _ rfl, TokenBucket.deficitSeconds_fst]
    · right; left
      simp only [TokenBucket.tryConsume, fits, if_false, Bool.not_false, if_true,
        TokenBucket.deficitSeconds_replenish]
      refine ⟨trivial, room, not_le.mp fits, trivial, ?_⟩
      rw [bucketsOf_putBuckets _ rfl, TokenBucket.deficitSeconds_fst]

/-- Whether an admission is allowed, and the buckets it leaves its tenant. -/
theorem tryAdmit_cases (l : RateLimiter) (t : Tenant) (cost now : ℚ) :
    let rps := (l.bucketsOf t).1
    let tps := (l.bucketsOf t).2
    let after := (l.tryAdmit t cost now).1.bucketsOf t
    ((l.tryAdmit t cost now).2.allowed = false ∧ after = (rps, tps)) ∨
    ((l.tryAdmit t cost now).2.allowed = false ∧ after = (rps, tps.replenish now)) ∨
    ((l.tryAdmit t cost now).2.allowed = false ∧ after =
      (rps.replenish now,
        ({ tps.replenish now with tokens := (tps.replenish now).tokens - cost } :
          TokenBucket).adjust cost)) ∨
    ((l.tryAdmit t cost now).2.allowed = true ∧ (l.inflightOf t.id : Int) < t.maxInflight ∧
      1 ≤ (rps.replenish now).tokens ∧ after.1 =
        { rps.replenish now with tokens := (rps.replenish now).tokens - 1 }) := by
  intro rps tps after
  rcases l.tryAdmit_outcome t cost now with
    ⟨reason, -, buckets⟩ | ⟨reason, -, -, -, buckets⟩ | ⟨reason, -, -, -, -, buckets⟩ |
      ⟨reason, room, -, enough, buckets⟩
  · exact .inl ⟨by rw [Admission.allowed, reason]; rfl, buckets⟩
  · exact .inr (.inl ⟨by rw [Admission.allowed, reason]; rfl, buckets⟩)
  · exact .inr (.inr (.inl ⟨by rw [Admission.allowed, reason]; rfl, buckets⟩))
  · exact .inr (.inr (.inr ⟨by rw [Admission.allowed, reason]; rfl, room, enough,
      congrArg Prod.fst buckets⟩))

/-- A refused admission takes nothing. If `admit` refuses, no in-flight count changes; the
balances of both buckets of the tenant, replenished to the time of the call, are what they
are without the call; and nothing is written for any other tenant. -/
theorem tryAdmit_refused (l : RateLimiter) (t : Tenant) (cost now : ℚ)
    (tps_le : (l.bucketsOf t).2.tokens ≤ (l.bucketsOf t).2.capacity)
    (refused : (l.tryAdmit t cost now).2.allowed = false) :
    (∀ id, (l.tryAdmit t cost now).1.inflightOf id = l.inflightOf id) ∧
    (((l.tryAdmit t cost now).1.bucketsOf t).1.replenish now).tokens =
      ((l.bucketsOf t).1.replenish now).tokens ∧
    (((l.tryAdmit t cost now).1.bucketsOf t).2.replenish now).tokens =
      ((l.bucketsOf t).2.replenish now).tokens ∧
    ∀ u : Tenant, u.id ≠ t.id →
      (l.tryAdmit t cost now).1.rps.get? u.id = l.rps.get? u.id ∧
      (l.tryAdmit t cost now).1.tps.get? u.id = l.tps.get? u.id := by
  refine ⟨?_, ?_, ?_, ?_⟩
  · intro id
    rw [inflightOf_tryAdmit, refused]
    simp
  · rcases l.tryAdmit_cases t cost now with ⟨-, after⟩ | ⟨-, after⟩ | ⟨-, after⟩ | ⟨allowed, -⟩
    · rw [after]
    · rw [after]
    · rw [after, TokenBucket.replenish_replenish]
    · rw [allowed] at refused
      cases refused
  · rcases l.tryAdmit_cases t cost now with ⟨-, after⟩ | ⟨-, after⟩ | ⟨-, after⟩ | ⟨allowed, -⟩
    · rw [after]
    · rw [after, TokenBucket.replenish_replenish]
    · have le := TokenBucket.replenish_tokens_le tps_le now
      rw [after, TokenBucket.adjust_consumed le, TokenBucket.replenish_replenish]
    · rw [allowed] at refused
      cases refused
  · intro u other
    have other' : (Call.arrive t cost now).tenant.id ≠ u.id := Ne.symm other
    exact l.get?_apply_other other'

/-- A second request within the second: its tokens are reserved, the request bucket
refuses, and they are given back. -/
theorem tryAdmit_refused_rps :
    let t : Tenant := ⟨"a", 1, 10, 4, "bronze"⟩
    let l := runCalls [.arrive t 3 0]
    (l.tryAdmit t 6 (1 / 2)).2.reason = some .rps ∧
      (((l.tryAdmit t 6 (1 / 2)).1.bucketsOf t).2.replenish (1 / 2)).tokens =
        ((l.bucketsOf t).2.replenish (1 / 2)).tokens := by
  intro t l
  refine ⟨by decide +kernel, ?_⟩
  exact (tryAdmit_refused l t 6 (1 / 2) (by decide +kernel) (by decide +kernel)).2.2.1

/-! ### What a tenant was let through -/

section Admitted

variable {F : Type} [OfNat F 0] [OfNat F 1] [Add F] [Sub F] [Mul F] [Div F] [Min F] [Max F]
  [LT F] [DecidableLT F] [LE F] [DecidableLE F]

/-- The time of a call, if it is an admission allowed to tenant `id`. -/
def Call.admittedAt (id : String) (l : RateLimiter F) : Call F → List F
  | .arrive t cost now =>
      if t.id = id ∧ (l.tryAdmit t cost now).2.allowed = true then [now] else []
  | .release .. => []

/-- The times of the admissions allowed to tenant `id` when some calls are made. -/
def admittedFrom (id : String) : RateLimiter F → List (Call F) → List F
  | _, [] => []
  | l, call :: calls => call.admittedAt id l ++ admittedFrom id (l.apply call) calls

/-- The times of the admissions allowed to tenant `id`. -/
def admitted (id : String) (calls : List (Call F)) : List F := admittedFrom id .empty calls

end Admitted

/-- How often tenant `id` has released. -/
def released (id : String) (calls : List Call) : Nat :=
  calls.countP fun
    | .arrive .. => false
    | .release t _ _ => t.id = id

theorem admittedFrom_snoc (id : String) (l : RateLimiter) (calls : List Call) (call : Call) :
    admittedFrom id l (calls ++ [call]) =
      admittedFrom id l calls ++ call.admittedAt id (calls.foldl apply l) := by
  induction calls generalizing l with
  | nil => simp [admittedFrom]
  | cons first calls ih => simp [admittedFrom, ih]

theorem admitted_snoc (id : String) (calls : List Call) (call : Call) :
    admitted id (calls ++ [call]) = admitted id calls ++ call.admittedAt id (runCalls calls) :=
  admittedFrom_snoc id .empty calls call

/-- Only arrivals are admitted. -/
theorem admitted_sublist_times (id : String) (calls : List Call) :
    (admitted id calls).Sublist (times calls) := by
  induction calls using List.reverseRecOn with
  | nil => exact List.Sublist.refl _
  | append_singleton calls call ih =>
      rw [admitted_snoc]
      cases call with
      | arrive t cost now =>
          rw [times_snoc_arrive, Call.admittedAt]
          split
          · exact ih.append (List.Sublist.refl _)
          · exact ih.append (List.nil_sublist _)
      | release t reserved actual => simpa [Call.admittedAt, times] using ih

/-- The bucket a tenant's requests are taken from. -/
theorem bucketsOf_fst (l : RateLimiter) (t : Tenant) :
    (l.bucketsOf t).1 = l.rps.getD t.id (.init (max 1 t.rps) t.rps) := by
  rw [bucketsOf_eq]
  cases found : l.rps.get? t.id with
  | none => simp [Dict.getD, found]
  | some b => simp [Dict.getD]

/-- A call leaves its tenant with a bucket. -/
theorem get?_apply_own (l : RateLimiter) (call : Call) :
    (l.apply call).rps.get? call.tenant.id = some ((l.apply call).bucketsOf call.tenant).1 := by
  suffices some' : ((l.apply call).rps.get? call.tenant.id).isSome = true by
    rw [bucketsOf_fst, Dict.getD]
    obtain ⟨b, found⟩ := Option.isSome_iff_exists.mp some'
    rw [found, Option.getD_some]
  cases call with
  | arrive t cost now =>
      simp only [apply, tryAdmit, Call.tenant]
      split
      · by_cases known : (l.rps.get? t.id).isSome = true
        · simp [buckets, Dict.contains, known]
        · simp [buckets, Dict.contains, known]
      · split
        · simp [putBuckets]
        · split <;> simp [putBuckets]
  | release t reserved actual => simp [apply, release, putBuckets, Call.tenant]

/-! ### All buckets of a limiter -/

/-- Every request bucket of a limiter satisfies `P`, and every token bucket `Q`. -/
structure Each (P Q : TokenBucket → Prop) (l : RateLimiter) : Prop where
  rps : ∀ id b, l.rps.get? id = some b → P b
  tps : ∀ id b, l.tps.get? id = some b → Q b

section Each

variable {P Q : TokenBucket → Prop} {l : RateLimiter}

theorem Each.empty : Each P Q .empty where
  rps := by
    intro id b found
    cases found
  tps := by
    intro id b found
    cases found

/-- The buckets a call of a tenant finds or makes. -/
theorem Each.bucketsOf (each : Each P Q l) {t : Tenant} (rps : P (.init (max 1 t.rps) t.rps))
    (tps : Q (.init t.tps t.tps)) : P (l.bucketsOf t).1 ∧ Q (l.bucketsOf t).2 := by
  rw [bucketsOf_eq]
  split
  · simp only [Dict.getD]
    constructor
    · cases found : l.rps.get? t.id with
      | none => exact rps
      | some b => exact each.rps t.id b found
    · cases found : l.tps.get? t.id with
      | none => exact tps
      | some b => exact each.tps t.id b found
  · exact ⟨rps, tps⟩

/-- A call writes the buckets of its tenant only. -/
theorem Each.apply (each : Each P Q l) (call : Call)
    (rps : P ((l.apply call).bucketsOf call.tenant).1)
    (tps : Q ((l.apply call).bucketsOf call.tenant).2) : Each P Q (l.apply call) := by
  have own := l.get?_apply_own call
  constructor
  · intro id b found
    by_cases same : id = call.tenant.id
    · subst same
      rw [own] at found
      cases found
      exact rps
    · have frame := (l.get?_apply_other (t := ⟨id, 0, 0, 0, ""⟩) (Ne.symm same)).1
      exact each.rps id b (frame ▸ found)
  · intro id b found
    by_cases same : id = call.tenant.id
    · subst same
      rw [bucketsOf_eq, own] at tps
      simpa [Dict.getD, found] using tps
    · have frame := (l.get?_apply_other (t := ⟨id, 0, 0, 0, ""⟩) (Ne.symm same)).2
      exact each.tps id b (frame ▸ found)

end Each

/-! ### The rate of a tenant -/

/-- The request bucket of a tenant, if it has one, has let its admissions through; without
one nothing was admitted. -/
def Bounded (t : Tenant) (calls : List Call) (l : RateLimiter) : Prop :=
  match l.rps.get? t.id with
  | none => admitted t.id calls = []
  | some b => TokenBucket.Meters (max 1 t.rps) t.rps (times calls)
      ((admitted t.id calls).map fun now => (now, 1)) b

/-- The bucket the next call of the tenant finds or makes. -/
theorem Bounded.bucket {t t' : Tenant} {calls : List Call} {l : RateLimiter}
    (bounded : Bounded t calls l) (same : t'.id = t.id) (le : t'.rps ≤ t.rps) :
    TokenBucket.Meters (max 1 t.rps) t.rps (times calls)
      ((admitted t.id calls).map fun now => (now, 1)) (l.bucketsOf t').1 := by
  unfold Bounded at bounded
  rw [bucketsOf_fst, Dict.getD, same]
  cases found : l.rps.get? t.id with
  | none =>
      simp only [found] at bounded
      rw [bounded]
      exact .init (max_le_max_left 1 le) le _
  | some b =>
      simp only [found] at bounded
      exact bounded

/-- A call of the tenant. -/
theorem Bounded.apply_own {t : Tenant} {calls : List Call} {call : Call}
    (bounded : Bounded t calls (runCalls calls)) (nonneg : 0 ≤ t.rps)
    (own : call.tenant.id = t.id) (le : call.tenant.rps ≤ t.rps)
    (sorted : (times (calls ++ [call])).Pairwise (· ≤ ·)) :
    Bounded t (calls ++ [call]) ((runCalls calls).apply call) := by
  have meters := bounded.bucket own le
  have found := get?_apply_own (runCalls calls) call
  rw [own] at found
  unfold Bounded
  simp only [found]
  rw [admitted_snoc]
  cases call with
  | arrive t' cost now =>
      simp only [Call.tenant] at own meters found ⊢
      rw [times_snoc_arrive] at sorted ⊢
      have after : ∀ a ∈ times calls, a ≤ now := fun a member =>
        (List.pairwise_append.mp sorted).2.2 a member now (by simp)
      have later : times calls ⊆ times calls ++ [now] := List.subset_append_left _ _
      have idle := meters.idle later
      simp only [RateLimiter.apply, Call.admittedAt, own, true_and]
      rcases (runCalls calls).tryAdmit_cases t' cost now with
        ⟨refused, buckets⟩ | ⟨refused, buckets⟩ | ⟨refused, buckets⟩ | ⟨allowed, -, enough, buckets⟩
      · rw [buckets, refused]
        simpa using idle
      · rw [buckets, refused]
        simpa using idle
      · rw [buckets, refused]
        simpa using meters.replenish nonneg after
      · rw [buckets, allowed]
        simpa using meters.consume nonneg after enough
  | release t' reserved actual =>
      simp only [Call.tenant] at meters
      simp only [RateLimiter.apply, Call.tenant, Call.admittedAt, bucketsOf_release _ rfl]
      simpa [times] using meters

/-- A call of another tenant. -/
theorem Bounded.apply_other {t : Tenant} {calls : List Call} {call : Call}
    (bounded : Bounded t calls (runCalls calls)) (other : call.tenant.id ≠ t.id) :
    Bounded t (calls ++ [call]) ((runCalls calls).apply call) := by
  obtain ⟨rps, -⟩ := (runCalls calls).get?_apply_other other
  have none : call.admittedAt t.id (runCalls calls) = [] := by
    cases call with
    | arrive t' cost now =>
        simp only [Call.tenant] at other
        simp [Call.admittedAt, other]
    | release t' reserved actual => rfl
  have later : times calls ⊆ times (calls ++ [call]) := by
    intro a member
    simp only [times, List.filterMap_append] at member ⊢
    exact List.mem_append_left _ member
  unfold Bounded at bounded ⊢
  rw [rps, admitted_snoc, none, List.append_nil]
  cases found : (runCalls calls).rps.get? t.id with
  | none =>
      simp only [found] at bounded ⊢
      exact bounded
  | some b =>
      simp only [found] at bounded ⊢
      exact bounded.idle later

/-- One call. -/
theorem Bounded.apply {t : Tenant} {calls : List Call} {call : Call}
    (bounded : Bounded t calls (runCalls calls)) (nonneg : 0 ≤ t.rps)
    (le : call.tenant.id = t.id → call.tenant.rps ≤ t.rps)
    (sorted : (times (calls ++ [call])).Pairwise (· ≤ ·)) :
    Bounded t (calls ++ [call]) ((runCalls calls).apply call) := by
  by_cases own : call.tenant.id = t.id
  · exact bounded.apply_own nonneg own (le own) sorted
  · exact bounded.apply_other own

theorem runCalls_bounded {t : Tenant} (nonneg : 0 ≤ t.rps) {calls : List Call}
    (le : ∀ call ∈ calls, call.tenant.id = t.id → call.tenant.rps ≤ t.rps)
    (sorted : (times calls).Pairwise (· ≤ ·)) : Bounded t calls (runCalls calls) := by
  induction calls using List.reverseRecOn with
  | nil => exact rfl
  | append_singleton calls call ih =>
      have part : calls <+: calls ++ [call] := List.prefix_append _ _
      have sublist : (times calls).Sublist (times (calls ++ [call])) :=
        part.sublist.filterMap _
      rw [runCalls_snoc]
      have before := ih (fun call member => le call (List.mem_append_left _ member))
        (sorted.sublist sublist)
      exact before.apply nonneg (le call (by simp)) sorted

/-- Every release is one of a request admitted before. -/
def Paired (id : String) (calls : List Call) : Prop :=
  ∀ done, done <+: calls → released id done ≤ (admitted id done).length

/-- The in-flight counter of a tenant counts the requests admitted and not released. -/
theorem inflightOf_runCalls {t : Tenant} {calls : List Call} (paired : Paired t.id calls) :
    (runCalls calls).inflightOf t.id + released t.id calls = (admitted t.id calls).length := by
  induction calls using List.reverseRecOn with
  | nil => rfl
  | append_singleton calls call ih =>
      have longer : calls <+: calls ++ [call] := List.prefix_append _ _
      have before := ih fun done part => paired done (part.trans longer)
      have enough := paired (calls ++ [call]) List.prefix_rfl
      rw [runCalls_snoc]
      rw [admitted_snoc] at enough ⊢
      cases call with
      | arrive t' cost now =>
          rw [RateLimiter.apply, inflightOf_tryAdmit, Call.admittedAt]
          by_cases counted : t'.id = t.id ∧ ((runCalls calls).tryAdmit t' cost now).2.allowed = true
          · rw [if_pos ⟨counted.1.symm, counted.2⟩, if_pos counted]
            simp only [released, List.countP_append, List.length_append] at before ⊢
            simp
            omega
          · rw [if_neg fun both => counted ⟨both.1.symm, both.2⟩, if_neg counted]
            simpa [released] using before
      | release t' reserved actual =>
          rw [RateLimiter.apply, inflightOf_release]
          by_cases own : t'.id = t.id
          · simp only [released, List.countP_append, Call.admittedAt, own, decide_true,
              List.countP_singleton, if_true, List.append_nil] at before enough ⊢
            omega
          · simpa [released, Call.admittedAt, own, Ne.symm own] using before

/-- The in-flight counter of a tenant never exceeds its cap. -/
theorem inflightOf_runCalls_le {t : Tenant} (nonneg : 0 ≤ t.maxInflight) {calls : List Call}
    (le : ∀ call ∈ calls, call.tenant.id = t.id → call.tenant.maxInflight ≤ t.maxInflight) :
    ((runCalls calls).inflightOf t.id : Int) ≤ t.maxInflight := by
  induction calls using List.reverseRecOn with
  | nil => exact nonneg
  | append_singleton calls call ih =>
      have before := ih fun call member => le call (List.mem_append_left _ member)
      rw [runCalls_snoc]
      cases call with
      | arrive t' cost now =>
          rw [RateLimiter.apply, inflightOf_tryAdmit]
          split
          · rename_i counted
            obtain ⟨same, allowed⟩ := counted
            have cap : t'.maxInflight ≤ t.maxInflight := le (.arrive t' cost now) (by simp) same.symm
            rcases (runCalls calls).tryAdmit_cases t' cost now with
              ⟨refused, -⟩ | ⟨refused, -⟩ | ⟨refused, -⟩ | ⟨-, room, -⟩
            · simp [allowed] at refused
            · simp [allowed] at refused
            · simp [allowed] at refused
            · rw [← same] at room
              omega
          · exact before
      | release t' reserved actual =>
          rw [RateLimiter.apply, inflightOf_release]
          split <;> omega

/-- **The rate of a tenant.** Take any `admit` and `release` calls of all tenants, at times
that do not decrease, in which the records under the id of `t` carry at most its quota, which
is not negative. In any time interval `t` is admitted at most `max 1 rps + rps * (e - s)`
times; and if its releases are those of requests admitted before, then at every moment its
in-flight counter is the number of its requests admitted and not released, and at most its
cap. -/
theorem admitted_bounded (t : Tenant) (nonneg : 0 ≤ t.rps) (cap : 0 ≤ t.maxInflight)
    (calls : List Call)
    (quota : ∀ call ∈ calls, call.tenant.id = t.id →
      call.tenant.rps ≤ t.rps ∧ call.tenant.maxInflight ≤ t.maxInflight)
    (sorted : (times calls).Pairwise (· ≤ ·)) :
    (∀ s e : ℚ, s ≤ e →
      (((admitted t.id calls).countP fun now => decide (s ≤ now ∧ now ≤ e) : Nat) : ℚ) ≤
        max 1 t.rps + t.rps * (e - s)) ∧
    (Paired t.id calls → ∀ done, done <+: calls →
      (runCalls done).inflightOf t.id + released t.id done = (admitted t.id done).length ∧
      ((runCalls done).inflightOf t.id : Int) ≤ t.maxInflight) := by
  constructor
  · intro s e le
    have bounded := runCalls_bounded nonneg (fun call member own => (quota call member own).1) sorted
    have conforms : Bucket.Conforms (max 1 t.rps) t.rps
        ((admitted t.id calls).map fun now => (now, 1)) :=
      (bounded.bucket rfl (le_refl t.rps)).conforms
    have times_sorted : (((admitted t.id calls).map fun now => (now, (1 : ℚ))).map
        Prod.fst).Pairwise (· ≤ ·) := by
      have same : (admitted t.id calls).map (Prod.fst ∘ fun now => (now, (1 : ℚ))) =
          admitted t.id calls := List.map_id _
      rw [List.map_map, same]
      exact sorted.sublist (admitted_sublist_times t.id calls)
    have cap_nonneg : (0 : ℚ) ≤ max 1 t.rps := zero_le_one.trans (le_max_left 1 t.rps)
    have bound := conforms.demand_interval_le times_sorted cap_nonneg nonneg le
    rwa [Bucket.demand_unit _ fun now => decide (s ≤ now ∧ now ≤ e)] at bound
  · intro paired done part
    constructor
    · exact inflightOf_runCalls fun done' part' => paired done' (part'.trans part)
    · exact inflightOf_runCalls_le cap fun call member own =>
        (quota call (part.subset member) own).2

/-- A bursting tenant: two of its three requests at time `0` are admitted, one of them is
released, and a third gets through a second later. -/
theorem admitted_bounded_burst :
    let t : Tenant := ⟨"a", 2, 100, 2, "bronze"⟩
    let calls : List Call :=
      [.arrive t 5 0, .arrive t 5 0, .arrive t 5 0, .release t 5 3, .arrive t 5 1]
    admitted t.id calls = [0, 0, 1] ∧
      (((admitted t.id calls).countP fun now => decide (0 ≤ now ∧ now ≤ 1) : Nat) : ℚ) ≤
        max 1 t.rps + t.rps * (1 - 0) ∧
      (runCalls calls).inflightOf t.id + released t.id calls = (admitted t.id calls).length := by
  intro t calls
  have quota : ∀ call ∈ calls, call.tenant.id = t.id →
      call.tenant.rps ≤ t.rps ∧ call.tenant.maxInflight ≤ t.maxInflight := by decide +kernel
  have sorted : (times calls).Pairwise (· ≤ ·) := by decide +kernel
  have few : ∀ done ∈ calls.inits, released t.id done ≤ (admitted t.id done).length := by
    decide +kernel
  have paired : Paired t.id calls := fun done part => few done ((List.mem_inits _ _).mpr part)
  obtain ⟨rate, inflight⟩ := admitted_bounded t (by decide +kernel) (by decide) calls quota sorted
  exact ⟨by decide +kernel, rate 0 1 (by decide +kernel), (inflight paired calls List.prefix_rfl).1⟩

/-- Where the quota of a single record is no bound. Nine requests with the gold key of a tenant
are more than its bronze key allows in a moment, and in flight. A rate below zero gives a
bound below zero, and a cap below zero one that no counter meets. And in floats the five
requests per second of a bronze tenant become six from `1` to `1.2`: the float `1.2` is less
than a fifth above `1`, but the refill is rounded up. -/
theorem admitted_unbounded :
    let gold : Tenant := ⟨"acme", 50, 100000, 64, "gold"⟩
    let bronze : Tenant := ⟨"acme", 5, 10000, 8, "bronze"⟩
    let keys : List Call := List.replicate 9 (.arrive gold 1 1)
    let slowing : Tenant := ⟨"a", -1, 10, -1, "bronze"⟩
    let floating : Tenant Float := ⟨"b", 5, 10000, 8, "bronze"⟩
    let burst : List (Call Float) :=
      .arrive floating 1 1 :: List.replicate 5 (.arrive floating 1 1.2)
    ((TenantRegistry.ofSpec "k1=acme:gold,k2=acme:bronze" defaultTiers).map fun reg =>
        (reg.byKey.get? "k1", reg.byKey.get? "k2")) = some (some gold, some bronze) ∧
      ¬ ((admitted bronze.id keys).length : ℚ) ≤ max 1 bronze.rps + bronze.rps * (1 - 1) ∧
      ¬ ((runCalls keys).inflightOf bronze.id : Int) ≤ bronze.maxInflight ∧
      ¬ (0 : ℚ) ≤ max 1 slowing.rps + slowing.rps * (5 - 0) ∧
      ¬ ((runCalls []).inflightOf slowing.id : Int) ≤ slowing.maxInflight ∧
      admitted floating.id burst = [1, 1.2, 1.2, 1.2, 1.2, 1.2] ∧
      ∀ e ∈ Numeric.value (1.2 : Float), max 1 5 + 5 * (e - 1) < 6 := by
  decide +kernel

end RateLimiter

end Gateway
