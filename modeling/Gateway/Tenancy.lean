import Mathlib.Algebra.Order.Field.Rat
import Mathlib.Order.WithBot
import Gateway.Lib.Dict

/-!
Rate limiting, from `gateway/tenancy.py`.

A tenant has a token bucket for requests, one for tokens, and a cap on its requests in
flight. Buckets are made on first use. The definitions are over any type of numbers: exact
arithmetic is `ℚ`, which is the default, and Python's floats are `Float`. An infinite
`retry_after` is `⊤`, and the clock is an argument.

`inflightOf_tryAdmit` and `inflightOf_release` say what the two calls do to the in-flight
counters: an admission counts one more for its tenant exactly if it is allowed, and a
release one less.
-/

namespace Gateway

/-- `Tenant`. -/
structure Tenant (F : Type := ℚ) where
  id : String
  rps : F
  tps : F
  maxInflight : Int
  tier : String
  deriving DecidableEq, Repr

/-- `TokenBucket`. -/
structure TokenBucket (F : Type := ℚ) where
  capacity : F
  refill : F
  tokens : F
  ts : F
  deriving DecidableEq, Repr

variable {F : Type} [OfNat F 0] [OfNat F 1] [Add F] [Sub F] [Mul F] [Div F] [Min F] [Max F]
  [LT F] [DecidableLT F] [LE F] [DecidableLE F]

namespace TokenBucket

/-- `TokenBucket(capacity, refill_per_sec)`. -/
def init (capacity refill : F) : TokenBucket F := ⟨capacity, refill, capacity, 0⟩

/-- `_replenish(now)`. -/
def replenish (t : TokenBucket F) (now : F) : TokenBucket F :=
  if t.ts < now then
    { t with tokens := min t.capacity (t.tokens + (now - t.ts) * t.refill), ts := now }
  else t

/-- `try_consume(n, now)`. -/
def tryConsume (t : TokenBucket F) (n now : F) : TokenBucket F × Bool :=
  let t := t.replenish now
  if n ≤ t.tokens then ({ t with tokens := t.tokens - n }, true) else (t, false)

/-- `deficit_seconds(n, now)`, with the bucket it leaves. -/
def deficitSeconds (t : TokenBucket F) (n now : F) : TokenBucket F × WithTop F :=
  let t := t.replenish now
  if n ≤ t.tokens then (t, (0 : F))
  else if t.refill ≤ 0 then (t, ⊤) else (t, ((n - t.tokens) / t.refill : F))

/-- `adjust(delta)`. -/
def adjust (t : TokenBucket F) (delta : F) : TokenBucket F :=
  { t with tokens := min t.capacity (t.tokens + delta) }

end TokenBucket

/-- Why an admission was refused. -/
inductive Refusal where
  | inflight
  | tps
  | rps
  deriving DecidableEq, Repr

/-- `Admission`; `allowed` is the absence of a `reason`. -/
structure Admission (F : Type := ℚ) where
  reason : Option Refusal
  retryAfter : WithTop F
  remainingRps : F
  remainingTps : F
  deriving DecidableEq

/-- `Admission.allowed`. -/
def Admission.allowed {F : Type} (a : Admission F) : Bool := a.reason.isNone

/-- `RateLimiter`. -/
structure RateLimiter (F : Type := ℚ) where
  rps : Dict String (TokenBucket F)
  tps : Dict String (TokenBucket F)
  inflight : Dict String Nat

namespace RateLimiter

/-- `RateLimiter()`. -/
def empty : RateLimiter F := ⟨.empty, .empty, .empty⟩

/-- `inflight[t]`. -/
def inflightOf (l : RateLimiter F) (t : String) : Nat := l.inflight.getD t 0

/-- `_buckets(t)`: the two tables after the call, and the tenant's buckets. -/
def buckets (l : RateLimiter F) (t : Tenant F) :
    RateLimiter F × TokenBucket F × TokenBucket F :=
  let l := if l.rps.contains t.id then l else
    { l with
      rps := l.rps.set t.id (.init (max 1 t.rps) t.rps)
      tps := l.tps.set t.id (.init t.tps t.tps) }
  (l, l.rps.getD t.id (.init (max 1 t.rps) t.rps), l.tps.getD t.id (.init t.tps t.tps))

/-- Write the tenant's buckets back. -/
def putBuckets (l : RateLimiter F) (t : Tenant F) (rps tps : TokenBucket F) : RateLimiter F :=
  { l with rps := l.rps.set t.id rps, tps := l.tps.set t.id tps }

/-- `admit(t, cost_tokens, now)`. -/
def tryAdmit (l : RateLimiter F) (t : Tenant F) (cost now : F) : RateLimiter F × Admission F :=
  let (l, rpsB, tpsB) := l.buckets t
  if t.maxInflight ≤ l.inflightOf t.id then
    (l, ⟨some .inflight, (1 : F), rpsB.tokens, tpsB.tokens⟩)
  else
    let (tpsB, fits) := tpsB.tryConsume cost now
    if !fits then
      let (tpsB, retry) := tpsB.deficitSeconds cost now
      (l.putBuckets t rpsB tpsB, ⟨some .tps, retry, rpsB.tokens, tpsB.tokens⟩)
    else
      let (rpsB, fits) := rpsB.tryConsume 1 now
      if !fits then
        -- give the reserved tokens back
        let tpsB := tpsB.adjust cost
        let (rpsB, retry) := rpsB.deficitSeconds 1 now
        (l.putBuckets t rpsB tpsB, ⟨some .rps, retry, rpsB.tokens, tpsB.tokens⟩)
      else
        let l := l.putBuckets t rpsB tpsB
        ({ l with inflight := l.inflight.set t.id (l.inflightOf t.id + 1) },
          ⟨none, (0 : F), rpsB.tokens, tpsB.tokens⟩)

/-- `release(t, reserved_output, actual_output)`. -/
def release (l : RateLimiter F) (t : Tenant F) (reserved actual : F) : RateLimiter F :=
  let l := { l with inflight := l.inflight.set t.id (l.inflightOf t.id - 1) }
  let (l, rpsB, tpsB) := l.buckets t
  l.putBuckets t rpsB (tpsB.adjust (reserved - actual))

theorem inflight_buckets (l : RateLimiter) (t : Tenant) : (l.buckets t).1.inflight = l.inflight := by
  unfold buckets
  dsimp only
  split <;> rfl

/-- An admission counts one request more for its tenant exactly if it is allowed. -/
theorem inflightOf_tryAdmit (l : RateLimiter) (t : Tenant) (cost now : ℚ) (id : String) :
    (l.tryAdmit t cost now).1.inflightOf id =
      if id = t.id ∧ (l.tryAdmit t cost now).2.allowed = true then l.inflightOf id + 1
      else l.inflightOf id := by
  have same := inflight_buckets l t
  unfold tryAdmit
  generalize l.buckets t = start at same
  obtain ⟨l', rpsB, tpsB⟩ := start
  dsimp only at same ⊢
  split
  · simp [inflightOf, same, Admission.allowed]
  · split
    · simp [inflightOf, putBuckets, same, Admission.allowed]
    · split
      · simp [inflightOf, putBuckets, same, Admission.allowed]
      · simp only [inflightOf, putBuckets, same, Admission.allowed, Dict.getD_set]
        by_cases here : id = t.id <;> simp [here]

/-- A release counts one request less for its tenant. -/
theorem inflightOf_release (l : RateLimiter) (t : Tenant) (reserved actual : ℚ) (id : String) :
    (l.release t reserved actual).inflightOf id =
      if id = t.id then l.inflightOf id - 1 else l.inflightOf id := by
  simp only [release, putBuckets, inflightOf, inflight_buckets, Dict.getD_set]
  split
  · rename_i here
    rw [here]
  · rfl

end RateLimiter

end Gateway
