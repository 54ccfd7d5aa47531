import Gateway.CircuitBreaker
import Gateway.Lib.Census
import Gateway.Lib.Machine
import Gateway.Rust.Router
import Gateway.Tenancy

/-!
The chat handler of the Rust gateway (`rust/src/server.rs`) under concurrent requests and
client disconnects.

Handlers run in parallel and share what they write through three mutexes, none held
across an await, so a run is a list of lock sections: the admission, the circuit filter,
one routing decision with its dispatch, the end of one `send().await` with the section
that follows it, one half of the guard's `drop`. Nothing is enforced about the clock
readings, which are taken outside the locks.

A handler future can only be dropped at an await. The one that matters is
`send().await`: whatever the request took before is then given back by nobody, as the
`InflightGuard` is built after it. Once the response is returned, dropping its body drops
the guard. A panic while `inner` is locked poisons that mutex, and the `unwrap` of every
later `lock` panics too; `drop` skips a poisoned mutex.

`parsed["cache_salt"] = …` panics too, on a body that is neither an object nor `null`. No
mutex is locked there, but the request is admitted and has no guard yet.

`calls` is bookkeeping: for every request its calls of `on_dispatch`, `on_complete`,
`admit` (when allowed) and `release`. Metrics, logging and a body that is no JSON (400)
touch none of this.

* `Server.Balanced`: every counter is the number of requests that count in it, and every
  request has given back all it took but what it still holds.
* `counters_settle`: this holds in every state of a run in which nobody disconnects at
  `send().await`, every body of an admitted request takes its salt and routing does not
  panic; so all counters are `0` once all requests are gone.
* `counters_leak_on_disconnect`: one client that leaves at `send().await`.
-/

namespace Gateway

/-- `release(tenant_id, reserved_output, actual_output)` of the Rust limiter: a tenant
without buckets gets none. -/
def RateLimiter.releaseById (l : RateLimiter) (id : String) (reserved actual : ℚ) : RateLimiter :=
  let l := { l with inflight := l.inflight.set id (l.inflightOf id - 1) }
  match l.tps.get? id with
  | some bucket => { l with tps := l.tps.set id (bucket.adjust (reserved - actual)) }
  | none => l

theorem RateLimiter.inflightOf_releaseById (l : RateLimiter) (id : String) (reserved actual : ℚ)
    (t : String) : (l.releaseById id reserved actual).inflightOf t =
      if t = id then l.inflightOf id - 1 else l.inflightOf t := by
  unfold releaseById
  dsimp only
  split <;> exact Dict.getD_set ..

namespace Rust

/-- What the server is started with. -/
structure Setup where
  cfg : Config := {}
  backends : List (String × String)

/-- What the handler reads off a request. -/
structure Request where
  tenant : Tenant
  prompt : String
  strategy : Option Strategy
  inputTokens : Nat
  reservedOutput : Nat
  /-- The body is an object or `null`: `parsed["cache_salt"]` can be set. -/
  takesSalt : Bool
  deriving DecidableEq

/-- Where a request is. -/
inductive Phase where
  /-- Admitted; the circuit filter comes next. -/
  | admitted (req : Request)
  /-- At the head of the failover loop, with `left` iterations to go. -/
  | routing (req : Request) (remaining : List String) (left : Nat)
  /-- Dispatched to a backend without a URL. -/
  | unlisted (req : Request) (r : RouteResult) (remaining : List String) (left : Nat)
  /-- At `send().await`. -/
  | sending (req : Request) (r : RouteResult) (remaining : List String) (left : Nat)
  /-- `send()` failed; `record_failure` comes next. -/
  | failed (req : Request) (r : RouteResult) (remaining : List String) (left : Nat)
  /-- The response is returned, its body holds the guard. -/
  | streaming (req : Request) (r : RouteResult)
  /-- The guard is being dropped; its second half comes next. -/
  | releasing (req : Request)
  | ended

/-- A call that takes or gives back. -/
inductive Call where
  | onDispatch (b : String)
  | onComplete (b : String)
  | admission (tenant : String)
  | release (tenant : String)
  deriving DecidableEq, Repr

/-- `AppState`, and its requests. -/
structure Server where
  tree : RustTree Nat String
  load : LoadTracker String
  router : Router
  poisoned : Bool
  breaker : CircuitBreaker String
  limiter : RateLimiter
  phase : Nat → Phase
  calls : Nat → List Call
  next : Nat

namespace Setup

/-- `backend_ids`. -/
def backendIds (su : Setup) : List String := su.backends.map Prod.fst

/-- `seed`. -/
def seed (su : Setup) (req : Request) : Nat :=
  if su.cfg.prefixIsolation then Hashing.stableSeed req.tenant.id else 0

/-- `strategy`. -/
def strategyOf (su : Setup) (req : Request) : Strategy := req.strategy.getD su.cfg.strategy

end Setup

namespace Server

variable (su : Setup)

/-- A server without requests. -/
def init : Server where
  tree := .init su.cfg.backendCacheBlocks
  load := .empty
  router := ⟨0⟩
  poisoned := false
  breaker := .init su.cfg.circuitFailThreshold su.cfg.circuitCooldown
  limiter := .empty
  phase := fun _ => .ended
  calls := fun _ => []
  next := 0

/-- Request `i` goes to another phase. -/
def setPhase (s : Server) (i : Nat) (p : Phase) : Server :=
  { s with phase := Function.update s.phase i p }

/-- Remember a call. -/
def note (s : Server) (i : Nat) (call : Call) : Server :=
  { s with calls := Function.update s.calls i (s.calls i ++ [call]) }

/-- A handler panics: nothing it took is given back. -/
def panic (s : Server) (i : Nat) : Server := s.setPhase i .ended

/-- `load.on_dispatch(backend, tokens)`. -/
def onDispatch (s : Server) (i : Nat) (r : RouteResult) : Server :=
  { s.note i (.onDispatch r.backendId) with load := s.load.onDispatch r.backendId r.tokens }

/-- `load.on_complete(backend, tokens)`. -/
def onComplete (s : Server) (i : Nat) (r : RouteResult) : Server :=
  { s.note i (.onComplete r.backendId) with load := s.load.onComplete r.backendId r.tokens }

/-- `if admitted { limiter.release(&tenant.id, reserved_output, actual) }`. -/
def release (s : Server) (i : Nat) (req : Request) (actual : ℚ) : Server :=
  if su.cfg.rateLimitEnabled then
    { s.note i (.release req.tenant.id) with
      limiter := s.limiter.releaseById req.tenant.id req.reservedOutput actual }
  else s

/-- A request arrives: up to and with `admit`. A refused one is answered 429 and leaves
nothing behind. -/
def arrive (s : Server) (req : Request) (now : ℚ) : Server :=
  if su.cfg.rateLimitEnabled then
    let (limiter, adm) := s.limiter.tryAdmit req.tenant (req.inputTokens + req.reservedOutput) now
    let s := { s with limiter := limiter }
    if adm.allowed then
      { (s.note s.next (.admission req.tenant.id)).setPhase s.next (.admitted req) with
        next := s.next + 1 }
    else s
  else { s.setPhase s.next (.admitted req) with next := s.next + 1 }

/-- The backends, or 503; the salt; then the circuit filter. -/
def filter (s : Server) (i : Nat) (now : ℚ) : Option Server :=
  match s.phase i with
  | .admitted req =>
      if su.backendIds.isEmpty then some ((s.release su i req 0).setPhase i .ended)
      -- `parsed["cache_salt"] = …`
      else if su.cfg.prefixIsolation && !req.takesSalt then some (s.panic i)
      else
        let closed := su.backendIds.filter fun b => s.breaker.allow b now
        let remaining := if closed.isEmpty then su.backendIds else closed
        some (s.setPhase i (.routing req remaining (su.cfg.maxRetries + 1)))
  | _ => none

/-- One iteration of the failover loop up to `send().await`, or 502 after the last. -/
def route (s : Server) (i : Nat) (it : Iteration) : Option Server :=
  match s.phase i with
  | .routing req _ 0 => some ((s.release su i req 0).setPhase i .ended)
  | .routing req remaining (left + 1) =>
      if remaining.isEmpty then some ((s.release su i req 0).setPhase i .ended)
      else if s.poisoned then some (s.panic i)
      else
        match s.router.choose su.cfg s.load s.tree req.prompt remaining (su.strategyOf req)
          (su.seed req) with
        | none => some { s.panic i with poisoned := true }
        | some (r, router) =>
            let s := { s with router := router, tree := s.tree.insert it r.hashes r.backendId }
            let s := s.onDispatch i r
            -- `backends.iter().find(|b| b.id == res.backend_id)`
            if (su.backends.find? fun b => b.1 = r.backendId).isSome then
              some (s.setPhase i (.sending req r remaining left))
            else some (s.setPhase i (.unlisted req r remaining left))
  | _ => none

/-- `on_complete` for a backend without a URL, then `continue`. -/
def skip (s : Server) (i : Nat) : Option Server :=
  match s.phase i with
  | .unlisted req r remaining left =>
      if s.poisoned then some (s.panic i)
      else some ((s.onComplete i r).setPhase i (.routing req remaining left))
  | _ => none

/-- `send()` returns a response: `record_success`, and the guard is built. -/
def answered (s : Server) (i : Nat) : Option Server :=
  match s.phase i with
  | .sending req r _ _ =>
      some { s.setPhase i (.streaming req r) with breaker := s.breaker.recordSuccess r.backendId }
  | _ => none

/-- `send()` returns an error: `on_complete`. -/
def refused (s : Server) (i : Nat) : Option Server :=
  match s.phase i with
  | .sending req r remaining left =>
      if s.poisoned then some (s.panic i)
      else some ((s.onComplete i r).setPhase i (.failed req r remaining left))
  | _ => none

/-- `record_failure`, and the backend is no candidate any more. -/
def recordFailure (s : Server) (i : Nat) (now : ℚ) : Option Server :=
  match s.phase i with
  | .failed req r remaining left =>
      let remaining := remaining.filter fun b => b ≠ r.backendId
      some { s.setPhase i (.routing req remaining left) with
        breaker := s.breaker.recordFailure r.backendId now }
  | _ => none

/-- The first half of the guard's `drop`. -/
def dropGuard (s : Server) (i : Nat) : Option Server :=
  match s.phase i with
  | .streaming req r =>
      let s := if s.poisoned then s else s.onComplete i r
      some (s.setPhase i (.releasing req))
  | _ => none

/-- The second half of the guard's `drop`: the whole reservation counts as used. -/
def releaseGuard (s : Server) (i : Nat) : Option Server :=
  match s.phase i with
  | .releasing req => some ((s.release su i req req.reservedOutput).setPhase i .ended)
  | _ => none

/-- The client goes away: at `send().await` the handler future is dropped, later the body
with its guard. -/
def disconnect (s : Server) (i : Nat) : Option Server :=
  match s.phase i with
  | .sending _ _ _ _ => some (s.setPhase i .ended)
  | .streaming _ _ => s.dropGuard i
  | _ => none

/-- A lock section. -/
inductive Act where
  | arrive (req : Request) (now : ℚ)
  | filter (i : Nat) (now : ℚ)
  | route (i : Nat) (it : Iteration)
  | skip (i : Nat)
  | answered (i : Nat)
  | refused (i : Nat)
  | recordFailure (i : Nat) (now : ℚ)
  | finished (i : Nat)
  | releaseGuard (i : Nat)
  | disconnect (i : Nat)

/-- One lock section. -/
def step (s : Server) : Act → Option Server
  | .arrive req now => some (s.arrive su req now)
  | .filter i now => s.filter su i now
  | .route i it => s.route su i it
  | .skip i => s.skip i
  | .answered i => s.answered i
  | .refused i => s.refused i
  | .recordFailure i now => s.recordFailure i now
  | .finished i => s.dropGuard i
  | .releaseGuard i => s.releaseGuard su i
  | .disconnect i => s.disconnect i

end Server

/-! ### What a request holds -/

namespace Phase

/-- The unfinished request. -/
def req? : Phase → Option Request
  | admitted req | routing req _ _ | unlisted req _ _ _ | sending req _ _ _ | failed req _ _ _
  | streaming req _ | releasing req => some req
  | ended => none

/-- The backend whose in-flight count has the request. -/
def backend : Phase → Option String
  | unlisted _ r _ _ | sending _ r _ _ | streaming _ r => some r.backendId
  | _ => none

/-- The request is at `send().await`. -/
def awaitsSend : Phase → Bool
  | sending _ _ _ _ => true
  | _ => false

end Phase

/-- A request counts against a tenant's quota. -/
def Setup.HoldsQuota (su : Setup) (p : Phase) (t : String) : Prop :=
  su.cfg.rateLimitEnabled = true ∧ (p.req?.map fun req => req.tenant.id) = some t

instance Setup.decidableHoldsQuota (su : Setup) (p : Phase) (t : String) :
    Decidable (su.HoldsQuota p t) :=
  inferInstanceAs (Decidable (_ ∧ _))

namespace Server

variable {su : Setup} {s s' : Server} {i : Nat} {req : Request} {r : RouteResult}

/-- **The condition on a lock section**: no client leaves at `send().await`, no salt is put into
a body that takes none while quotas are on, and routing does not panic. -/
def Clean (su : Setup) (s : Server) : Act → Prop
  | .disconnect i => (s.phase i).awaitsSend = false
  | .filter i _ => su.cfg.rateLimitEnabled = true → su.backendIds ≠ [] →
      su.cfg.prefixIsolation = true → ∀ req ∈ (s.phase i).req?, req.takesSalt = true
  | .route i _ => ∀ req ∈ (s.phase i).req?, su.cfg.Routes req.prompt (su.strategyOf req)
  | _ => True

instance decidableClean (su : Setup) (s : Server) : (act : Act) → Decidable (s.Clean su act)
  | .disconnect _ => inferInstanceAs (Decidable (_ = _))
  | .filter i _ => inferInstanceAs (Decidable (_ = _ → _ ≠ _ → _ = _ → ∀ req ∈ (s.phase i).req?, _))
  | .route i _ => inferInstanceAs (Decidable (∀ req ∈ (s.phase i).req?, _))
  | .arrive _ _ | .skip _ | .answered _ | .refused _ | .recordFailure _ _ | .finished _
  | .releaseGuard _ => inferInstanceAs (Decidable True)

/-- Every counter is the number of its holders, and every request has given back what it
does not hold. -/
structure Balanced (su : Setup) (s : Server) : Prop where
  healthy : s.poisoned = false
  idle : ∀ i, s.next ≤ i → s.phase i = .ended ∧ s.calls i = []
  load : ∀ b, s.load.inflightOf b = census (fun i => (s.phase i).backend = some b) s.next
  quota : ∀ t, s.limiter.inflightOf t = census (fun i => su.HoldsQuota (s.phase i) t) s.next
  completed : ∀ i b, (s.calls i).count (.onDispatch b) =
    (s.calls i).count (.onComplete b) + tally ((s.phase i).backend = some b)
  released : ∀ i t, (s.calls i).count (.admission t) =
    (s.calls i).count (.release t) + tally (su.HoldsQuota (s.phase i) t)

theorem Balanced.lt_next (bal : s.Balanced su) (busy : (s.phase i).req? = some req) :
    i < s.next := by
  by_contra late
  rw [(bal.idle i (Nat.le_of_not_lt late)).1] at busy
  cases busy

/-- The calls of one request follow what it holds. -/
theorem calls_follow (holds : Phase → Prop) [DecidablePred holds] {gain give : Call} {p : Phase}
    {new : List Call} (phase : s'.phase = Function.update s.phase i p)
    (calls : s'.calls = Function.update s.calls i (s.calls i ++ new))
    (before : ∀ j, (s.calls j).count gain = (s.calls j).count give + tally (holds (s.phase j)))
    (added : new.count gain + tally (holds (s.phase i)) = new.count give + tally (holds p)) (j : Nat) :
    (s'.calls j).count gain = (s'.calls j).count give + tally (holds (s'.phase j)) := by
  rw [phase, calls]
  by_cases same : j = i
  · subst same
    have old := before j
    rw [Function.update_self, Function.update_self, List.count_append, List.count_append]
    omega
  · rw [Function.update_of_ne same, Function.update_of_ne same]
    exact before j

/-- One request changes: its counters and its calls follow what it holds. -/
theorem Balanced.change (bal : s.Balanced su) (bound : i < s.next) {p : Phase} (new : List Call)
    (phase : s'.phase = Function.update s.phase i p)
    (calls : s'.calls = Function.update s.calls i (s.calls i ++ new))
    (next : s'.next = s.next) (healthy : s'.poisoned = s.poisoned)
    (load : ∀ b, s'.load.inflightOf b + tally ((s.phase i).backend = some b) =
      s.load.inflightOf b + tally (p.backend = some b))
    (quota : ∀ t, s'.limiter.inflightOf t + tally (su.HoldsQuota (s.phase i) t) =
      s.limiter.inflightOf t + tally (su.HoldsQuota p t))
    (completed : ∀ b, new.count (.onDispatch b) + tally ((s.phase i).backend = some b) =
      new.count (.onComplete b) + tally (p.backend = some b))
    (released : ∀ t, new.count (.admission t) + tally (su.HoldsQuota (s.phase i) t) =
      new.count (.release t) + tally (su.HoldsQuota p t)) : s'.Balanced su := by
  constructor
  · rw [healthy]
    exact bal.healthy
  · intro j late
    have ne : j ≠ i := by omega
    rw [phase, calls, Function.update_of_ne ne, Function.update_of_ne ne]
    exact bal.idle j (next ▸ late)
  · intro b
    rw [next]
    exact census_follow (fun p : Phase => p.backend = some b) bound phase (bal.load b) (load b)
  · intro t
    rw [next]
    exact census_follow (fun p : Phase => su.HoldsQuota p t) bound phase (bal.quota t) (quota t)
  · intro j b
    exact calls_follow (fun p : Phase => p.backend = some b) phase calls (bal.completed · b)
      (completed b) j
  · intro j t
    exact calls_follow (fun p : Phase => su.HoldsQuota p t) phase calls (bal.released · t)
      (released t) j

theorem tally_holdsQuota_congr {p q : Phase} (same : p.req? = q.req?) (t : String) :
    tally (su.HoldsQuota p t) = tally (su.HoldsQuota q t) := by
  apply tally_congr
  rw [Setup.HoldsQuota, Setup.HoldsQuota, same]

/-- A request moves on and holds what it held. -/
theorem Balanced.advance (bal : s.Balanced su) (bound : i < s.next) {p : Phase}
    (backend : (s.phase i).backend = p.backend) (request : (s.phase i).req? = p.req?)
    (phase : s'.phase = Function.update s.phase i p) (calls : s'.calls = s.calls)
    (next : s'.next = s.next) (healthy : s'.poisoned = s.poisoned) (load : s'.load = s.load)
    (limiter : s'.limiter = s.limiter) : s'.Balanced su := by
  refine bal.change bound [] phase ?_ next healthy ?_ ?_ ?_ ?_
  · rw [calls, List.append_nil, Function.update_eq_self]
  · intro b
    rw [load, backend]
  · intro t
    rw [limiter, tally_holdsQuota_congr request]
  · intro b
    rw [backend]
    simp
  · intro t
    rw [tally_holdsQuota_congr request]
    simp

/-- A request is dispatched. -/
theorem Balanced.onDispatch (bal : s.Balanced su) (bound : i < s.next) {p : Phase}
    (free : (s.phase i).backend = none) (backend : p.backend = some r.backendId)
    (request : (s.phase i).req? = p.req?) :
    ((s.onDispatch i r).setPhase i p).Balanced su := by
  refine bal.change bound [.onDispatch r.backendId] rfl rfl rfl rfl ?_ ?_ ?_ ?_
  · intro b
    simp only [Server.setPhase, Server.onDispatch, LoadTracker.inflightOf_onDispatch, free, backend]
    by_cases here : b = r.backendId
    · simp [tally, here]
    · simp [tally, here, Ne.symm here]
  · intro t
    rw [tally_holdsQuota_congr request]
    rfl
  · intro b
    rw [free, backend]
    by_cases here : b = r.backendId
    · simp [tally, here]
    · simp [tally, Ne.symm here]
  · intro t
    rw [tally_holdsQuota_congr request]
    simp

/-- A dispatch is completed. -/
theorem Balanced.onComplete (bal : s.Balanced su) (bound : i < s.next) {p : Phase}
    (held : (s.phase i).backend = some r.backendId) (backend : p.backend = none)
    (request : (s.phase i).req? = p.req?) :
    ((s.onComplete i r).setPhase i p).Balanced su := by
  refine bal.change bound [.onComplete r.backendId] rfl rfl rfl rfl ?_ ?_ ?_ ?_
  · intro b
    simp only [Server.setPhase, Server.onComplete, LoadTracker.inflightOf_onComplete, held, backend]
    by_cases here : b = r.backendId
    · subst here
      have counted : 0 < s.load.inflightOf r.backendId := by
        rw [bal.load]
        exact census_pos bound held
      simp [tally]
      omega
    · simp [tally, here, Ne.symm here]
  · intro t
    rw [tally_holdsQuota_congr request]
    rfl
  · intro b
    rw [held, backend]
    by_cases here : b = r.backendId
    · simp [tally, here]
    · simp [tally, Ne.symm here]
  · intro t
    rw [tally_holdsQuota_congr request]
    simp

/-- Without quotas, a request that is on no backend has nothing to give back. -/
theorem Balanced.giveUp (bal : s.Balanced su) (held : (s.phase i).req? = some req)
    (free : (s.phase i).backend = none) (off : ¬ su.cfg.rateLimitEnabled = true) :
    (s.setPhase i .ended).Balanced su := by
  have nothing : ∀ p t, ¬ su.HoldsQuota p t := fun _ _ holds => off holds.1
  refine bal.change (bal.lt_next held) [] rfl ?_ rfl rfl ?_ ?_ ?_ ?_
  · rw [List.append_nil, Function.update_eq_self]
    rfl
  · intro b
    rw [free]
    rfl
  · intro t
    rw [tally_of_not (nothing _ t), tally_of_not (nothing _ t)]
    rfl
  · intro b
    rw [free]
    rfl
  · intro t
    rw [tally_of_not (nothing _ t), tally_of_not (nothing _ t)]
    rfl

/-- A request that is on no backend gives its quota back and ends. -/
theorem Balanced.release (bal : s.Balanced su) (held : (s.phase i).req? = some req)
    (free : (s.phase i).backend = none) (actual : ℚ) :
    ((s.release su i req actual).setPhase i .ended).Balanced su := by
  have bound := bal.lt_next held
  unfold Server.release
  split
  · rename_i on
    have quota : ∀ t, su.HoldsQuota (s.phase i) t ↔ req.tenant.id = t := by
      intro t
      simp [Setup.HoldsQuota, on, held]
    have none_left : ∀ t, ¬ su.HoldsQuota .ended t := by
      intro t
      simp [Setup.HoldsQuota, Phase.req?]
    refine bal.change bound [.release req.tenant.id] rfl rfl rfl rfl ?_ ?_ ?_ ?_
    · intro b
      rw [free]
      rfl
    · intro t
      simp only [Server.setPhase, RateLimiter.inflightOf_releaseById]
      rw [tally_of_not (none_left t), tally_congr (quota t)]
      by_cases here : t = req.tenant.id
      · have counted : 0 < s.limiter.inflightOf req.tenant.id := by
          rw [bal.quota]
          exact census_pos bound ((quota _).mpr rfl)
        simp [tally, here]
        omega
      · simp [tally, here, Ne.symm here]
    · intro b
      rw [free]
      simp [Phase.backend]
    · intro t
      rw [tally_of_not (none_left t), tally_congr (quota t)]
      by_cases here : t = req.tenant.id
      · simp [tally, here]
      · simp [tally, Ne.symm here]
  · rename_i off
    exact bal.giveUp held free off

/-- A request is numbered. It is on no backend yet. -/
theorem Balanced.enrol (bal : s.Balanced su) {p : Phase} (new : List Call)
    (phase : s'.phase = Function.update s.phase s.next p)
    (calls : s'.calls = Function.update s.calls s.next new) (next : s'.next = s.next + 1)
    (healthy : s'.poisoned = s.poisoned) (load : s'.load = s.load) (free : p.backend = none)
    (quota : ∀ t, s'.limiter.inflightOf t = s.limiter.inflightOf t + tally (su.HoldsQuota p t))
    (completed : ∀ b, new.count (.onDispatch b) = new.count (.onComplete b))
    (released : ∀ t, new.count (.admission t) =
      new.count (.release t) + tally (su.HoldsQuota p t)) : s'.Balanced su := by
  have here : s'.phase s.next = p := by rw [phase, Function.update_self]
  have there : ∀ j, j ≠ s.next → s'.phase j = s.phase j := fun j ne => by
    rw [phase, Function.update_of_ne ne]
  constructor
  · rw [healthy]
    exact bal.healthy
  · intro j late
    have ne : j ≠ s.next := by omega
    rw [there j ne, calls, Function.update_of_ne ne]
    exact bal.idle j (by omega)
  · intro b
    rw [next, load, census_state_arrive (fun p : Phase => p.backend = some b)
      fun j below => there j (Nat.ne_of_lt below), here, free, bal.load b]
    simp [tally]
  · intro t
    rw [next, census_state_arrive (fun p : Phase => su.HoldsQuota p t)
      fun j below => there j (Nat.ne_of_lt below), here, quota t, bal.quota t]
  · intro j b
    by_cases same : j = s.next
    · subst same
      rw [here, calls, Function.update_self, completed b, free]
      simp [tally]
    · rw [there j same, calls, Function.update_of_ne same]
      exact bal.completed j b
  · intro j t
    by_cases same : j = s.next
    · subst same
      rw [here, calls, Function.update_self, released t]
    · rw [there j same, calls, Function.update_of_ne same]
      exact bal.released j t

theorem Balanced.arrive (bal : s.Balanced su) (req : Request) (now : ℚ) :
    (s.arrive su req now).Balanced su := by
  unfold Server.arrive
  split
  · rename_i on
    have holds : ∀ t, su.HoldsQuota (.admitted req) t ↔ req.tenant.id = t := by
      intro t
      simp [Setup.HoldsQuota, on, Phase.req?]
    have inflight := s.limiter.inflightOf_tryAdmit req.tenant (req.inputTokens + req.reservedOutput)
      now
    dsimp only
    split
    · rename_i allowed
      refine bal.enrol [.admission req.tenant.id] rfl ?_ rfl rfl rfl rfl ?_ (fun b => by simp) ?_
      · show Function.update s.calls s.next (s.calls s.next ++ _) = _
        rw [(bal.idle s.next (Nat.le_refl _)).2, List.nil_append]
      · intro t
        rw [tally_congr (holds t)]
        refine (inflight t).trans ?_
        by_cases here : t = req.tenant.id
        · simp [tally, here, allowed]
        · simp [tally, here, Ne.symm here]
      · intro t
        rw [tally_congr (holds t)]
        by_cases here : t = req.tenant.id
        · simp [tally, here]
        · simp [tally, Ne.symm here]
    · rename_i refused
      refine ⟨bal.healthy, bal.idle, bal.load, fun t => ?_, bal.completed, bal.released⟩
      refine (inflight t).trans ?_
      simpa [refused] using bal.quota t
  · rename_i off
    have nothing : ∀ t, ¬ su.HoldsQuota (.admitted req) t := fun t holds => off holds.1
    refine bal.enrol [] rfl ?_ rfl rfl rfl rfl ?_ (fun _ => rfl) ?_
    · show s.calls = _
      rw [← (bal.idle s.next (Nat.le_refl _)).2, Function.update_eq_self]
    · intro t
      rw [tally_of_not (nothing t)]
      rfl
    · intro t
      rw [tally_of_not (nothing t)]
      rfl

theorem Balanced.filter (bal : s.Balanced su) {now : ℚ} (clean : s.Clean su (.filter i now))
    (taken : s.filter su i now = some s') : s'.Balanced su := by
  unfold Server.filter at taken
  split at taken
  · rename_i req at_phase
    have held : (s.phase i).req? = some req := by rw [at_phase]; rfl
    have free : (s.phase i).backend = none := by rw [at_phase]; rfl
    split at taken
    · cases taken
      exact bal.release held free 0
    · rename_i some_backend
      split at taken
      · rename_i unsalted
        cases taken
        -- an admitted request would keep its slot
        refine bal.giveUp held free fun on => ?_
        simp only [Bool.and_eq_true, Bool.not_eq_true'] at unsalted
        have salted := clean on (by simpa using some_backend) unsalted.1 req held
        rw [unsalted.2] at salted
        cases salted
      · cases taken
        exact bal.advance (p := .routing req _ _) (bal.lt_next held) free held rfl rfl rfl rfl rfl rfl
  · cases taken

theorem Balanced.route (bal : s.Balanced su) {it : Iteration} (clean : s.Clean su (.route i it))
    (taken : s.route su i it = some s') : s'.Balanced su := by
  unfold Server.route at taken
  split at taken
  · rename_i req remaining at_phase
    cases taken
    exact bal.release (by rw [at_phase]; rfl) (by rw [at_phase]; rfl) 0
  · rename_i req remaining left at_phase
    have held : (s.phase i).req? = some req := by rw [at_phase]; rfl
    have free : (s.phase i).backend = none := by rw [at_phase]; rfl
    split at taken
    · cases taken
      exact bal.release held free 0
    · rename_i some_left
      have routes := clean req held
      have chosen : (s.router.choose su.cfg s.load s.tree req.prompt remaining
          (su.strategyOf req) (su.seed req)).isSome = true :=
        Router.choose_isSome routes (by simpa using some_left)
      have sound : ¬ s.poisoned = true := by simp [bal.healthy]
      obtain ⟨⟨r, router⟩, chosen⟩ := Option.isSome_iff_exists.mp chosen
      simp only [if_neg sound, chosen] at taken
      have routed : Balanced su
          { s with router := router, tree := s.tree.insert it r.hashes r.backendId } :=
        ⟨bal.healthy, bal.idle, bal.load, bal.quota, bal.completed, bal.released⟩
      split at taken
      · cases taken
        exact routed.onDispatch (p := .sending req r remaining left) (bal.lt_next held) free rfl held
      · cases taken
        exact routed.onDispatch (p := .unlisted req r remaining left) (bal.lt_next held) free rfl held
  · cases taken

theorem Balanced.skip (bal : s.Balanced su) (taken : s.skip i = some s') : s'.Balanced su := by
  unfold Server.skip at taken
  split at taken
  · rename_i req r remaining left at_phase
    have held : (s.phase i).req? = some req := by rw [at_phase]; rfl
    rw [bal.healthy] at taken
    cases taken
    exact bal.onComplete (bal.lt_next held) (by rw [at_phase]; rfl) rfl held
  · cases taken

theorem Balanced.answered (bal : s.Balanced su) (taken : s.answered i = some s') :
    s'.Balanced su := by
  unfold Server.answered at taken
  split at taken
  · rename_i req r remaining left at_phase
    have held : (s.phase i).req? = some req := by rw [at_phase]; rfl
    cases taken
    exact bal.advance (p := .streaming req r) (bal.lt_next held) (by rw [at_phase]; rfl) held
      rfl rfl rfl rfl rfl rfl
  · cases taken

theorem Balanced.refused (bal : s.Balanced su) (taken : s.refused i = some s') :
    s'.Balanced su := by
  unfold Server.refused at taken
  split at taken
  · rename_i req r remaining left at_phase
    have held : (s.phase i).req? = some req := by rw [at_phase]; rfl
    rw [bal.healthy] at taken
    cases taken
    exact bal.onComplete (bal.lt_next held) (by rw [at_phase]; rfl) rfl held
  · cases taken

theorem Balanced.recordFailure (bal : s.Balanced su) {now : ℚ}
    (taken : s.recordFailure i now = some s') : s'.Balanced su := by
  unfold Server.recordFailure at taken
  split at taken
  · rename_i req r remaining left at_phase
    have held : (s.phase i).req? = some req := by rw [at_phase]; rfl
    cases taken
    exact bal.advance (p := .routing req _ left) (bal.lt_next held) (by rw [at_phase]; rfl) held
      rfl rfl rfl rfl rfl rfl
  · cases taken

theorem Balanced.dropGuard (bal : s.Balanced su) (taken : s.dropGuard i = some s') :
    s'.Balanced su := by
  unfold Server.dropGuard at taken
  split at taken
  · rename_i req r at_phase
    have held : (s.phase i).req? = some req := by rw [at_phase]; rfl
    rw [bal.healthy] at taken
    cases taken
    exact bal.onComplete (bal.lt_next held) (by rw [at_phase]; rfl) rfl held
  · cases taken

theorem Balanced.releaseGuard (bal : s.Balanced su) (taken : s.releaseGuard su i = some s') :
    s'.Balanced su := by
  unfold Server.releaseGuard at taken
  split at taken
  · rename_i req at_phase
    cases taken
    exact bal.release (by rw [at_phase]; rfl) (by rw [at_phase]; rfl) _
  · cases taken

theorem Balanced.disconnect (bal : s.Balanced su) (clean : s.Clean su (.disconnect i))
    (taken : s.disconnect i = some s') : s'.Balanced su := by
  unfold Server.disconnect at taken
  split at taken
  · rename_i req r remaining left at_phase
    rw [Server.Clean, at_phase] at clean
    cases clean
  · exact bal.dropGuard taken
  · cases taken

/-- **One lock section.** -/
theorem Balanced.step (bal : s.Balanced su) {act : Act} (clean : s.Clean su act)
    (taken : s.step su act = some s') : s'.Balanced su := by
  cases act with
  | arrive req now =>
      cases taken
      exact bal.arrive req now
  | filter i now => exact bal.filter clean taken
  | route i it => exact bal.route clean taken
  | skip i => exact bal.skip taken
  | answered i => exact bal.answered taken
  | refused i => exact bal.refused taken
  | recordFailure i now => exact bal.recordFailure taken
  | finished i => exact bal.dropGuard taken
  | releaseGuard i => exact bal.releaseGuard taken
  | disconnect i => exact bal.disconnect clean taken

theorem init_balanced (su : Setup) : (init su).Balanced su where
  healthy := rfl
  idle := fun _ _ => ⟨rfl, rfl⟩
  load := fun _ => rfl
  quota := fun _ => rfl
  completed := fun _ _ => rfl
  released := by
    intro i t
    rw [tally_of_not (by simp [Setup.HoldsQuota, init, Phase.req?])]
    rfl

/-- Every request is gone. -/
def Quiet (s : Server) : Prop := ∀ i < s.next, (s.phase i).req? = none

instance decidableQuiet (s : Server) : Decidable s.Quiet :=
  inferInstanceAs (Decidable (∀ i < s.next, _))

/-- All counters are at zero, and every request has made as many `on_complete` calls for a
backend as `on_dispatch` calls, and as many `release` calls as it was admitted. -/
structure Settled (s : Server) : Prop where
  load : ∀ b, s.load.inflightOf b = 0
  quota : ∀ t, s.limiter.inflightOf t = 0
  completed : ∀ i b, (s.calls i).count (.onDispatch b) = (s.calls i).count (.onComplete b)
  released : ∀ i t, (s.calls i).count (.admission t) = (s.calls i).count (.release t)

theorem Balanced.settled (bal : s.Balanced su) (quiet : s.Quiet) : s.Settled := by
  have gone : ∀ i, (s.phase i).req? = none := by
    intro i
    by_cases early : i < s.next
    · exact quiet i early
    · rw [(bal.idle i (Nat.le_of_not_lt early)).1]
      rfl
  have off : ∀ i b, (s.phase i).backend ≠ some b := by
    intro i b on
    have := gone i
    cases at_phase : s.phase i <;> rw [at_phase] at on this <;> cases on <;> cases this
  have free : ∀ i t, ¬ su.HoldsQuota (s.phase i) t := by
    intro i t holds
    have := holds.2
    rw [gone i] at this
    cases this
  constructor
  · intro b
    rw [bal.load, census_eq_zero_iff]
    exact fun i _ => off i b
  · intro t
    rw [bal.quota, census_eq_zero_iff]
    exact fun i _ => free i t
  · intro i b
    rw [bal.completed, tally_of_not (off i b), Nat.add_zero]
  · intro i t
    rw [bal.released, tally_of_not (free i t), Nat.add_zero]

/-- **Nothing leaks but at `send().await` and in a panic.** In every run in which no client
disconnects there, every body of an admitted request takes its salt and routing does not panic,
whatever the interleaving, the failures and the other disconnects: the counters of every state are
the numbers of requests that hold them, and when all requests are gone, everything is given back. -/
theorem counters_settle {acts : List Act} {s : Server}
    (clean : Machine.Along (step su) (Clean su) (init su) acts)
    (reach : Machine.run (step su) (init su) acts = some s) :
    s.Balanced su ∧ (s.Quiet → s.Settled) := by
  have bal : s.Balanced su :=
    Machine.run_invariant_along (fun _ _ _ bal clean taken => bal.step clean taken)
      (init_balanced su) clean reach
  exact ⟨bal, bal.settled⟩

/-! ### A client that leaves at `send().await` -/

/-- A backend, and rate limiting. -/
def oneBackend : Setup where
  cfg := { rateLimitEnabled := true, strategy := .roundRobin }
  backends := [("b0", "http://b0")]

/-- A short prompt of a tenant with room for it. -/
def shortPrompt : Request where
  tenant := ⟨"t", 5, 10000, 8, "bronze"⟩
  prompt := "hi"
  strategy := none
  inputTokens := 1
  reservedOutput := 256
  takesSalt := true

/-- Tables that iterate in the order of their keys. -/
def inOrder : Iteration where
  order := fun _ keys => keys
  perm := fun _ keys => List.Perm.refl keys

/-- One request is answered and streamed until its client leaves; another cannot connect
and is answered 502. -/
def streamedAndRefused : List Act :=
  [.arrive shortPrompt 0, .arrive shortPrompt 0, .filter 0 0, .filter 1 0, .route 0 inOrder,
    .route 1 inOrder, .answered 0, .refused 1, .disconnect 0, .recordFailure 1 1,
    .releaseGuard 0, .route 1 inOrder]

theorem counters_settle_streamed :
    ∃ s, Machine.run (step oneBackend) (init oneBackend) streamedAndRefused = some s ∧
      s.Quiet ∧ s.next = 2 ∧ s.Settled := by
  obtain ⟨s, reach, quiet, both⟩ : ∃ s,
      Machine.run (step oneBackend) (init oneBackend) streamedAndRefused = some s ∧
        s.Quiet ∧ s.next = 2 :=
    Machine.exists_run (by decide +kernel)
  have clean : Machine.Along (step oneBackend) (Clean oneBackend) (init oneBackend)
      streamedAndRefused := by
    decide +kernel
  exact ⟨s, reach, quiet, both, (counters_settle clean reach).2 quiet⟩

/-- The only request is dropped at `send().await`: it is gone, and its backend and its
tenant count it for ever. -/
theorem counters_leak_on_disconnect :
    ¬ ∀ (su : Setup) (acts : List Act) (s : Server),
      Machine.run (step su) (init su) acts = some s → s.Quiet →
        (∀ b, s.load.inflightOf b = 0) ∧ ∀ t, s.limiter.inflightOf t = 0 := by
  intro settles
  obtain ⟨s, reach, quiet, load, quota⟩ : ∃ s,
      Machine.run (step oneBackend) (init oneBackend)
        [.arrive shortPrompt 0, .filter 0 0, .route 0 inOrder, .disconnect 0] = some s ∧
        s.Quiet ∧ s.load.inflightOf "b0" = 1 ∧ s.limiter.inflightOf "t" = 1 :=
    Machine.exists_run (by decide +kernel)
  have zero := (settles oneBackend _ s reach quiet).1 "b0"
  rw [load] at zero
  cases zero

end Server

end Rust

end Gateway
