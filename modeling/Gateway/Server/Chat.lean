import Gateway.Admission
import Gateway.AffinityRouting
import Gateway.CircuitBreaker
import Gateway.Disagg
import Gateway.FairSched.Basic
import Gateway.Lib.Machine
import Gateway.Router
import Gateway.SessionAffinity
import Gateway.Tenancy

/-!
The chat handler of `gateway/server.py`, with the admin calls and health scrapes that
run beside it.

A request runs atomically between two of its awaits, so a run is a list of spans: an
arrival up to the first await, the part of a request between two awaits, one admin
call, one health scrape. The awaits are `scheduler.acquire`, `race`,
`cm.__aenter__()`, the stream of the body and `cm.__aexit__`. Requests that end before
`scheduler.acquire` are over within their arrival; all others are numbered from there.

Helpers that touch none of the shared state (parsing, metrics, tracing, logging) can
raise: a span may carry a stretch of the handler in which that happens, and a
`Stretch` lies between two effects of the handler. What the handler reads off body and
headers is the `Request`; the outcome of the semantic cache, whose embedder is a
third-party model, comes with the arrival. The gateway is a single replica.

`dispatches` and `answers` are bookkeeping: the dispatches with the registry and breaker
they were made under, and the answers given.
-/

namespace Gateway

/-- What `server.py` fixes at start-up. -/
structure Setup where
  cfg : Config := {}
  rag : RagConfig := {}
  admission : AdmissionConfig := {}
  disagg : DisaggConfig := {}
  disaggPools : Option PoolRegistry := none
  multimodal : MultiModalConfig := {}
  capabilities : Dict String (List Modality) := .empty

/-- What the handler reads off a request. A model name is only compared, so one that is
not a JSON string stands for a string that nothing else is called. -/
structure Request where
  authorized : Bool
  tenant : Tenant
  model : Option String
  prompt : String
  strategy : Option Strategy
  sessionId : Option String
  ragChunks : Option (List Nat)
  modal : Option ModalRequest
  inputTokens : Nat
  reservedOutput : Int
  deriving DecidableEq

/-- Where in the handler a helper raises. -/
inductive Stretch where
  /-- Reading the body, up to the API key check. -/
  | parse
  /-- From there to `limiter.admit`. -/
  | resolve
  /-- Building the 429. -/
  | throttled
  /-- LoRA parsing, seeding, the semantic cache. -/
  | select
  /-- RAG routing. -/
  | pin
  /-- The admission decision. -/
  | probe
  /-- Disaggregated and multi-modal routing. -/
  | narrow
  /-- Building an answer after `release(0)`. -/
  | refusal
  /-- After `scheduler.acquire`, before a backend is chosen. -/
  | granted
  /-- After a backend was chosen, before the dispatch. -/
  | routed
  /-- After `load.on_dispatch`, before the connection is awaited. -/
  | dispatched
  /-- In the handling of a failed connection. -/
  | failed
  /-- After the connection, before the response is returned. -/
  | connected
  /-- In the body's `finally`, before `release`. -/
  | settled
  /-- In the body's `finally`, after `release`. -/
  | logged
  deriving DecidableEq, Repr

/-- How a request ended. -/
inductive Reply where
  | status (code : Nat)
  | raised
  deriving DecidableEq, Repr

/-- Where a request is. `allOpen` remembers whether every circuit was open when its
candidates were selected. -/
inductive Phase where
  /-- Running in the current span. -/
  | running (req : Request)
  /-- At `await scheduler.acquire(tier)`. -/
  | waiting (req : Request) (remaining : List String) (allOpen : Bool) (mustCancel : Bool)
  /-- At `await race(...)`; `unopened` are the connections whose task has not started. -/
  | racing (req : Request) (allOpen : Bool) (topk : Router.TopK) (unopened : List String)
  /-- At `await cm.__aenter__()`, with `left` attempts after this one. -/
  | connecting (req : Request) (allOpen : Bool) (r : RouteResult) (remaining : List String)
      (left : Nat)
  /-- The response was returned; its body has not been started. -/
  | returned (req : Request) (r : RouteResult) (code : Nat)
  /-- The body is being streamed. -/
  | streaming (req : Request) (r : RouteResult) (code : Nat) (outEvents : Nat)
  /-- At `await final_cm.__aexit__(...)`. -/
  | closing (req : Request) (r : RouteResult) (code : Nat) (outEvents : Nat)
  | ended

/-- A dispatch, with the registry and breaker at that moment. -/
structure Dispatch where
  req : Request
  backend : String
  registry : BackendRegistry String
  breaker : CircuitBreaker String
  now : ℚ

/-- The server's shared state and its requests. -/
structure Server where
  registry : BackendRegistry String
  tree : RadixTree Nat String
  load : LoadTracker String
  router : Router
  breaker : CircuitBreaker String
  limiter : RateLimiter
  sessions : SessionAffinity String
  ragIndex : ChunkAffinityIndex
  mmIndex : MediaAffinityIndex
  scheduler : Option (AsyncFairScheduler String Nat)
  fut : Nat → Future
  phase : Nat → Phase
  next : Nat
  clock : ℚ
  dispatches : List Dispatch
  answers : List (Request × Reply)

namespace Setup

/-- `seed`. -/
def seed (su : Setup) (req : Request) : Nat :=
  if su.cfg.prefixIsolation then Hashing.stableSeed req.tenant.id else 0

/-- The model a backend has to serve. -/
def servedModel (su : Setup) (model : Option String) : Option String :=
  if su.cfg.backendAdapters then (parseModelSpec model).1 else model

/-- `ids`: the backends eligible for a model. -/
def idsFor (su : Setup) (registry : BackendRegistry String) (model : Option String) :
    List String :=
  if su.cfg.backendAdapters then
    registry.loraFilter (parseModelSpec model).1 (parseModelSpec model).2 su.cfg.loraFallbackToBase
  else registry.idsFor model

/-- Disaggregated routing is on, and `_block_hashes` divides by a block size of 0. -/
def splitRaises (su : Setup) : Bool := su.disaggPools.isSome && decide (su.cfg.blockChars = 0)

/-- `eff_strategy == "speculative"`. -/
def speculative (su : Setup) (req : Request) : Bool :=
  req.strategy.getD su.cfg.strategy = .speculative

end Setup

namespace Server

variable (su : Setup)

/-! ### Endings -/

/-- Request `i` goes to another phase. -/
def setPhase (s : Server) (i : Nat) (p : Phase) : Server :=
  { s with phase := Function.update s.phase i p }

/-- Request `i` ends. -/
def finish (s : Server) (i : Nat) (req : Request) (reply : Reply) : Server :=
  { s with phase := Function.update s.phase i .ended, answers := s.answers ++ [(req, reply)] }

/-- An answer, unless building it raises. -/
def replyAt (fault : Option Stretch) (stretch : Stretch) (code : Nat) : Reply :=
  if fault = some stretch then .raised else .status code

/-- `release(actual_output)`. -/
def release (s : Server) (req : Request) (actualOutput : Nat) : Server :=
  { s with
    limiter := if su.cfg.rateLimitEnabled then
        s.limiter.release req.tenant req.reservedOutput actualOutput
      else s.limiter }

/-- `scheduler.release()`, if there is a scheduler. -/
def releaseOn (scheduler : Option (AsyncFairScheduler String Nat)) (fut : Nat → Future) :
    Option (AsyncFairScheduler String Nat) × (Nat → Future) :=
  match scheduler with
  | none => (none, fut)
  | some sched =>
      let (sched, fut, _) := sched.releaseOne fut
      (some sched, fut)

/-- `if sched_acquired: scheduler.release()`. -/
def releaseSlot (s : Server) : Server :=
  { s with
    scheduler := (releaseOn s.scheduler s.fut).1
    fut := (releaseOn s.scheduler s.fut).2 }

/-! ### Candidates -/

/-- Every circuit of the eligible backends is open. -/
def allOpen (s : Server) (req : Request) (now : ℚ) : Bool :=
  ((su.idsFor s.registry req.model).filter fun b => s.breaker.allow b now).isEmpty

/-- `remaining = [b for b in ids if breaker.allow(b)] or list(ids)`. -/
def selected (s : Server) (req : Request) (now : ℚ) : List String :=
  let ids := su.idsFor s.registry req.model
  if s.allOpen su req now then ids else ids.filter fun b => s.breaker.allow b now

/-- The session pin. -/
def pinSession (s : Server) (req : Request) (remaining : List String) (now : ℚ) :
    SessionAffinity String × List String :=
  let sessionId := if su.cfg.sessionAffinityEnabled then req.sessionId else none
  let (sessions, pinned) := s.sessions.pick sessionId remaining now
  (sessions, match pinned with
    | some b => [b]
    | none => remaining)

/-- The RAG pin. -/
def pinRag (s : Server) (req : Request) (remaining : List String) : List String :=
  match if su.rag.enabled then req.ragChunks else none with
  | none => remaining
  | some chunks =>
      match chooseRagBackend chunks remaining s.ragIndex s.load su.rag with
      | some rr => [rr.backendId]
      | none => remaining

/-- The candidates after the session and RAG pins. -/
def narrowed (s : Server) (req : Request) (now : ℚ) : List String :=
  s.pinRag su req (s.pinSession su req (s.selected su req now) now).2

/-- The admission probe: the router it leaves and the decision; `none` when
`router.choose` raises. -/
def probe (s : Server) (req : Request) (remaining : List String) :
    Option (Router × AdmissionAction) :=
  if su.admission.enabled then
    (s.router.choose su.cfg s.tree s.load req.prompt remaining req.strategy (su.seed req)).map
      fun (probe, router) =>
        let uncached := probe.tokens - probe.matchBlocks * su.cfg.blockTokens
        let fleet : FleetState :=
          { backendInflight := remaining.foldl (fun d b => d.set b (s.load.inflightOf b)) .empty
            backendKvUsage := remaining.foldl (fun d b => d.set b (s.load.kvUsageOf b)) .empty }
        let decision := AdmissionPolicy.decide
          ⟨su.cfg.prefillMsPerToken * uncached, req.tenant.tier⟩ fleet su.admission
        (router, decision.action)
  else some (s.router, .admitted)

/-- `disagg_decision`. The prefix look-up hashes characters, whatever the router does. -/
def disaggDecision (s : Server) (req : Request) (remaining : List String) :
    Option DisaggDecision := do
  let pools ← su.disaggPools
  let hashes ← Hashing.blockHashes req.prompt su.cfg.blockChars su.cfg.hashCutoffBlocks (su.seed req)
  let found := s.tree.matchPrefix hashes
  chooseDisaggregated req.inputTokens pools s.load su.disagg req.reservedOutput
    (remaining.foldl (fun d b => d.set b (found.getD b 0)) .empty)

/-- The prefill backend replaces the candidates. -/
def splitPhases (s : Server) (req : Request) (remaining : List String) : List String :=
  match s.disaggDecision su req remaining with
  | some decision => [decision.prefillBackend]
  | none => remaining

/-- The multi-modal pin; `none` when no candidate serves the modalities. -/
def pinModal (s : Server) (req : Request) (remaining : List String) : Option (List String) :=
  match if su.multimodal.enabled then req.modal else none with
  | none => some remaining
  | some q =>
      (chooseMultimodalBackend q remaining su.capabilities s.mmIndex s.load su.multimodal).map
        fun rr => [rr.backendId]

/-- `limiter.admit(tenant, est_cost)`, when rate limiting is on. -/
def admission (s : Server) (req : Request) (now : ℚ) : RateLimiter × Bool :=
  if su.cfg.rateLimitEnabled then
    let (limiter, adm) := s.limiter.tryAdmit req.tenant (req.inputTokens + req.reservedOutput) now
    (limiter, adm.allowed)
  else (s.limiter, true)

/-- From the admission probe to `scheduler.acquire`: the candidates, or how the request
ended. -/
def place (s : Server) (req : Request) (remaining : List String) (fault : Option Stretch) :
    Server × Except Reply (List String) :=
  match s.probe su req remaining with
  | none => (s, .error .raised)
  | some (router, action) =>
      let s := { s with router := router }
      if fault = some .probe then (s, .error .raised)
      else if action ≠ .admitted then (s.release su req 0, .error (replyAt fault .refusal 503))
      else if fault = some .narrow ∨ su.splitRaises then (s, .error .raised)
      else
        match s.pinModal su req (s.splitPhases su req remaining) with
        | none => (s.release su req 0, .error (replyAt fault .refusal 415))
        | some remaining => (s, .ok remaining)

/-- From the quota to `scheduler.acquire`; the request holds a slot of its tenant. -/
def select (s : Server) (req : Request) (semanticHit : Bool) (now : ℚ) (fault : Option Stretch) :
    Server × Except Reply (List String) :=
  if fault = some .select then (s, .error .raised)
  else if (su.idsFor s.registry req.model).isEmpty then
    (s.release su req 0, .error (replyAt fault .refusal 503))
  else if su.cfg.semanticCacheEnabled && semanticHit then
    (s.release su req 0, .error (replyAt fault .refusal 200))
  else
    let (sessions, remaining) := s.pinSession su req (s.selected su req now) now
    let s := { s with sessions := sessions }
    if fault = some .pin then (s, .error .raised)
    else s.place su req (s.pinRag su req remaining) fault

/-- From the body to `scheduler.acquire`. -/
def route (s : Server) (req : Request) (semanticHit : Bool) (now : ℚ) (fault : Option Stretch) :
    Server × Except Reply (List String) :=
  if fault = some .parse then (s, .error .raised)
  else if !req.authorized then (s, .error (.status 401))
  else if fault = some .resolve then (s, .error .raised)
  else
    let (limiter, allowed) := s.admission su req now
    let s := { s with limiter := limiter }
    if allowed then s.select su req semanticHit now fault
    else (s, .error (replyAt fault .throttled 429))

/-! ### Dispatch -/

/-- Remember a dispatch. -/
def record (s : Server) (req : Request) (b : String) (now : ℚ) : Server :=
  { s with dispatches := s.dispatches ++ [⟨req, b, s.registry, s.breaker, now⟩] }

/-- `tree.insert(...)` and `load.on_dispatch(...)`. -/
def dispatchTo (s : Server) (req : Request) (r : RouteResult) (now : ℚ) : Server :=
  { s.record req r.backendId now with
    tree := s.tree.insert r.hashes r.backendId
    load := s.load.onDispatch r.backendId r.tokens }

/-- `upstream is None`: give everything back and answer 502. -/
def unreachable (s : Server) (i : Nat) (req : Request) (fault : Option Stretch) : Server :=
  (s.release su req 0).releaseSlot.finish i req (replyAt fault .refusal 502)

/-- An iteration of the failover loop, up to `await cm.__aenter__()`. -/
def attempt (s : Server) (i : Nat) (req : Request) (allOpen : Bool) (remaining : List String)
    (left : Nat) (now : ℚ) (fault : Option Stretch) : Server :=
  match left with
  | 0 => s.unreachable su i req fault
  | left + 1 =>
      if remaining.isEmpty then s.unreachable su i req fault
      else
        match s.router.choose su.cfg s.tree s.load req.prompt remaining req.strategy
          (su.seed req) with
        | none => s.finish i req .raised
        | some (r, router) =>
            let s := { s with router := router }
            if fault = some .routed then s.finish i req .raised
            else
              let s := s.dispatchTo req r now
              -- `registry.url` raises when the backend is gone
              if (s.registry.url r.backendId).isNone || fault = some .dispatched then
                s.finish i req .raised
              else s.setPhase i (.connecting req allOpen r remaining left)

/-- From the slot to the next await: a race, or the failover loop. -/
def dispatch (s : Server) (i : Nat) (req : Request) (allOpen : Bool) (remaining : List String)
    (now : ℚ) (fault : Option Stretch) : Server :=
  if fault = some .granted then s.finish i req .raised
  else if su.speculative req && decide (1 < remaining.length) then
    match s.router.topKBackends su.cfg s.tree s.load req.prompt remaining su.cfg.speculativeK
      (su.seed req) with
    | none => s.finish i req .raised
    | some topk =>
        if topk.backendIds.any fun b => (s.registry.url b).isNone then s.finish i req .raised
        else s.setPhase i (.racing req allOpen topk topk.backendIds)
  else s.attempt su i req allOpen remaining (su.cfg.maxRetries + 1).toNat now fault

/-- `scheduler.acquire(tier)` up to its suspension, if there is a scheduler. -/
def acquireOn (scheduler : Option (AsyncFairScheduler String Nat)) (fut : Nat → Future) (i : Nat)
    (tier : String) : Option (AsyncFairScheduler String Nat) × (Nat → Future) × Bool :=
  match scheduler with
  | none => (none, fut, true)
  | some sched =>
      let (sched, fut, free) := sched.acquire fut i tier
      (some sched, fut, free)

/-- The next request asks for a slot; also whether it goes on at once. -/
def acquireSlot (s : Server) (req : Request) (allOpen : Bool) (remaining : List String) :
    Server × Bool :=
  let slot := acquireOn s.scheduler s.fut s.next req.tenant.tier
  ({ s with
      scheduler := slot.1
      fut := slot.2.1
      phase := Function.update s.phase s.next
        (if slot.2.2 then .running req else .waiting req remaining allOpen false)
      next := s.next + 1 }, slot.2.2)

/-- A request arrives. -/
def arrive (s : Server) (req : Request) (semanticHit : Bool) (now : ℚ)
    (fault : Option Stretch) : Server :=
  let allOpen := s.allOpen su req now
  let (s, outcome) := s.route su req semanticHit now fault
  match outcome with
  | .error reply => { s with answers := s.answers ++ [(req, reply)] }
  | .ok remaining =>
      let i := s.next
      let (s, free) := s.acquireSlot req allOpen remaining
      if free then s.dispatch su i req allOpen remaining now fault else s

/-- A parked request runs again. -/
def resume (s : Server) (i : Nat) (now : ℚ) (fault : Option Stretch) : Option Server :=
  match s.phase i, s.fut i with
  | .waiting req _ _ _, .cancelled => some (s.finish i req .raised)
  | .waiting req _ _ true, .finished => some (s.releaseSlot.finish i req .raised)
  | .waiting req remaining allOpen false, .finished =>
      some ((s.setPhase i (.running req)).dispatch su i req allOpen remaining now fault)
  | _, _ => none

/-! ### Upstream -/

/-- From the connection to the response. -/
def respond (s : Server) (i : Nat) (req : Request) (r : RouteResult) (code : Nat)
    (fault : Option Stretch) : Server :=
  let s := { s with breaker := s.breaker.recordSuccess r.backendId }
  if fault = some .connected then s.finish i req .raised else s.setPhase i (.returned req r code)

/-- `cm.__aenter__()` returns. -/
def connected (s : Server) (i : Nat) (code : Nat) (fault : Option Stretch) : Option Server :=
  match s.phase i with
  | .connecting req _ r _ _ => some (s.respond i req r code fault)
  | _ => none

/-- The first lines of the `except` branch: undo the dispatch and mark the backend. -/
def markFailed (s : Server) (i : Nat) (req : Request) (r : RouteResult) (now : ℚ) : Server :=
  { s.setPhase i (.running req) with
    load := s.load.onComplete r.backendId r.tokens
    breaker := s.breaker.recordFailure r.backendId now
    registry := s.registry.setHealth r.backendId false }

/-- `cm.__aenter__()` raises an `Exception`. -/
def refused (s : Server) (i : Nat) (now : ℚ) (fault : Option Stretch) : Option Server :=
  match s.phase i with
  | .connecting req allOpen r remaining left =>
      let s := s.markFailed i req r now
      some (if fault = some .failed then s.finish i req .raised
        else s.attempt su i req allOpen (remaining.erase r.backendId) left now fault)
  | _ => none

/-- A task of the race opens its connection. -/
def opened (s : Server) (i : Nat) (b : String) (now : ℚ) : Option Server :=
  match s.phase i with
  | .racing req allOpen topk unopened =>
      if b ∈ unopened then
        some ((s.record req b now).setPhase i (.racing req allOpen topk (unopened.erase b)))
      else none
  | _ => none

/-- `race` returns a winner. -/
def won (s : Server) (i : Nat) (b : String) (code : Nat) (now : ℚ) (fault : Option Stretch) :
    Option Server :=
  match s.phase i with
  | .racing req _ topk unopened =>
      if b ∈ topk.backendIds ∧ b ∉ unopened then
        let r : RouteResult :=
          ⟨b, topk.hashes, topk.tokens, topk.matchBlocks.getD b 0, topk.hashMode⟩
        let s := s.dispatchTo req r now
        some (if fault = some .dispatched then s.finish i req .raised
          else s.respond i req r code fault)
      else none
  | _ => none

/-- `race` returns `None`: every connection failed. -/
def lost (s : Server) (i : Nat) (fault : Option Stretch) : Option Server :=
  match s.phase i with
  | .racing req _ _ [] => some (s.unreachable su i req fault)
  | _ => none

/-! ### The body -/

/-- The body is started. -/
def start (s : Server) (i : Nat) : Option Server :=
  match s.phase i with
  | .returned req r code => some (s.setPhase i (.streaming req r code 0))
  | _ => none

/-- A chunk with some `data:` marks is passed on. -/
def chunk (s : Server) (i : Nat) (events : Nat) : Option Server :=
  match s.phase i with
  | .streaming req r code outEvents => some (s.setPhase i (.streaming req r code (outEvents + events)))
  | _ => none

/-- The stream ends, in whatever way. -/
def stop (s : Server) (i : Nat) : Option Server :=
  match s.phase i with
  | .streaming req r code outEvents => some (s.setPhase i (.closing req r code outEvents))
  | _ => none

/-- What the `finally` block records when the backend answered 200. -/
def learn (s : Server) (req : Request) (r : RouteResult) (now : ℚ) : Server :=
  { s with
    ragIndex := match if su.rag.enabled then req.ragChunks else none with
      | some chunks => s.ragIndex.record r.backendId chunks
      | none => s.ragIndex
    mmIndex := match if su.multimodal.enabled then req.modal else none with
      | some q => s.mmIndex.record r.backendId q.mediaIds
      | none => s.mmIndex
    sessions := s.sessions.remember (if su.cfg.sessionAffinityEnabled then req.sessionId else none)
      r.backendId now }

/-- `cm.__aexit__` returns, and the rest of the `finally` block runs. -/
def closed (s : Server) (i : Nat) (now : ℚ) (fault : Option Stretch) : Option Server :=
  match s.phase i with
  | .closing req r code outEvents =>
      let s := { s with load := s.load.onComplete r.backendId r.tokens }.releaseSlot
      some (if fault = some .settled then s.finish i req .raised
        else
          let s := if code = 200 then s.learn su req r now else s
          (s.release su req (outEvents - 1)).finish i req (replyAt fault .logged code))
  | _ => none

/-- Request `i` is cancelled, or what it awaits raises something it does not catch. -/
def cancel (s : Server) (i : Nat) : Option Server :=
  match s.phase i with
  | .waiting req remaining allOpen _ =>
      if s.fut i = .pending then some { s with fut := Function.update s.fut i .cancelled }
      else some (s.setPhase i (.waiting req remaining allOpen true))
  | .racing req _ _ _ => some (s.finish i req .raised)
  | .connecting req _ _ _ _ => some (s.finish i req .raised)
  | .returned req _ _ => some (s.finish i req .raised)
  | .streaming req r code outEvents => some (s.setPhase i (.closing req r code outEvents))
  | .closing req _ _ _ => some (s.finish i req .raised)
  | .running _ | .ended => none

/-! ### Control plane -/

/-- The outcome of one `/health` request. -/
inductive Health where
  | ok
  | notOk
  | failed
  deriving DecidableEq, Repr

/-- `admin_add_backend`. -/
def adminAdd (s : Server) (b url : String) (model : Option String) : Server :=
  if b = "" ∨ url = "" then s else { s with registry := (s.registry.add b url model).1 }

/-- `admin_remove_backend`. -/
def adminRemove (s : Server) (b : String) : Server :=
  if (s.registry.remove b).2 then
    { s with
      registry := (s.registry.remove b).1
      tree := s.tree.removeBackend b
      load := s.load.forget b
      sessions := s.sessions.forgetBackend b }
  else s

/-- `admin_drain` and `admin_undrain`. -/
def adminDrain (s : Server) (b : String) (draining : Bool) : Server :=
  { s with registry := (s.registry.setDraining b draining).1 }

/-- One iteration of `scrape_loop`. -/
def scrape (s : Server) (b : String) (health : Health) (now : ℚ) : Server :=
  match health with
  | .ok =>
      { s with registry := s.registry.setHealth b true, breaker := s.breaker.recordSuccess b }
  | .notOk =>
      { s with
        registry := s.registry.setHealth b false
        breaker := s.breaker.recordFailure b now }
  | .failed =>
      { s with
        registry := s.registry.setHealth b false
        breaker := s.breaker.recordFailure b now
        tree := s.tree.removeBackend b }

/-! ### Runs -/

/-- What a span does. -/
inductive Act where
  | arrive (req : Request) (semanticHit : Bool) (fault : Option Stretch)
  | resume (i : Nat) (fault : Option Stretch)
  | connected (i : Nat) (code : Nat) (fault : Option Stretch)
  | refused (i : Nat) (fault : Option Stretch)
  | opened (i : Nat) (b : String)
  | won (i : Nat) (b : String) (code : Nat) (fault : Option Stretch)
  | lost (i : Nat) (fault : Option Stretch)
  | start (i : Nat)
  | chunk (i : Nat) (events : Nat)
  | stop (i : Nat)
  | closed (i : Nat) (fault : Option Stretch)
  | cancel (i : Nat)
  | adminAdd (b url : String) (model : Option String)
  | adminRemove (b : String)
  | adminDrain (b : String) (draining : Bool)
  | scrape (b : String) (health : Health)

/-- A span: when it runs and what it does. -/
structure Span where
  now : ℚ
  act : Act

/-- What a span does to the server. -/
def perform (s : Server) (now : ℚ) : Act → Option Server
  | .arrive req semanticHit fault => some (s.arrive su req semanticHit now fault)
  | .resume i fault => s.resume su i now fault
  | .connected i code fault => s.connected i code fault
  | .refused i fault => s.refused su i now fault
  | .opened i b => s.opened i b now
  | .won i b code fault => s.won i b code now fault
  | .lost i fault => s.lost su i fault
  | .start i => s.start i
  | .chunk i events => s.chunk i events
  | .stop i => s.stop i
  | .closed i fault => s.closed su i now fault
  | .cancel i => s.cancel i
  | .adminAdd b url model => some (s.adminAdd b url model)
  | .adminRemove b => some (s.adminRemove b)
  | .adminDrain b draining => some (s.adminDrain b draining)
  | .scrape b health => some (s.scrape b health now)

/-- One span; time does not run backwards. -/
def step (s : Server) (span : Span) : Option Server :=
  if s.clock ≤ span.now then { s with clock := span.now }.perform su span.now span.act else none

/-- A server without requests: the registry of the configuration, and a scheduler if
weighted fair queuing is on. -/
def init (registry : BackendRegistry String) (backendCacheBlocks circuitFailThreshold : Int)
    (circuitCooldown : ℚ) (sessions : SessionAffinity String)
    (predictor : Option (List ℚ → Option ℚ))
    (scheduler : Option (Int × Dict String ℚ × ℚ × ℚ)) : Server where
  registry := registry
  tree := .init backendCacheBlocks
  load := .empty
  router := ⟨0, predictor, none⟩
  breaker := .init circuitFailThreshold circuitCooldown
  limiter := .empty
  sessions := sessions
  ragIndex := .init su.rag.cacheCapacityChunks
  mmIndex := .init su.multimodal.cacheCapacityMedia
  scheduler := scheduler.map fun (maxConcurrency, weights, defaultWeight, cost) =>
    .init maxConcurrency weights defaultWeight cost
  fut := fun _ => .pending
  phase := fun _ => .ended
  next := 0
  clock := 0
  dispatches := []
  answers := []

end Server

end Gateway
