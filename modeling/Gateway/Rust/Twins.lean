import Gateway.Rust.Body
import Gateway.Rust.Choice
import Gateway.Rust.Registry
import Gateway.Server.FailoverLoop

/-!
The Rust gateway does what the Python gateway does.

Both gateways are given one configuration, without the modes that the Rust gateway does not have
(`Alike`), and the same requests: an arrival brings one header and one body, off which each handler
reads its own request (`Exchange`). `sections` are the lock sections by which the Rust gateway
follows a span of the Python gateway: an arrival is its admission, the circuit filter and a routing
decision; a refused connection is `on_complete`, `record_failure` and the next decision; the end of
a body is the `drop` of the guard.

`Common` says which spans both gateways make alike. It leaves out what only one of them has or
does: a request that they read differently (`Same`), helpers that raise, health scrapes, admin
calls, a response that is dropped before its body is started, a stream that does not use up its
reservation while quotas are counted and a backend that is not eligible for an arrival. `TiesWhole`
leaves out evictions that stop within a tie.

* `same_of_ordinary`: ordinary bodies are read alike.
* `Twinned.step`: the Rust gateway can follow every such span.
* **`rust_follows_python`**: for every run of the Python gateway there is a run of the Rust gateway
  that mirrors it (`Mirrors`), dispatch by dispatch and counter by counter.
-/

namespace Gateway

variable {F : Type}

/-! ### The limiters -/

namespace RateLimiter

variable {l : RateLimiter} {t : Tenant} {id : String}

/-- A tenant with buckets. -/
def Stocked (l : RateLimiter) (id : String) : Prop :=
  (l.rps.get? id).isSome = true ∧ (l.tps.get? id).isSome = true

theorem stocked_putBuckets (l : RateLimiter) (t : Tenant) (rps tps : TokenBucket) :
    (l.putBuckets t rps tps).Stocked t.id := by
  simp [Stocked, putBuckets]

theorem Stocked.putBuckets (stocked : l.Stocked id) (rps tps : TokenBucket) :
    (l.putBuckets t rps tps).Stocked id := by
  simp only [Stocked, RateLimiter.putBuckets, Dict.get?_set]
  split
  · exact ⟨rfl, rfl⟩
  · exact stocked

theorem Stocked.buckets (stocked : l.Stocked id) : (l.buckets t).1.Stocked id := by
  unfold RateLimiter.buckets
  dsimp only
  split
  · exact stocked
  · exact stocked.putBuckets _ _

/-- An admission takes no buckets away. -/
theorem Stocked.tryAdmit (stocked : l.Stocked id) (cost now : ℚ) :
    (l.tryAdmit t cost now).1.Stocked id := by
  have made := stocked.buckets (t := t)
  unfold RateLimiter.tryAdmit
  generalize l.buckets t = start at made
  obtain ⟨l', rpsB, tpsB⟩ := start
  dsimp only at made ⊢
  split
  · exact made
  · split
    · exact made.putBuckets _ _
    · split
      · exact made.putBuckets _ _
      · exact made.putBuckets _ _

/-- Who is admitted has buckets. -/
theorem stocked_tryAdmit {cost now : ℚ} (allowed : (l.tryAdmit t cost now).2.allowed = true) :
    (l.tryAdmit t cost now).1.Stocked t.id := by
  unfold RateLimiter.tryAdmit at allowed ⊢
  generalize l.buckets t = start at allowed ⊢
  obtain ⟨l', rpsB, tpsB⟩ := start
  dsimp only at allowed ⊢
  split
  · rename_i full
    rw [if_pos full] at allowed
    cases allowed
  · split
    · exact stocked_putBuckets ..
    · split
      · exact stocked_putBuckets ..
      · exact stocked_putBuckets l' t _ _

theorem Stocked.releaseById (stocked : l.Stocked id) (id' : String) (reserved actual : ℚ) :
    (l.releaseById id' reserved actual).Stocked id := by
  unfold RateLimiter.releaseById
  dsimp only
  split
  · refine ⟨stocked.1, ?_⟩
    rw [Dict.get?_set]
    split
    · rfl
    · exact stocked.2
  · exact stocked

/-- Both gateways release alike. -/
theorem release_eq (stocked : l.Stocked t.id) (reserved actual : ℚ) :
    l.release t reserved actual = l.releaseById t.id reserved actual := by
  obtain ⟨rps, rps_found⟩ := Option.isSome_iff_exists.mp stocked.1
  obtain ⟨tps, tps_found⟩ := Option.isSome_iff_exists.mp stocked.2
  simp [release, RateLimiter.releaseById, RateLimiter.buckets, RateLimiter.putBuckets,
    Dict.contains, Dict.getD, rps_found, tps_found, Dict.set_of_get?_eq_some rps_found]

end RateLimiter

namespace Rust

/-! ### One configuration -/

/-- One configuration for both gateways, of what both can do. -/
structure Alike (su : Gateway.Setup) (rs : Setup) : Prop where
  routing : SameRouting su.cfg rs.cfg
  strategy : su.cfg.strategy.toRust = some rs.cfg.strategy
  maxRetries : su.cfg.maxRetries = rs.cfg.maxRetries
  rateLimitEnabled : su.cfg.rateLimitEnabled = rs.cfg.rateLimitEnabled
  prefixIsolation : su.cfg.prefixIsolation = rs.cfg.prefixIsolation
  /-- None of the modes of the Python gateway is on. -/
  plain : su.rag.enabled = false ∧ su.admission.enabled = false ∧ su.disaggPools = none ∧
    su.multimodal.enabled = false ∧ su.cfg.backendAdapters = false ∧
    su.cfg.sessionAffinityEnabled = false ∧ su.cfg.semanticCacheEnabled = false
  backends : rs.backendIds ≠ [] ∧ rs.backendIds.Nodup ∧ "" ∉ rs.backendIds

/-- A span of the Python gateway, and what the Rust gateway makes of it: the header
`x-routing-strategy` and the body of an arrival come to both, and the Rust tables iterate in some
order. -/
structure Exchange (F : Type) where
  span : Gateway.Server.Span
  strategy : Option String := none
  body : Json F := .null
  it : Iteration

namespace Exchange

/-- The request is what the Python handler reads off the arrival. -/
def Reads (py : Builtins F) (cfg : Gateway.Config) (call : Exchange F) (req : Gateway.Request) :
    Prop :=
  req.strategy = (call.strategy.filter fun name => name ≠ "").map Strategy.ofName ∧
    req.readBody py cfg call.body = some req

instance (py : Builtins F) (cfg : Gateway.Config) (call : Exchange F) (req : Gateway.Request) :
    Decidable (call.Reads py cfg req) :=
  inferInstanceAs (Decidable (_ ∧ _))

/-- What the Rust handler reads off the arrival of a tenant. -/
def rustRequest (rs : Setup) (call : Exchange F) (tenant : Tenant) : Request :=
  .ofBody rs.cfg tenant ((call.strategy.bind toStr).bind parseStrategy) call.body

theorem Reads.takesSalt {py : Builtins F} {cfg : Gateway.Config} {call : Exchange F}
    {req : Gateway.Request} (reads : call.Reads py cfg req) (rs : Setup) (tenant : Tenant) :
    (call.rustRequest rs tenant).takesSalt = true := by
  have read := reads.2
  show Rust.takesSalt call.body = true
  cases body : call.body with
  | obj items => rfl
  | _ =>
      rw [body] at read
      cases read

end Exchange

/-- The handlers read a request alike: the same prompt, a strategy that both know and, where quotas
are counted, the same estimate and reservation. -/
structure Same (su : Gateway.Setup) (rs : Setup) (req : Gateway.Request) (req' : Request) : Prop where
  tenant : req'.tenant = req.tenant
  prompt : req'.prompt = req.prompt
  strategy : (req.strategy.getD su.cfg.strategy).toRust = some (rs.strategyOf req')
  quota : su.cfg.rateLimitEnabled = true →
    req'.inputTokens = req.inputTokens ∧ (req'.reservedOutput : Int) = req.reservedOutput

instance (su : Gateway.Setup) (rs : Setup) (req : Gateway.Request) (req' : Request) :
    Decidable (Same su rs req req') :=
  decidable_of_iff (_ ∧ _ ∧ _ ∧ (_ → _))
    ⟨fun ⟨tenant, prompt, strategy, quota⟩ => ⟨tenant, prompt, strategy, quota⟩,
      fun same => ⟨same.tenant, same.prompt, same.strategy, same.quota⟩⟩

/-- The candidates left to a request. -/
def Candidates (rs : Setup) (remaining : List String) : Prop :=
  remaining.Nodup ∧ ∀ b ∈ remaining, b ∈ rs.backendIds

/-- Where the request is in the other gateway. -/
inductive Follows (su : Gateway.Setup) (rs : Setup) : Gateway.Phase → Phase → Prop where
  | running {req : Gateway.Request} {req' : Request} {remaining : List String} {left : Nat}
      (same : Same su rs req req') : Follows su rs (.running req) (.routing req' remaining left)
  | connecting {req : Gateway.Request} {req' : Request} {allOpen : Bool} {r : RouteResult}
      {remaining : List String} {left : Nat} (same : Same su rs req req')
      (candidates : Candidates rs remaining) :
      Follows su rs (.connecting req allOpen r remaining left) (.sending req' r remaining left)
  | returned {req : Gateway.Request} {req' : Request} {r : RouteResult} {code : Nat}
      (same : Same su rs req req') : Follows su rs (.returned req r code) (.streaming req' r)
  | streaming {req : Gateway.Request} {req' : Request} {r : RouteResult} {code outEvents : Nat}
      (same : Same su rs req req') :
      Follows su rs (.streaming req r code outEvents) (.streaming req' r)
  | closing {req : Gateway.Request} {req' : Request} {r : RouteResult} {code outEvents : Nat}
      (same : Same su rs req req') :
      Follows su rs (.closing req r code outEvents) (.streaming req' r)
  | ended : Follows su rs .ended .ended

/-- The gateways are in the same state: they believe the same of every backend's cache, count the
same requests and tokens, have the same circuits and buckets, are at the same place of the rotation,
and every request is read alike and is where it is in the other one, dispatched by the same route. -/
structure Mirrors (su : Gateway.Setup) (rs : Setup) (p : Gateway.Server) (r : Server) : Prop where
  tree : Sim p.tree r.tree
  load : p.load = r.load
  rotation : p.router = ⟨r.router.rr, none, none⟩
  breaker : p.breaker = r.breaker
  limiter : p.limiter = r.limiter
  next : p.next = r.next
  phase : ∀ i, Follows su rs (p.phase i) (r.phase i)

/-- `Mirrors`, and what it takes to go on. -/
structure Twinned (su : Gateway.Setup) (rs : Setup) (p : Gateway.Server) (r : Server) : Prop
    extends Mirrors su rs p r where
  shaped : ∃ path, RadixTree.Inv p.tree path
  healthy : r.poisoned = false
  ungated : p.scheduler = none
  registered : ∀ b ∈ rs.backendIds, (p.registry.url b).isSome = true
  stocked : ∀ i, ∀ req ∈ (p.phase i).req?, su.cfg.rateLimitEnabled = true →
    p.limiter.Stocked req.tenant.id

/-! ### Following a span -/

/-- The request that is at the head of the failover loop, and its candidates. -/
def Phase.deciding : Phase → Option (Request × List String)
  | .routing req remaining (_ + 1) => some (req, remaining)
  | _ => none

/-- **The condition on a lock section of the Rust gateway**: a routing decision evicts whole ties. -/
def TiesWhole (rs : Setup) (r : Server) : Server.Act → Prop
  | .route i _ => ∀ asked ∈ (r.phase i).deciding, ∀ found ∈ r.router.choose rs.cfg r.load r.tree
      asked.1.prompt asked.2 (rs.strategyOf asked.1) (rs.seed asked.1),
        r.tree.EvictsWholeTies (.insert found.1.hashes found.1.backendId)
  | _ => True

instance decidableTiesWhole (rs : Setup) (r : Server) :
    (act : Server.Act) → Decidable (TiesWhole rs r act)
  | .route i _ => inferInstanceAs (Decidable (∀ asked ∈ (r.phase i).deciding, _))
  | .arrive _ _ | .filter _ _ | .skip _ | .answered _ | .refused _ | .recordFailure _ _
  | .finished _ | .releaseGuard _ | .disconnect _ => inferInstanceAs (Decidable True)

/-- The lock sections by which the Rust gateway follows a span. -/
def sections (rs : Setup) (r : Server) (call : Exchange F) : List Server.Act :=
  match call.span.act with
  | .arrive req _ _ =>
      let req' := call.rustRequest rs req.tenant
      -- who is refused by the limiter gets no further
      if (r.arrive rs req' call.span.now).next = r.next then [.arrive req' call.span.now]
      else [.arrive req' call.span.now, .filter r.next call.span.now, .route r.next call.it]
  | .connected i _ _ => [.answered i]
  | .refused i _ => [.refused i, .recordFailure i call.span.now, .route i call.it]
  | .closed i _ => [.finished i, .releaseGuard i]
  | .cancel i => if (r.phase i).awaitsSend then [.disconnect i] else []
  | _ => []

/-- A cancellation here leaks in the Python gateway alone. -/
def leaksAlone : Gateway.Phase → Bool
  | .returned _ _ _ | .closing _ _ _ _ => true
  | _ => false

/-- A stream at its end has used up what its request reserved. -/
def UsesUp : Gateway.Phase → Prop
  | .closing req _ _ outEvents => ((outEvents - 1 : Nat) : Int) = req.reservedOutput
  | _ => True

instance decidableUsesUp : (phase : Gateway.Phase) → Decidable (UsesUp phase)
  | .closing _ _ _ _ => inferInstanceAs (Decidable (_ = _))
  | .running _ | .waiting _ _ _ _ | .racing _ _ _ _ | .connecting _ _ _ _ _ | .returned _ _ _
  | .streaming _ _ _ _ | .ended => inferInstanceAs (Decidable True)

/-- **The condition on a span**: both gateways can do it, and read what arrives alike. -/
def Common (su : Gateway.Setup) (rs : Setup) (py : Builtins F) (p : Gateway.Server)
    (call : Exchange F) : Prop :=
  match call.span.act with
  | .arrive req _ fault => fault = none ∧ req.authorized = true ∧ call.Reads py su.cfg req ∧
      Same su rs req (call.rustRequest rs req.tenant) ∧ su.idsFor p.registry req.model = rs.backendIds
  | .connected _ _ fault => fault = none
  | .refused _ fault => fault = none
  | .start _ | .chunk _ _ | .stop _ => True
  | .closed i fault => fault = none ∧ (su.cfg.rateLimitEnabled = true → UsesUp (p.phase i))
  | .cancel i => leaksAlone (p.phase i) = false
  | _ => False

instance decidableCommon (su : Gateway.Setup) (rs : Setup) (py : Builtins F) (p : Gateway.Server) :
    (call : Exchange F) → Decidable (Common su rs py p call)
  | ⟨⟨_, .arrive _ _ _⟩, _, _, _⟩ => inferInstanceAs (Decidable (_ ∧ _ ∧ _ ∧ _ ∧ _))
  | ⟨⟨_, .connected _ _ _⟩, _, _, _⟩ | ⟨⟨_, .refused _ _⟩, _, _, _⟩ | ⟨⟨_, .cancel _⟩, _, _, _⟩ =>
      inferInstanceAs (Decidable (_ = _))
  | ⟨⟨_, .start _⟩, _, _, _⟩ | ⟨⟨_, .chunk _ _⟩, _, _, _⟩ | ⟨⟨_, .stop _⟩, _, _, _⟩ =>
      inferInstanceAs (Decidable True)
  | ⟨⟨_, .closed _ _⟩, _, _, _⟩ => inferInstanceAs (Decidable (_ ∧ (_ → _)))
  | ⟨⟨_, .resume _ _⟩, _, _, _⟩ | ⟨⟨_, .opened _ _⟩, _, _, _⟩ | ⟨⟨_, .won _ _ _ _⟩, _, _, _⟩
  | ⟨⟨_, .lost _ _⟩, _, _, _⟩ | ⟨⟨_, .adminAdd _ _ _⟩, _, _, _⟩ | ⟨⟨_, .adminRemove _⟩, _, _, _⟩
  | ⟨⟨_, .adminDrain _ _⟩, _, _, _⟩ | ⟨⟨_, .scrape _ _⟩, _, _, _⟩ =>
      inferInstanceAs (Decidable False)

/-! ### What is read alike -/

/-- The strategies that both gateways know by name. -/
def commonStrategies : List String := ["round_robin", "consistent_hash", "prefix_tree"]

/-- A header that names a strategy of both gateways, or none, asks both for the same. -/
theorem strategyOf_rustRequest {su : Gateway.Setup} {rs : Setup}
    (strategy : su.cfg.strategy.toRust = some rs.cfg.strategy) {py : Builtins F}
    {call : Exchange F} (known : ∀ name ∈ call.strategy, name ∈ commonStrategies)
    {req : Gateway.Request} (reads : call.Reads py su.cfg req) :
    (req.strategy.getD su.cfg.strategy).toRust =
      some (rs.strategyOf (call.rustRequest rs req.tenant)) := by
  unfold Setup.strategyOf Exchange.rustRequest Request.ofBody
  rw [reads.1]
  cases header : call.strategy with
  | none => exact strategy
  | some name =>
      have listed := known name header
      simp only [commonStrategies, List.mem_cons, List.not_mem_nil, or_false] at listed
      obtain rfl | rfl | rfl := listed
      · rfl
      · rfl
      · rfl

/-- **Ordinary requests are read alike**: messages of ASCII strings, a positive number of tokens and a
strategy of both gateways, or none. -/
theorem same_of_ordinary {su : Gateway.Setup} {rs : Setup} (shared : Shared su rs)
    (strategy : su.cfg.strategy.toRust = some rs.cfg.strategy) (py : Builtins F)
    {call : Exchange F} {items : List (String × Json F)}
    {messages : List (List (String × Json F))} (body : call.body = .obj items)
    (listed : Dict.lookup "messages" items = some (.list (messages.map .obj)))
    (textual : ∀ m ∈ messages, Textual (Dict.lookup "role" m) ∧ Textual (Dict.lookup "content" m))
    (ascii : ∀ c ∈ (transcript asStrOrEmpty messages).toList, c.val ≤ 127)
    (ordinary : ∀ x ∈ Dict.lookup "max_tokens" items, ∃ n : Int, x = .int n ∧ 0 < n ∧ n < 2 ^ 64)
    (known : ∀ name ∈ call.strategy, name ∈ commonStrategies) {req : Gateway.Request}
    (reads : call.Reads py su.cfg req) : Same su rs req (call.rustRequest rs req.tenant) := by
  have texts := (transcript_eq_iff py messages).mpr textual
  have gap : rs.cfg.reservationGap py (Dict.lookup "max_tokens" items) = some 0 :=
    reservationGap_of_ordinary py ordinary
  have read := reads.2
  rw [body, readBody_eq py req listed, reservedOutput_eq shared py, gap, Option.map_some,
    Option.map_some, Option.some_inj] at read
  have python : req.prompt = transcript (written py) messages := by rw [← read, chat]
  have rust : extractPrompt call.body = transcript (written py) messages := by
    rw [body, extractPrompt_eq listed, texts]
  refine ⟨rfl, rust.trans python.symm, strategyOf_rustRequest strategy known reads, fun _ => ⟨?_, ?_⟩⟩
  · show rs.cfg.inputTokens (extractPrompt call.body) = _
    rw [rust, ← read, chat, estimatePromptTokens_eq shared, Config.inputTokens, texts,
      utf8ByteSize_of_ascii ascii]
  · show (rs.cfg.reservedOutput (call.body.get? "max_tokens") : Int) = _
    rw [body, ← read]
    exact (add_zero _).symm

/-! ### One decision -/

section Decision

variable {su : Gateway.Setup} {rs : Setup} {p : Gateway.Server} {r : Server}
  {req : Gateway.Request} {req' : Request} {i : Nat}

/-- Request `i` goes to another phase in both gateways. -/
theorem follows_update (phase : ∀ i, Follows su rs (p.phase i) (r.phase i)) {a : Gateway.Phase}
    {b : Phase} (follows : Follows su rs a b) (j : Nat) :
    Follows su rs (Function.update p.phase i a j) (Function.update r.phase i b j) := by
  by_cases same : j = i
  · subst same
    rw [Function.update_self, Function.update_self]
    exact follows
  · rw [Function.update_of_ne same, Function.update_of_ne same]
    exact phase j

/-- Requests keep their buckets. -/
theorem stocked_update {l : RateLimiter} {phase : Nat → Gateway.Phase} {a : Gateway.Phase}
    (stocked : ∀ i, ∀ req ∈ (phase i).req?, su.cfg.rateLimitEnabled = true →
      l.Stocked req.tenant.id)
    (moved : ∀ req ∈ a.req?, su.cfg.rateLimitEnabled = true → l.Stocked req.tenant.id) (j : Nat) :
    ∀ req ∈ (Function.update phase i a j).req?, su.cfg.rateLimitEnabled = true →
      l.Stocked req.tenant.id := by
  by_cases same : j = i
  · subst same
    rw [Function.update_self]
    exact moved
  · rw [Function.update_of_ne same]
    exact stocked j

theorem Same.seed (alike : Alike su rs) (same : Same su rs req req') :
    rs.seed req' = su.seed req := by
  rw [Setup.seed, Gateway.Setup.seed, alike.prefixIsolation, same.tenant]

/-- What a request reserves, where quotas are counted. -/
theorem Same.reservedOutput (same : Same su rs req req') (limited : su.cfg.rateLimitEnabled = true) :
    (req'.reservedOutput : ℚ) = req.reservedOutput := by
  exact_mod_cast (same.quota limited).2

/-- `limiter.release` in both gateways. -/
theorem release_limiter (alike : Alike su rs) (limiter : p.limiter = r.limiter)
    (same : Same su rs req req')
    (stocked : su.cfg.rateLimitEnabled = true → p.limiter.Stocked req.tenant.id) (actual : Nat) :
    (p.release su req actual).limiter = (r.release rs i req' actual).limiter := by
  unfold Gateway.Server.release Server.release
  rw [← alike.rateLimitEnabled]
  cases limited : su.cfg.rateLimitEnabled with
  | false => exact limiter
  | true =>
      simp only [if_true]
      rw [RateLimiter.release_eq (stocked limited), limiter, same.tenant, same.reservedOutput limited]

/-- A release takes no buckets away. -/
theorem stocked_release (actual : Nat)
    (stocked : ∀ i, ∀ req ∈ (p.phase i).req?, su.cfg.rateLimitEnabled = true →
      p.limiter.Stocked req.tenant.id)
    (own : su.cfg.rateLimitEnabled = true → p.limiter.Stocked req.tenant.id) (j : Nat) :
    ∀ req' ∈ (p.phase j).req?, su.cfg.rateLimitEnabled = true →
      (p.release su req actual).limiter.Stocked req'.tenant.id := by
  intro req' member limited
  unfold Gateway.Server.release
  rw [if_pos limited, RateLimiter.release_eq (own limited)]
  exact (stocked j req' member limited).releaseById _ _ _

/-- What the Rust gateway gives back. -/
theorem rust_release (rs : Setup) (r : Server) (i : Nat) (req : Request) (actual : ℚ) :
    (r.release rs i req actual).tree = r.tree ∧ (r.release rs i req actual).load = r.load ∧
      (r.release rs i req actual).router = r.router ∧
      (r.release rs i req actual).breaker = r.breaker ∧
      (r.release rs i req actual).next = r.next ∧ (r.release rs i req actual).phase = r.phase ∧
      (r.release rs i req actual).poisoned = r.poisoned := by
  unfold Server.release
  split <;> exact ⟨rfl, rfl, rfl, rfl, rfl, rfl, rfl⟩

/-- A release does not look at the phases. -/
theorem release_setPhase (r : Server) (i : Nat) (a b : Phase) (req : Request) (actual : ℚ) :
    ((r.setPhase i a).release rs i req actual).setPhase i b =
      (r.release rs i req actual).setPhase i b := by
  unfold Server.release
  split <;> simp only [Server.setPhase, Server.note, Function.update_idem]

/-- A request gives back what it holds, and ends. -/
theorem Twinned.ends (alike : Alike su rs) (twinned : Twinned su rs p r) (same : Same su rs req req')
    (held : req ∈ (p.phase i).req?) (actual : Nat) (reply : Reply) :
    Twinned su rs ((p.release su req actual).finish i req reply)
      ((r.release rs i req' actual).setPhase i .ended) := by
  have own := twinned.stocked i req held
  obtain ⟨tree, load, router, breaker, next, phase, poisoned⟩ :=
    rust_release rs r i req' actual
  constructor
  · constructor
    · show Sim p.tree (r.release rs i req' actual).tree
      rw [tree]
      exact twinned.tree
    · show p.load = (r.release rs i req' actual).load
      rw [load]
      exact twinned.load
    · show p.router = ⟨(r.release rs i req' actual).router.rr, none, none⟩
      rw [router]
      exact twinned.rotation
    · show p.breaker = (r.release rs i req' actual).breaker
      rw [breaker]
      exact twinned.breaker
    · exact release_limiter alike twinned.limiter same own actual
    · show p.next = (r.release rs i req' actual).next
      rw [next]
      exact twinned.next
    · show ∀ j, Follows su rs (Function.update p.phase i .ended j)
        (Function.update (r.release rs i req' actual).phase i .ended j)
      rw [phase]
      exact follows_update twinned.phase .ended
  · exact twinned.shaped
  · exact poisoned.trans twinned.healthy
  · exact twinned.ungated
  · exact twinned.registered
  · exact stocked_update (stocked_release actual twinned.stocked own) fun _ none_held _ => by
      cases none_held

theorem sim_insert {tree : RadixTree Nat String} {tree' : RustTree Nat String} (sim : Sim tree tree')
    {path : NodeId → List Nat} (inv : RadixTree.Inv tree path) {hashes : List Nat} {b : String}
    (whole : tree'.EvictsWholeTies (.insert hashes b)) (it : Iteration) :
    Sim (tree.insert hashes b) (tree'.insert it hashes b) := by
  have call : ∀ call : RadixTree.Op Nat String × Iteration, tree'.EvictsWholeTies call.1 →
      Sim (tree.apply call.1) (tree'.apply call) := fun _ whole => sim.apply inv whole
  exact call (.insert hashes b, it) whole

/-- Without a scheduler there is no slot to give back. -/
theorem releaseSlot_ungated (ungated : p.scheduler = none) : p.releaseSlot = p := by
  rw [Gateway.Server.releaseSlot, ungated, Gateway.Server.releaseOn, ← ungated]

/-- A request goes on in both gateways. -/
theorem Twinned.advance (twinned : Twinned su rs p r) {a : Gateway.Phase} {b : Phase}
    (follows : Follows su rs a b) (kept : ∀ req ∈ a.req?, req ∈ (p.phase i).req?)
    {load load' : LoadTracker String} (loads : load = load')
    {breaker breaker' : CircuitBreaker String} (breakers : breaker = breaker')
    {registry : BackendRegistry String}
    (registered : ∀ b ∈ rs.backendIds, (registry.url b).isSome = true)
    {answers : List (Gateway.Request × Reply)} {calls : Nat → List Call} :
    Twinned su rs
      { p with
        phase := Function.update p.phase i a
        load := load
        breaker := breaker
        registry := registry
        answers := answers }
      { r with
        phase := Function.update r.phase i b
        load := load'
        breaker := breaker'
        calls := calls } where
  tree := twinned.tree
  load := loads
  rotation := twinned.rotation
  breaker := breakers
  limiter := twinned.limiter
  next := twinned.next
  phase := follows_update twinned.phase follows
  shaped := twinned.shaped
  healthy := twinned.healthy
  ungated := twinned.ungated
  registered := registered
  stocked := stocked_update twinned.stocked fun req member limited =>
    twinned.stocked i req (kept req member) limited

/-- What the Python gateway learns from a response is of no concern. -/
theorem Twinned.learn (twinned : Twinned su rs p r) (req : Gateway.Request) (route : RouteResult)
    (now : ℚ) : Twinned su rs (p.learn su req route now) r :=
  { twinned with }

theorem Twinned.tick (twinned : Twinned su rs p r) (now : ℚ) :
    Twinned su rs { p with clock := now } r :=
  { twinned with }

/-- Nothing is left to try: 502. -/
theorem Twinned.unreachable (alike : Alike su rs) (twinned : Twinned su rs p r)
    (same : Same su rs req req') (held : req ∈ (p.phase i).req?) :
    Twinned su rs (p.unreachable su i req none) ((r.release rs i req' 0).setPhase i .ended) := by
  have ends := twinned.ends alike same held 0 (.status 502)
  rw [Nat.cast_zero] at ends
  rw [Gateway.Server.unreachable, releaseSlot_ungated (p := p.release su req 0) twinned.ungated]
  exact ends

/-- Both routers choose, and choose alike. -/
theorem Twinned.chooses (alike : Alike su rs) (twinned : Twinned su rs p r)
    (same : Same su rs req req') {remaining : List String} (some_left : remaining ≠ [])
    (candidates : Candidates rs remaining) :
    ∃ route router, r.router.choose rs.cfg r.load r.tree req'.prompt remaining (rs.strategyOf req')
        (rs.seed req') = some (route, router) ∧
      p.router.choose su.cfg p.tree p.load req.prompt remaining req.strategy (su.seed req) =
        some (route, ⟨router.rr, none, none⟩) ∧ route.backendId ∈ rs.backendIds := by
  have named : "" ∉ remaining := fun member => alike.backends.2.2 (candidates.2 "" member)
  have routes : rs.cfg.Routes req'.prompt (rs.strategyOf req') := by
    refine ⟨?_, fun _ => alike.routing.tolerant⟩
    split
    · exact alike.routing.sized.2
    · exact alike.routing.sized.1
  have some_chosen : (r.router.choose rs.cfg r.load r.tree req'.prompt remaining
      (rs.strategyOf req') (rs.seed req')).isSome = true :=
    Router.choose_isSome routes some_left
  obtain ⟨⟨route, router⟩, chosen⟩ := Option.isSome_iff_exists.mp some_chosen
  have both := choose_eq alike.routing twinned.tree r.load r.router req'.prompt named same.strategy
    (rs.seed req')
  rw [chosen, Option.map_some, ← twinned.rotation, ← twinned.load, same.seed alike, same.prompt]
    at both
  exact ⟨route, router, chosen, both, candidates.2 _ (Gateway.Router.choose_mem both)⟩

/-- The Python gateway dispatches by a route. -/
theorem attempt_chosen {remaining : List String} {left : Nat} {route : RouteResult}
    {router : Gateway.Router} (some_left : remaining ≠ [])
    (chosen : p.router.choose su.cfg p.tree p.load req.prompt remaining req.strategy (su.seed req) =
      some (route, router)) (listed : (p.registry.url route.backendId).isSome = true)
    (allOpen : Bool) (now : ℚ) :
    p.attempt su i req allOpen remaining (left + 1) now none =
      ({ p with router := router }.dispatchTo req route now).setPhase i
        (.connecting req allOpen route remaining left) := by
  have nonempty : ¬ remaining.isEmpty = true := fun empty => some_left (List.isEmpty_iff.mp empty)
  have connects : ¬ ((p.registry.url route.backendId).isNone ||
      decide ((none : Option Stretch) = some .dispatched)) = true := by
    rw [Option.isNone_eq_false_iff.mpr listed]
    exact Bool.false_ne_true
  rw [Gateway.Server.attempt]
  dsimp only
  rw [if_neg nonempty, chosen]
  dsimp only
  rw [if_neg (Option.some_ne_none _).symm]
  exact if_neg connects

/-- The Rust gateway dispatches by a route. -/
theorem route_chosen {remaining : List String} {left : Nat} {route : RouteResult} {router : Router}
    (routing : r.phase i = .routing req' remaining (left + 1)) (healthy : r.poisoned = false)
    (some_left : remaining ≠ [])
    (chosen : r.router.choose rs.cfg r.load r.tree req'.prompt remaining (rs.strategyOf req')
      (rs.seed req') = some (route, router)) (listed : route.backendId ∈ rs.backendIds)
    (it : Iteration) :
    r.route rs i it = some
      (({ r with router := router, tree := r.tree.insert it route.hashes route.backendId }.onDispatch i
        route).setPhase i (.sending req' route remaining left)) := by
  have nonempty : ¬ remaining.isEmpty = true := fun empty => some_left (List.isEmpty_iff.mp empty)
  have found : (rs.backends.find? fun b => decide (b.1 = route.backendId)).isSome = true := by
    obtain ⟨entry, member, name⟩ := List.mem_map.mp listed
    exact List.find?_isSome.mpr ⟨entry, member, decide_eq_true name⟩
  rw [Server.route, routing]
  dsimp only
  rw [if_neg nonempty, healthy, if_neg Bool.false_ne_true, chosen]
  exact if_pos found

/-- The same dispatch in both gateways. -/
theorem Twinned.dispatched (twinned : Twinned su rs p r) (same : Same su rs req req')
    (held : req ∈ (p.phase i).req?) {remaining : List String} (candidates : Candidates rs remaining)
    {route : RouteResult} (ties : r.tree.EvictsWholeTies (.insert route.hashes route.backendId))
    (router : Router) (it : Iteration) (allOpen : Bool) (left : Nat) (now : ℚ) :
    Twinned su rs
      (({ p with router := ⟨router.rr, none, none⟩ }.dispatchTo req route now).setPhase i
        (.connecting req allOpen route remaining left))
      (({ r with router := router, tree := r.tree.insert it route.hashes route.backendId }.onDispatch i
        route).setPhase i (.sending req' route remaining left)) := by
  obtain ⟨path, inv⟩ := twinned.shaped
  constructor
  · constructor
    · exact sim_insert twinned.tree inv ties it
    · exact congrArg (fun l => l.onDispatch route.backendId route.tokens) twinned.load
    · rfl
    · exact twinned.breaker
    · exact twinned.limiter
    · exact twinned.next
    · exact follows_update twinned.phase (.connecting same candidates)
  · exact inv.insert _ _
  · exact twinned.healthy
  · exact twinned.ungated
  · exact twinned.registered
  · refine stocked_update twinned.stocked ?_
    intro req' member limited
    cases member
    exact twinned.stocked i req held limited

/-- **One routing decision**, from the head of the failover loop to the connection that is awaited,
or to the answer 502. -/
theorem Twinned.decides (alike : Alike su rs) (twinned : Twinned su rs p r)
    (same : Same su rs req req') {remaining : List String} {left : Nat}
    (running : p.phase i = .running req) (routing : r.phase i = .routing req' remaining left)
    (candidates : Candidates rs remaining) {it : Iteration} (whole : TiesWhole rs r (.route i it))
    (allOpen : Bool) (now : ℚ) :
    ∃ r', r.route rs i it = some r' ∧
      Twinned su rs (p.attempt su i req allOpen remaining left now none) r' := by
  have held : req ∈ (p.phase i).req? := by
    rw [running]
    rfl
  cases left with
  | zero =>
      rw [Server.route, routing]
      exact ⟨_, rfl, twinned.unreachable alike same held⟩
  | succ left =>
      by_cases none_left : remaining = []
      · subst none_left
        rw [Server.route, routing]
        exact ⟨_, rfl, twinned.unreachable alike same held⟩
      · obtain ⟨route, router, rust, python, listed⟩ :=
          twinned.chooses alike same none_left candidates
        have ties : r.tree.EvictsWholeTies (.insert route.hashes route.backendId) :=
          whole (req', remaining) (by rw [routing]; rfl) (route, router) rust
        rw [attempt_chosen none_left python (twinned.registered _ listed) allOpen now,
          route_chosen routing twinned.healthy none_left rust listed it]
        exact ⟨_, rfl, twinned.dispatched same held candidates ties router it allOpen left now⟩

end Decision

/-! ### One span -/

section Spans

variable {su : Gateway.Setup} {rs : Setup} {p p' : Gateway.Server} {r : Server}
  {req : Gateway.Request} {req' : Request} {i : Nat} {now : ℚ}

/-- The connection is open. -/
theorem Twinned.connected (twinned : Twinned su rs p r) {code : Nat}
    (taken : p.connected i code none = some p') :
    ∃ r', r.answered i = some r' ∧ Twinned su rs p' r' := by
  unfold Gateway.Server.connected at taken
  split at taken
  · rename_i req allOpen route remaining left at_phase
    cases taken
    have follows := twinned.phase i
    rw [at_phase] at follows
    generalize at_rust : r.phase i = b at follows
    cases follows with
    | connecting same candidates =>
        rw [Server.answered, at_rust]
        refine ⟨_, rfl, ?_⟩
        rw [Gateway.Server.respond, if_neg (Option.some_ne_none _).symm, twinned.breaker]
        refine twinned.advance (.returned same) ?_ twinned.load rfl twinned.registered
        rw [at_phase]
        exact fun req member => member
  · cases taken

/-- The Rust gateway undoes a dispatch, and the backend is no candidate any more. -/
theorem refused_sections (rs : Setup) (now : ℚ) {route : RouteResult} {remaining : List String}
    {left : Nat} (at_rust : r.phase i = .sending req' route remaining left)
    (healthy : r.poisoned = false) :
    r.step rs (.refused i) =
        some ((r.onComplete i route).setPhase i (.failed req' route remaining left)) ∧
      ((r.onComplete i route).setPhase i (.failed req' route remaining left)).step rs
          (.recordFailure i now) =
        some { (r.onComplete i route).setPhase i
            (.routing req' (remaining.filter fun b => b ≠ route.backendId) left) with
          breaker := r.breaker.recordFailure route.backendId now } := by
  constructor
  · show r.refused i = _
    rw [Server.refused, at_rust, healthy]
    rfl
  · show Server.recordFailure _ i now = _
    simp only [Server.recordFailure, Server.setPhase, Function.update_self, Function.update_idem]
    rfl

/-- Both gateways undo a dispatch. -/
theorem Twinned.marked (twinned : Twinned su rs p r) (same : Same su rs req req')
    (held : req ∈ (p.phase i).req?) (route : RouteResult) (remaining : List String) (left : Nat) :
    Twinned su rs (p.markFailed i req route now)
      { (r.onComplete i route).setPhase i (.routing req' remaining left) with
        breaker := r.breaker.recordFailure route.backendId now } := by
  have registered : ∀ b ∈ rs.backendIds,
      ((p.registry.setHealth route.backendId false).url b).isSome = true := by
    intro b listed
    rw [Gateway.Server.url_setHealth]
    exact twinned.registered b listed
  refine twinned.advance (.running same) ?_
    (congrArg (fun l => l.onComplete route.backendId route.tokens) twinned.load)
    (congrArg (fun c => c.recordFailure route.backendId now) twinned.breaker) registered
  intro other member
  cases member
  exact held

/-- The connection failed: the dispatch is undone, and the next decision made. -/
theorem Twinned.refused (alike : Alike su rs) (twinned : Twinned su rs p r) {it : Iteration}
    (whole : Machine.Along (Server.step rs) (TiesWhole rs) r
      [.refused i, .recordFailure i now, .route i it])
    (taken : p.refused su i now none = some p') :
    ∃ r', Machine.run (Server.step rs) r [.refused i, .recordFailure i now, .route i it] = some r' ∧
      Twinned su rs p' r' := by
  unfold Gateway.Server.refused at taken
  split at taken
  · rename_i req allOpen route remaining left at_phase
    dsimp only at taken
    rw [if_neg (Option.some_ne_none _).symm] at taken
    cases taken
    have held : req ∈ (p.phase i).req? := by
      rw [at_phase]
      rfl
    have follows := twinned.phase i
    rw [at_phase] at follows
    generalize at_rust : r.phase i = b at follows
    cases follows with
    | @connecting _ req' _ _ _ _ same candidates =>
        obtain ⟨undone, failed⟩ := refused_sections rs now at_rust twinned.healthy
        have fewer : remaining.erase route.backendId =
            remaining.filter fun b => b ≠ route.backendId := by
          rw [candidates.1.erase_eq_filter]
          refine List.filter_congr fun b _ => ?_
          by_cases same : b = route.backendId <;> simp [same]
        have left_over : Candidates rs (remaining.filter fun b => b ≠ route.backendId) :=
          ⟨candidates.1.filter _, fun b member => candidates.2 b (List.mem_of_mem_filter member)⟩
        rw [fewer]
        obtain ⟨r', decided, twins⟩ := (twinned.marked same held route _ left).decides alike same
          (Function.update_self ..) (Function.update_self ..) left_over
          (((whole.2 _ undone).2 _ failed).1) allOpen now
        refine ⟨r', ?_, twins⟩
        exact Machine.run_cons_eq_some.mpr ⟨_, undone, Machine.run_cons_eq_some.mpr ⟨_, failed,
          Machine.run_cons_eq_some.mpr ⟨_, decided, rfl⟩⟩⟩
  · cases taken

/-- A stretch of the body, of which the Rust gateway takes no notice. -/
theorem Twinned.streams (twinned : Twinned su rs p r) {a a' : Gateway.Phase}
    (at_phase : p.phase i = a) (next : ∀ b, Follows su rs a b → Follows su rs a' b)
    (same : a'.req? = a.req?) : Twinned su rs (p.setPhase i a') r := by
  have follows : Follows su rs a' (r.phase i) := next _ (at_phase ▸ twinned.phase i)
  have kept : ∀ req ∈ a'.req?, req ∈ (p.phase i).req? := by
    intro req member
    rw [at_phase, ← same]
    exact member
  have moved : Twinned su rs (p.setPhase i a')
      { r with phase := Function.update r.phase i (r.phase i) } :=
    twinned.advance follows kept twinned.load twinned.breaker twinned.registered
  rw [Function.update_eq_self] at moved
  exact moved

theorem Twinned.start (twinned : Twinned su rs p r) (taken : p.start i = some p') :
    Twinned su rs p' r := by
  unfold Gateway.Server.start at taken
  split at taken
  · rename_i req route code at_phase
    cases taken
    refine twinned.streams at_phase (fun b follows => ?_) rfl
    cases follows with
    | returned same => exact .streaming same
  · cases taken

theorem Twinned.chunk (twinned : Twinned su rs p r) {events : Nat}
    (taken : p.chunk i events = some p') : Twinned su rs p' r := by
  unfold Gateway.Server.chunk at taken
  split at taken
  · rename_i req route code outEvents at_phase
    cases taken
    refine twinned.streams at_phase (fun b follows => ?_) rfl
    cases follows with
    | streaming same => exact .streaming same
  · cases taken

theorem Twinned.stop (twinned : Twinned su rs p r) (taken : p.stop i = some p') :
    Twinned su rs p' r := by
  unfold Gateway.Server.stop at taken
  split at taken
  · rename_i req route code outEvents at_phase
    cases taken
    refine twinned.streams at_phase (fun b follows => ?_) rfl
    cases follows with
    | streaming same => exact .closing same
  · cases taken

/-- `load.on_complete` in both gateways, while the request is still there. -/
theorem Twinned.completed (twinned : Twinned su rs p r) (i : Nat) (route : RouteResult) :
    Twinned su rs { p with load := p.load.onComplete route.backendId route.tokens }
      (r.onComplete i route) := by
  have moved : Twinned su rs
      { p with
        phase := Function.update p.phase i (p.phase i)
        load := p.load.onComplete route.backendId route.tokens }
      { r.onComplete i route with phase := Function.update r.phase i (r.phase i) } :=
    twinned.advance (twinned.phase i) (fun _ member => member)
      (congrArg (fun l => l.onComplete route.backendId route.tokens) twinned.load)
      twinned.breaker twinned.registered
  rw [Function.update_eq_self, Function.update_eq_self] at moved
  exact moved

/-- Who has used up the reservation is charged what was used. -/
theorem release_usedUp (alike : Alike su rs) (same : Same su rs req req') {actual : Nat}
    (used : su.cfg.rateLimitEnabled = true → (actual : Int) = req.reservedOutput) :
    r.release rs i req' req'.reservedOutput = r.release rs i req' (actual : ℚ) := by
  unfold Server.release
  rw [← alike.rateLimitEnabled]
  cases limited : su.cfg.rateLimitEnabled with
  | false => rfl
  | true =>
      have spent : req'.reservedOutput = actual := by
        have reserved := (same.quota limited).2
        have all := used limited
        omega
      rw [spent]

/-- The guard is dropped. -/
theorem closed_sections {route : RouteResult} (at_rust : r.phase i = .streaming req' route)
    (healthy : r.poisoned = false) :
    Machine.run (Server.step rs) r [.finished i, .releaseGuard i] =
      some (((r.onComplete i route).release rs i req' req'.reservedOutput).setPhase i .ended) := by
  have dropped : r.step rs (.finished i) =
      some ((r.onComplete i route).setPhase i (.releasing req')) := by
    show r.dropGuard i = _
    rw [Server.dropGuard, at_rust, healthy]
    rfl
  have released : ((r.onComplete i route).setPhase i (.releasing req')).step rs (.releaseGuard i) =
      some (((r.onComplete i route).release rs i req' req'.reservedOutput).setPhase i .ended) := by
    have at_guard : ((r.onComplete i route).setPhase i (.releasing req')).phase i =
        .releasing req' := Function.update_self ..
    show Server.releaseGuard rs _ i = _
    rw [Server.releaseGuard, at_guard]
    exact congrArg some (release_setPhase ..)
  exact Machine.run_cons_eq_some.mpr ⟨_, dropped, Machine.run_cons_eq_some.mpr ⟨_, released, rfl⟩⟩

/-- The end of a body: the guard is dropped, and the whole reservation counts as used. -/
theorem Twinned.closed (alike : Alike su rs) (twinned : Twinned su rs p r)
    (spent : su.cfg.rateLimitEnabled = true → UsesUp (p.phase i))
    (taken : p.closed su i now none = some p') :
    ∃ r', Machine.run (Server.step rs) r [.finished i, .releaseGuard i] = some r' ∧
      Twinned su rs p' r' := by
  unfold Gateway.Server.closed at taken
  split at taken
  · rename_i req route code outEvents at_phase
    dsimp only at taken
    rw [if_neg (Option.some_ne_none _).symm] at taken
    cases taken
    rw [at_phase] at spent
    have used : su.cfg.rateLimitEnabled = true →
        ((outEvents - 1 : Nat) : Int) = req.reservedOutput := spent
    have follows := twinned.phase i
    rw [at_phase] at follows
    generalize at_rust : r.phase i = b at follows
    cases follows with
    | closing same =>
        refine ⟨_, closed_sections at_rust twinned.healthy, ?_⟩
        have completed := twinned.completed i route
        have held : req ∈ (p.phase i).req? := by
          rw [at_phase]
          rfl
        rw [releaseSlot_ungated completed.ungated, release_usedUp alike same used]
        split
        · exact (completed.learn req route now).ends alike same held (outEvents - 1) _
        · exact completed.ends alike same held (outEvents - 1) _
  · cases taken

/-- A request is cancelled: both leak what it holds at the connection, and at the body both give it
back. -/
theorem Twinned.cancel (twinned : Twinned su rs p r) (common : leaksAlone (p.phase i) = false)
    (taken : p.cancel i = some p') :
    ∃ r', Machine.run (Server.step rs) r
        (if (r.phase i).awaitsSend then [.disconnect i] else []) = some r' ∧ Twinned su rs p' r' := by
  have follows := twinned.phase i
  unfold Gateway.Server.cancel at taken
  generalize at_phase : p.phase i = a at follows common taken
  generalize at_rust : r.phase i = b at follows
  cases follows with
  | running => cases taken
  | connecting same candidates =>
      rename_i req allOpen route remaining left
      cases taken
      have gone : r.step rs (.disconnect i) = some (r.setPhase i .ended) := by
        show r.disconnect i = _
        rw [Server.disconnect, at_rust]
      refine ⟨_, Machine.run_cons_eq_some.mpr ⟨_, gone, rfl⟩, ?_⟩
      exact twinned.advance .ended (fun _ none_held => by cases none_held) twinned.load
        twinned.breaker twinned.registered
  | returned same => cases common
  | streaming same =>
      cases taken
      refine ⟨r, rfl, twinned.streams at_phase (fun b follows => ?_) rfl⟩
      cases follows with
      | streaming same => exact .closing same
  | closing same => cases common
  | ended => cases taken

/-- Without the optional modes, an admitted request keeps the backends whose circuits let it
through. -/
theorem route_plain (alike : Alike su rs) {req : Gateway.Request} (authorized : req.authorized = true)
    (eligible : su.idsFor p.registry req.model = rs.backendIds) (semanticHit : Bool) (now : ℚ) :
    p.route su req semanticHit now none =
      ({ p with limiter := (p.admission su req now).1 },
        if (p.admission su req now).2 then .ok (p.selected su req now)
        else .error (.status 429)) := by
  obtain ⟨rag, admission, disagg, multimodal, -, sessions, semantic⟩ := alike.plain
  have some_backend : (su.idsFor p.registry req.model).isEmpty = false := by
    rw [eligible, List.isEmpty_eq_false_iff]
    exact alike.backends.1
  have unsplit : su.splitRaises = false := by simp [Gateway.Setup.splitRaises, disagg]
  unfold Gateway.Server.route
  rw [if_neg (Option.some_ne_none _).symm, authorized, if_neg (by simp),
    if_neg (Option.some_ne_none _).symm]
  dsimp only
  cases allowed : (p.admission su req now).2 with
  | false => rfl
  | true =>
      rw [if_pos rfl, if_pos rfl]
      simp [Gateway.Server.select, some_backend, semantic, Gateway.Server.pinSession, sessions,
        SessionAffinity.pick, Gateway.Server.pinRag, rag, Gateway.Server.place,
        Gateway.Server.probe, admission, Gateway.Server.pinModal, multimodal,
        Gateway.Server.splitPhases, Gateway.Server.disaggDecision, disagg, unsplit]
      rfl

/-- Without a scheduler nobody waits for a slot. -/
theorem acquireSlot_ungated (ungated : p.scheduler = none) (req : Gateway.Request) (allOpen : Bool)
    (remaining : List String) : p.acquireSlot req allOpen remaining =
      ({ p with
          phase := Function.update p.phase p.next (.running req)
          next := p.next + 1 }, true) := by
  simp only [Gateway.Server.acquireSlot, ungated, Gateway.Server.acquireOn, if_true]

/-- The same candidates pass the circuits. -/
theorem selected_plain {req : Gateway.Request} (breaker : p.breaker = r.breaker)
    (eligible : su.idsFor p.registry req.model = rs.backendIds) (now : ℚ) :
    p.selected su req now =
      if (rs.backendIds.filter fun b => r.breaker.allow b now).isEmpty then rs.backendIds
      else rs.backendIds.filter fun b => r.breaker.allow b now := by
  unfold Gateway.Server.selected Gateway.Server.allOpen
  dsimp only
  rw [eligible, breaker]

/-- The limiter decides alike. -/
theorem arrive_limiter (alike : Alike su rs) (limiter : p.limiter = r.limiter)
    (same : Same su rs req req') (now : ℚ) :
    ∃ calls, r.arrive rs req' now =
      if (p.admission su req now).2 then
        { r with
          limiter := (p.admission su req now).1
          calls := calls
          phase := Function.update r.phase r.next (.admitted req')
          next := r.next + 1 }
      else { r with limiter := (p.admission su req now).1 } := by
  unfold Server.arrive Gateway.Server.admission
  rw [← alike.rateLimitEnabled, limiter, same.tenant]
  cases limited : su.cfg.rateLimitEnabled with
  | false => exact ⟨r.calls, rfl⟩
  | true =>
      have cost : (req'.inputTokens + req'.reservedOutput : ℚ) =
          req.inputTokens + req.reservedOutput := by
        rw [(same.quota limited).1, same.reservedOutput limited]
      rw [if_pos rfl, if_pos rfl, cost]
      refine ⟨(r.note r.next (.admission req.tenant.id)).calls, ?_⟩
      dsimp only
      by_cases allowed : (r.limiter.tryAdmit req.tenant
          ((req.inputTokens : ℚ) + req.reservedOutput) now).2.allowed = true
      · exact (if_pos allowed).trans (if_pos allowed).symm
      · exact (if_neg allowed).trans (if_neg allowed).symm

/-- Admissions keep the buckets of all who are there. -/
theorem Stocked.admission {req : Gateway.Request} {id : String} (stocked : p.limiter.Stocked id)
    (now : ℚ) : (p.admission su req now).1.Stocked id := by
  unfold Gateway.Server.admission
  split
  · exact stocked.tryAdmit _ _
  · exact stocked

theorem stocked_admission {req : Gateway.Request}
    (allowed : (p.admission su req now).2 = true) (limited : su.cfg.rateLimitEnabled = true) :
    (p.admission su req now).1.Stocked req.tenant.id := by
  unfold Gateway.Server.admission at allowed ⊢
  rw [if_pos limited] at allowed ⊢
  exact RateLimiter.stocked_tryAdmit allowed

/-- The circuit filter of the Rust gateway. -/
theorem filter_section (p : Gateway.Server) (r : Server) (now : ℚ) (alike : Alike su rs)
    (admitted : r.phase i = .admitted req') (salted : req'.takesSalt = true)
    (breaker : p.breaker = r.breaker)
    (eligible : su.idsFor p.registry req.model = rs.backendIds) :
    r.filter rs i now =
      some (r.setPhase i (.routing req' (p.selected su req now) (rs.cfg.maxRetries + 1))) := by
  have some_backend : ¬ rs.backendIds.isEmpty = true := by
    rw [List.isEmpty_iff]
    exact alike.backends.1
  rw [Server.filter, admitted]
  dsimp only
  rw [if_neg some_backend, salted, Bool.not_true, Bool.and_false, if_neg Bool.false_ne_true,
    selected_plain breaker eligible]

/-- The candidates of an arrival. -/
theorem candidates_selected (alike : Alike su rs) (breaker : p.breaker = r.breaker)
    (eligible : su.idsFor p.registry req.model = rs.backendIds) :
    Candidates rs (p.selected su req now) := by
  rw [selected_plain breaker eligible]
  split
  · exact ⟨alike.backends.2.1, fun _ member => member⟩
  · exact ⟨alike.backends.2.1.filter _, fun _ member => List.mem_of_mem_filter member⟩

/-- The request is admitted and at the head of the failover loop in both gateways. -/
theorem Twinned.entered (twinned : Twinned su rs p r) (same : Same su rs req req')
    (allowed : (p.admission su req now).2 = true) (remaining : List String) (left : Nat)
    (calls : Nat → List Call) :
    Twinned su rs
      { p with
        limiter := (p.admission su req now).1
        phase := Function.update p.phase p.next (.running req)
        next := p.next + 1 }
      { r with
        limiter := (p.admission su req now).1
        calls := calls
        phase := Function.update r.phase r.next (.routing req' remaining left)
        next := r.next + 1 } := by
  refine { twinned with
    limiter := rfl
    next := congrArg (· + 1) twinned.next
    phase := twinned.next ▸ follows_update twinned.phase (.running same)
    stocked := ?_ }
  refine stocked_update (fun i req' member limited =>
    Stocked.admission (twinned.stocked i req' member limited) now) ?_
  intro req' member limited
  cases member
  exact stocked_admission allowed limited

/-- A plain request that has its slot goes to the failover loop. -/
theorem dispatch_plain (alike : Alike su rs) (same : Same su rs req req') (allOpen : Bool)
    (remaining : List String) :
    p.dispatch su i req allOpen remaining now none =
      p.attempt su i req allOpen remaining (rs.cfg.maxRetries + 1) now none := by
  have attempts : (su.cfg.maxRetries + 1).toNat = rs.cfg.maxRetries + 1 := by
    rw [alike.maxRetries]
    rfl
  have plain : su.speculative req = false := by
    have known := same.strategy
    unfold Gateway.Setup.speculative
    generalize req.strategy.getD su.cfg.strategy = asked at known ⊢
    cases asked with
    | speculative => cases known
    | _ => rfl
  rw [Gateway.Server.dispatch, if_neg (Option.some_ne_none _).symm, plain, Bool.false_and,
    if_neg Bool.false_ne_true, attempts]

/-- Who is refused by one limiter is refused by the other. -/
theorem Twinned.throttled (twinned : Twinned su rs p r) (answers : List (Gateway.Request × Reply)) :
    Twinned su rs { p with limiter := (p.admission su req now).1, answers := answers }
      { r with limiter := (p.admission su req now).1 } :=
  { twinned with
    limiter := rfl
    stocked := fun i req' member limited =>
      Stocked.admission (twinned.stocked i req' member limited) now }

/-- An arrival: the admission, the circuit filter and the first decision. -/
theorem Twinned.arrive (alike : Alike su rs) (twinned : Twinned su rs p r) {semanticHit : Bool}
    {call : Exchange F} (arrives : call.span = ⟨now, .arrive req semanticHit none⟩)
    (authorized : req.authorized = true)
    (same : Same su rs req (call.rustRequest rs req.tenant))
    (salted : (call.rustRequest rs req.tenant).takesSalt = true)
    (eligible : su.idsFor p.registry req.model = rs.backendIds)
    (whole : Machine.Along (Server.step rs) (TiesWhole rs) r (sections rs r call)) :
    ∃ r', Machine.run (Server.step rs) r (sections rs r call) = some r' ∧
      Twinned su rs (p.arrive su req semanticHit now none) r' := by
  unfold sections at whole ⊢
  rw [arrives] at whole ⊢
  dsimp only at whole ⊢
  generalize call.rustRequest rs req.tenant = req' at same salted whole ⊢
  obtain ⟨calls, limited⟩ := arrive_limiter (p := p) alike twinned.limiter same now
  unfold Gateway.Server.arrive
  dsimp only
  rw [route_plain alike authorized eligible]
  cases allowed : (p.admission su req now).2 with
  | false =>
      rw [allowed, if_neg Bool.false_ne_true] at limited
      have refused : r.step rs (.arrive req' now) =
          some { r with limiter := (p.admission su req now).1 } := congrArg some limited
      rw [if_pos (congrArg Server.next limited)]
      exact ⟨_, Machine.run_cons_eq_some.mpr ⟨_, refused, rfl⟩, twinned.throttled _⟩
  | true =>
      rw [allowed, if_pos rfl] at limited
      have later : ¬ (r.arrive rs req' now).next = r.next := by
        rw [limited]
        exact Nat.succ_ne_self _
      rw [if_neg later] at whole ⊢
      have admitted : r.step rs (.arrive req' now) = some _ := congrArg some limited
      have filtered := filter_section p
        { r with
          limiter := (p.admission su req now).1
          calls := calls
          phase := Function.update r.phase r.next (.admitted req')
          next := r.next + 1 }
        now alike (Function.update_self ..) salted twinned.breaker eligible
      simp only [Server.setPhase, Function.update_idem] at filtered
      have entered := twinned.entered same allowed (p.selected su req now) (rs.cfg.maxRetries + 1)
        calls
      have running : Function.update p.phase p.next (.running req) r.next = .running req := by
        rw [← twinned.next, Function.update_self]
      obtain ⟨r', decided, twins⟩ := entered.decides alike same running (Function.update_self ..)
        (candidates_selected alike twinned.breaker eligible)
        ((whole.2 _ admitted).2 _ filtered).1 (p.allOpen su req now) now
      refine ⟨r', Machine.run_cons_eq_some.mpr ⟨_, admitted, Machine.run_cons_eq_some.mpr
        ⟨_, filtered, Machine.run_cons_eq_some.mpr ⟨_, decided, rfl⟩⟩⟩, ?_⟩
      rw [if_pos rfl]
      dsimp only
      rw [acquireSlot_ungated (p := { p with limiter := (p.admission su req now).1 })
        twinned.ungated, if_pos rfl, dispatch_plain alike same]
      rw [← twinned.next] at twins
      exact twins

/-- **One span**: what the Python gateway does, the Rust gateway does in some lock sections. -/
theorem Twinned.step (alike : Alike su rs) (twinned : Twinned su rs p r) {py : Builtins F}
    {call : Exchange F} (common : Common su rs py p call)
    (whole : Machine.Along (Server.step rs) (TiesWhole rs) r (sections rs r call))
    (taken : p.step su call.span = some p') :
    ∃ r', Machine.run (Server.step rs) r (sections rs r call) = some r' ∧ Twinned su rs p' r' := by
  unfold Gateway.Server.step at taken
  split at taken
  · obtain ⟨⟨now, act⟩, strategy, body, it⟩ := call
    have ticked := twinned.tick now
    cases act with
    | arrive req semanticHit fault =>
        obtain ⟨rfl, authorized, reads, same, eligible⟩ := common
        cases taken
        exact ticked.arrive alike rfl authorized same (reads.takesSalt rs req.tenant) eligible whole
    | connected i code fault =>
        cases common
        obtain ⟨r', answered, twins⟩ := ticked.connected taken
        exact ⟨r', Machine.run_cons_eq_some.mpr ⟨r', answered, rfl⟩, twins⟩
    | refused i fault =>
        cases common
        exact ticked.refused alike whole taken
    | start i => exact ⟨r, rfl, ticked.start taken⟩
    | chunk i events => exact ⟨r, rfl, ticked.chunk taken⟩
    | stop i => exact ⟨r, rfl, ticked.stop taken⟩
    | closed i fault =>
        obtain ⟨rfl, used⟩ := common
        exact ticked.closed alike used taken
    | cancel i => exact ticked.cancel common taken
    | resume i fault => exact absurd common id
    | opened i b => exact absurd common id
    | won i b code fault => exact absurd common id
    | lost i fault => exact absurd common id
    | adminAdd b url model => exact absurd common id
    | adminRemove b => exact absurd common id
    | adminDrain b draining => exact absurd common id
    | scrape b health => exact absurd common id
  · cases taken

end Spans

/-! ### Runs -/

/-- A Python gateway and a Rust gateway. -/
structure Twins where
  python : Gateway.Server
  rust : Server

namespace Twins

/-- Both started alike. -/
def start (su : Gateway.Setup) (rs : Setup) (registry : BackendRegistry String)
    (sessions : SessionAffinity String) : Twins where
  python := .init su registry rs.cfg.backendCacheBlocks rs.cfg.circuitFailThreshold
    rs.cfg.circuitCooldown sessions none none
  rust := .init rs

/-- A span of the one and the lock sections of the other. -/
def step (su : Gateway.Setup) (rs : Setup) (t : Twins) (call : Exchange F) : Option Twins :=
  (t.python.step su call.span).bind fun p =>
    (Machine.run (Server.step rs) t.rust (sections rs t.rust call)).map fun r => ⟨p, r⟩

/-- **The condition on a step of both.** -/
def Joint (su : Gateway.Setup) (rs : Setup) (py : Builtins F) (t : Twins) (call : Exchange F) :
    Prop :=
  Common su rs py t.python call ∧
    Machine.Along (Server.step rs) (TiesWhole rs) t.rust (sections rs t.rust call)

instance decidableJoint (su : Gateway.Setup) (rs : Setup) (py : Builtins F) (t : Twins)
    (call : Exchange F) : Decidable (Joint su rs py t call) :=
  inferInstanceAs (Decidable (_ ∧ _))

end Twins

theorem twinned_start {su : Gateway.Setup} {rs : Setup} {registry : BackendRegistry String}
    (registered : ∀ b ∈ rs.backendIds, (registry.url b).isSome = true)
    (sessions : SessionAffinity String) :
    Twinned su rs (Twins.start su rs registry sessions).python
      (Twins.start su rs registry sessions).rust where
  tree := sim_init _
  load := rfl
  rotation := rfl
  breaker := rfl
  limiter := rfl
  next := rfl
  phase := fun _ => .ended
  shaped := ⟨_, RadixTree.init_inv _⟩
  healthy := rfl
  ungated := rfl
  registered := registered
  stocked := fun _ _ none_held _ => by cases none_held

theorem twinned_run {su : Gateway.Setup} {rs : Setup} (alike : Alike su rs) {p p' : Gateway.Server}
    {r : Server} (twinned : Twinned su rs p r) {py : Builtins F}
    {calls : List (Exchange F)}
    (joint : Machine.Along (Twins.step su rs) (Twins.Joint su rs py) ⟨p, r⟩ calls)
    (reach : Machine.run (Gateway.Server.step su) p (calls.map Exchange.span) = some p') :
    ∃ acts r', Machine.run (Server.step rs) r acts = some r' ∧
      Machine.run (Twins.step su rs) ⟨p, r⟩ calls = some ⟨p', r'⟩ ∧ Twinned su rs p' r' := by
  induction calls generalizing p r with
  | nil =>
      cases reach
      exact ⟨[], r, rfl, rfl, twinned⟩
  | cons call calls ih =>
      obtain ⟨mid, taken, reach⟩ := Machine.run_cons_eq_some.mp reach
      obtain ⟨r', first, twins⟩ := twinned.step alike joint.1.1 joint.1.2 taken
      have both : Twins.step su rs ⟨p, r⟩ call = some ⟨mid, r'⟩ := by
        simp only [Twins.step, taken, Option.bind_some, first, Option.map_some]
      obtain ⟨acts, final, rest, together, twins'⟩ := ih twins (joint.2 _ both) reach
      exact ⟨_, final, Machine.run_append_eq_some.mpr ⟨r', first, rest⟩,
        Machine.run_cons_eq_some.mpr ⟨_, both, together⟩, twins'⟩

/-- **The Rust gateway follows the Python gateway.** For every configuration of both, every run of
the Python gateway in which both can do every span and read every request alike, and whatever the
order in which the Rust tables iterate: some run of the Rust gateway, span by span, ends in the same
state. The trees answer every query alike, all counters, circuits and buckets are the same, and every
request is where it is in the other gateway, dispatched to the same backend by the same route. -/
theorem rust_follows_python {su : Gateway.Setup} {rs : Setup} (alike : Alike su rs)
    {registry : BackendRegistry String} {sessions : SessionAffinity String}
    (registered : ∀ b ∈ rs.backendIds, (registry.url b).isSome = true) {py : Builtins F}
    {calls : List (Exchange F)}
    (joint : Machine.Along (Twins.step su rs) (Twins.Joint su rs py)
      (Twins.start su rs registry sessions) calls) {p : Gateway.Server}
    (reach : Machine.run (Gateway.Server.step su) (Twins.start su rs registry sessions).python
      (calls.map Exchange.span) = some p) :
    ∃ acts r, Machine.run (Server.step rs) (Server.init rs) acts = some r ∧
      Machine.run (Twins.step su rs) (Twins.start su rs registry sessions) calls = some ⟨p, r⟩ ∧
      Mirrors su rs p r ∧ ∀ q, r.tree.matchPrefix q = p.tree.matchPrefix q := by
  obtain ⟨acts, r, rust, both, twins⟩ :=
    twinned_run alike (twinned_start registered sessions) joint reach
  exact ⟨acts, r, rust, both, twins.toMirrors, fun q => twins.tree.matchPrefix q⟩

/-- Two backends, blocks of four characters, and quotas. -/
def pythonTwin : Gateway.Setup := { cfg := { blockChars := 4, rateLimitEnabled := true } }

def rustTwin : Setup where
  cfg := { blockChars := 4, rateLimitEnabled := true }
  backends := [("b0", "http://b0"), ("b1", "http://b1")]

theorem alike_twins : Alike pythonTwin rustTwin where
  routing := ⟨rfl, rfl, rfl, rfl, rfl, rfl, rfl, rfl, rfl, rfl, by decide, by decide⟩
  strategy := rfl
  maxRetries := rfl
  rateLimitEnabled := rfl
  prefixIsolation := rfl
  plain := ⟨rfl, rfl, rfl, rfl, rfl, rfl, rfl⟩
  backends := by decide

/-- A message and the number of tokens it asks for. -/
def hello : Json Empty := .obj (oneMessage "hello" 2)

/-- What the Python gateway reads off it. -/
def helloRequest : Gateway.Request :=
  { Gateway.Server.plainRequest with
    prompt := "user: hello"
    inputTokens := 2
    reservedOutput := 2 }

/-- A span that is no arrival, or the arrival of `hello`. -/
def plainly (now : ℚ) (act : Gateway.Server.Act) : Exchange Empty where
  span := ⟨now, act⟩
  body := hello
  it := Server.inOrder

/-- The first request is streamed to its end; the second one is sent to the other backend, which
cannot be reached, and then to the first. -/
def failsOver : List (Exchange Empty) :=
  [plainly 0 (.arrive helloRequest false none), plainly 0 (.connected 0 200 none),
    plainly 1 (.arrive helloRequest false none), plainly 1 (.refused 1 none), plainly 1 (.start 0),
    plainly 2 (.chunk 0 3), plainly 2 (.stop 0), plainly 2 (.closed 0 none)]

theorem rust_follows_python_failover :
    let both := Twins.start pythonTwin rustTwin
      (.init "mock-model" [("b0", "http://b0"), ("b1", "http://b1")]) (.init 10000 1800)
    ∃ p, Machine.run (Gateway.Server.step pythonTwin) both.python (failsOver.map Exchange.span) =
        some p ∧
      p.dispatches.map (fun d => d.backend) = ["b0", "b1", "b0"] ∧ p.load.inflightOf "b0" = 1 ∧
      ∃ acts r, Machine.run (Server.step rustTwin) (Server.init rustTwin) acts = some r ∧
        Machine.run (Twins.step pythonTwin rustTwin) both failsOver = some ⟨p, r⟩ ∧
        Mirrors pythonTwin rustTwin p r ∧ ∀ q, r.tree.matchPrefix q = p.tree.matchPrefix q := by
  intro both
  obtain ⟨p, reach, backends, load⟩ : ∃ p,
      Machine.run (Gateway.Server.step pythonTwin) both.python (failsOver.map Exchange.span) =
          some p ∧
        p.dispatches.map (fun d => d.backend) = ["b0", "b1", "b0"] ∧ p.load.inflightOf "b0" = 1 :=
    Machine.exists_run (by decide +kernel)
  have joint : Machine.Along (Twins.step pythonTwin rustTwin)
      (Twins.Joint pythonTwin rustTwin plainBuiltins) both failsOver := by
    decide +kernel
  exact ⟨p, reach, backends, load, rust_follows_python alike_twins (by decide +kernel) joint reach⟩

end Rust

end Gateway
