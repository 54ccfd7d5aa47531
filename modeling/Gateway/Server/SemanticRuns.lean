import Gateway.Lib.Utf8
import Gateway.SemanticCache
import Gateway.Server.Body
import Gateway.Server.Closing

/-!
The semantic cache beside the chat handler: `chat_completions` looks a prompt up before it
routes, and the `finally` block of `body_iter` stores what was streamed.

`CachedServer` is the chat handler with the cache and the buffers of its bodies. Its spans
are those of the handler, with the bytes of the chunks and the outcome of the look-up no
longer open: the server of a run with the cache makes a run of the handler
(`run_server`). `responses` and `hits` are bookkeeping: the responses whose body was closed,
with what was read of them, and the bodies served from the cache.

* `hit_source`: a hit was streamed to an earlier request of the same tenant, and no retained
  entry of the tenant is closer to the new prompt. Nothing compares the models
  (`hit_other_model`).
* `served_complete`: if no stream of status 200 with a prompt that can be embedded breaks
  off, and their bodies are well-formed UTF-8, then whatever is retained or served is the
  complete body of a response. The `finally` block also runs when the stream breaks off,
  and then a part is stored and served (`served_truncated`).
-/

namespace Gateway

/-- What was read of a body: `buf`, and whether `aiter_raw` came to its end. -/
structure Buffer where
  bytes : List UInt8 := []
  finished : Bool := false

/-- A response of a backend, as far as it was read when its body was closed. -/
structure Response where
  req : Request
  backend : String
  code : Nat
  bytes : List UInt8
  finished : Bool
  deriving DecidableEq

/-- A body served from the cache. -/
structure Hit where
  req : Request
  body : List UInt8
  deriving DecidableEq

/-- The chat handler with its semantic cache. -/
structure CachedServer (V : Type) where
  server : Server
  cache : SemanticCache V
  buf : Nat → Buffer
  responses : List Response
  hits : List Hit

/-- The handler comes to `sem_cache.lookup`. A miss changes nothing that is looked up later,
so a request that raises after its miss may as well have raised before. -/
def Server.looksUp (su : Setup) (s : Server) (req : Request) (now : ℚ) (fault : Option Stretch) :
    Bool :=
  su.cfg.semanticCacheEnabled && decide (fault ∉ [some .parse, some .resolve, some .select]) &&
    req.authorized && (s.admission su req now).2 && !(su.idsFor s.registry req.model).isEmpty

/-- The `finally` block comes to `sem_cache.store`. A helper that raises before `release` does
so before the store, or `late`, after it. -/
def Setup.stores (su : Setup) (code : Nat) (fault : Option Stretch) (late : Bool) : Bool :=
  su.cfg.semanticCacheEnabled && decide (code = 200) && (decide (fault ≠ some .settled) || late)

namespace CachedServer

variable {V : Type} (su : Setup)

/-- What a span does. -/
inductive Act where
  | arrive (req : Request) (fault : Option Stretch)
  | start (i : Nat)
  | chunk (i : Nat) (bytes : List UInt8)
  /-- The stream ends, or breaks off. -/
  | stop (i : Nat) (finished : Bool)
  | closed (i : Nat) (fault : Option Stretch) (late : Bool)
  /-- Any other span of the handler. -/
  | other (act : Server.Act)

/-- A span: when it runs and what it does. -/
structure Span where
  now : ℚ
  act : Act

/-- The spans that the cache has nothing to do with. A cancelled stream stays unfinished. -/
def isOther : Server.Act → Bool
  | .arrive _ _ _ | .start _ | .chunk _ _ | .stop _ | .closed _ _ => false
  | _ => true

/-- `cached`. -/
def cached (s : CachedServer V) (req : Request) (now : ℚ) (fault : Option Stretch) :
    Option (String × ℚ) :=
  if s.server.looksUp su req now fault then (s.cache.lookup req.tenant.id req.prompt).2 else none

/-- The span of the chat handler. -/
def handlerAct (s : CachedServer V) (now : ℚ) : Act → Option Server.Act
  | .arrive req fault => some (.arrive req (s.cached su req now fault).isSome fault)
  | .start i => some (.start i)
  | .chunk i bytes => some (.chunk i (countMarks bytes))
  | .stop i _ => some (.stop i)
  | .closed i fault _ => some (.closed i fault)
  | .other act => if isOther act then some act else none

/-- The response `StreamingResponse(iter([cached_body.encode("utf-8")]))`, unless building
it raises. -/
def serve (s : CachedServer V) (req : Request) (now : ℚ) (fault : Option Stretch) : List Hit :=
  match s.cached su req now fault with
  | some (cachedBody, _) => if fault = some .refusal then [] else [⟨req, Utf8.encode cachedBody⟩]
  | none => []

/-- What a span does to the cache, the buffers and the bookkeeping. -/
def remember (s : CachedServer V) (now : ℚ) : Act → CachedServer V
  | .arrive req fault =>
      { s with
        cache := if s.server.looksUp su req now fault then
            (s.cache.lookup req.tenant.id req.prompt).1
          else s.cache
        hits := s.hits ++ s.serve su req now fault }
  | .start i => { s with buf := Function.update s.buf i {} }
  | .chunk i bytes =>
      { s with buf := Function.update s.buf i { s.buf i with bytes := (s.buf i).bytes ++ bytes } }
  | .stop i finished =>
      { s with buf := Function.update s.buf i { s.buf i with finished := finished } }
  | .closed i fault late =>
      match s.server.phase i with
      | .closing req r code _ =>
          { s with
            cache := if su.stores code fault late then
                (s.cache.store req.tenant.id req.prompt (Utf8.decode (s.buf i).bytes)).1
              else s.cache
            responses := s.responses ++
              [⟨req, r.backendId, code, (s.buf i).bytes, (s.buf i).finished⟩] }
      | _ => s
  | .other _ => s

/-- One span. -/
def step (s : CachedServer V) (span : Span) : Option (CachedServer V) :=
  (s.handlerAct su span.now span.act).bind fun act =>
    (s.server.step su ⟨span.now, act⟩).map fun server =>
      { s.remember su span.now span.act with server := server }

/-- A server with an empty cache. -/
def init (server : Server) (embedder : String → Option V) (similarity : V → V → Option ℚ)
    (threshold : ℚ) (maxEntries : Int) : CachedServer V :=
  ⟨server, .init embedder similarity threshold maxEntries, fun _ => {}, [], []⟩

variable {su}

/-- What a span that is taken does to the cache and to the server. -/
theorem step_eq_some {s s' : CachedServer V} {span : Span} :
    s.step su span = some s' ↔ ∃ act server, s.handlerAct su span.now span.act = some act ∧
      s.server.step su ⟨span.now, act⟩ = some server ∧
      s' = { s.remember su span.now span.act with server := server } := by
  unfold step
  rw [Option.bind_eq_some_iff]
  simp only [Option.map_eq_some_iff]
  constructor
  · rintro ⟨act, named, server, taken, rfl⟩
    exact ⟨act, server, named, taken, rfl⟩
  · rintro ⟨act, server, named, taken, rfl⟩
    exact ⟨act, named, server, taken, rfl⟩

/-- **The handler is the chat handler.** The server of a run with the cache makes a run of
the handler, with look-ups that hit or miss as the cache has it. -/
theorem run_server {s s' : CachedServer V} {spans : List Span}
    (reach : Machine.run (step su) s spans = some s') :
    ∃ spans', Machine.run (Server.step su) s.server spans' = some s'.server := by
  induction spans generalizing s with
  | nil =>
      cases reach
      exact ⟨[], rfl⟩
  | cons span spans ih =>
      obtain ⟨mid, first, rest⟩ := Machine.run_cons_eq_some.mp reach
      obtain ⟨act, server, -, taken, rfl⟩ := step_eq_some.mp first
      obtain ⟨spans', reach'⟩ := ih rest
      exact ⟨⟨span.now, act⟩ :: spans', Machine.run_cons_eq_some.mpr ⟨server, taken, reach'⟩⟩

/-! ### Where entries come from -/

variable (su) in
/-- The response whose body a span stores. -/
def storing (s : CachedServer V) (span : Span) : Option Response :=
  match span.act with
  | .closed i fault late =>
      match s.server.phase i with
      | .closing req r code _ =>
          if su.stores code fault late && (s.cache.embedder req.prompt).isSome then
            some ⟨req, r.backendId, code, (s.buf i).bytes, (s.buf i).finished⟩
          else none
      | _ => none
  | _ => none

/-- A response a backend streamed to a request of the tenant, with the embedding of its
prompt and its body as a text. -/
structure Source (m : SemanticCache V) (x : Response) (tenantId : String) (embedding : V)
    (response : String) : Prop where
  code : x.code = 200
  tenant : x.req.tenant.id = tenantId
  prompt : m.embedder x.req.prompt = some embedding
  body : response = Utf8.decode x.bytes

/-- All entries come from good responses, and all hits were such entries. -/
structure Sound (m : SemanticCache V) (good : Response → Prop) (s : CachedServer V) : Prop where
  settings : ∃ tenants, s.cache = { m with tenants := tenants }
  retained : ∀ tenantId embedding response, s.cache.Retains tenantId embedding response →
    ∃ x ∈ s.responses, good x ∧ Source m x tenantId embedding response
  hits : ∀ h ∈ s.hits, ∃ x ∈ s.responses, good x ∧
    ∃ embedding response, Source m x h.req.tenant.id embedding response ∧
      h.body = Utf8.encode response

variable {m : SemanticCache V} {good : Response → Prop}

theorem Sound.embedder {s : CachedServer V} (sound : s.Sound m good) :
    s.cache.embedder = m.embedder := by
  obtain ⟨tenants, same⟩ := sound.settings
  rw [same]

theorem Sound.init (server : Server) (embedder : String → Option V)
    (similarity : V → V → Option ℚ) (threshold : ℚ) (maxEntries : Int) :
    (init server embedder similarity threshold maxEntries).Sound
      (.init embedder similarity threshold maxEntries) good := by
  constructor
  · exact ⟨.empty, rfl⟩
  · intro tenantId embedding response retained
    exact absurd retained SemanticCache.not_retains_init
  · intro h member
    cases member

/-- What is served is what the look-up found. -/
theorem mem_serve {s : CachedServer V} {req : Request} {now : ℚ} {fault : Option Stretch} {h : Hit}
    (member : h ∈ s.serve su req now fault) :
    h.req = req ∧ s.server.looksUp su req now fault = true ∧ ∃ response best,
      (s.cache.lookup req.tenant.id req.prompt).2 = some (response, best) ∧
        h.body = Utf8.encode response := by
  unfold serve cached at member
  split at member
  · rename_i response best found
    split at member
    · cases member
    · rw [List.mem_singleton] at member
      split at found
      · rename_i looked
        exact ⟨by rw [member], looked, response, best, found, by rw [member]⟩
      · cases found
  · cases member

/-- A request that arrives is served from the entries there are, and changes none. -/
theorem Sound.arrive {s : CachedServer V} (sound : s.Sound m good) (req : Request) (now : ℚ)
    (fault : Option Stretch) : (s.remember su now (.arrive req fault)).Sound m good := by
  have unchanged : ∀ tenantId embedding response,
      (s.remember su now (.arrive req fault)).cache.Retains tenantId embedding response ↔
        s.cache.Retains tenantId embedding response := by
    intro tenantId embedding response
    simp only [remember]
    split
    · exact SemanticCache.retains_lookup
    · exact Iff.rfl
  constructor
  · obtain ⟨tenants, same⟩ := sound.settings
    simp only [remember]
    split
    · obtain ⟨tenants', same'⟩ := s.cache.lookup_settings req.tenant.id req.prompt
      exact ⟨tenants', by rw [same', same]⟩
    · exact ⟨tenants, same⟩
  · intro tenantId embedding response retained
    exact sound.retained tenantId embedding response ((unchanged _ _ _).mp retained)
  · intro h member
    rcases List.mem_append.mp member with old | new
    · exact sound.hits h old
    · obtain ⟨same, -, response, best, found, body⟩ := mem_serve new
      obtain ⟨vec, embedding, -, retained, -⟩ := SemanticCache.lookup_hit found
      obtain ⟨x, logged, isGood, source⟩ := sound.retained _ embedding response retained
      exact ⟨x, logged, isGood, embedding, response, same ▸ source, body⟩

/-- A closed body is stored for the tenant and the prompt of its request. -/
theorem Sound.closed {s : CachedServer V} (sound : s.Sound m good) (i : Nat) (now : ℚ)
    (fault : Option Stretch) (late : Bool)
    (stored : ∀ x ∈ s.storing su ⟨now, .closed i fault late⟩, good x) :
    (s.remember su now (.closed i fault late)).Sound m good := by
  unfold storing at stored
  simp only [remember]
  split
  · rename_i req r code outEvents closing
    simp only [closing] at stored
    have grown : ∀ {p : Response → Prop} (x : Response), (∃ y ∈ s.responses, p y) →
        ∃ y ∈ s.responses ++ [x], p y := by
      rintro p x ⟨y, logged, holds⟩
      exact ⟨y, List.mem_append_left _ logged, holds⟩
    refine ⟨?_, ?_, fun h member => grown _ (sound.hits h member)⟩
    · obtain ⟨tenants, same⟩ := sound.settings
      dsimp only
      split
      · obtain ⟨tenants', same'⟩ :=
          s.cache.store_settings req.tenant.id req.prompt (Utf8.decode (s.buf i).bytes)
        exact ⟨tenants', by rw [same', same]⟩
      · exact ⟨tenants, same⟩
    · intro tenantId embedding response retained
      dsimp only at retained
      split at retained
      · rename_i stores
        rcases SemanticCache.retains_store retained with ⟨tenant, embedded, body⟩ | before
        · rw [stores, embedded] at stored
          refine ⟨_, List.mem_append_right _ (List.mem_singleton.mpr rfl), stored _ rfl, ?_⟩
          have code200 : code = 200 := by
            simp only [Setup.stores, Bool.and_eq_true, decide_eq_true_eq] at stores
            exact stores.1.2
          exact ⟨code200, tenant.symm, by rw [← sound.embedder, embedded], body⟩
        · exact grown _ (sound.retained _ _ _ before)
      · exact grown _ (sound.retained _ _ _ retained)
  · exact sound

/-- **One span.** -/
theorem Sound.step {s s' : CachedServer V} {span : Span} (sound : s.Sound m good)
    (stored : ∀ x ∈ s.storing su span, good x) (taken : s.step su span = some s') :
    s'.Sound m good := by
  obtain ⟨act, server, -, -, rfl⟩ := step_eq_some.mp taken
  obtain ⟨now, act⟩ := span
  have kept : (s.remember su now act).Sound m good := by
    cases act with
    | arrive req fault => exact sound.arrive req now fault
    | closed i fault late => exact sound.closed i now fault late stored
    | start i => exact ⟨sound.settings, sound.retained, sound.hits⟩
    | chunk i bytes => exact ⟨sound.settings, sound.retained, sound.hits⟩
    | stop i finished => exact ⟨sound.settings, sound.retained, sound.hits⟩
    | other act => exact sound
  exact ⟨kept.settings, kept.retained, kept.hits⟩

/-! ### How bodies end -/

variable (su) in
/-- The body of a response with this request and status is stored, however it ends. -/
def storesBody (m : SemanticCache V) (x : Request × Nat) : Bool :=
  su.cfg.semanticCacheEnabled && decide (x.2 = 200) && (m.embedder x.1.prompt).isSome

variable (su) in
/-- The span ends a stream whose body is stored, before its upstream has come to its end, or
with bytes that are no text. -/
def spoils (s : CachedServer V) (span : Span) : Bool :=
  match span.act with
  | .stop i finished =>
      (s.server.phase i).streaming?.any (storesBody su s.cache) &&
        !(finished && decide (Utf8.WellFormed (s.buf i).bytes))
  | .other (.cancel i) => (s.server.phase i).streaming?.any (storesBody su s.cache)
  | _ => false

variable (su) in
/-- The bodies that are being closed and will be stored are whole. -/
def Whole (m : SemanticCache V) (s : CachedServer V) : Prop :=
  ∀ i x, (s.server.phase i).closing? = some x → storesBody su m x = true →
    (s.buf i).finished = true ∧ Utf8.WellFormed (s.buf i).bytes

theorem storesBody_congr {m' : SemanticCache V} (same : m'.embedder = m.embedder)
    (x : Request × Nat) : storesBody su m' x = storesBody su m x := by
  rw [storesBody, same, storesBody]

/-- No body begins to close, and no buffer of one that is being closed changes. -/
theorem Whole.keep {s s' : CachedServer V} (whole : s.Whole su m)
    (unclosed : s.server.Unclosed s'.server)
    (buffers : ∀ i x, (s'.server.phase i).closing? = some x → s'.buf i = s.buf i) :
    s'.Whole su m := by
  intro i x closing stored
  rw [buffers i x closing]
  exact whole i x (unclosed.closing i x closing) stored

/-- The stream of request `i` has ended, as a whole if its body will be stored. -/
theorem Whole.ended {s s' : CachedServer V} {i code : Nat} {req : Request} (whole : s.Whole su m)
    (closing : (s'.server.phase i).closing? = some (req, code))
    (others : ∀ j, j ≠ i → s'.server.phase j = s.server.phase j ∧ s'.buf j = s.buf j)
    (ended : storesBody su m (req, code) = true →
      (s'.buf i).finished = true ∧ Utf8.WellFormed (s'.buf i).bytes) : s'.Whole su m := by
  intro j x at_j stored
  by_cases here : j = i
  · subst here
    rw [closing] at at_j
    cases at_j
    exact ended stored
  · obtain ⟨phase, buffer⟩ := others j here
    rw [phase] at at_j
    rw [buffer]
    exact whole j x at_j stored

/-- A span that ends no stream. -/
theorem Whole.goes_on {s : CachedServer V} {server : Server} {now : ℚ} {act : Act}
    {handler : Server.Act} (whole : s.Whole su m) (named : s.handlerAct su now act = some handler)
    (goes_on : handler.ends s.server = none)
    (taken : Server.perform su { s.server with clock := now } now handler = some server) :
    ({ s.remember su now act with server := server } : CachedServer V).Whole su m := by
  have ticked : s.server.Unclosed { s.server with clock := now } := .of_eq rfl
  have unclosed := ticked.trans (Server.unclosed_perform goes_on taken)
  refine whole.keep unclosed fun j x closing => ?_
  cases act with
  | arrive req fault => rfl
  | start i =>
      cases named
      refine Function.update_of_ne (fun here => ?_) ..
      dsimp only [Server.perform, Server.start] at taken
      split at taken
      · cases taken
        simp [here, Server.setPhase, Phase.closing?] at closing
      · cases taken
  | chunk i bytes =>
      cases named
      refine Function.update_of_ne (fun here => ?_) ..
      dsimp only [Server.perform, Server.chunk] at taken
      split at taken
      · cases taken
        simp [here, Server.setPhase, Phase.closing?] at closing
      · cases taken
  | stop i finished =>
      cases named
      dsimp only [Server.perform, Server.stop] at taken
      split at taken
      · rename_i phase
        simp [Server.Act.ends, phase, Phase.streaming?] at goes_on
      · cases taken
  | closed i fault late =>
      simp only [remember]
      split <;> rfl
  | other act => rfl

/-- A span that ends a stream. -/
theorem Whole.ends {s : CachedServer V} {server : Server} {now : ℚ} {act : Act}
    {handler : Server.Act} (whole : s.Whole su m) (same : s.cache.embedder = m.embedder)
    (fine : s.spoils su ⟨now, act⟩ = false) (named : s.handlerAct su now act = some handler)
    {i code : Nat} {req : Request} (ends : handler.ends s.server = some (i, req, code))
    (taken : Server.perform su { s.server with clock := now } now handler = some server) :
    ({ s.remember su now act with server := server } : CachedServer V).Whole su m := by
  obtain ⟨closing, others⟩ := Server.ends_perform (s := { s.server with clock := now }) ends taken
  have streaming : ∀ k, handler = .stop k ∨ handler = .cancel k →
      k = i ∧ (s.server.phase i).streaming? = some (req, code) := by
    rintro k (rfl | rfl)
    all_goals
      obtain ⟨x, streaming, pair⟩ := Option.map_eq_some_iff.mp ends
      cases pair
      exact ⟨rfl, streaming⟩
  cases act with
  | stop k finished =>
      cases named
      obtain ⟨rfl, streams⟩ := streaming k (.inl rfl)
      refine whole.ended closing (fun j other => ⟨others j other, ?_⟩) fun stored => ?_
      · exact Function.update_of_ne other ..
      · rw [← storesBody_congr same] at stored
        simp only [spoils, streams, Option.any_some, stored, Bool.true_and, Bool.not_eq_false',
          Bool.and_eq_true, decide_eq_true_eq] at fine
        simpa only [remember, Function.update_self] using fine
  | other act =>
      simp only [handlerAct] at named
      split at named
      · rename_i is_other
        cases named
        refine whole.ended closing (fun j other => ⟨others j other, rfl⟩) fun stored => ?_
        rw [← storesBody_congr same] at stored
        cases handler with
        | stop k => cases is_other
        | cancel k =>
            obtain ⟨rfl, streams⟩ := streaming k (.inr rfl)
            simp [spoils, streams, stored] at fine
        | _ => cases ends
      · cases named
  | _ =>
      cases named
      cases ends

/-- **One span.** -/
theorem Whole.step {s s' : CachedServer V} {span : Span} (whole : s.Whole su m)
    (same : s.cache.embedder = m.embedder) (fine : s.spoils su span = false)
    (taken : s.step su span = some s') : s'.Whole su m := by
  obtain ⟨handler, server, named, stepped, rfl⟩ := step_eq_some.mp taken
  obtain ⟨now, act⟩ := span
  unfold Server.step at stepped
  split at stepped
  · cases ends : handler.ends s.server with
    | none => exact whole.goes_on named ends stepped
    | some x => exact whole.ends same fine named ends stepped
  · cases stepped

/-- What a span stores was read as a whole. -/
theorem Whole.storing {s : CachedServer V} {span : Span} {x : Response} (whole : s.Whole su m)
    (same : s.cache.embedder = m.embedder) (stored : s.storing su span = some x) :
    x.finished = true ∧ Utf8.WellFormed x.bytes := by
  obtain ⟨now, act⟩ := span
  cases act with
  | closed i fault late =>
      simp only [CachedServer.storing] at stored
      split at stored
      · rename_i req r code out phase
        split at stored
        · rename_i stores
          cases stored
          refine whole i (req, code) (by rw [phase]; rfl) ?_
          simp only [Setup.stores, Bool.and_eq_true] at stores
          rw [← storesBody_congr same]
          simp only [storesBody, Bool.and_eq_true]
          exact ⟨stores.1.1, stores.2⟩
        · cases stored
      · cases stored
  | _ => cases stored

/-! ### What is served -/

/-- The similarity of an embedder that tells all prompts apart. -/
def exactly (prompt query : String) : Option ℚ := some (if prompt = query then 1 else 0)

/-- The semantic cache is on, the quotas are off. -/
def cacheOn : Setup := { cfg := { semanticCacheEnabled := true, rateLimitEnabled := false } }

/-- Two backends, `a` serving model `m` and `b` serving `n`, and an empty cache. -/
def twoModels : CachedServer String :=
  .init (.init cacheOn ⟨.ofItems [("a", .new "ua" "m"), ("b", .new "ub" "n")], "m"⟩ 8 3 5
    (.init 60 10) none none) some exactly 1 4

/-- A request for a model. -/
def asks (model : String) : Request :=
  ⟨true, ⟨"t", 1, 1, 1, "gold"⟩, some model, "hi", none, none, none, none, 1, 1⟩

/-- A request for model `m` is answered with `ok!` in two chunks, or the stream breaks off
after the first. -/
def streams (finished : Bool) : List Span :=
  [⟨0, .arrive (asks "m") none⟩, ⟨0, .other (.connected 0 200 none)⟩, ⟨0, .start 0⟩,
    ⟨0, .chunk 0 [0x6F, 0x6B]⟩] ++ (if finished then [⟨0, .chunk 0 [0x21]⟩] else []) ++
    [⟨0, .stop 0 finished⟩, ⟨0, .closed 0 none false⟩]

/-- **Where a hit comes from.** In every run, and for every embedder, a body served from the
cache was streamed by a backend that answered an earlier request of the same tenant with
200. The similarity of the two prompts reaches the threshold, and no entry the tenant still
has is more similar to the new prompt. The body is the streamed one, decoded and encoded
again. -/
theorem hit_source (su : Setup) (server : Server) (embedder : String → Option V)
    (similarity : V → V → Option ℚ) (threshold : ℚ) (maxEntries : Int) {spans : List Span}
    {s s' : CachedServer V} {span : Span} {h : Hit}
    (reach : Machine.run (step su) (init server embedder similarity threshold maxEntries) spans =
      some s)
    (taken : s.step su span = some s') (served : s'.hits = s.hits ++ [h]) :
    ∃ x ∈ s.responses, ∃ vec embedding best, x.code = 200 ∧ x.req.tenant.id = h.req.tenant.id ∧
      embedder x.req.prompt = some embedding ∧ embedder h.req.prompt = some vec ∧
      similarity embedding vec = some best ∧ threshold ≤ best ∧
      s.cache.Retains h.req.tenant.id embedding (Utf8.decode x.bytes) ∧
      (∀ other response, s.cache.Retains h.req.tenant.id other response →
        ∃ sim, similarity other vec = some sim ∧ sim ≤ best) ∧
      h.body = Utf8.encode (Utf8.decode x.bytes) := by
  have sound : s.Sound (.init embedder similarity threshold maxEntries) fun _ => True :=
    Machine.run_invariant (fun s span s' sound taken => sound.step (fun _ _ => trivial) taken)
      (.init server embedder similarity threshold maxEntries) reach
  obtain ⟨tenants, settings⟩ := sound.settings
  obtain ⟨act, server', -, -, rfl⟩ := step_eq_some.mp taken
  obtain ⟨now, act⟩ := span
  -- only an arrival serves from the cache
  have arrives : ∃ req fault, act = .arrive req fault := by
    cases act with
    | arrive req fault => exact ⟨req, fault, rfl⟩
    | closed i fault late =>
        simp only [remember] at served
        split at served <;> simp at served
    | start i => simp [remember] at served
    | chunk i bytes => simp [remember] at served
    | stop i finished => simp [remember] at served
    | other act => simp [remember] at served
  obtain ⟨req, fault, rfl⟩ := arrives
  have found : h ∈ s.serve su req now fault := by
    have same := List.append_cancel_left served
    rw [same]
    exact List.mem_singleton_self h
  obtain ⟨same, -, response, best, hit, body⟩ := mem_serve found
  obtain ⟨vec, embedding, embedded, retained, product, reached, greatest⟩ :=
    SemanticCache.lookup_hit hit
  obtain ⟨x, logged, -, source⟩ := sound.retained _ embedding response retained
  obtain rfl := source.body
  rw [settings] at embedded product reached greatest
  rw [same]
  refine ⟨x, logged, vec, embedding, best, source.code, source.tenant, source.prompt, embedded,
    product, reached, retained, ?_, body⟩
  intro other response' still
  rw [settings] at still
  exact greatest other response' still

/-- The same prompt again is served what was streamed. -/
theorem hit_source_again :
    ∃ s s' h, Machine.run (step cacheOn) twoModels (streams true) = some s ∧
      s.step cacheOn ⟨1, .arrive (asks "m") none⟩ = some s' ∧ s'.hits = s.hits ++ [h] ∧
      ∃ x ∈ s.responses, ∃ vec embedding best, x.code = 200 ∧ x.req.tenant.id = h.req.tenant.id ∧
        some x.req.prompt = some embedding ∧ some h.req.prompt = some vec ∧
        exactly embedding vec = some best ∧ 1 ≤ best ∧
        s.cache.Retains h.req.tenant.id embedding (Utf8.decode x.bytes) ∧
        (∀ other response, s.cache.Retains h.req.tenant.id other response →
          ∃ sim, exactly other vec = some sim ∧ sim ≤ best) ∧
        h.body = Utf8.encode (Utf8.decode x.bytes) := by
  obtain ⟨s, reach, again⟩ : ∃ s, Machine.run (step cacheOn) twoModels (streams true) = some s ∧
      (s.step cacheOn ⟨1, .arrive (asks "m") none⟩).any (fun s' =>
        s'.hits = s.hits ++ [⟨asks "m", [0x6F, 0x6B, 0x21]⟩]) = true :=
    Machine.exists_run (by decide +kernel)
  obtain ⟨s', taken, served⟩ := (Option.any_eq_true _ _).mp again
  have served := of_decide_eq_true served
  exact ⟨s, s', _, reach, taken, served,
    hit_source cacheOn _ some exactly 1 4 reach taken served⟩

/-- A request for another model is served what backend `a` answered for `m`. -/
theorem hit_other_model :
    ∃ s s' h, Machine.run (step cacheOn) twoModels (streams true) = some s ∧
      s.step cacheOn ⟨1, .arrive (asks "n") none⟩ = some s' ∧ s'.hits = s.hits ++ [h] ∧
      h.body = [0x6F, 0x6B, 0x21] ∧ ∀ x ∈ s.responses, x.req.model ≠ h.req.model := by
  obtain ⟨s, reach, again, models⟩ : ∃ s,
      Machine.run (step cacheOn) twoModels (streams true) = some s ∧
      (s.step cacheOn ⟨1, .arrive (asks "n") none⟩).any (fun s' =>
        s'.hits = s.hits ++ [⟨asks "n", [0x6F, 0x6B, 0x21]⟩]) = true ∧
      ∀ x ∈ s.responses, x.req.model ≠ some "n" :=
    Machine.exists_run (by decide +kernel)
  obtain ⟨s', taken, served⟩ := (Option.any_eq_true _ _).mp again
  exact ⟨s, s', _, reach, taken, of_decide_eq_true served, rfl, models⟩

/-- **Stored and served bodies are complete**, in every run in which no stream of status 200
whose prompt can be embedded stops before its end or is cancelled, and the bodies of these
streams are well-formed UTF-8. -/
theorem served_complete (su : Setup) (registry : BackendRegistry String)
    (backendCacheBlocks circuitFailThreshold : Int) (circuitCooldown : ℚ)
    (sessions : SessionAffinity String) (predictor : Option (List ℚ → Option ℚ))
    (scheduler : Option (Int × Dict String ℚ × ℚ × ℚ)) (embedder : String → Option V)
    (similarity : V → V → Option ℚ) (threshold : ℚ) (maxEntries : Int) {spans : List Span}
    {s : CachedServer V}
    (unbroken : Machine.Along (step su) (fun s span => s.spoils su span = false)
      (init (Server.init su registry backendCacheBlocks circuitFailThreshold circuitCooldown sessions
        predictor scheduler) embedder similarity threshold maxEntries) spans)
    (reach : Machine.run (step su)
      (init (Server.init su registry backendCacheBlocks circuitFailThreshold circuitCooldown sessions
        predictor scheduler) embedder similarity threshold maxEntries) spans = some s) :
    (∀ tenantId embedding response, s.cache.Retains tenantId embedding response →
      ∃ x ∈ s.responses, x.code = 200 ∧ x.finished = true ∧ Utf8.encode response = x.bytes) ∧
    ∀ h ∈ s.hits, ∃ x ∈ s.responses, x.code = 200 ∧ x.finished = true ∧ h.body = x.bytes := by
  obtain ⟨sound, -⟩ : s.Sound (.init embedder similarity threshold maxEntries)
      (fun x => x.finished = true ∧ Utf8.WellFormed x.bytes) ∧
      s.Whole su (.init embedder similarity threshold maxEntries) := by
    refine Machine.run_invariant_along (I := fun s : CachedServer V =>
        s.Sound (.init embedder similarity threshold maxEntries)
          (fun x => x.finished = true ∧ Utf8.WellFormed x.bytes) ∧
        s.Whole su (.init embedder similarity threshold maxEntries)) ?_
      ⟨Sound.init _ embedder similarity threshold maxEntries, fun _ _ closing => ?_⟩ unbroken reach
    · rintro s span s' ⟨sound, whole⟩ fine taken
      exact ⟨sound.step (fun x stored => whole.storing sound.embedder stored) taken,
        whole.step sound.embedder fine taken⟩
    · -- a server that has been started closes nothing
      cases closing
  constructor
  · intro tenantId embedding response retained
    obtain ⟨x, logged, ⟨finished, wellFormed⟩, source⟩ := sound.retained _ _ _ retained
    refine ⟨x, logged, source.code, finished, ?_⟩
    rw [source.body]
    exact Utf8.encode_decode_iff.mpr wellFormed
  · intro h member
    obtain ⟨x, logged, ⟨finished, wellFormed⟩, embedding, response, source, body⟩ :=
      sound.hits h member
    refine ⟨x, logged, source.code, finished, ?_⟩
    rw [body, source.body]
    exact Utf8.encode_decode_iff.mpr wellFormed

/-- A stream that is read to its end, and the hit after it. -/
theorem served_complete_whole :
    ∃ s, Machine.run (step cacheOn) twoModels (streams true ++ [⟨1, .arrive (asks "m") none⟩]) =
        some s ∧
      s.hits.map Hit.body = [[0x6F, 0x6B, 0x21]] ∧
      (∀ tenantId embedding response, s.cache.Retains tenantId embedding response →
        ∃ x ∈ s.responses, x.code = 200 ∧ x.finished = true ∧ Utf8.encode response = x.bytes) ∧
      ∀ h ∈ s.hits, ∃ x ∈ s.responses, x.code = 200 ∧ x.finished = true ∧ h.body = x.bytes := by
  obtain ⟨s, reach, bodies⟩ : ∃ s, Machine.run (step cacheOn) twoModels
      (streams true ++ [⟨1, .arrive (asks "m") none⟩]) = some s ∧
      s.hits.map Hit.body = [[0x6F, 0x6B, 0x21]] :=
    Machine.exists_run (by decide +kernel)
  have unbroken : Machine.Along (step cacheOn) (fun s span => s.spoils cacheOn span = false)
      twoModels (streams true ++ [⟨1, .arrive (asks "m") none⟩]) := by
    decide +kernel
  exact ⟨s, reach, bodies,
    served_complete cacheOn _ _ _ _ _ _ _ some exactly 1 4 unbroken reach⟩

/-- The stream of the only response breaks off after `ok`, and the next request with the
prompt is served just that. -/
theorem served_truncated :
    ∃ s, Machine.run (step cacheOn) twoModels (streams false ++ [⟨1, .arrive (asks "m") none⟩]) =
        some s ∧
      s.hits = [⟨asks "m", [0x6F, 0x6B]⟩] ∧
      ¬ ∃ x ∈ s.responses, x.code = 200 ∧ x.finished = true := by
  obtain ⟨s, reach, hits, unfinished⟩ : ∃ s, Machine.run (step cacheOn) twoModels
      (streams false ++ [⟨1, .arrive (asks "m") none⟩]) = some s ∧
      s.hits = [⟨asks "m", [0x6F, 0x6B]⟩] ∧
      ∀ x ∈ s.responses, ¬ (x.code = 200 ∧ x.finished = true) :=
    Machine.exists_run (by decide +kernel)
  exact ⟨s, reach, hits, fun ⟨x, logged, whole⟩ => unfinished x logged whole⟩

end CachedServer

end Gateway
