import Gateway.RadixTree.Queries
import Gateway.Server.Routing

/-!
The two prefix look-ups of `chat_completions`.

`Router.choose` hashes a prompt by tokens where the configuration says so, and what is
dispatched enters the prefix tree under these hashes. The look-up for disaggregated
routing always hashes characters.

* `lookups_agree_iff`: when both look-ups credit the same blocks, in every tree that
  dispatches can build.
* `disaggDecision_credits`: then disaggregated routing decides on the match of the router,
  in every state of a gateway.
-/

namespace Gateway

open RadixTree

namespace Config

variable (cfg : Config)

/-- The router hashes this prompt by characters. -/
def byChars (prompt : String) : Bool := !(cfg.useBpeHashing && (cfg.tokenize prompt).isSome)

/-- `hashes` in `Router.choose`. -/
def routerHashes (prompt : String) (seed : Nat) : Option (List Nat) :=
  (cfg.hashes prompt seed).map Prod.fst

/-- `_dh` in `chat_completions`. -/
def disaggHashes (prompt : String) (seed : Nat) : Option (List Nat) :=
  Hashing.blockHashes prompt cfg.blockChars cfg.hashCutoffBlocks seed

/-- What a dispatch can insert into the tree. -/
def Dispatchable (h : List Nat) : Prop := ∃ prompt seed, cfg.routerHashes prompt seed = some h

/-- The look-ups credit the same blocks to every backend, or both raise. -/
def LookupsAgree (tree : RadixTree Nat String) (prompt : String) (seed : Nat) : Prop :=
  ∀ b, (cfg.disaggHashes prompt seed).map (fun hs => (tree.matchPrefix hs).getD b 0) =
    (cfg.routerHashes prompt seed).map fun hs => (tree.matchPrefix hs).getD b 0

/-- The prompt is hashed by characters; or else both block sizes are zero, or the token hashes
are a prefix of the character hashes, and no prompt has hashes that go on along the latter. -/
def Concordant (prompt : String) (seed : Nat) : Prop :=
  cfg.byChars prompt = true ∨ (cfg.blockChars = 0 ∧ cfg.blockTokens = 0) ∨
    ∃ chars tokens, cfg.disaggHashes prompt seed = some chars ∧
      cfg.routerHashes prompt seed = some tokens ∧ LeadsNowhere cfg.Dispatchable chars tokens

variable {cfg} {prompt : String} {seed : Nat}

theorem routerHashes_of_byChars (chars : cfg.byChars prompt = true) :
    cfg.routerHashes prompt seed = cfg.disaggHashes prompt seed := by
  rw [routerHashes, disaggHashes, hashes]
  split
  · rename_i on
    have missing : cfg.tokenize prompt = none := by simpa [byChars, on] using chars
    rw [Hashing.blockHashesWithFallback, missing]
    exact (Option.map_map ..).trans Option.map_id'
  · exact (Option.map_map ..).trans Option.map_id'

theorem routerHashes_eq_none (tokens : cfg.byChars prompt = false) :
    cfg.routerHashes prompt seed = none ↔ cfg.blockTokens = 0 := by
  have sized : cfg.blockSize prompt = cfg.blockTokens := by
    rw [blockSize, if_pos (by simpa [byChars] using tokens)]
  rw [routerHashes, Option.map_eq_none_iff, ← Option.not_isSome_iff_eq_none, hashes_isSome, sized,
    not_not]

theorem disaggHashes_eq_none : cfg.disaggHashes prompt seed = none ↔ cfg.blockChars = 0 := by
  simp [disaggHashes, Hashing.blockHashes]

/-- Look-ups of which only one raises disagree. -/
theorem isSome_of_lookupsAgree {tree : RadixTree Nat String}
    (agree : cfg.LookupsAgree tree prompt seed) :
    cfg.disaggHashes prompt seed = none ↔ cfg.routerHashes prompt seed = none := by
  have here := agree ""
  rw [← Option.map_eq_none_iff, here, Option.map_eq_none_iff]

/-- **When the two look-ups agree**, in every tree that dispatches and removals build. -/
theorem lookups_agree_iff (cfg : Config) (prompt : String) (seed : Nat) :
    (∀ cap ops, OfKind cfg.Dispatchable ops →
      cfg.LookupsAgree (runOps cap ops) prompt seed) ↔ cfg.Concordant prompt seed := by
  cases chars : cfg.byChars prompt with
  | true =>
      have same : cfg.routerHashes prompt seed = cfg.disaggHashes prompt seed :=
        routerHashes_of_byChars chars
      exact iff_of_true (fun cap ops _ b => by rw [same]) (.inl chars)
  | false =>
      have router : cfg.routerHashes prompt seed = none ↔ cfg.blockTokens = 0 :=
        routerHashes_eq_none chars
      have handler : cfg.disaggHashes prompt seed = none ↔ cfg.blockChars = 0 :=
        disaggHashes_eq_none
      constructor
      · intro agree
        right
        have none_yet : OfKind cfg.Dispatchable ([] : List (Op Nat String)) := by
          intro h member
          cases member
        have raises := isSome_of_lookupsAgree (agree 0 [] none_yet)
        cases handled : cfg.disaggHashes prompt seed with
        | none => exact .inl ⟨handler.mp handled, router.mp (raises.mp handled)⟩
        | some hs =>
            cases routed : cfg.routerHashes prompt seed with
            | none => simp [handled, routed] at raises
            | some hs' =>
                have alike (cap : Int) (ops : List (Op Nat String))
                    (own : OfKind cfg.Dispatchable ops) : MatchesAlike (runOps cap ops) hs hs' := by
                  intro b
                  simpa [handled, routed] using agree cap ops own b
                exact .inr ⟨hs, hs', rfl, rfl, (matches_alike_iff ⟨prompt, seed, routed⟩).mp alike⟩
      · rintro (impossible | ⟨zeroChars, zeroTokens⟩ | ⟨hs, hs', handled, routed, nowhere⟩)
          cap ops own b
        · rw [chars] at impossible
          cases impossible
        · rw [handler.mpr zeroChars, router.mpr zeroTokens]
        · rw [handled, routed]
          exact congrArg some (nowhere.matchesAlike cap own b)

/-- A tokenizer with a token for each character. -/
def charTokens : Config where
  blockChars := 4
  blockTokens := 4
  useBpeHashing := true
  tokenize := fun prompt => some (prompt.toList.map Char.toNat)

/-- A backend that has been sent a prompt holds all of it for the router, and none of it
for disaggregated routing. -/
theorem lookups_disagree :
    ¬ ∀ (cfg : Config) (prompt : String) (seed : Nat) (cap : Int) (ops : List (Op Nat String)),
      OfKind cfg.Dispatchable ops → cfg.LookupsAgree (runOps cap ops) prompt seed := by
  intro agree
  have own : OfKind charTokens.Dispatchable
      [.insert ((charTokens.routerHashes "user: hi" 0).getD []) "b0"] := by
    intro h member
    rw [List.mem_singleton.mp member]
    exact ⟨"user: hi", 0, by decide +kernel⟩
  have here := agree charTokens "user: hi" 0 2000 _ own "b0"
  exact absurd here (by decide +kernel)

end Config

/-! ### The trees of a gateway -/

/-- A route carries the hashes of its prompt. -/
theorem Router.choose_hashes {cfg : Config} {r r' : Router} {tree : RadixTree Nat String}
    {load : LoadTracker String} {prompt : String} {cands : List String}
    {strategy : Option Strategy} {seed : Nat} {route : RouteResult}
    (chosen : r.choose cfg tree load prompt cands strategy seed = some (route, r')) :
    cfg.routerHashes prompt seed = some route.hashes := by
  obtain ⟨hashes, mode, hashed, chosen⟩ := choose_eq_some chosen
  rw [Config.routerHashes, hashed, Option.map_some]
  unfold chooseHashed at chosen
  dsimp only at chosen
  split at chosen
  · obtain ⟨b, -, same⟩ := Option.map_eq_some_iff.mp chosen
    cases same
    rfl
  · obtain ⟨b, -, same⟩ := Option.map_eq_some_iff.mp chosen
    cases same
    rfl
  · obtain ⟨⟨b, matchBlocks, advance⟩, -, same⟩ := Option.map_eq_some_iff.mp chosen
    cases same
    rfl

/-- And so does a ranking. -/
theorem Router.topKBackends_hashes {cfg : Config} {r : Router} {tree : RadixTree Nat String}
    {load : LoadTracker String} {prompt : String} {backends : List String} {k : Int} {seed : Nat}
    {top : TopK} (ranked : r.topKBackends cfg tree load prompt backends k seed = some top) :
    cfg.routerHashes prompt seed = some top.hashes := by
  obtain ⟨hashes, mode, hashed, rfl⟩ := topKBackends_eq_some ranked
  rw [Config.routerHashes, hashed, Option.map_some]
  rfl

/-- A race is run with the hashes of the request. -/
def Phase.OwnHashes (su : Setup) : Phase → Prop
  | .racing req _ topk _ => su.cfg.routerHashes req.prompt (su.seed req) = some topk.hashes
  | _ => True

namespace Server

/-- The tree was built by dispatches and removals, and the races will add to it likewise. -/
structure Own (su : Setup) (cap : Int) (s : Server) : Prop where
  tree : ∃ ops, OfKind su.cfg.Dispatchable ops ∧ s.tree = runOps cap ops
  phases : ∀ i, (s.phase i).OwnHashes su

variable {su : Setup} {cap : Int} {s s' : Server} {i : Nat} {req : Request} {now : ℚ}
  {fault : Option Stretch}

theorem Own.steady (own : s.Own su cap) (tree : s'.tree = s.tree) (phase : s'.phase = s.phase) :
    s'.Own su cap where
  tree := by
    rw [tree]
    exact own.tree
  phases := by
    rw [phase]
    exact own.phases

/-- One request moves on. -/
theorem Own.move (own : s.Own su cap) {p : Phase} (fits : p.OwnHashes su)
    (tree : s'.tree = s.tree) (phase : s'.phase = Function.update s.phase i p) :
    s'.Own su cap where
  tree := by
    rw [tree]
    exact own.tree
  phases := by
    intro j
    rw [phase]
    by_cases here : j = i
    · subst here
      rw [Function.update_self]
      exact fits
    · rw [Function.update_of_ne here]
      exact own.phases j

/-- One request is over. -/
theorem Own.ends (own : s.Own su cap) (tree : s'.tree = s.tree)
    (phase : s'.phase = Function.update s.phase i .ended) : s'.Own su cap :=
  own.move (p := .ended) trivial tree phase

theorem Own.called (own : s.Own su cap) (op : Op Nat String)
    (kind : OfKind su.cfg.Dispatchable [op]) (tree : s'.tree = s.tree.apply op)
    (phase : s'.phase = s.phase) : s'.Own su cap where
  tree := by
    obtain ⟨ops, before, built⟩ := own.tree
    refine ⟨ops ++ [op], ?_, by rw [tree, built, runOps_snoc]⟩
    intro h member
    rw [inserted_append] at member
    rcases List.mem_append.mp member with old | new
    · exact before h old
    · exact kind h new
  phases := by
    rw [phase]
    exact own.phases

theorem Own.removeBackend (own : s.Own su cap) (b : String)
    (tree : s'.tree = s.tree.removeBackend b) (phase : s'.phase = s.phase) : s'.Own su cap :=
  own.called (.remove b) (fun _ member => by cases member) tree phase

theorem Own.dispatchTo (own : s.Own su cap) {r : RouteResult}
    (hashes : su.cfg.routerHashes req.prompt (su.seed req) = some r.hashes) :
    (s.dispatchTo req r now).Own su cap := by
  refine own.called (.insert r.hashes r.backendId) ?_ rfl rfl
  intro h member
  rw [List.mem_singleton.mp member]
  exact ⟨req.prompt, su.seed req, hashes⟩

theorem Own.finish (own : s.Own su cap) (reply : Reply) : (s.finish i req reply).Own su cap :=
  own.ends rfl rfl

theorem Own.attempt (own : s.Own su cap) (allOpen : Bool) (remaining : List String) (left : Nat) :
    (s.attempt su i req allOpen remaining left now fault).Own su cap := by
  unfold Server.attempt
  split
  · exact own.ends rfl rfl
  split
  · exact own.ends rfl rfl
  split
  · exact own.finish _
  · rename_i r router chosen
    have routed : Own su cap { s with router := router } := own.steady rfl rfl
    have sent : Own su cap ({ s with router := router }.dispatchTo req r now) :=
      routed.dispatchTo (Router.choose_hashes chosen)
    dsimp only
    split
    · exact routed.finish _
    split
    · exact sent.finish _
    · exact sent.move (by trivial) rfl rfl

theorem Own.dispatch (own : s.Own su cap) (allOpen : Bool) (remaining : List String) :
    (s.dispatch su i req allOpen remaining now fault).Own su cap := by
  unfold Server.dispatch
  split
  · exact own.finish _
  split
  · split
    · exact own.finish _
    · rename_i topk ranked
      split
      · exact own.finish _
      · exact own.move (p := .racing req allOpen topk topk.backendIds)
          (Router.topKBackends_hashes ranked) rfl rfl
  · exact own.attempt _ _ _

theorem Own.arrive (own : s.Own su cap) (semanticHit : Bool) :
    (s.arrive su req semanticHit now fault).Own su cap := by
  obtain ⟨limiter, sessions, router, routed⟩ := route_frame su s req semanticHit now fault
  have placed : Own su cap (s.route su req semanticHit now fault).1 := by
    rw [routed]
    exact own.steady rfl rfl
  unfold Server.arrive
  dsimp only
  split
  · exact placed.steady rfl rfl
  · have numbered (remaining : List String) : Own su cap
        ((s.route su req semanticHit now fault).1.acquireSlot req (s.allOpen su req now)
          remaining).1 := by
      refine placed.move ?_ rfl rfl
      split <;> trivial
    split
    · exact (numbered _).dispatch _ _
    · exact numbered _

theorem Own.resume (own : s.Own su cap) (taken : s.resume su i now fault = some s') :
    s'.Own su cap := by
  unfold Server.resume at taken
  split at taken
  · cases taken
    exact own.finish _
  · cases taken
    exact own.ends rfl rfl
  · rename_i req _ _ _ _
    cases taken
    have running : Own su cap (s.setPhase i (.running req)) :=
      own.move (p := .running req) trivial rfl rfl
    exact running.dispatch _ _
  · cases taken

theorem Own.respond (own : s.Own su cap) (r : RouteResult) (code : Nat) :
    (s.respond i req r code fault).Own su cap := by
  unfold Server.respond
  dsimp only
  split
  · exact own.ends rfl rfl
  · exact own.move (p := .returned req r code) trivial rfl rfl

theorem Own.connected (own : s.Own su cap) {code : Nat}
    (taken : s.connected i code fault = some s') : s'.Own su cap := by
  unfold Server.connected at taken
  split at taken
  · cases taken
    exact own.respond _ _
  · cases taken

theorem Own.refused (own : s.Own su cap) (taken : s.refused su i now fault = some s') :
    s'.Own su cap := by
  unfold Server.refused at taken
  split at taken
  · rename_i req allOpen r remaining left _
    have marked : Own su cap (s.markFailed i req r now) :=
      own.move (p := .running req) trivial rfl rfl
    cases taken
    split
    · exact marked.finish _
    · exact marked.attempt _ _ _
  · cases taken

theorem Own.opened (own : s.Own su cap) {b : String} (taken : s.opened i b now = some s') :
    s'.Own su cap := by
  have racing := own.phases i
  unfold Server.opened at taken
  split at taken
  · rename_i req allOpen topk unopened phase
    rw [phase] at racing
    split at taken
    · cases taken
      exact own.move (p := .racing req allOpen topk (unopened.erase b)) racing rfl rfl
    · cases taken
  · cases taken

theorem Own.won (own : s.Own su cap) {b : String} {code : Nat}
    (taken : s.won i b code now fault = some s') : s'.Own su cap := by
  have racing := own.phases i
  unfold Server.won at taken
  split at taken
  · rename_i req allOpen topk unopened phase
    rw [phase] at racing
    split at taken
    · have sent : Own su cap (s.dispatchTo req
          ⟨b, topk.hashes, topk.tokens, topk.matchBlocks.getD b 0, topk.hashMode⟩ now) :=
        own.dispatchTo racing
      cases taken
      split
      · exact sent.finish _
      · exact sent.respond _ _
    · cases taken
  · cases taken

theorem Own.lost (own : s.Own su cap) (taken : s.lost su i fault = some s') : s'.Own su cap := by
  unfold Server.lost at taken
  split at taken
  · cases taken
    exact own.ends rfl rfl
  · cases taken

theorem Own.closed (own : s.Own su cap) (taken : s.closed su i now fault = some s') :
    s'.Own su cap := by
  unfold Server.closed at taken
  split at taken
  · cases taken
    split
    · exact own.ends rfl rfl
    · split
      · exact own.ends rfl rfl
      · exact own.ends rfl rfl
  · cases taken

theorem Own.cancel (own : s.Own su cap) (taken : s.cancel i = some s') : s'.Own su cap := by
  unfold Server.cancel at taken
  split at taken
  · split at taken
    · cases taken
      exact own.steady rfl rfl
    · cases taken
      exact own.move (by trivial) rfl rfl
  all_goals cases taken
  all_goals exact own.move (by trivial) rfl rfl

theorem Own.adminAdd (own : s.Own su cap) (b url : String) (model : Option String) :
    (s.adminAdd b url model).Own su cap := by
  unfold Server.adminAdd
  split
  · exact own
  · exact own.steady rfl rfl

theorem Own.adminRemove (own : s.Own su cap) (b : String) : (s.adminRemove b).Own su cap := by
  unfold Server.adminRemove
  split
  · exact own.removeBackend b rfl rfl
  · exact own

theorem Own.perform (own : s.Own su cap) {act : Act} (taken : s.perform su now act = some s') :
    s'.Own su cap := by
  cases act with
  | arrive req semanticHit fault =>
      cases taken
      exact own.arrive semanticHit
  | resume i fault => exact own.resume taken
  | connected i code fault => exact own.connected taken
  | refused i fault => exact own.refused taken
  | opened i b => exact own.opened taken
  | won i b code fault => exact own.won taken
  | lost i fault => exact own.lost taken
  | start i | chunk i events | stop i =>
      dsimp only [Server.perform, Server.start, Server.chunk, Server.stop] at taken
      split at taken
      · cases taken
        exact own.move (by trivial) rfl rfl
      · cases taken
  | closed i fault => exact own.closed taken
  | cancel i => exact own.cancel taken
  | adminAdd b url model =>
      cases taken
      exact own.adminAdd b url model
  | adminRemove b =>
      cases taken
      exact own.adminRemove b
  | adminDrain b draining =>
      cases taken
      exact own.steady rfl rfl
  | scrape b health =>
      cases taken
      cases health with
      | ok => exact own.steady rfl rfl
      | notOk => exact own.steady rfl rfl
      | failed => exact own.removeBackend b rfl rfl

theorem Own.step (own : s.Own su cap) {span : Span} (taken : s.step su span = some s') :
    s'.Own su cap := by
  unfold Server.step at taken
  split at taken
  · have later : Own su cap { s with clock := span.now } := own.steady rfl rfl
    exact later.perform taken
  · cases taken

theorem own_init (su : Setup) (registry : BackendRegistry String)
    (backendCacheBlocks circuitFailThreshold : Int) (circuitCooldown : ℚ)
    (sessions : SessionAffinity String) (predictor : Option (List ℚ → Option ℚ))
    (scheduler : Option (Int × Dict String ℚ × ℚ × ℚ)) :
    (init su registry backendCacheBlocks circuitFailThreshold circuitCooldown sessions predictor
      scheduler).Own su backendCacheBlocks where
  tree := by
    refine ⟨[], ?_, rfl⟩
    intro h member
    cases member
  phases := fun _ => trivial

/-- Where the look-ups agree, disaggregated routing decides as it would on the match of the
router, in every state of every run. -/
theorem disaggDecision_credits {registry : BackendRegistry String}
    {backendCacheBlocks circuitFailThreshold : Int} {circuitCooldown : ℚ}
    {sessions : SessionAffinity String} {predictor : Option (List ℚ → Option ℚ)}
    {scheduler : Option (Int × Dict String ℚ × ℚ × ℚ)} {spans : List Span}
    (reach : Machine.run (Server.step su) (init su registry backendCacheBlocks
      circuitFailThreshold circuitCooldown sessions predictor scheduler) spans = some s)
    (concordant : su.cfg.Concordant req.prompt (su.seed req)) (remaining : List String) :
    s.disaggDecision su req remaining = (do
      let pools ← su.disaggPools
      let hashes ← su.cfg.routerHashes req.prompt (su.seed req)
      let found := s.tree.matchPrefix hashes
      chooseDisaggregated req.inputTokens pools s.load su.disagg req.reservedOutput
        (remaining.foldl (fun d b => d.set b (found.getD b 0)) .empty)) := by
  have own : s.Own su backendCacheBlocks :=
    Machine.run_invariant (fun _ _ _ own taken => own.step taken) (own_init ..) reach
  obtain ⟨ops, kind, built⟩ := own.tree
  have handler : su.cfg.disaggHashes req.prompt (su.seed req) =
      Hashing.blockHashes req.prompt su.cfg.blockChars su.cfg.hashCutoffBlocks (su.seed req) := rfl
  unfold disaggDecision
  rw [← handler]
  rcases concordant with chars | ⟨zeroChars, zeroTokens⟩ | ⟨hs, hs', handled, routed, nowhere⟩
  · rw [Config.routerHashes_of_byChars chars]
  · have unhashed : su.cfg.disaggHashes req.prompt (su.seed req) = none :=
      Config.disaggHashes_eq_none.mpr zeroChars
    have unrouted : su.cfg.routerHashes req.prompt (su.seed req) = none := by
      rw [Config.routerHashes, Option.map_eq_none_iff]
      apply Config.hashes_eq_none
      simp [Config.blockSize, zeroChars, zeroTokens]
    rw [unhashed, unrouted]
  · have alike : MatchesAlike s.tree hs hs' := by
      rw [built]
      exact nowhere.matchesAlike _ kind
    have credits (b : String) := alike b
    rw [handled, routed]
    simp only [Option.bind_eq_bind, Option.bind_some, credits]

end Server

end Gateway
