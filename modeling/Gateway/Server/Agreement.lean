import Mathlib.Tactic.Common
import Gateway.Server.Accounting

/-!
Two servers that decide alike.

The handler reads the load of a backend, its circuit and its warm chunks and media through a
few look-ups. Two servers that agree on these, and on everything else, make the same choices
from there on. `Same b old n` is that relation, with two exceptions. As long as backend `b`
is not known to be healthy, its circuit is not looked at, and may differ; and the first `n`
requests may know `b` under the name `old` in the second server. The token counts of the
load are read by nothing.

* `Same.step`: agreeing servers can take the same spans and agree after them, if the first
  `n` requests have nothing more to do with `b` (`Apart`).
* `Same.run`: so they make the same decisions in every such run.
-/

namespace Gateway

/-! ### Tables that agree -/

/-- Two load trackers with the same counts. -/
structure LoadTracker.Agree (l l' : LoadTracker String) : Prop where
  inflight : ∀ b, l'.inflightOf b = l.inflightOf b
  kvUsage : ∀ b, l'.kvUsageOf b = l.kvUsageOf b

/-- Two indices with the same ids of every backend. -/
structure AffinityIndex.Agree (x x' : AffinityIndex) : Prop where
  capacity : x'.capacity = x.capacity
  cached : ∀ b, x'.byBackend.getD b .empty = x.byBackend.getD b .empty

/-- Two breakers with the same circuits of the backends in `read`. -/
structure CircuitBreaker.Agree (read : String → Prop) (c c' : CircuitBreaker String) : Prop where
  failThreshold : c'.failThreshold = c.failThreshold
  cooldown : c'.cooldown = c.cooldown
  fails : ∀ b, read b → c'.fails.getD b 0 = c.fails.getD b 0
  openedAt : ∀ b, read b → c'.openedAt.get? b = c.openedAt.get? b

namespace CircuitBreaker

variable {c c' : CircuitBreaker String} {read read' : String → Prop} {b : String}

theorem Agree.state (agree : c.Agree read c') (asked : read b) (now : ℚ) :
    c'.state b now = c.state b now :=
  state_congr agree.cooldown (agree.openedAt b asked)

theorem Agree.allow (agree : c.Agree read c') (asked : read b) (now : ℚ) :
    c'.allow b now = c.allow b now := by
  rw [CircuitBreaker.allow, CircuitBreaker.allow, agree.state asked]

theorem Agree.mono (agree : c.Agree read c') (fewer : ∀ b, read' b → read b) :
    c.Agree read' c' :=
  { agree with
    fails := fun b asked => agree.fails b (fewer b asked)
    openedAt := fun b asked => agree.openedAt b (fewer b asked) }

/-- A success settles the circuit, whatever it was. -/
theorem Agree.recordSuccess (agree : c.Agree read c')
    (fewer : ∀ b', read' b' → b' = b ∨ read b') :
    (c.recordSuccess b).Agree read' (c'.recordSuccess b) := by
  refine ⟨agree.failThreshold, agree.cooldown, fun b' asked => ?_, fun b' asked => ?_⟩
  · simp only [CircuitBreaker.recordSuccess, Dict.getD_set]
    split
    · rfl
    · rename_i other
      exact agree.fails b' ((fewer b' asked).resolve_left other)
  · simp only [CircuitBreaker.recordSuccess, Dict.get?_erase]
    split
    · rfl
    · rename_i other
      exact agree.openedAt b' ((fewer b' asked).resolve_left other)

theorem Agree.recordFailure (agree : c.Agree read c') (now : ℚ) :
    (c.recordFailure b now).Agree read (c'.recordFailure b now) := by
  refine ⟨?_, ?_, fun b' asked => ?_, fun b' asked => ?_⟩
  · rw [failThreshold_recordFailure, failThreshold_recordFailure, agree.failThreshold]
  · rw [cooldown_recordFailure, cooldown_recordFailure, agree.cooldown]
  · rw [fails_recordFailure, fails_recordFailure]
    split
    · rename_i same
      subst same
      rw [agree.state asked, agree.failThreshold, agree.fails b' asked]
    · exact agree.fails b' asked
  · rw [openedAt_recordFailure, openedAt_recordFailure]
    by_cases same : b' = b
    · subst same
      rw [agree.state asked, agree.failThreshold, agree.fails b' asked, agree.openedAt b' asked]
    · simp only [same, false_and, if_false]
      exact agree.openedAt b' asked

end CircuitBreaker

section Load

variable {l l' : LoadTracker String} (agree : l.Agree l')

include agree

theorem LoadTracker.Agree.onDispatch (b : String) (tokens : Nat) :
    (l.onDispatch b tokens).Agree (l'.onDispatch b tokens) := by
  refine ⟨fun b' => ?_, agree.kvUsage⟩
  rw [LoadTracker.inflightOf_onDispatch, LoadTracker.inflightOf_onDispatch, agree.inflight,
    agree.inflight]

theorem LoadTracker.Agree.onComplete (b : String) (tokens : Nat) :
    (l.onComplete b tokens).Agree (l'.onComplete b tokens) := by
  refine ⟨fun b' => ?_, agree.kvUsage⟩
  rw [LoadTracker.inflightOf_onComplete, LoadTracker.inflightOf_onComplete, agree.inflight,
    agree.inflight]

theorem LoadTracker.Agree.forget (b : String) : (l.forget b).Agree (l'.forget b) := by
  refine ⟨fun b' => ?_, fun b' => ?_⟩
  · rw [LoadTracker.inflightOf_forget, LoadTracker.inflightOf_forget, agree.inflight]
  · show (l'.kvUsage.erase b).getD b' 0 = (l.kvUsage.erase b).getD b' 0
    rw [Dict.getD_erase, Dict.getD_erase]
    exact if_congr Iff.rfl rfl (agree.kvUsage b')

/-! ### Choices that agree -/

variable {cfg : Config} {r : Router}

theorem Router.inflight_agree : r.inflight l' = r.inflight l := by
  funext b
  simp only [Router.inflight, agree.inflight]

theorem Router.estTtft_agree : r.estTtft cfg l' = r.estTtft cfg l := by
  funext tokens matchBlocks b
  simp only [Router.estTtft, Router.inflight_agree agree, agree.kvUsage]

theorem Router.saturated_agree : r.saturated cfg l' = r.saturated cfg l := by
  funext b
  simp only [Router.saturated, Router.inflight_agree agree, agree.kvUsage]

theorem Router.choose_agree (tree : RadixTree Nat String) (prompt : String) (cands : List String)
    (strategy : Option Strategy) (seed : Nat) :
    r.choose cfg tree l' prompt cands strategy seed =
      r.choose cfg tree l prompt cands strategy seed := by
  simp only [Router.choose, Router.chooseHashed, Router.choosePrefixTree, Router.saturatedFallback,
    Router.saturated_agree agree, Router.estTtft_agree agree, Router.inflight_agree agree]

theorem Router.topKBackends_agree (tree : RadixTree Nat String) (prompt : String)
    (backends : List String) (k : Int) (seed : Nat) :
    r.topKBackends cfg tree l' prompt backends k seed =
      r.topKBackends cfg tree l prompt backends k seed := by
  simp only [Router.topKBackends, Router.topKHashed, Router.estTtft_agree agree, agree.inflight,
    agree.kvUsage]

theorem unsaturated_agree (maxInflight : Int) (backends : List String) :
    unsaturated l' maxInflight backends = unsaturated l maxInflight backends := by
  simp only [unsaturated, agree.inflight]

theorem chooseDisaggregated_agree (promptTokens : Int) (pools : PoolRegistry) (cfg : DisaggConfig)
    (outputTokens : Int) (prefillMatch : Dict String Nat) :
    chooseDisaggregated promptTokens pools l' cfg outputTokens prefillMatch =
      chooseDisaggregated promptTokens pools l cfg outputTokens prefillMatch := by
  have prefill : Disagg.prefillMs cfg l' promptTokens prefillMatch =
      Disagg.prefillMs cfg l promptTokens prefillMatch := by
    funext b
    simp only [Disagg.prefillMs, agree.inflight]
  have decode : Disagg.decodeMs cfg l' outputTokens = Disagg.decodeMs cfg l outputTokens := by
    funext b
    simp only [Disagg.decodeMs, agree.inflight]
  have eligible : Disagg.eligible cfg l' = Disagg.eligible cfg l := by
    funext b
    simp only [Disagg.eligible, agree.inflight, agree.kvUsage]
  have candidates : Disagg.candidates cfg l' = Disagg.candidates cfg l := by
    funext pool
    rw [Disagg.candidates, Disagg.candidates, eligible]
  rw [chooseDisaggregated, chooseDisaggregated, prefill, decode, candidates]

variable {x x' : AffinityIndex}

omit agree in
theorem AffinityIndex.isCached_agree (warm : x.Agree x') : x'.isCached = x.isCached := by
  funext b id
  have same : ∀ d : Dict String (Dict Nat Unit),
      (d.get? b).any (fun c => c.contains id) = (d.getD b .empty).contains id := by
    intro d
    rw [Dict.getD]
    cases d.get? b with
    | none => rfl
    | some c => rfl
  simp only [AffinityIndex.isCached, same, warm.cached]

omit agree in
theorem AffinityIndex.Agree.record (warm : x.Agree x') (b : String) (ids : List Nat) :
    (x.record b ids).Agree (x'.record b ids) := by
  refine ⟨warm.capacity, fun b' => ?_⟩
  simp only [AffinityIndex.record, Dict.getD_set, warm.cached, warm.capacity]

theorem chooseRagBackend_agree (warm : x.Agree x') (chunkIds : List Nat) (backends : List String)
    (cfg : RagConfig) :
    chooseRagBackend chunkIds backends x' l' cfg = chooseRagBackend chunkIds backends x l cfg := by
  have cost : ragCost chunkIds x' l' cfg = ragCost chunkIds x l cfg := by
    funext b
    simp only [ragCost, AffinityIndex.overlap, AffinityIndex.isCached_agree warm, agree.inflight]
  simp only [chooseRagBackend, unsaturated_agree agree, cost, AffinityIndex.overlap,
    AffinityIndex.isCached_agree warm]

theorem chooseMultimodalBackend_agree (warm : x.Agree x') (q : ModalRequest)
    (backends : List String) (capabilities : Dict String (List Modality)) (cfg : MultiModalConfig) :
    chooseMultimodalBackend q backends capabilities x' l' cfg =
      chooseMultimodalBackend q backends capabilities x l cfg := by
  have cost : multimodalCost q x' l' cfg = multimodalCost q x l cfg := by
    funext b
    simp only [multimodalCost, AffinityIndex.isCached_agree warm, agree.inflight]
  simp only [chooseMultimodalBackend, unsaturated_agree agree, cost, AffinityIndex.overlap,
    AffinityIndex.isCached_agree warm]

end Load

/-! ### Servers that agree -/

/-- Another name for one backend. -/
def rename (b old b' : String) : String := if b' = b then old else b'

/-- The phase of a request that knows `b` under the name `old`. -/
def Phase.rename (b old : String) : Phase → Phase
  | .running req => .running req
  | .waiting req remaining allOpen mustCancel =>
      .waiting req (remaining.map (Gateway.rename b old)) allOpen mustCancel
  | .racing req allOpen topk unopened =>
      .racing req allOpen
        { topk with backendIds := topk.backendIds.map (Gateway.rename b old) }
        (unopened.map (Gateway.rename b old))
  | .connecting req allOpen r remaining left =>
      .connecting req allOpen { r with backendId := Gateway.rename b old r.backendId }
        (remaining.map (Gateway.rename b old)) left
  | .returned req r code =>
      .returned req { r with backendId := Gateway.rename b old r.backendId } code
  | .streaming req r code outEvents =>
      .streaming req { r with backendId := Gateway.rename b old r.backendId } code outEvents
  | .closing req r code outEvents =>
      .closing req { r with backendId := Gateway.rename b old r.backendId } code outEvents
  | .ended => .ended

theorem rename_self (b : String) : rename b b = id := by
  funext b'
  unfold rename
  split
  · rename_i same
    exact same.symm
  · rfl

theorem Phase.rename_self (b : String) (p : Phase) : p.rename b b = p := by
  cases p <;> simp [Phase.rename, Gateway.rename_self]

section Rename

variable {b old b' : String} {l : List String}

theorem rename_of_ne (ne : b' ≠ b) : rename b old b' = b' := if_neg ne

/-- Names that renaming does not touch: all of them, if `b` keeps its own. -/
theorem map_rename_eq_self (kept : old = b ∨ b ∉ l) : l.map (rename b old) = l := by
  rcases kept with rfl | absent
  · rw [rename_self, List.map_id]
  · refine (List.map_congr_left fun b' member => ?_).trans (List.map_id l)
    exact rename_of_ne fun same => absent (same ▸ member)

theorem mem_map_rename (kept : old = b ∨ b' ≠ b ∧ b' ≠ old) :
    b' ∈ l.map (rename b old) ↔ b' ∈ l := by
  rcases kept with rfl | ⟨ne, ne_old⟩
  · rw [rename_self, List.map_id]
  constructor
  · intro member
    obtain ⟨a, found, rfl⟩ := List.mem_map.mp member
    by_cases same : a = b
    · exact absurd (if_pos same) ne_old
    · rwa [rename_of_ne same]
  · intro member
    exact List.mem_map.mpr ⟨b', member, rename_of_ne ne⟩

theorem erase_map_rename (kept : old = b ∨ b' ≠ b ∧ b' ≠ old) :
    (l.map (rename b old)).erase b' = (l.erase b').map (rename b old) := by
  rcases kept with rfl | ⟨ne, ne_old⟩
  · rw [rename_self, List.map_id, List.map_id]
  induction l with
  | nil => rfl
  | cons a l ih =>
      by_cases same : a = b'
      · subst same
        simp [rename_of_ne ne]
      · have other : rename b old a ≠ b' := by
          intro hit
          by_cases at_b : a = b
          · exact ne_old (hit.symm.trans (if_pos at_b))
          · exact same ((rename_of_ne at_b).symm.trans hit)
        simp [same, other, ih]

theorem route_rename {r : RouteResult} (kept : old = b ∨ r.backendId ≠ b) :
    { r with backendId := rename b old r.backendId } = r := by
  rcases kept with rfl | ne
  · rw [rename_self]
    rfl
  · rw [rename_of_ne ne]

end Rename

/-- The circuit of a backend is looked at: for `b`, only when it is registered and healthy. -/
def BackendRegistry.Reads (r : BackendRegistry String) (b b' : String) : Prop :=
  b' = b → ∃ be, r.get b = some be ∧ be.healthy = true

namespace BackendRegistry

variable {r : BackendRegistry String} {b b' b'' : String}

theorem Reads.of_setHealth (reads : (r.setHealth b'' false).Reads b b') : r.Reads b b' := by
  intro at_b
  obtain ⟨be, found, healthy⟩ := reads at_b
  rw [get_setHealth] at found
  split at found
  · obtain ⟨_, _, rfl⟩ := Option.map_eq_some_iff.mp found
    cases healthy
  · exact ⟨be, found, healthy⟩

theorem Reads.of_setHealth_ne {healthy : Bool} (ne : b' ≠ b'')
    (reads : (r.setHealth b'' healthy).Reads b b') : r.Reads b b' := by
  intro at_b
  obtain ⟨be, found, sound⟩ := reads at_b
  rw [get_setHealth, if_neg (at_b ▸ ne)] at found
  exact ⟨be, found, sound⟩

theorem Reads.of_add {url : String} {model : Option String}
    (reads : (r.add b'' url model).1.Reads b b') : r.Reads b b' := by
  intro at_b
  obtain ⟨be, found, healthy⟩ := reads at_b
  rw [get_add] at found
  split at found
  · rename_i same
    subst same
    cases known : r.get b with
    | none =>
        rw [known] at found
        cases found
        cases healthy
    | some be' =>
        rw [known] at found
        cases found
        exact ⟨be', rfl, healthy⟩
  · exact ⟨be, found, healthy⟩

theorem Reads.of_remove (reads : (r.remove b'').1.Reads b b') : r.Reads b b' := by
  intro at_b
  obtain ⟨be, found, healthy⟩ := reads at_b
  rw [get_remove] at found
  split at found
  · cases found
  · exact ⟨be, found, healthy⟩

theorem Reads.of_setDraining {draining : Bool}
    (reads : (r.setDraining b'' draining).1.Reads b b') : r.Reads b b' := by
  intro at_b
  obtain ⟨be, found, healthy⟩ := reads at_b
  rw [get_setDraining] at found
  split at found
  · rename_i same
    subst same
    obtain ⟨be', known, rfl⟩ := Option.map_eq_some_iff.mp found
    exact ⟨be', known, healthy⟩
  · exact ⟨be, found, healthy⟩

end BackendRegistry

/-- The backends from which a suspended request chooses when it goes on. -/
def Phase.choices : Phase → List String
  | .waiting _ remaining _ mustCancel => if mustCancel then [] else remaining
  | .connecting _ _ r remaining left => if left = 0 then [] else remaining.erase r.backendId
  | _ => []

namespace Server

/-- The dispatches, as the requests and the backends they went to. -/
def targets (s : Server) : List (Request × String) := s.dispatches.map fun d => (d.req, d.backend)

/-- Two servers that decide alike. Of the first `n` requests, the second server may know
the backend `b` under the name `old`. -/
structure Same (b old : String) (n : Nat) (s t : Server) : Prop where
  registry : t.registry = s.registry
  tree : t.tree = s.tree
  load : s.load.Agree t.load
  router : t.router = s.router
  breaker : s.breaker.Agree (s.registry.Reads b) t.breaker
  limiter : t.limiter = s.limiter
  sessions : t.sessions = s.sessions
  ragIndex : s.ragIndex.Agree t.ragIndex
  mmIndex : s.mmIndex.Agree t.mmIndex
  scheduler : t.scheduler = s.scheduler
  fut : t.fut = s.fut
  phase : ∀ i, t.phase i = s.phase i ∨ i < n ∧ t.phase i = (s.phase i).rename b old
  next : t.next = s.next
  clock : t.clock = s.clock
  targets : t.targets = s.targets
  answers : t.answers = s.answers

variable {su : Setup} {b old : String} {n i : Nat} {s t : Server} {req : Request}
  {remaining : List String} {now : ℚ} {fault : Option Stretch}

theorem Same.setPhase (same : Same b old n s t) {p p' : Phase}
    (alike : p' = p ∨ i < n ∧ p' = p.rename b old) :
    Same b old n (s.setPhase i p) (t.setPhase i p') := by
  refine { same with phase := fun j => ?_ }
  by_cases here : j = i
  · subst here
    simpa [Server.setPhase] using alike
  · simpa [Server.setPhase, here] using same.phase j

/-- The name by which the second server knows `b` in a request. -/
theorem Same.name (same : Same b old n s t) (i : Nat) :
    ∃ o, t.phase i = (s.phase i).rename b o ∧ (o = b ∨ i < n ∧ o = old) := by
  rcases same.phase i with alike | ⟨early, alike⟩
  · exact ⟨b, alike.trans (Phase.rename_self b _).symm, .inl rfl⟩
  · exact ⟨old, alike, .inr ⟨early, rfl⟩⟩

theorem Same.move (same : Same b old n s t) {o : String} (which : o = b ∨ i < n ∧ o = old)
    (p : Phase) : Same b old n (s.setPhase i p) (t.setPhase i (p.rename b o)) := by
  refine same.setPhase ?_
  rcases which with rfl | ⟨early, rfl⟩
  · exact .inl (Phase.rename_self o p)
  · exact .inr ⟨early, rfl⟩

theorem Same.finish (same : Same b old n s t) (reply : Reply) :
    Same b old n (s.finish i req reply) (t.finish i req reply) :=
  { same.setPhase (i := i) (p := .ended) (.inl rfl) with
    answers := congrArg (· ++ [(req, reply)]) same.answers }

theorem Same.release (same : Same b old n s t) (actualOutput : Nat) :
    Same b old n (s.release su req actualOutput) (t.release su req actualOutput) :=
  { same with limiter := by simp only [Server.release, same.limiter] }

theorem Same.releaseSlot (same : Same b old n s t) :
    Same b old n s.releaseSlot t.releaseSlot :=
  { same with
    scheduler := by simp only [Server.releaseSlot, same.scheduler, same.fut]
    fut := by simp only [Server.releaseSlot, same.scheduler, same.fut] }

/-! ### Routing -/

theorem Same.idsFor (same : Same b old n s t) :
    su.idsFor t.registry req.model = su.idsFor s.registry req.model := by
  rw [same.registry]

theorem Same.choose (same : Same b old n s t) :
    t.router.choose su.cfg t.tree t.load req.prompt remaining req.strategy (su.seed req) =
      s.router.choose su.cfg s.tree s.load req.prompt remaining req.strategy (su.seed req) := by
  rw [same.router, same.tree, Router.choose_agree same.load]

theorem Same.allow (same : Same b old n s t) {b' : String}
    (member : b' ∈ su.idsFor s.registry req.model) :
    t.breaker.allow b' now = s.breaker.allow b' now := by
  refine same.breaker.allow (fun at_b => ?_) now
  subst at_b
  obtain ⟨be, found, serves⟩ := idsFor_serves member
  rw [Backend.serves, Bool.and_eq_true, Bool.and_eq_true] at serves
  exact ⟨be, found, serves.1.1⟩

theorem Same.allowed (same : Same b old n s t) :
    ((su.idsFor t.registry req.model).filter fun b => t.breaker.allow b now) =
      (su.idsFor s.registry req.model).filter fun b => s.breaker.allow b now := by
  rw [same.idsFor]
  exact List.filter_congr fun b' member => same.allow member

theorem Same.allOpen (same : Same b old n s t) : t.allOpen su req now = s.allOpen su req now := by
  rw [Server.allOpen, Server.allOpen, same.allowed]

theorem Same.selected (same : Same b old n s t) :
    t.selected su req now = s.selected su req now := by
  rw [Server.selected, Server.selected, same.allOpen, same.allowed, same.idsFor]

theorem Same.pinSession (same : Same b old n s t) :
    t.pinSession su req remaining now = s.pinSession su req remaining now := by
  rw [Server.pinSession, Server.pinSession, same.sessions]

theorem Same.pinRag (same : Same b old n s t) :
    t.pinRag su req remaining = s.pinRag su req remaining := by
  unfold Server.pinRag
  simp only [chooseRagBackend_agree same.load same.ragIndex]

theorem Same.probe (same : Same b old n s t) :
    t.probe su req remaining = s.probe su req remaining := by
  simp only [Server.probe, same.router, same.tree, Router.choose_agree same.load,
    same.load.inflight, same.load.kvUsage]

theorem Same.splitPhases (same : Same b old n s t) :
    t.splitPhases su req remaining = s.splitPhases su req remaining := by
  simp only [Server.splitPhases, Server.disaggDecision, same.tree,
    chooseDisaggregated_agree same.load]

theorem Same.pinModal (same : Same b old n s t) :
    t.pinModal su req remaining = s.pinModal su req remaining := by
  unfold Server.pinModal
  simp only [chooseMultimodalBackend_agree same.load same.mmIndex]

theorem Same.admission (same : Same b old n s t) :
    t.admission su req now = s.admission su req now := by
  rw [Server.admission, Server.admission, same.limiter]

theorem Same.place (same : Same b old n s t) :
    Same b old n (s.place su req remaining fault).1 (t.place su req remaining fault).1 ∧
      (t.place su req remaining fault).2 = (s.place su req remaining fault).2 := by
  unfold Server.place
  rw [same.probe]
  cases s.probe su req remaining with
  | none => exact ⟨same, rfl⟩
  | some decided =>
      obtain ⟨router, action⟩ := decided
      have turned : Same b old n { s with router := router } { t with router := router } :=
        { same with router := rfl }
      dsimp only
      rw [turned.splitPhases, turned.pinModal]
      split
      · exact ⟨turned, rfl⟩
      split
      · exact ⟨turned.release 0, rfl⟩
      split
      · exact ⟨turned, rfl⟩
      split
      · exact ⟨turned.release 0, rfl⟩
      · exact ⟨turned, rfl⟩

theorem Same.select (same : Same b old n s t) {semanticHit : Bool} :
    Same b old n (s.select su req semanticHit now fault).1
        (t.select su req semanticHit now fault).1 ∧
      (t.select su req semanticHit now fault).2 = (s.select su req semanticHit now fault).2 := by
  unfold Server.select
  rw [same.idsFor, same.selected, same.pinSession]
  split
  · exact ⟨same, rfl⟩
  split
  · exact ⟨same.release 0, rfl⟩
  split
  · exact ⟨same.release 0, rfl⟩
  generalize s.pinSession su req (s.selected su req now) now = pinned
  have moved : Same b old n { s with sessions := pinned.1 } { t with sessions := pinned.1 } :=
    { same with sessions := rfl }
  dsimp only
  rw [moved.pinRag]
  split
  · exact ⟨moved, rfl⟩
  · exact moved.place

theorem Same.route (same : Same b old n s t) {semanticHit : Bool} :
    Same b old n (s.route su req semanticHit now fault).1 (t.route su req semanticHit now fault).1 ∧
      (t.route su req semanticHit now fault).2 = (s.route su req semanticHit now fault).2 := by
  unfold Server.route
  rw [same.admission]
  split
  · exact ⟨same, rfl⟩
  split
  · exact ⟨same, rfl⟩
  split
  · exact ⟨same, rfl⟩
  generalize s.admission su req now = admitted
  have charged : Same b old n { s with limiter := admitted.1 } { t with limiter := admitted.1 } :=
    { same with limiter := rfl }
  dsimp only
  split
  · exact charged.select
  · exact ⟨charged, rfl⟩

/-! ### Dispatch -/

theorem Same.record (same : Same b old n s t) {b' : String} :
    Same b old n (s.record req b' now) (t.record req b' now) :=
  { same with
    targets := by
      simp only [Server.targets, Server.record, List.map_append, List.map_cons, List.map_nil]
      exact congrArg (· ++ [(req, b')]) same.targets }

theorem Same.dispatchTo (same : Same b old n s t) {r : RouteResult} :
    Same b old n (s.dispatchTo req r now) (t.dispatchTo req r now) :=
  { same.record with
    tree := by simp only [Server.dispatchTo, same.tree]
    load := same.load.onDispatch r.backendId r.tokens }

theorem Same.unreachable (same : Same b old n s t) :
    Same b old n (s.unreachable su i req fault) (t.unreachable su i req fault) :=
  (same.release 0).releaseSlot.finish _

theorem Same.attempt (same : Same b old n s t) {allOpen : Bool} {left : Nat} :
    Same b old n (s.attempt su i req allOpen remaining left now fault)
      (t.attempt su i req allOpen remaining left now fault) := by
  cases left with
  | zero => exact same.unreachable
  | succ left =>
      unfold Server.attempt
      dsimp only
      split
      · exact same.unreachable
      rw [same.choose]
      cases s.router.choose su.cfg s.tree s.load req.prompt remaining req.strategy
        (su.seed req) with
      | none => exact same.finish _
      | some chosen =>
          obtain ⟨r, router⟩ := chosen
          have turned : Same b old n { s with router := router } { t with router := router } :=
            { same with router := rfl }
          have sent : Same b old n (Server.dispatchTo { s with router := router } req r now)
              (Server.dispatchTo { t with router := router } req r now) :=
            turned.dispatchTo
          dsimp only
          split
          · exact turned.finish _
          generalize Server.dispatchTo { s with router := router } req r now = s₁ at sent ⊢
          generalize Server.dispatchTo { t with router := router } req r now = t₁ at sent ⊢
          rw [sent.registry]
          split
          · exact sent.finish _
          · exact sent.setPhase (.inl rfl)

theorem Same.dispatch (same : Same b old n s t) {allOpen : Bool} :
    Same b old n (s.dispatch su i req allOpen remaining now fault)
      (t.dispatch su i req allOpen remaining now fault) := by
  unfold Server.dispatch
  rw [same.router, same.tree, same.registry, Router.topKBackends_agree same.load]
  split
  · exact same.finish _
  split
  · cases s.router.topKBackends su.cfg s.tree s.load req.prompt remaining su.cfg.speculativeK
      (su.seed req) with
    | none => exact same.finish _
    | some topk =>
        dsimp only
        split
        · exact same.finish _
        · exact same.setPhase (.inl rfl)
  · exact same.attempt

theorem Same.acquireSlot (same : Same b old n s t) {allOpen : Bool} :
    Same b old n (s.acquireSlot req allOpen remaining).1 (t.acquireSlot req allOpen remaining).1 ∧
      (t.acquireSlot req allOpen remaining).2 = (s.acquireSlot req allOpen remaining).2 := by
  unfold Server.acquireSlot
  rw [same.scheduler, same.fut, same.next]
  generalize acquireOn s.scheduler s.fut s.next req.tenant.tier = slot
  have parked := same.setPhase (i := s.next)
    (p := if slot.2.2 then .running req else .waiting req remaining allOpen false) (.inl rfl)
  exact ⟨{ parked with scheduler := rfl, fut := rfl, next := rfl }, rfl⟩

theorem Same.arrive (same : Same b old n s t) {semanticHit : Bool} :
    Same b old n (s.arrive su req semanticHit now fault)
      (t.arrive su req semanticHit now fault) := by
  obtain ⟨routed, outcome⟩ : Same b old n (s.route su req semanticHit now fault).1
        (t.route su req semanticHit now fault).1 ∧
      (t.route su req semanticHit now fault).2 = (s.route su req semanticHit now fault).2 :=
    same.route
  unfold Server.arrive
  dsimp only
  rw [same.allOpen, outcome]
  cases (s.route su req semanticHit now fault).2 with
  | error reply =>
      exact { routed with answers := congrArg (· ++ [(req, reply)]) routed.answers }
  | ok remaining =>
      dsimp only
      generalize (s.route su req semanticHit now fault).1 = s₁ at routed ⊢
      generalize (t.route su req semanticHit now fault).1 = t₁ at routed ⊢
      obtain ⟨slotted, free⟩ : Same b old n
            (s₁.acquireSlot req (s.allOpen su req now) remaining).1
            (t₁.acquireSlot req (s.allOpen su req now) remaining).1 ∧
          (t₁.acquireSlot req (s.allOpen su req now) remaining).2 =
            (s₁.acquireSlot req (s.allOpen su req now) remaining).2 :=
        routed.acquireSlot
      rw [free, routed.next]
      split
      · exact slotted.dispatch
      · exact slotted

/-! ### Upstream -/

theorem Same.respond (same : Same b old n s t) {r : RouteResult} {code : Nat} :
    Same b old n (s.respond i req r code fault) (t.respond i req r code fault) := by
  have answered : Same b old n { s with breaker := s.breaker.recordSuccess r.backendId }
      { t with breaker := t.breaker.recordSuccess r.backendId } :=
    { same with breaker := same.breaker.recordSuccess fun _ asked => .inr asked }
  unfold Server.respond
  dsimp only
  split
  · exact answered.finish _
  · exact answered.setPhase (.inl rfl)

theorem Same.markFailed (same : Same b old n s t) {r : RouteResult} :
    Same b old n (s.markFailed i req r now) (t.markFailed i req r now) :=
  { same.setPhase (i := i) (p := .running req) (.inl rfl) with
    registry := congrArg (fun registry => registry.setHealth r.backendId false) same.registry
    load := same.load.onComplete r.backendId r.tokens
    breaker := (same.breaker.recordFailure now).mono fun _ => BackendRegistry.Reads.of_setHealth }

theorem Same.connected (same : Same b old n s t) {code : Nat}
    (apart : i < n → (s.phase i).backend ≠ some b) :
    Option.Rel (Same b old n) (s.connected i code fault) (t.connected i code fault) := by
  obtain ⟨o, alike, which⟩ := same.name i
  have elsewhere : o = b ∨ (s.phase i).backend ≠ some b :=
    which.imp_right fun ⟨early, _⟩ => apart early
  unfold Server.connected
  rw [alike]
  generalize s.phase i = p at elsewhere ⊢
  cases p with
  | connecting req allOpen r remaining left =>
      have kept := elsewhere.imp_right fun ne (at_b : r.backendId = b) => ne (congrArg some at_b)
      simp only [Phase.rename, route_rename kept]
      exact .some same.respond
  | _ => exact .none

theorem Same.refused (same : Same b old n s t)
    (apart : i < n → (s.phase i).backend ≠ some b ∧ b ∉ (s.phase i).choices) :
    Option.Rel (Same b old n) (s.refused su i now fault) (t.refused su i now fault) := by
  obtain ⟨o, alike, which⟩ := same.name i
  have elsewhere : o = b ∨ (s.phase i).backend ≠ some b ∧ b ∉ (s.phase i).choices :=
    which.imp_right fun ⟨early, _⟩ => apart early
  unfold Server.refused
  rw [alike]
  generalize s.phase i = p at elsewhere ⊢
  cases p with
  | connecting req allOpen r remaining left =>
      have kept : o = b ∨ r.backendId ≠ b :=
        elsewhere.imp_right fun ⟨ne, _⟩ at_b => ne (congrArg some at_b)
      simp only [Phase.rename, route_rename kept]
      refine .some ?_
      split
      · exact same.markFailed.finish _
      · cases left with
        | zero => exact same.markFailed.unreachable
        | succ left =>
            have absent : o = b ∨ b ∉ remaining := by
              refine elsewhere.imp_right fun ⟨ne, unasked⟩ member => unasked ?_
              exact (List.mem_erase_of_ne fun at_b => ne (congrArg some at_b.symm)).mpr member
            rw [map_rename_eq_self absent]
            exact same.markFailed.attempt
  | _ => exact .none

theorem Same.opened (same : Same b old n s t) {b' : String}
    (apart : i < n → b' ≠ b ∧ b' ≠ old) :
    Option.Rel (Same b old n) (s.opened i b' now) (t.opened i b' now) := by
  obtain ⟨o, alike, which⟩ := same.name i
  have kept : o = b ∨ b' ≠ b ∧ b' ≠ o := which.imp_right fun ⟨early, known⟩ => known ▸ apart early
  unfold Server.opened
  rw [alike]
  cases s.phase i with
  | racing req allOpen topk unopened =>
      simp only [Phase.rename, mem_map_rename kept, erase_map_rename kept]
      split
      · exact .some (same.record.move which (.racing req allOpen topk (unopened.erase b')))
      · exact .none
  | _ => exact .none

theorem Same.won (same : Same b old n s t) {b' : String} {code : Nat}
    (apart : i < n → b' ≠ b ∧ b' ≠ old) :
    Option.Rel (Same b old n) (s.won i b' code now fault) (t.won i b' code now fault) := by
  obtain ⟨o, alike, which⟩ := same.name i
  have kept : o = b ∨ b' ≠ b ∧ b' ≠ o := which.imp_right fun ⟨early, known⟩ => known ▸ apart early
  unfold Server.won
  rw [alike]
  cases s.phase i with
  | racing req allOpen topk unopened =>
      simp only [Phase.rename, mem_map_rename kept]
      split
      · refine .some ?_
        split
        · exact same.dispatchTo.finish _
        · exact same.dispatchTo.respond
      · exact .none
  | _ => exact .none

theorem Same.lost (same : Same b old n s t) :
    Option.Rel (Same b old n) (s.lost su i fault) (t.lost su i fault) := by
  obtain ⟨o, alike, -⟩ := same.name i
  unfold Server.lost
  rw [alike]
  cases s.phase i with
  | racing req allOpen topk unopened =>
      cases unopened with
      | nil => exact .some same.unreachable
      | cons b' unopened => exact .none
  | _ => exact .none

theorem Same.resume (same : Same b old n s t)
    (apart : i < n → s.fut i = .finished → b ∉ (s.phase i).choices) :
    Option.Rel (Same b old n) (s.resume su i now fault) (t.resume su i now fault) := by
  obtain ⟨o, alike, which⟩ := same.name i
  have unasked : o = b ∨ (s.fut i = .finished → b ∉ (s.phase i).choices) :=
    which.imp_right fun ⟨early, _⟩ => apart early
  unfold Server.resume
  rw [same.fut, alike]
  generalize s.phase i = p at unasked ⊢
  cases p with
  | waiting req remaining allOpen mustCancel =>
      generalize s.fut i = future at unasked ⊢
      cases future with
      | pending => exact .none
      | cancelled => exact .some (same.finish _)
      | finished =>
          cases mustCancel with
          | true => exact .some (same.releaseSlot.finish _)
          | false =>
              have absent : o = b ∨ b ∉ remaining := unasked.imp_right fun ask => ask rfl
              simp only [Phase.rename, map_rename_eq_self absent]
              exact .some (same.setPhase (.inl rfl)).dispatch
  | _ => exact .none

/-! ### The body -/

theorem Same.start (same : Same b old n s t) :
    Option.Rel (Same b old n) (s.start i) (t.start i) := by
  obtain ⟨o, alike, which⟩ := same.name i
  unfold Server.start
  rw [alike]
  cases s.phase i with
  | returned req r code => exact .some (same.move which (.streaming req r code 0))
  | _ => exact .none

theorem Same.chunk (same : Same b old n s t) {events : Nat} :
    Option.Rel (Same b old n) (s.chunk i events) (t.chunk i events) := by
  obtain ⟨o, alike, which⟩ := same.name i
  unfold Server.chunk
  rw [alike]
  cases s.phase i with
  | streaming req r code outEvents =>
      exact .some (same.move which (.streaming req r code (outEvents + events)))
  | _ => exact .none

theorem Same.stop (same : Same b old n s t) :
    Option.Rel (Same b old n) (s.stop i) (t.stop i) := by
  obtain ⟨o, alike, which⟩ := same.name i
  unfold Server.stop
  rw [alike]
  cases s.phase i with
  | streaming req r code outEvents => exact .some (same.move which (.closing req r code outEvents))
  | _ => exact .none

theorem Same.learn (same : Same b old n s t) {r : RouteResult} :
    Same b old n (s.learn su req r now) (t.learn su req r now) := by
  refine { same with sessions := ?_, ragIndex := ?_, mmIndex := ?_ }
  · simp only [Server.learn, same.sessions]
  · unfold Server.learn
    dsimp only
    split
    · exact same.ragIndex.record _ _
    · exact same.ragIndex
  · unfold Server.learn
    dsimp only
    split
    · exact same.mmIndex.record _ _
    · exact same.mmIndex

theorem Same.onComplete (same : Same b old n s t) {r : RouteResult} :
    Same b old n { s with load := s.load.onComplete r.backendId r.tokens }
      { t with load := t.load.onComplete r.backendId r.tokens } :=
  { same with load := same.load.onComplete r.backendId r.tokens }

theorem Same.closed (same : Same b old n s t) (apart : i < n → (s.phase i).backend ≠ some b) :
    Option.Rel (Same b old n) (s.closed su i now fault) (t.closed su i now fault) := by
  obtain ⟨o, alike, which⟩ := same.name i
  have elsewhere : o = b ∨ (s.phase i).backend ≠ some b :=
    which.imp_right fun ⟨early, _⟩ => apart early
  unfold Server.closed
  rw [alike]
  generalize s.phase i = p at elsewhere ⊢
  cases p with
  | closing req r code outEvents =>
      have kept := elsewhere.imp_right fun ne (at_b : r.backendId = b) => ne (congrArg some at_b)
      simp only [Phase.rename, route_rename kept]
      have done := (same.onComplete (r := r)).releaseSlot
      refine .some ?_
      split
      · exact done.finish _
      split
      · exact (done.learn.release _).finish _
      · exact (done.release _).finish _
  | _ => exact .none

theorem Same.cancel (same : Same b old n s t) :
    Option.Rel (Same b old n) (s.cancel i) (t.cancel i) := by
  obtain ⟨o, alike, which⟩ := same.name i
  have fut := congrFun same.fut i
  unfold Server.cancel
  rw [alike]
  cases s.phase i with
  | waiting req remaining allOpen mustCancel =>
      simp only [Phase.rename, fut]
      split
      · exact .some { same with fut := congrArg (Function.update · i .cancelled) same.fut }
      · exact .some (same.move which (.waiting req remaining allOpen true))
  | racing req allOpen topk unopened => exact .some (same.finish _)
  | connecting req allOpen r remaining left => exact .some (same.finish _)
  | returned req r code => exact .some (same.finish _)
  | streaming req r code outEvents => exact .some (same.move which (.closing req r code outEvents))
  | closing req r code outEvents => exact .some (same.finish _)
  | running req => exact .none
  | ended => exact .none

/-! ### Control plane -/

theorem Same.adminAdd (same : Same b old n s t) {b' url : String} {model : Option String} :
    Same b old n (s.adminAdd b' url model) (t.adminAdd b' url model) := by
  unfold Server.adminAdd
  split
  · exact same
  · exact { same with
      registry := congrArg (fun registry => (registry.add b' url model).1) same.registry
      breaker := same.breaker.mono fun _ => BackendRegistry.Reads.of_add }

theorem Same.adminRemove (same : Same b old n s t) {b' : String} :
    Same b old n (s.adminRemove b') (t.adminRemove b') := by
  have known : (t.registry.remove b').2 = (s.registry.remove b').2 := by rw [same.registry]
  unfold Server.adminRemove
  rw [known]
  split
  · exact { same with
      registry := congrArg (fun registry => (registry.remove b').1) same.registry
      tree := congrArg (fun tree => tree.removeBackend b') same.tree
      load := same.load.forget b'
      breaker := same.breaker.mono fun _ => BackendRegistry.Reads.of_remove
      sessions := congrArg (fun sessions => sessions.forgetBackend b') same.sessions }
  · exact same

theorem Same.adminDrain (same : Same b old n s t) {b' : String} {draining : Bool} :
    Same b old n (s.adminDrain b' draining) (t.adminDrain b' draining) :=
  { same with
    registry := congrArg (fun registry => (registry.setDraining b' draining).1) same.registry
    breaker := same.breaker.mono fun _ => BackendRegistry.Reads.of_setDraining }

/-- A success is recorded before the backend's circuit is looked at again. -/
theorem Same.scrape (same : Same b old n s t) {b' : String} {health : Health} :
    Same b old n (s.scrape b' health now) (t.scrape b' health now) := by
  have registry : ∀ healthy, t.registry.setHealth b' healthy = s.registry.setHealth b' healthy :=
    fun healthy => congrArg (fun registry => registry.setHealth b' healthy) same.registry
  have failed : (s.breaker.recordFailure b' now).Agree
      ((s.registry.setHealth b' false).Reads b) (t.breaker.recordFailure b' now) :=
    (same.breaker.recordFailure now).mono fun _ => BackendRegistry.Reads.of_setHealth
  cases health with
  | ok =>
      refine { same with
        registry := registry true
        breaker := same.breaker.recordSuccess fun b'' asked => ?_ }
      by_cases here : b'' = b'
      · exact .inl here
      · exact .inr (asked.of_setHealth_ne here)
  | notOk => exact { same with registry := registry false, breaker := failed }
  | failed =>
      exact { same with
        registry := registry false
        tree := congrArg (fun tree => tree.removeBackend b') same.tree
        breaker := failed }

/-! ### Runs -/

/-- **The condition on a span**: of the first `n` requests, none goes on with a backend
`b` it was dispatched to, or chooses from a list that still has `b` in it. -/
def Apart (b old : String) (n : Nat) (s : Server) (span : Span) : Prop :=
  match span.act with
  | .resume i _ => i < n → s.fut i = .finished → b ∉ (s.phase i).choices
  | .connected i _ _ => i < n → (s.phase i).backend ≠ some b
  | .refused i _ => i < n → (s.phase i).backend ≠ some b ∧ b ∉ (s.phase i).choices
  | .opened i b' => i < n → b' ≠ b ∧ b' ≠ old
  | .won i b' _ _ => i < n → b' ≠ b ∧ b' ≠ old
  | .closed i _ => i < n → (s.phase i).backend ≠ some b
  | _ => True

instance decidableApart (b old : String) (n : Nat) (s : Server) :
    ∀ span, Decidable (Apart b old n s span)
  | ⟨_, .resume i _⟩ => inferInstanceAs (Decidable (i < n → s.fut i = .finished → _))
  | ⟨_, .connected i _ _⟩ => inferInstanceAs (Decidable (i < n → _ ≠ _))
  | ⟨_, .refused i _⟩ => inferInstanceAs (Decidable (i < n → _ ∧ _))
  | ⟨_, .opened i b'⟩ => inferInstanceAs (Decidable (i < n → b' ≠ b ∧ b' ≠ old))
  | ⟨_, .won i b' _ _⟩ => inferInstanceAs (Decidable (i < n → b' ≠ b ∧ b' ≠ old))
  | ⟨_, .closed i _⟩ => inferInstanceAs (Decidable (i < n → _ ≠ _))
  | ⟨_, .arrive _ _ _⟩ | ⟨_, .lost _ _⟩ | ⟨_, .start _⟩ | ⟨_, .chunk _ _⟩ | ⟨_, .stop _⟩
  | ⟨_, .cancel _⟩ | ⟨_, .adminAdd _ _ _⟩ | ⟨_, .adminRemove _⟩ | ⟨_, .adminDrain _ _⟩
  | ⟨_, .scrape _ _⟩ => isTrue trivial

theorem Same.step (same : Same b old n s t) {span : Span} (apart : Apart b old n s span) :
    Option.Rel (Same b old n) (s.step su span) (t.step su span) := by
  obtain ⟨now, act⟩ := span
  have later : Same b old n { s with clock := now } { t with clock := now } :=
    { same with clock := rfl }
  unfold Server.step
  rw [same.clock]
  dsimp only
  split
  · cases act with
    | arrive req semanticHit fault => exact .some later.arrive
    | resume i fault => exact later.resume apart
    | connected i code fault => exact later.connected apart
    | refused i fault => exact later.refused apart
    | opened i b' => exact later.opened apart
    | won i b' code fault => exact later.won apart
    | lost i fault => exact later.lost
    | start i => exact later.start
    | chunk i events => exact later.chunk
    | stop i => exact later.stop
    | closed i fault => exact later.closed apart
    | cancel i => exact later.cancel
    | adminAdd b' url model => exact .some later.adminAdd
    | adminRemove b' => exact .some later.adminRemove
    | adminDrain b' draining => exact .some later.adminDrain
    | scrape b' health => exact .some later.scrape
  · exact .none

/-- Agreeing servers make the same dispatches and give the same answers in every run in
which the early requests keep apart from `b`. -/
theorem Same.run (same : Same b old n s t) {spans : List Span}
    (apart : Machine.Along (Server.step su) (Apart b old n) s spans) :
    Option.Rel (Same b old n) (Machine.run (Server.step su) s spans)
      (Machine.run (Server.step su) t spans) :=
  Machine.run_rel_along (fun _ _ _ alike keeps => alike.step keeps) same apart

end Server

end Gateway
