import Gateway.RadixTree.Runs
import Gateway.Server.Agreement

/-!
What the gateway still knows of a backend that was removed.

`admin_remove_backend` drops a backend from the registry, the prefix tree, the load counts
and the session table. It leaves the chunk and media indices, the circuit and the
disaggregation pools as they are, and the requests that were dispatched to the backend
report to whatever goes by its id when they complete. `Server.unseen` is the gateway as it
would be had it never seen the backend: every table is without it, and the unfinished
requests know the old backend under another name.

* `blank_unseen`: such a gateway knows nothing of the backend.
* `Server.Untraced`, `Server.Apart`: no pool and no index knows the backend when it is
  removed, and no earlier request goes on with it afterwards.
* `decisions_removed`: then every later decision is that of a gateway which has never seen
  the backend, however it is added again. The circuit does not matter: it is not looked at
  before a successful scrape, which closes it.
* `decisions_warm_chunks`: a backend that is added again is still credited with the chunks
  it held.
-/

namespace Gateway

/-- The gateway had the pools been built without the backend. -/
def Setup.without (su : Setup) (b : String) : Setup :=
  { su with disaggPools := su.disaggPools.map fun pools => ⟨pools.roles.erase b⟩ }

theorem Setup.without_eq_self {su : Setup} {b : String}
    (absent : ∀ pools ∈ su.disaggPools, pools.roles.get? b = none) : su.without b = su := by
  have kept : (su.disaggPools.map fun pools => (⟨pools.roles.erase b⟩ : PoolRegistry)) =
      su.disaggPools := by
    cases found : su.disaggPools with
    | none => rfl
    | some pools =>
        rw [Option.map_some, Dict.erase_of_get?_eq_none (absent pools found)]
  rw [Setup.without, kept]

namespace Server

variable {su : Setup} {s s' : Server} {b old : String} {now : ℚ}

/-- The server had it never seen the backend; its unfinished requests know the backend as
`old`. -/
def unseen (s : Server) (b old : String) : Server :=
  { s with
    registry := (s.registry.remove b).1
    tree := s.tree.removeBackend b
    load := ⟨s.load.inflight.erase b, s.load.inflightTokens.erase b, s.load.kvUsage.erase b⟩
    breaker := { s.breaker with
      fails := s.breaker.fails.erase b
      openedAt := s.breaker.openedAt.erase b }
    sessions := s.sessions.forgetBackend b
    ragIndex := s.ragIndex.removeBackend b
    mmIndex := s.mmIndex.removeBackend b
    phase := fun i => if i < s.next then (s.phase i).rename b old else s.phase i }

/-- The routing decisions so far: where requests were sent, and how they were answered. -/
def decisions (s : Server) : List (Request × String) × List (Request × Reply) :=
  (s.targets, s.answers)

/-! ### An unseen backend -/

/-- At most one call on the tree. -/
def Tends (tree tree' : RadixTree Nat String) : Prop := tree' = tree ∨ ∃ op, tree' = tree.apply op

theorem tends_attempt {i left : Nat} {req : Request} {allOpen : Bool} {remaining : List String}
    {fault : Option Stretch} :
    Tends s.tree (s.attempt su i req allOpen remaining left now fault).tree := by
  unfold attempt
  split
  · exact .inl rfl
  split
  · exact .inl rfl
  split
  · exact .inl rfl
  · rename_i r router _
    dsimp only
    split
    · exact .inl rfl
    split
    · exact .inr ⟨.insert r.hashes r.backendId, rfl⟩
    · exact .inr ⟨.insert r.hashes r.backendId, rfl⟩

theorem tends_dispatch {i : Nat} {req : Request} {allOpen : Bool} {remaining : List String}
    {fault : Option Stretch} :
    Tends s.tree (s.dispatch su i req allOpen remaining now fault).tree := by
  unfold dispatch
  split
  · exact .inl rfl
  split
  · split
    · exact .inl rfl
    · split
      · exact .inl rfl
      · exact .inl rfl
  · exact tends_attempt

theorem tends_arrive {req : Request} {semanticHit : Bool} {fault : Option Stretch} :
    Tends s.tree (s.arrive su req semanticHit now fault).tree := by
  obtain ⟨limiter, sessions, router, routed⟩ := route_frame su s req semanticHit now fault
  have kept : (s.route su req semanticHit now fault).1.tree = s.tree := by rw [routed]
  unfold arrive
  dsimp only
  rw [← kept]
  split
  · exact .inl rfl
  · split
    · exact tends_dispatch
    · exact .inl rfl

theorem tree_respond {i code : Nat} {req : Request} {r : RouteResult} {fault : Option Stretch} :
    (s.respond i req r code fault).tree = s.tree := by
  unfold respond
  dsimp only
  split <;> rfl

theorem tends_resume {i : Nat} {fault : Option Stretch}
    (taken : s.resume su i now fault = some s') : Tends s.tree s'.tree := by
  unfold resume at taken
  split at taken
  · cases taken
    exact .inl rfl
  · cases taken
    exact .inl rfl
  · cases taken
    exact tends_dispatch
  · cases taken

theorem tends_refused {i : Nat} {fault : Option Stretch}
    (taken : s.refused su i now fault = some s') : Tends s.tree s'.tree := by
  unfold refused at taken
  split at taken
  · cases taken
    split
    · exact .inl rfl
    · exact tends_attempt
  · cases taken

theorem tends_won {i code : Nat} {fault : Option Stretch}
    (taken : s.won i b code now fault = some s') : Tends s.tree s'.tree := by
  unfold won at taken
  split at taken
  · rename_i topk unopened _
    split at taken
    · cases taken
      refine .inr ⟨.insert topk.hashes b, ?_⟩
      split
      · rfl
      · exact tree_respond
    · cases taken
  · cases taken

theorem tree_connected {i code : Nat} {fault : Option Stretch}
    (taken : s.connected i code fault = some s') : s'.tree = s.tree := by
  unfold connected at taken
  split at taken
  · cases taken
    exact tree_respond
  · cases taken

theorem tree_opened {i : Nat} (taken : s.opened i b now = some s') : s'.tree = s.tree := by
  unfold opened at taken
  split at taken
  · split at taken
    · cases taken
      rfl
    · cases taken
  · cases taken

theorem tree_lost {i : Nat} {fault : Option Stretch} (taken : s.lost su i fault = some s') :
    s'.tree = s.tree := by
  unfold lost at taken
  split at taken
  · cases taken
    rfl
  · cases taken

theorem tree_start {i : Nat} (taken : s.start i = some s') : s'.tree = s.tree := by
  unfold start at taken
  split at taken
  · cases taken
    rfl
  · cases taken

theorem tree_chunk {i events : Nat} (taken : s.chunk i events = some s') : s'.tree = s.tree := by
  unfold chunk at taken
  split at taken
  · cases taken
    rfl
  · cases taken

theorem tree_stop {i : Nat} (taken : s.stop i = some s') : s'.tree = s.tree := by
  unfold stop at taken
  split at taken
  · cases taken
    rfl
  · cases taken

theorem tree_closed {i : Nat} {fault : Option Stretch} (taken : s.closed su i now fault = some s') :
    s'.tree = s.tree := by
  unfold closed at taken
  split at taken
  · cases taken
    split
    · rfl
    · split <;> rfl
  · cases taken

theorem tree_cancel {i : Nat} (taken : s.cancel i = some s') : s'.tree = s.tree := by
  unfold cancel at taken
  split at taken
  · split at taken <;> cases taken <;> rfl
  all_goals cases taken
  all_goals rfl

theorem tends_perform {act : Act} (taken : s.perform su now act = some s') :
    Tends s.tree s'.tree := by
  cases act with
  | arrive req semanticHit fault =>
      cases taken
      exact tends_arrive
  | resume i fault => exact tends_resume taken
  | connected i code fault => exact .inl (tree_connected taken)
  | refused i fault => exact tends_refused taken
  | opened i b => exact .inl (tree_opened taken)
  | won i b code fault => exact tends_won taken
  | lost i fault => exact .inl (tree_lost taken)
  | start i => exact .inl (tree_start taken)
  | chunk i events => exact .inl (tree_chunk taken)
  | stop i => exact .inl (tree_stop taken)
  | closed i fault => exact .inl (tree_closed taken)
  | cancel i => exact .inl (tree_cancel taken)
  | adminAdd b url model =>
      cases taken
      unfold adminAdd
      split <;> exact .inl rfl
  | adminRemove b =>
      cases taken
      unfold adminRemove
      split
      · exact .inr ⟨.remove b, rfl⟩
      · exact .inl rfl
  | adminDrain b draining =>
      cases taken
      exact .inl rfl
  | scrape b health =>
      cases taken
      cases health with
      | ok => exact .inl rfl
      | notOk => exact .inl rfl
      | failed => exact .inr ⟨.remove b, rfl⟩

/-- **A span makes at most one call on the tree.** -/
theorem tends_step {span : Span} (taken : s.step su span = some s') : Tends s.tree s'.tree := by
  unfold step at taken
  split at taken
  · have called : Tends (Server.tree { s with clock := span.now }) s'.tree := tends_perform taken
    exact called
  · cases taken

/-- The tree of a gateway is one that `insert` and `remove_backend` build. -/
theorem tree_run {cap : Int} {spans : List Span} (fresh : s.tree = .init cap)
    (reach : Machine.run (step su) s spans = some s') :
    ∃ ops, s'.tree = RadixTree.runOps cap ops := by
  refine Machine.run_invariant (I := fun s => ∃ ops, s.tree = RadixTree.runOps cap ops)
    (fun s span s' ⟨ops, before⟩ taken => ?_) ⟨[], fresh⟩ reach
  rcases tends_step taken with same | ⟨op, called⟩
  · exact ⟨ops, same.trans before⟩
  · exact ⟨ops ++ [op], by rw [called, before, RadixTree.runOps_snoc]⟩

/-- The gateway knows nothing of a backend. -/
structure Blank (s : Server) (b : String) : Prop where
  registry : s.registry.get b = none
  tree : ∀ hashes, (s.tree.matchPrefix hashes).get? b = none
  load : s.load.inflightOf b = 0 ∧ s.load.kvUsageOf b = 0
  circuit : s.breaker.fails.getD b 0 = 0 ∧ s.breaker.openedAt.get? b = none
  sessions : ∀ sid last, s.sessions.bySession.get? sid ≠ some (b, last)
  chunks : s.ragIndex.byBackend.get? b = none
  media : s.mmIndex.byBackend.get? b = none
  requests : s.Unused b

theorem get?_matchPrefix_removeBackend {tree : RadixTree Nat String} {path : NodeId → List Nat}
    (inv : RadixTree.Inv tree path) (hashes : List Nat) :
    ((tree.removeBackend b).matchPrefix hashes).get? b = none := by
  obtain ⟨m, longest, found⟩ := (inv.removeBackend b).matchPrefix hashes b
  rw [found]
  refine if_neg fun pos => ?_
  have held := longest.held 1 Nat.one_pos pos
  exact (RadixTree.held_removeBackend.mp held).2 rfl

theorem notMem_map_rename (ne : old ≠ b) (l : List String) : b ∉ l.map (rename b old) := by
  intro member
  obtain ⟨b', _, same⟩ := List.mem_map.mp member
  unfold rename at same
  split at same
  · exact ne same
  · exact absurd same ‹_›

theorem unused_rename (ne : old ≠ b) (p : Phase) :
    (p.rename b old).backend ≠ some b ∧ b ∉ (p.rename b old).pending := by
  have elsewhere : ∀ r : RouteResult, some (rename b old r.backendId) ≠ some b := by
    intro r same
    exact notMem_map_rename ne [r.backendId] (by simp [Option.some.inj same])
  have nowhere : (none : Option String) ≠ some b := (Option.some_ne_none b).symm
  cases p with
  | waiting req remaining allOpen mustCancel => exact ⟨nowhere, notMem_map_rename ne remaining⟩
  | racing req allOpen topk unopened => exact ⟨nowhere, notMem_map_rename ne topk.backendIds⟩
  | connecting req allOpen r remaining left =>
      refine ⟨elsewhere r, ?_⟩
      simp only [Phase.rename, Phase.pending]
      split
      · exact List.not_mem_nil
      · exact fun member => notMem_map_rename ne remaining (List.mem_of_mem_erase member)
  | returned req r code => exact ⟨elsewhere r, List.not_mem_nil⟩
  | streaming req r code outEvents => exact ⟨elsewhere r, List.not_mem_nil⟩
  | closing req r code outEvents => exact ⟨elsewhere r, List.not_mem_nil⟩
  | running req => exact ⟨nowhere, List.not_mem_nil⟩
  | ended => exact ⟨nowhere, List.not_mem_nil⟩

/-- **`unseen` leaves no trace of the backend**, in whatever state the gateway was. -/
theorem blank_unseen {start : Server} {cap : Int} {spans : List Span}
    (fresh : start.tree = .init cap) (reach : Machine.run (step su) start spans = some s)
    (ne : old ≠ b) : (s.unseen b old).Blank b := by
  obtain ⟨ops, built⟩ := tree_run fresh reach
  obtain ⟨path, inv⟩ := RadixTree.runOps_inv cap ops
  rw [← built] at inv
  exact
    { registry := (BackendRegistry.get_remove ..).trans (if_pos rfl)
      tree := get?_matchPrefix_removeBackend inv
      load := ⟨(Dict.getD_erase ..).trans (if_pos rfl), (Dict.getD_erase ..).trans (if_pos rfl)⟩
      circuit := ⟨(Dict.getD_erase ..).trans (if_pos rfl), (Dict.get?_erase ..).trans (if_pos rfl)⟩
      sessions := fun _ _ found => SessionAffinity.get?_forgetBackend found rfl
      chunks := (Dict.get?_erase ..).trans (if_pos rfl)
      media := (Dict.get?_erase ..).trans (if_pos rfl)
      requests := fun i early => by
        rw [show (s.unseen b old).phase i = (s.phase i).rename b old from if_pos early]
        exact unused_rename ne _ }

/-! ### Removal -/

/-- None of the tables that `admin_remove_backend` leaves alone knows the backend. -/
structure Untraced (su : Setup) (s : Server) (b : String) : Prop where
  pools : ∀ pools ∈ su.disaggPools, pools.roles.get? b = none
  chunks : s.ragIndex.byBackend.getD b .empty = .empty
  media : s.mmIndex.byBackend.getD b .empty = .empty

instance decidableUntraced (su : Setup) (s : Server) (b : String) : Decidable (s.Untraced su b) :=
  decidable_of_iff
    ((∀ pools ∈ su.disaggPools, pools.roles.get? b = none) ∧
      s.ragIndex.byBackend.getD b .empty = .empty ∧ s.mmIndex.byBackend.getD b .empty = .empty)
    ⟨fun ⟨pools, chunks, media⟩ => ⟨pools, chunks, media⟩,
      fun untraced => ⟨untraced.pools, untraced.chunks, untraced.media⟩⟩

theorem agree_removeBackend {x : AffinityIndex}
    (cold : x.byBackend.getD b .empty = .empty) : x.Agree (x.removeBackend b) := by
  refine ⟨rfl, fun b' => ?_⟩
  rw [AffinityIndex.removeBackend, Dict.getD_erase]
  split
  · rename_i same
    rw [same, cold]
  · rfl

/-- Removing a backend nothing else knows is as good as never having seen it. -/
theorem same_unseen (known : s.registered b = true) (untraced : s.Untraced su b) :
    Same b old s.next (s.adminRemove b) (s.unseen b old) := by
  have gone : s.adminRemove b =
      { s with
        registry := (s.registry.remove b).1
        tree := s.tree.removeBackend b
        load := s.load.forget b
        sessions := s.sessions.forgetBackend b } :=
    if_pos known
  rw [gone]
  have unread : ∀ b', (s.registry.remove b).1.Reads b b' → b' ≠ b := by
    intro b' reads same
    obtain ⟨be, found, -⟩ := reads same
    rw [BackendRegistry.get_remove, if_pos rfl] at found
    cases found
  refine
    { registry := rfl, tree := rfl, load := ⟨fun _ => rfl, fun _ => rfl⟩, router := rfl,
      breaker := ⟨rfl, rfl, fun b' asked => ?_, fun b' asked => ?_⟩, limiter := rfl,
      sessions := rfl, ragIndex := agree_removeBackend untraced.chunks,
      mmIndex := agree_removeBackend untraced.media, scheduler := rfl, fut := rfl,
      phase := fun i => ?_, next := rfl, clock := rfl, targets := rfl, answers := rfl }
  · exact (Dict.getD_erase ..).trans (if_neg (unread b' asked))
  · exact (Dict.get?_erase ..).trans (if_neg (unread b' asked))
  · by_cases early : i < s.next
    · exact .inr ⟨early, if_pos early⟩
    · exact .inl (if_neg early)

/-- A server that has not seen the backend has nothing to remove. -/
theorem adminRemove_unseen : (s.unseen b old).adminRemove b = s.unseen b old := by
  have absent : (s.registry.byId.erase b).contains b = false := by
    simp [Dict.contains]
  exact if_neg (by rw [show ((s.unseen b old).registry.remove b).2 = _ from absent]; decide)

theorem map_decisions {n : Nat} {o o' : Option Server} (alike : Option.Rel (Same b old n) o o') :
    o.map decisions = o'.map decisions := by
  cases alike with
  | none => rfl
  | some same => exact congrArg some (Prod.ext same.targets same.answers).symm

/-- **When removal forgets.** If no pool and no index knows a backend that is removed, then
in every later run whose steps keep earlier requests apart from it, the gateway decides as
one that has never seen the backend. -/
theorem decisions_removed {spans : List Span} (known : s.registered b = true)
    (untraced : s.Untraced su b)
    (apart : Machine.Along (step su) (Apart b old s.next) s (⟨now, .adminRemove b⟩ :: spans)) :
    (Machine.run (step su) s (⟨now, .adminRemove b⟩ :: spans)).map decisions =
      (Machine.run (step (su.without b)) (s.unseen b old) (⟨now, .adminRemove b⟩ :: spans)).map
        decisions := by
  rw [Setup.without_eq_self untraced.pools]
  by_cases due : s.clock ≤ now
  · have removed : s.step su ⟨now, .adminRemove b⟩ =
        some (Server.adminRemove { s with clock := now } b) :=
      if_pos due
    have nothing : Server.adminRemove (Server.unseen { s with clock := now } b old) b =
        Server.unseen { s with clock := now } b old :=
      adminRemove_unseen
    have absent : (s.unseen b old).step su ⟨now, .adminRemove b⟩ =
        some (Server.unseen { s with clock := now } b old) :=
      (if_pos due).trans (congrArg some nothing)
    have start : Same b old s.next (Server.adminRemove { s with clock := now } b)
        (Server.unseen { s with clock := now } b old) :=
      same_unseen (s := { s with clock := now }) known
        ⟨untraced.pools, untraced.chunks, untraced.media⟩
    simp only [Machine.run, removed, absent, Option.bind_some]
    exact map_decisions (start.run (apart.2 _ removed))
  · have early : ∀ s' : Server, s'.clock = s.clock → s'.step su ⟨now, .adminRemove b⟩ = none := by
      intro s' clock
      rw [step, clock, if_neg due]
    simp only [Machine.run, early s rfl, early (s.unseen b old) rfl]

/-- A gateway with two backends. -/
def twoBackends (su : Setup) : Server :=
  init su (.init "mock-model" [("b0", "http://b0"), ("b1", "http://b1")]) 2000 3 5
    (.init 10000 1800) none none

/-- `b0` leaves while it streams an answer and joins again, and the old stream is abandoned. -/
theorem decisions_removed_streaming :
    let spans : List Span :=
      [⟨2, .chunk 0 1⟩, ⟨3, .adminAdd "b0" "http://b0" none⟩, ⟨4, .scrape "b0" .ok⟩,
        ⟨5, .arrive plainRequest false none⟩, ⟨6, .cancel 0⟩, ⟨7, .arrive plainRequest false none⟩]
    ∃ s, Machine.run (step {}) (twoBackends {}) [⟨0, .arrive plainRequest false none⟩,
        ⟨1, .connected 0 200 none⟩, ⟨1, .start 0⟩] = some s ∧
      (Machine.run (step {}) s (⟨2, .adminRemove "b0"⟩ :: spans)).map decisions =
        (Machine.run (step (Setup.without {} "b0")) (s.unseen "b0" "old")
          (⟨2, .adminRemove "b0"⟩ :: spans)).map decisions ∧
      (Machine.run (step {}) s (⟨2, .adminRemove "b0"⟩ :: spans)).map
        (fun s => s.targets.map Prod.snd) = some ["b0", "b0", "b1"] := by
  intro spans
  obtain ⟨s, reach, known, untraced, apart, backends⟩ : ∃ s,
      Machine.run (step {}) (twoBackends {}) [⟨0, .arrive plainRequest false none⟩,
        ⟨1, .connected 0 200 none⟩, ⟨1, .start 0⟩] = some s ∧
      s.registered "b0" = true ∧ s.Untraced {} "b0" ∧
      Machine.Along (step {}) (Apart "b0" "old" s.next) s (⟨2, .adminRemove "b0"⟩ :: spans) ∧
      (Machine.run (step {}) s (⟨2, .adminRemove "b0"⟩ :: spans)).map
        (fun s => s.targets.map Prod.snd) = some ["b0", "b0", "b1"] :=
    Machine.exists_run (by decide +kernel)
  exact ⟨s, reach, decisions_removed known untraced apart, backends⟩

/-! ### What is remembered -/

/-- RAG routing, and a request for a chunk. -/
def ragOn : Setup := { rag := { enabled := true } }

def asksChunk : Request := { plainRequest with ragChunks := some [7] }

/-- `b0` answers a request, is removed, joins again and is scraped. It is still credited
with the chunk of that request, and gets the next request for it; a gateway that has
never seen `b0` sends it to `b1`. -/
theorem decisions_warm_chunks :
    ¬ ∀ (su : Setup) (registry : BackendRegistry String) (cacheBlocks failThreshold : Int)
      (cooldown : ℚ) (sessions : SessionAffinity String)
      (predictor : Option (List ℚ → Option ℚ))
      (scheduler : Option (Int × Dict String ℚ × ℚ × ℚ)) (before later : List Span) (s : Server)
      (b old url : String) (model : Option String) (t₁ t₂ t₃ : ℚ),
      Machine.run (step su) (init su registry cacheBlocks failThreshold cooldown sessions predictor
        scheduler) before = some s →
      s.registered b = true → s.registered old = false →
      (Machine.run (step su) s (⟨t₁, .adminRemove b⟩ :: ⟨t₂, .adminAdd b url model⟩ ::
          ⟨t₃, .scrape b .ok⟩ :: later)).map decisions =
        (Machine.run (step (su.without b)) (s.unseen b old) (⟨t₁, .adminRemove b⟩ ::
          ⟨t₂, .adminAdd b url model⟩ :: ⟨t₃, .scrape b .ok⟩ :: later)).map decisions := by
  intro forgets
  obtain ⟨s, reach, known, fresh, differ⟩ : ∃ s,
      Machine.run (step ragOn) (twoBackends ragOn)
        [⟨0, .arrive asksChunk false none⟩, ⟨1, .connected 0 200 none⟩, ⟨1, .start 0⟩,
          ⟨2, .stop 0⟩, ⟨3, .closed 0 none⟩] = some s ∧
      s.registered "b0" = true ∧ s.registered "old" = false ∧
      (Machine.run (step ragOn) s [⟨4, .adminRemove "b0"⟩, ⟨5, .adminAdd "b0" "http://b0" none⟩,
          ⟨6, .scrape "b0" .ok⟩, ⟨7, .arrive asksChunk false none⟩]).map decisions ≠
        (Machine.run (step (ragOn.without "b0")) (s.unseen "b0" "old") [⟨4, .adminRemove "b0"⟩,
          ⟨5, .adminAdd "b0" "http://b0" none⟩, ⟨6, .scrape "b0" .ok⟩,
          ⟨7, .arrive asksChunk false none⟩]).map decisions :=
    Machine.exists_run (by decide +kernel)
  exact differ (forgets ragOn _ _ _ _ _ _ _ _ _ s "b0" "old" "http://b0" none 4 5 6 reach known
    fresh)

/-- The same, when the request completes only after `b0` has joined again. -/
example : ∃ s, Machine.run (step ragOn) (twoBackends ragOn)
      [⟨0, .arrive asksChunk false none⟩, ⟨1, .connected 0 200 none⟩, ⟨1, .start 0⟩,
        ⟨2, .stop 0⟩] = some s ∧
    s.Untraced ragOn "b0" ∧
    (Machine.run (step ragOn) s [⟨4, .adminRemove "b0"⟩, ⟨5, .adminAdd "b0" "http://b0" none⟩,
        ⟨6, .scrape "b0" .ok⟩, ⟨7, .closed 0 none⟩, ⟨8, .arrive asksChunk false none⟩]).map
          decisions ≠
      (Machine.run (step (ragOn.without "b0")) (s.unseen "b0" "old") [⟨4, .adminRemove "b0"⟩,
        ⟨5, .adminAdd "b0" "http://b0" none⟩, ⟨6, .scrape "b0" .ok⟩, ⟨7, .closed 0 none⟩,
        ⟨8, .arrive asksChunk false none⟩]).map decisions :=
  Machine.exists_run (by decide +kernel)

end Server

end Gateway
