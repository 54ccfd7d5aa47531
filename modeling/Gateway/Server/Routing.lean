import Gateway.Server.Chat

/-!
What the stages of the chat handler do to its candidates and to the server.

The session, RAG and multi-modal stages narrow the candidates they are given, and only
disaggregation leaves them: `route_mem` says that every candidate of a routed request was
selected, or is the prefill backend that `choose_disaggregated` picked. Routing touches
the limiter, the session table and the router, and nothing else (`route_frame`).
-/

namespace Gateway

namespace Phase

/-- The request of a phase. -/
def req? : Phase → Option Request
  | .running req => some req
  | .waiting req _ _ _ => some req
  | .racing req _ _ _ => some req
  | .connecting req _ _ _ _ => some req
  | .returned req _ _ => some req
  | .streaming req _ _ _ => some req
  | .closing req _ _ _ => some req
  | .ended => none

theorem eq_ended {p : Phase} (none_left : p.req? = none) : p = .ended := by
  cases p with
  | ended => rfl
  | _ => cases none_left

/-- The backends a suspended request may still be dispatched to. -/
def pending : Phase → List String
  | .waiting _ remaining _ _ => remaining
  | .racing _ _ topk _ => topk.backendIds
  | .connecting _ _ r remaining left => if left = 0 then [] else remaining.erase r.backendId
  | _ => []

end Phase

namespace Server

variable {su : Setup} {s : Server} {req : Request} {remaining : List String} {now : ℚ} {b : String}

/-! ### Selection -/

theorem idsFor_serves {registry : BackendRegistry String} {model : Option String}
    (member : b ∈ su.idsFor registry model) :
    ∃ be, registry.get b = some be ∧ be.serves (su.servedModel model) = true := by
  unfold Setup.idsFor at member
  unfold Setup.servedModel
  split at member
  · rename_i adapters
    rw [if_pos adapters]
    exact BackendRegistry.mem_idsFor_iff.mp (BackendRegistry.loraFilter_subset member)
  · rename_i plain
    rw [if_neg plain]
    exact BackendRegistry.mem_idsFor_iff.mp member

theorem selected_subset (member : b ∈ s.selected su req now) :
    b ∈ su.idsFor s.registry req.model := by
  unfold selected at member
  dsimp only at member
  split at member
  · exact member
  · exact (List.mem_filter.mp member).1

/-- Unless all circuits are open, the selected backends are those whose circuit is not. -/
theorem selected_allow (some_allowed : s.allOpen su req now = false)
    (member : b ∈ s.selected su req now) : s.breaker.allow b now = true := by
  unfold selected at member
  dsimp only at member
  rw [some_allowed] at member
  exact (List.mem_filter.mp member).2

theorem not_allow_of_allOpen (all : s.allOpen su req now = true)
    (member : b ∈ su.idsFor s.registry req.model) : s.breaker.allow b now = false := by
  rw [allOpen, List.isEmpty_iff, List.filter_eq_nil_iff] at all
  simpa using all b member

theorem selected_ne_nil (eligible : su.idsFor s.registry req.model ≠ []) :
    s.selected su req now ≠ [] := by
  unfold selected
  dsimp only
  split
  · exact eligible
  · rename_i some_allowed
    rw [allOpen, List.isEmpty_iff] at some_allowed
    exact some_allowed

theorem nodup_idsFor (registry : BackendRegistry String) (model : Option String) :
    (su.idsFor registry model).Nodup := by
  have base : ∀ model, (registry.idsFor model).Nodup := fun model =>
    (List.filter_sublist.map Prod.fst).nodup registry.byId.nodup
  unfold Setup.idsFor
  split
  · unfold BackendRegistry.loraFilter
    dsimp only
    split
    · exact base _
    · split
      · split
        · exact base _
        · exact List.nodup_nil
      · exact (base _).filter _
  · exact base _

theorem nodup_selected : (s.selected su req now).Nodup := by
  unfold selected
  dsimp only
  split
  · exact nodup_idsFor _ _
  · exact (nodup_idsFor _ _).filter _

/-! ### Narrowing -/

theorem pinSession_subset (member : b ∈ (s.pinSession su req remaining now).2) :
    b ∈ remaining := by
  unfold pinSession at member
  dsimp only at member
  split at member
  · rename_i pinned picked
    rw [List.mem_singleton] at member
    rw [member]
    exact SessionAffinity.pick_mem picked
  · exact member

theorem pinRag_subset (member : b ∈ s.pinRag su req remaining) : b ∈ remaining := by
  unfold pinRag at member
  split at member
  · exact member
  · split at member
    · rename_i rr chosen
      rw [List.mem_singleton] at member
      rw [member]
      exact chooseRagBackend_mem chosen
    · exact member

theorem pinModal_subset {left : List String} (pinned : s.pinModal su req remaining = some left)
    (member : b ∈ left) : b ∈ remaining := by
  unfold pinModal at pinned
  split at pinned
  · cases pinned
    exact member
  · obtain ⟨rr, chosen, rfl⟩ := Option.map_eq_some_iff.mp pinned
    rw [List.mem_singleton] at member
    rw [member]
    exact (chooseMultimodalBackend_mem chosen).1

theorem narrowed_subset (member : b ∈ s.narrowed su req now) : b ∈ s.selected su req now :=
  pinSession_subset (pinRag_subset member)

theorem narrowed_ne_nil (eligible : su.idsFor s.registry req.model ≠ []) :
    s.narrowed su req now ≠ [] := by
  have pinned : (s.pinSession su req (s.selected su req now) now).2 ≠ [] := by
    unfold pinSession
    dsimp only
    split
    · exact List.cons_ne_nil _ _
    · exact selected_ne_nil eligible
  unfold narrowed pinRag
  split
  · exact pinned
  · split
    · exact List.cons_ne_nil _ _
    · exact pinned

theorem nodup_narrowed : (s.narrowed su req now).Nodup := by
  have pinned : (s.pinSession su req (s.selected su req now) now).2.Nodup := by
    unfold pinSession
    dsimp only
    split
    · exact List.nodup_singleton _
    · exact nodup_selected
  unfold narrowed pinRag
  split
  · exact pinned
  · split
    · exact List.nodup_singleton _
    · exact pinned

/-! ### Routing -/

theorem place_frame (su : Setup) (s : Server) (req : Request) (remaining : List String)
    (fault : Option Stretch) :
    ∃ limiter router, (s.place su req remaining fault).1 =
      { s with limiter := limiter, router := router } := by
  unfold place
  split
  · exact ⟨s.limiter, s.router, rfl⟩
  · rename_i router action _
    dsimp only
    split
    · exact ⟨s.limiter, router, rfl⟩
    split
    · exact ⟨_, router, rfl⟩
    split
    · exact ⟨s.limiter, router, rfl⟩
    split
    · exact ⟨_, router, rfl⟩
    · exact ⟨s.limiter, router, rfl⟩

theorem select_frame (su : Setup) (s : Server) (req : Request) (semanticHit : Bool) (now : ℚ)
    (fault : Option Stretch) :
    ∃ limiter sessions router, (s.select su req semanticHit now fault).1 =
      { s with limiter := limiter, sessions := sessions, router := router } := by
  unfold select
  split
  · exact ⟨s.limiter, s.sessions, s.router, rfl⟩
  split
  · exact ⟨_, s.sessions, s.router, rfl⟩
  split
  · exact ⟨_, s.sessions, s.router, rfl⟩
  dsimp only
  split
  · exact ⟨s.limiter, _, s.router, rfl⟩
  · obtain ⟨limiter, router, same⟩ := place_frame su
      { s with sessions := (s.pinSession su req (s.selected su req now) now).1 } req
      (pinRag su { s with sessions := (s.pinSession su req (s.selected su req now) now).1 } req
        (s.pinSession su req (s.selected su req now) now).2) fault
    exact ⟨limiter, _, router, same⟩

/-- Routing leaves everything but the limiter, the session table and the router. -/
theorem route_frame (su : Setup) (s : Server) (req : Request) (semanticHit : Bool) (now : ℚ)
    (fault : Option Stretch) :
    ∃ limiter sessions router, (s.route su req semanticHit now fault).1 =
      { s with limiter := limiter, sessions := sessions, router := router } := by
  have keep : ∃ limiter sessions router,
      s = { s with limiter := limiter, sessions := sessions, router := router } :=
    ⟨s.limiter, s.sessions, s.router, rfl⟩
  unfold route
  split
  · exact keep
  split
  · exact keep
  split
  · exact keep
  dsimp only
  split
  · obtain ⟨limiter, sessions, router, same⟩ := select_frame su
      { s with limiter := (s.admission su req now).1 } req semanticHit now fault
    exact ⟨limiter, sessions, router, same⟩
  · exact ⟨_, s.sessions, s.router, rfl⟩

theorem place_ok {fault : Option Stretch} {left : List String}
    (placed : (s.place su req remaining fault).2 = .ok left) :
    s.pinModal su req (s.splitPhases su req remaining) = some left := by
  unfold place at placed
  split at placed
  · cases placed
  · dsimp only at placed
    split at placed
    · cases placed
    split at placed
    · cases placed
    split at placed
    · cases placed
    split at placed
    · cases placed
    · rename_i pinned
      cases placed
      exact pinned

/-- What is left of the candidates after all stages. -/
theorem route_ok {semanticHit : Bool} {fault : Option Stretch}
    (routed : (s.route su req semanticHit now fault).2 = .ok remaining) :
    s.pinModal su req (s.splitPhases su req (s.narrowed su req now)) = some remaining := by
  unfold route at routed
  split at routed
  · cases routed
  split at routed
  · cases routed
  split at routed
  · cases routed
  dsimp only at routed
  split at routed
  · unfold select at routed
    split at routed
    · cases routed
    split at routed
    · cases routed
    split at routed
    · cases routed
    dsimp only at routed
    split at routed
    · cases routed
    · have placed := place_ok routed
      exact placed
  · cases routed

/-- Every candidate of a routed request was selected, or is the backend picked by
`choose_disaggregated`. -/
theorem route_mem {semanticHit : Bool} {fault : Option Stretch}
    (routed : (s.route su req semanticHit now fault).2 = .ok remaining) (member : b ∈ remaining) :
    b ∈ s.selected su req now ∨ ∃ decision,
      s.disaggDecision su req (s.narrowed su req now) = some decision ∧
        b = decision.prefillBackend := by
  have left := pinModal_subset (route_ok routed) member
  unfold splitPhases at left
  split at left
  · rename_i decision picked
    exact .inr ⟨decision, picked, List.mem_singleton.mp left⟩
  · exact .inl (narrowed_subset left)

theorem nodup_route {semanticHit : Bool} {fault : Option Stretch}
    (routed : (s.route su req semanticHit now fault).2 = .ok remaining) : remaining.Nodup := by
  have pinned := route_ok routed
  unfold pinModal at pinned
  split at pinned
  · cases pinned
    unfold splitPhases
    split
    · exact List.nodup_singleton _
    · exact nodup_narrowed
  · obtain ⟨rr, _, rfl⟩ := Option.map_eq_some_iff.mp pinned
    exact List.nodup_singleton _

/-! ### A small gateway -/

/-- A tenant and its request. -/
def anonymous : Tenant := ⟨"anonymous", 2, 4000, 4, "anonymous"⟩

def plainRequest : Request where
  authorized := true
  tenant := anonymous
  model := none
  prompt := ""
  strategy := none
  sessionId := none
  ragChunks := none
  modal := none
  inputTokens := 1
  reservedOutput := 256

/-- Rate limiting on, one backend and one dispatch slot. -/
def oneSlot : Setup := { cfg := { rateLimitEnabled := true } }

def oneBackend : Server :=
  init oneSlot (.init "mock-model" [("b0", "http://localhost:9001")]) 2000 3 5 (.init 10000 1800)
    none (some (1, .empty, 1, 1))

end Server

end Gateway
