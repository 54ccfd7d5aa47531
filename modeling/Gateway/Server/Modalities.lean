import Gateway.Server.Routing

/-!
When the chat handler answers 415 (`gateway/server.py`, `gateway/multimodal/router.py`).

The capability filter runs last, on candidates that a session pin, the RAG router or
disaggregation may have reduced to a single backend, chosen for other reasons.

* `candidates_at_filter`: the candidates it is given are the selected backends, or the one
  that was pinned.
* `route_415_iff`: the handler answers 415 exactly if it gets that far and no candidate is
  capable.
* `unsupported_iff`: so a 415 says that no eligible backend is capable unless the request
  was pinned to one that is not, and another is.
-/

namespace Gateway

theorem unsaturated_eq_nil {load : LoadTracker String} {maxInflight : Int}
    {backends : List String} : unsaturated load maxInflight backends = [] ↔ backends = [] := by
  unfold unsaturated
  dsimp only
  split
  · rfl
  · rename_i some_left
    constructor
    · intro empty
      rw [empty] at some_left
      exact absurd rfl some_left
    · rintro rfl
      rfl

theorem chooseMultimodalBackend_eq_none {q : ModalRequest} {backends : List String}
    {capabilities : Dict String (List Modality)} {index : MediaAffinityIndex}
    {load : LoadTracker String} {cfg : MultiModalConfig} :
    chooseMultimodalBackend q backends capabilities index load cfg = none ↔
      ∀ b ∈ backends, capable q capabilities b = false := by
  simp [chooseMultimodalBackend, List.argmin_eq_none, unsaturated_eq_nil, List.filter_eq_nil_iff]

namespace Server

variable {su : Setup} {s : Server} {req : Request} {now : ℚ}

/-! ### The candidates of the filter -/

/-- The backend a request is pinned to before its modalities are looked at: the prefill
backend of a disaggregation decision, else the choice of the RAG router, else the backend of
its session. -/
def pinnedTo (su : Setup) (s : Server) (req : Request) (now : ℚ) : Option String :=
  match s.disaggDecision su req (s.narrowed su req now) with
  | some decision => some decision.prefillBackend
  | none =>
      match (if su.rag.enabled then req.ragChunks else none).bind fun chunks =>
        chooseRagBackend chunks (s.pinSession su req (s.selected su req now) now).2 s.ragIndex
          s.load su.rag with
      | some rr => some rr.backendId
      | none =>
          (s.sessions.pick (if su.cfg.sessionAffinityEnabled then req.sessionId else none)
            (s.selected su req now) now).2

theorem pinSession_snd (su : Setup) (s : Server) (req : Request) (remaining : List String)
    (now : ℚ) :
    (s.pinSession su req remaining now).2 =
      match (s.sessions.pick (if su.cfg.sessionAffinityEnabled then req.sessionId else none)
        remaining now).2 with
      | some b => [b]
      | none => remaining := rfl

/-- **The candidates that are left.** -/
theorem candidates_at_filter (su : Setup) (s : Server) (req : Request) (now : ℚ) :
    s.splitPhases su req (s.narrowed su req now) =
      match s.pinnedTo su req now with
      | some b => [b]
      | none => s.selected su req now := by
  unfold splitPhases pinnedTo
  cases s.disaggDecision su req (s.narrowed su req now) with
  | some decision => rfl
  | none =>
      dsimp only
      unfold narrowed pinRag
      cases if su.rag.enabled then req.ragChunks else none with
      | none => exact pinSession_snd su s req _ now
      | some chunks =>
          simp only [Option.bind_some]
          cases chooseRagBackend chunks (s.pinSession su req (s.selected su req now) now).2
              s.ragIndex s.load su.rag with
          | some rr => rfl
          | none => exact pinSession_snd su s req _ now

/-! ### The answer -/

/-- The request gets as far as the capability filter: it is authorised and admitted, some
backend serves its model, the semantic cache has no answer for it, the admission policy lets it
through, disaggregated routing can hash its prompt, and no helper raises on the way or in the
answer. -/
structure ReachesFilter (su : Setup) (s : Server) (req : Request) (semanticHit : Bool) (now : ℚ)
    (fault : Option Stretch) : Prop where
  authorized : req.authorized = true
  admitted : (s.admission su req now).2 = true
  served : su.idsFor s.registry req.model ≠ []
  missed : (su.cfg.semanticCacheEnabled && semanticHit) = false
  let_through : ∃ router, s.probe su req (s.narrowed su req now) = some (router, .admitted)
  hashed : su.splitRaises = false
  calm : ∀ stretch, fault = some stretch →
    stretch ∉ [.parse, .resolve, .select, .pin, .probe, .narrow, .refusal]

theorem pinModal_eq_none {q : ModalRequest} (media : req.modal = some q) {remaining : List String} :
    s.pinModal su req remaining = none ↔ su.multimodal.enabled = true ∧
      ∀ b ∈ remaining, capable q su.capabilities b = false := by
  unfold pinModal
  by_cases on : su.multimodal.enabled = true
  · simp [on, media, chooseMultimodalBackend_eq_none]
  · simp [on]

theorem replyAt_eq_status {fault : Option Stretch} {stretch : Stretch} {code code' : Nat} :
    replyAt fault stretch code = .status code' ↔ fault ≠ some stretch ∧ code = code' := by
  unfold replyAt
  split
  · rename_i here
    simp [here]
  · rename_i calm
    simp [calm]

theorem place_415_iff {remaining : List String} {fault : Option Stretch} :
    (s.place su req remaining fault).2 = .error (.status 415) ↔
      (∃ router, s.probe su req remaining = some (router, .admitted)) ∧ su.splitRaises = false ∧
      fault ≠ some .probe ∧ fault ≠ some .narrow ∧ fault ≠ some .refusal ∧
      s.pinModal su req (s.splitPhases su req remaining) = none := by
  unfold place
  cases probed : s.probe su req remaining with
  | none => simp
  | some result =>
      obtain ⟨router, action⟩ := result
      -- the router that the probe leaves is not looked at again
      have same : ({ s with router := router } : Server).pinModal su req
          (({ s with router := router } : Server).splitPhases su req remaining) =
            s.pinModal su req (s.splitPhases su req remaining) := rfl
      dsimp only
      rw [same]
      split
      · rename_i here
        simp [here]
      split
      · rename_i refused
        simp [replyAt_eq_status, refused]
      split
      · rename_i here
        rcases here with here | raises
        · simp [here]
        · simp [raises]
      · rename_i calm admitted calm'
        obtain ⟨quiet, hashed⟩ := not_or.mp calm'
        have admitted : action = .admitted := by simpa using admitted
        cases s.pinModal su req (s.splitPhases su req remaining) with
        | none => simp [replyAt_eq_status, admitted, calm, quiet, hashed]
        | some left => simp

/-- **When the handler answers 415.** -/
theorem route_415_iff {q : ModalRequest} (media : req.modal = some q) {semanticHit : Bool}
    {fault : Option Stretch} :
    (s.route su req semanticHit now fault).2 = .error (.status 415) ↔
      ReachesFilter su s req semanticHit now fault ∧ su.multimodal.enabled = true ∧
      ∀ b ∈ s.splitPhases su req (s.narrowed su req now), capable q su.capabilities b = false := by
  rw [← pinModal_eq_none media]
  constructor
  · intro answered
    unfold route at answered
    split at answered
    · cases answered
    split at answered
    · cases answered
    split at answered
    · cases answered
    rename_i parse authorized resolve
    dsimp only at answered
    split at answered
    · rename_i admitted
      unfold select at answered
      split at answered
      · cases answered
      split at answered
      · simp [replyAt_eq_status] at answered
      split at answered
      · simp [replyAt_eq_status] at answered
      dsimp only at answered
      split at answered
      · cases answered
      rename_i select served missed pin
      obtain ⟨let_through, hashed, probe, narrow, refusal, none_left⟩ := place_415_iff.mp answered
      refine ⟨⟨by simpa using authorized, admitted, by simpa using served, by simpa using missed,
        let_through, hashed, ?_⟩, none_left⟩
      rintro stretch rfl
      simp_all
    · simp [replyAt_eq_status] at answered
  · rintro ⟨reaches, none_left⟩
    have calm : ∀ stretch, stretch ∈ [Stretch.parse, .resolve, .select, .pin, .probe, .narrow,
        .refusal] → fault ≠ some stretch := fun stretch listed here =>
      reaches.calm stretch here listed
    have authorized : ¬ (!req.authorized) = true := by simp [reaches.authorized]
    have served : ¬ (su.idsFor s.registry req.model).isEmpty = true := by simpa using reaches.served
    have missed : ¬ (su.cfg.semanticCacheEnabled && semanticHit) = true := by simp [reaches.missed]
    unfold route
    rw [if_neg (calm .parse (by simp)), if_neg authorized, if_neg (calm .resolve (by simp))]
    dsimp only
    rw [if_pos reaches.admitted]
    unfold select
    rw [if_neg (calm .select (by simp)), if_neg served, if_neg missed]
    dsimp only
    rw [if_neg (calm .pin (by simp))]
    exact place_415_iff.mpr ⟨reaches.let_through, reaches.hashed, calm .probe (by simp),
      calm .narrow (by simp), calm .refusal (by simp), none_left⟩

/-- **What a 415 says.** For every setup, server and request with media, a 415 means that no
eligible backend supports the modalities of the request, exactly if a request that gets to the
capability filter was not pinned before, or to a backend that supports them, or no eligible
backend does. -/
theorem unsupported_iff (su : Setup) (s : Server) (req : Request) (semanticHit : Bool) (now : ℚ)
    (fault : Option Stretch) (q : ModalRequest) (media : req.modal = some q) :
    ((s.route su req semanticHit now fault).2 = .error (.status 415) →
      ∀ b ∈ s.selected su req now, capable q su.capabilities b = false) ↔
    (su.multimodal.enabled = true → ReachesFilter su s req semanticHit now fault →
      ∀ b, s.pinnedTo su req now = some b →
        capable q su.capabilities b = true ∨
          ∀ c ∈ s.selected su req now, capable q su.capabilities c = false) := by
  rw [route_415_iff media, candidates_at_filter]
  constructor
  · intro honest on reaches b pinned
    cases able : capable q su.capabilities b with
    | true => exact .inl rfl
    | false =>
        right
        apply honest
        refine ⟨reaches, on, ?_⟩
        rw [pinned]
        simpa using able
  · rintro pins ⟨reaches, on, none_capable⟩
    cases pinned : s.pinnedTo su req now with
    | none =>
        rw [pinned] at none_capable
        exact none_capable
    | some b =>
        rw [pinned] at none_capable
        have unable : capable q su.capabilities b = false := none_capable b (by simp)
        refine (pins on reaches b pinned).resolve_left ?_
        rw [unable]
        simp

/-! ### A session with an image -/

/-- Session affinity and multi-modal routing; only `b1` takes images. -/
def sessionsAndImages : Setup where
  cfg := { sessionAffinityEnabled := true }
  multimodal := { enabled := true }
  capabilities := Dict.empty.set "b1" [.text, .image]

def textAndImages : Server :=
  init sessionsAndImages (.init "mock-model" [("b0", "http://b0"), ("b1", "http://b1")]) 2000 3 5
    (.init 10000 1800) none none

/-- A turn of a session, with or without an image. -/
def turn (modal : Option ModalRequest) : Request :=
  { plainRequest with sessionId := some "chat", modal := modal }

def oneImage : ModalRequest := ⟨"", [⟨.image, "cat.png", none, none, true, none⟩]⟩

/-- The first turn of the session is text, and is served by `b0`. -/
def textTurn : List Span :=
  [⟨0, .arrive (turn none) false none⟩, ⟨0, .connected 0 200 none⟩, ⟨0, .start 0⟩, ⟨1, .stop 0⟩,
    ⟨1, .closed 0 none⟩]

/-- The next turn has an image and is answered 415, although `b1` is eligible and takes it. -/
theorem pinned_session_415 :
    ∃ s, Machine.run (step sessionsAndImages) textAndImages textTurn = some s ∧
      (s.route sessionsAndImages (turn (some oneImage)) false 2 none).2 = .error (.status 415) ∧
      "b1" ∈ s.selected sessionsAndImages (turn (some oneImage)) 2 ∧
      capable oneImage sessionsAndImages.capabilities "b1" = true := by
  exact Machine.exists_run (by decide +kernel)

def oneClip : ModalRequest := ⟨"", [⟨.audio, "song.wav", none, none, true, none⟩]⟩

/-- A session that opens with a sound, which no backend takes, is rightly answered 415. -/
theorem unsupported_iff_opening :
    (textAndImages.route sessionsAndImages (turn (some oneClip)) false 0 none).2 =
        .error (.status 415) ∧
      ∀ b ∈ textAndImages.selected sessionsAndImages (turn (some oneClip)) 0,
        capable oneClip sessionsAndImages.capabilities b = false := by
  have answered : (textAndImages.route sessionsAndImages (turn (some oneClip)) false 0 none).2 =
      .error (.status 415) := by decide +kernel
  have unpinned : textAndImages.pinnedTo sessionsAndImages (turn (some oneClip)) 0 = none := by
    decide +kernel
  refine ⟨answered, (unsupported_iff sessionsAndImages textAndImages (turn (some oneClip)) false 0
    none oneClip rfl).mpr ?_ answered⟩
  intro _ _ b pinned
  rw [unpinned] at pinned
  cases pinned

end Server

end Gateway
