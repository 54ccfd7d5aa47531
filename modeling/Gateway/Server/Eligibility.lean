import Gateway.Server.Routing

/-!
Where the chat handler dispatches, under every interleaving.

The candidates of a request are filtered once, when it arrives. Two things can make a
dispatch go to a backend that is not eligible at that moment: `choose_disaggregated` picks
from the pools of the start-up, whatever the candidates are; and between the selection
and a dispatch the request may be suspended (in the fair queue, in a race, or on a
connection that is then refused) while a candidate is drained, removed or found
unhealthy, or a circuit changes.

`Undisturbed` rules these out. `dispatches_eligible` is the result: in every run of
undisturbed spans, every dispatch goes to a registered, healthy backend that is not
draining and serves the model, and whose circuit is not open unless those of all
eligible backends are. `dispatch_to_drained` is a run that does otherwise.
-/

namespace Gateway

/-- A dispatch to a backend that was eligible at that moment. -/
structure Dispatch.Eligible (su : Setup) (d : Dispatch) : Prop where
  serves : ∃ be, d.registry.get d.backend = some be ∧
    be.serves (su.servedModel d.req.model) = true
  circuit : d.breaker.allow d.backend d.now = true ∨
    ∀ b ∈ su.idsFor d.registry d.req.model, d.breaker.allow b d.now = false

namespace Phase

/-- A suspended request whose candidates all had an open circuit. -/
def degraded : Phase → Bool
  | .waiting _ _ allOpen _ => allOpen
  | .racing _ allOpen _ _ => allOpen
  | .connecting _ allOpen _ _ _ => allOpen
  | _ => false

/-- Candidates are distinct, and a race opens connections to its candidates only. -/
def Tidy : Phase → Prop
  | .waiting _ remaining _ _ => remaining.Nodup
  | .racing _ _ topk unopened => unopened ⊆ topk.backendIds
  | .connecting _ _ _ remaining _ => remaining.Nodup
  | _ => True

end Phase

namespace Server

/-- `b` is registered, healthy, not draining and serves the model. -/
def Serves (su : Setup) (s : Server) (model : Option String) (b : String) : Prop :=
  ∃ be, s.registry.get b = some be ∧ be.serves (su.servedModel model) = true

/-- No suspended request may still be dispatched to `b`. -/
def NoCandidate (s : Server) (b : String) : Prop := ∀ j < s.next, b ∉ (s.phase j).pending

instance (s : Server) (b : String) : Decidable (s.NoCandidate b) :=
  inferInstanceAs (Decidable (∀ j < s.next, _))

/-- The circuits of all backends eligible for a model are open. -/
def AllOpen (su : Setup) (registry : BackendRegistry String) (breaker : CircuitBreaker String)
    (model : Option String) (now : ℚ) : Prop :=
  ∀ b ∈ su.idsFor registry model, breaker.allow b now = false

instance (su : Setup) (registry : BackendRegistry String) (breaker : CircuitBreaker String)
    (model : Option String) (now : ℚ) : Decidable (AllOpen su registry breaker model now) :=
  inferInstanceAs (Decidable (∀ b ∈ _, _))

/-- A degraded request goes on while all circuits are still open. -/
def StillOpen (su : Setup) (s : Server) (i : Nat) (now : ℚ) : Prop :=
  (s.phase i).degraded = true → ∀ req ∈ (s.phase i).req?,
    AllOpen su s.registry s.breaker req.model now

instance (su : Setup) (s : Server) (i : Nat) (now : ℚ) : Decidable (s.StillOpen su i now) :=
  inferInstanceAs (Decidable (_ → ∀ req ∈ _, _))

/-- **The condition on a span.** -/
def Undisturbed (su : Setup) (s : Server) (span : Span) : Prop :=
  match span.act with
  | .arrive req _ _ =>
      (s.disaggDecision su req (s.narrowed su req span.now)).all
        (fun decision => decide (decision.prefillBackend ∈ s.selected su req span.now)) = true
  | .resume i _ => s.StillOpen su i span.now
  | .opened i _ => s.StillOpen su i span.now
  | .won i _ _ _ => s.StillOpen su i span.now
  | .refused i _ =>
      match s.phase i with
      | .connecting req allOpen r _ _ =>
          (∀ j < s.next, j ≠ i → r.backendId ∉ (s.phase j).pending) ∧
            (allOpen = true → AllOpen su (s.registry.setHealth r.backendId false) s.breaker
              req.model span.now)
      | _ => True
  | .adminRemove b => s.NoCandidate b
  | .adminDrain b draining => draining = true → s.NoCandidate b
  | .scrape b health => health ≠ .ok → s.NoCandidate b
  | _ => True

instance (su : Setup) (s : Server) : (span : Span) → Decidable (s.Undisturbed su span)
  | ⟨_, .arrive _ _ _⟩ => inferInstanceAs (Decidable (_ = true))
  | ⟨now, .resume i _⟩ | ⟨now, .opened i _⟩ | ⟨now, .won i _ _ _⟩ =>
      inferInstanceAs (Decidable (s.StillOpen su i now))
  | ⟨_, .refused i _⟩ => by
      unfold Undisturbed
      dsimp only
      exact match s.phase i with
        | .connecting _ _ _ _ _ => inferInstance
        | .running _ | .waiting _ _ _ _ | .racing _ _ _ _ | .returned _ _ _ | .streaming _ _ _ _
        | .closing _ _ _ _ | .ended => isTrue trivial
  | ⟨_, .adminRemove b⟩ => inferInstanceAs (Decidable (s.NoCandidate b))
  | ⟨_, .adminDrain b draining⟩ => inferInstanceAs (Decidable (draining = true → s.NoCandidate b))
  | ⟨_, .scrape b health⟩ => inferInstanceAs (Decidable (health ≠ .ok → s.NoCandidate b))
  | ⟨_, .connected _ _ _⟩ | ⟨_, .lost _ _⟩ | ⟨_, .start _⟩ | ⟨_, .chunk _ _⟩ | ⟨_, .stop _⟩
  | ⟨_, .closed _ _⟩ | ⟨_, .cancel _⟩ | ⟨_, .adminAdd _ _ _⟩ => isTrue trivial

/-! ### The invariant -/

/-- All dispatches were eligible, and so are all pending candidates. -/
structure Fit (su : Setup) (s : Server) : Prop where
  past : ∀ d ∈ s.dispatches, d.Eligible su
  idle : ∀ i, s.next ≤ i → s.phase i = .ended
  tidy : ∀ i, (s.phase i).Tidy
  serves : ∀ i, ∀ req ∈ (s.phase i).req?, ∀ b ∈ (s.phase i).pending, s.Serves su req.model b
  allowed : ∀ i, (s.phase i).degraded = false → ∀ b ∈ (s.phase i).pending,
    s.breaker.allow b s.clock = true

variable {su : Setup} {s s' : Server} {i : Nat} {p : Phase} {req : Request} {b : String}

theorem Fit.lt_next (fit : s.Fit su) (busy : s.phase i ≠ .ended) : i < s.next := by
  by_contra later
  exact busy (fit.idle i (Nat.le_of_not_lt later))

theorem Fit.lt_next_of_pending (fit : s.Fit su) (member : b ∈ (s.phase i).pending) : i < s.next := by
  refine fit.lt_next fun ended => ?_
  rw [ended] at member
  cases member

/-- `b` is as eligible in `s'` as it was in `s`. -/
structure Keeps (su : Setup) (s s' : Server) (b : String) : Prop where
  serves : ∀ model, s.Serves su model b → s'.Serves su model b
  allow : s.breaker.allow b s.clock = true → s'.breaker.allow b s'.clock = true

theorem Keeps.same (registry : s'.registry = s.registry) (breaker : s'.breaker = s.breaker)
    (clock : s'.clock = s.clock) : Keeps su s s' b where
  serves := fun model serves => by rwa [Serves, registry]
  allow := fun allow => by rwa [breaker, clock]

/-- Request `i` changes, and no other request's candidates get worse. -/
theorem Fit.change (fit : s.Fit su) (bound : i < s'.next)
    (phase : s'.phase = Function.update s.phase i p) (next : s.next ≤ s'.next)
    (past : ∀ d ∈ s'.dispatches, d ∈ s.dispatches ∨ d.Eligible su)
    (keeps : ∀ j, j ≠ i → ∀ b ∈ (s.phase j).pending, Keeps su s s' b) (tidy : p.Tidy)
    (serves : ∀ req ∈ p.req?, ∀ b ∈ p.pending, s'.Serves su req.model b)
    (allowed : p.degraded = false → ∀ b ∈ p.pending, s'.breaker.allow b s'.clock = true) :
    s'.Fit su := by
  have here : s'.phase i = p := by rw [phase, Function.update_self]
  have other : ∀ {j}, j ≠ i → s'.phase j = s.phase j := by
    intro j ne
    rw [phase, Function.update_of_ne ne]
  refine ⟨?_, ?_, ?_, ?_, ?_⟩
  · intro d member
    rcases past d member with old | eligible
    · exact fit.past d old
    · exact eligible
  · intro j later
    rw [other (by omega)]
    exact fit.idle j (by omega)
  · intro j
    by_cases same : j = i
    · rw [same, here]
      exact tidy
    · rw [other same]
      exact fit.tidy j
  · intro j req held b member
    by_cases same : j = i
    · rw [same, here] at held member
      exact serves req held b member
    · rw [other same] at held member
      exact (keeps j same b member).serves _ (fit.serves j req held b member)
  · intro j degraded b member
    by_cases same : j = i
    · rw [same, here] at degraded member
      exact allowed degraded b member
    · rw [other same] at degraded member
      exact (keeps j same b member).allow (fit.allowed j degraded b member)

/-- Request `i` goes where it has no candidates. -/
theorem Fit.retire (fit : s.Fit su) (bound : i < s'.next)
    (phase : s'.phase = Function.update s.phase i p) (next : s.next ≤ s'.next)
    (past : ∀ d ∈ s'.dispatches, d ∈ s.dispatches ∨ d.Eligible su)
    (keeps : ∀ j, j ≠ i → ∀ b ∈ (s.phase j).pending, Keeps su s s' b) (tidy : p.Tidy)
    (none_pending : p.pending = []) : s'.Fit su := by
  refine fit.change bound phase next past keeps tidy (fun req _ b member => ?_)
    (fun _ b member => ?_)
  all_goals
    rw [none_pending] at member
    cases member

/-- No request changes, and nobody's candidates get worse. -/
theorem Fit.steady (fit : s.Fit su) (phase : s'.phase = s.phase) (next : s'.next = s.next)
    (dispatches : s'.dispatches = s.dispatches)
    (keeps : ∀ j, ∀ b ∈ (s.phase j).pending, Keeps su s s' b) : s'.Fit su where
  past := fun d member => fit.past d (dispatches ▸ member)
  idle := fun j later => by rw [phase]; exact fit.idle j (next ▸ later)
  tidy := fun j => by rw [phase]; exact fit.tidy j
  serves := by
    intro j req held b member
    rw [phase] at held member
    exact (keeps j b member).serves _ (fit.serves j req held b member)
  allowed := by
    intro j degraded b member
    rw [phase] at degraded member
    exact (keeps j b member).allow (fit.allowed j degraded b member)

/-- Time passes. -/
theorem Fit.tick (fit : s.Fit su) {now : ℚ} (passed : s.clock ≤ now) :
    ({ s with clock := now } : Server).Fit su :=
  fit.steady rfl rfl rfl fun _ _ _ => ⟨fun _ serves => serves, CircuitBreaker.allow_mono passed⟩

/-! ### Dispatch -/

/-- The candidates of a request that is about to be dispatched. -/
structure Ready (su : Setup) (s : Server) (req : Request) (allOpen : Bool)
    (remaining : List String) : Prop where
  nodup : remaining.Nodup
  serves : ∀ b ∈ remaining, s.Serves su req.model b
  allowed : allOpen = false → ∀ b ∈ remaining, s.breaker.allow b s.clock = true
  degraded : allOpen = true → AllOpen su s.registry s.breaker req.model s.clock

/-- A dispatch to one of them is eligible. -/
theorem Ready.eligible {allOpen : Bool} {remaining : List String}
    (ready : s.Ready su req allOpen remaining) (member : b ∈ remaining) :
    Dispatch.Eligible su ⟨req, b, s.registry, s.breaker, s.clock⟩ where
  serves := ready.serves b member
  circuit := by
    cases allOpen with
    | false => exact .inl (ready.allowed rfl b member)
    | true => exact .inr (ready.degraded rfl)

/-- The only new dispatch is the recorded one. -/
theorem eligible_record {now : ℚ}
    (eligible : Dispatch.Eligible su ⟨req, b, s.registry, s.breaker, now⟩) :
    ∀ d ∈ (s.record req b now).dispatches, d ∈ s.dispatches ∨ d.Eligible su := by
  intro d member
  rcases List.mem_append.mp member with old | new
  · exact .inl old
  · rw [List.mem_singleton.mp new]
    exact .inr eligible

/-- Request `i` goes on to where it has no candidates. -/
theorem Fit.setPhase (fit : s.Fit su) (bound : i < s.next) (tidy : p.Tidy)
    (none_pending : p.pending = []) : (s.setPhase i p).Fit su :=
  fit.retire bound rfl le_rfl (fun _ member => .inl member)
    (fun _ _ _ _ => Keeps.same rfl rfl rfl) tidy none_pending

/-- Request `i` ends, and nothing else changes but what counts slots. -/
theorem Fit.finish (fit : s.Fit su) (bound : i < s.next) (reply : Reply)
    (phase : s'.phase = s.phase) (next : s'.next = s.next)
    (dispatches : s'.dispatches = s.dispatches) (registry : s'.registry = s.registry)
    (breaker : s'.breaker = s.breaker) (clock : s'.clock = s.clock) :
    (s'.finish i req reply).Fit su := by
  refine fit.retire (i := i) (p := .ended) ?_ ?_ ?_ ?_ ?_ trivial rfl
  · show i < s'.next
    omega
  · show Function.update s'.phase i .ended = Function.update s.phase i .ended
    rw [phase]
  · show s.next ≤ s'.next
    omega
  · exact fun d member => .inl (dispatches ▸ member)
  · exact fun _ _ _ _ => Keeps.same registry breaker clock

theorem Fit.unreachable (fit : s.Fit su) (bound : i < s.next) (fault : Option Stretch) :
    (s.unreachable su i req fault).Fit su :=
  fit.finish bound _ rfl rfl rfl rfl rfl rfl

theorem Fit.attempt (fit : s.Fit su) (bound : i < s.next) {allOpen : Bool}
    {remaining : List String} (ready : s.Ready su req allOpen remaining) (left : Nat)
    (fault : Option Stretch) :
    (s.attempt su i req allOpen remaining left s.clock fault).Fit su := by
  unfold Server.attempt
  split
  · exact fit.unreachable bound fault
  split
  · exact fit.unreachable bound fault
  split
  · exact fit.finish bound _ rfl rfl rfl rfl rfl rfl
  · rename_i left _ _ r router chosen
    dsimp only
    split
    · exact fit.finish bound _ rfl rfl rfl rfl rfl rfl
    · have candidate := Router.choose_mem chosen
      have recorded := eligible_record (ready.eligible candidate)
      split
      · exact fit.retire bound rfl le_rfl recorded (fun _ _ _ _ => Keeps.same rfl rfl rfl) trivial
          rfl
      · refine fit.change bound (p := .connecting req allOpen r remaining left) rfl le_rfl recorded
          (fun _ _ _ _ => Keeps.same rfl rfl rfl) ready.nodup ?_ ?_
        · intro req' held b member
          cases held
          simp only [Phase.pending] at member
          split at member
          · cases member
          · exact ready.serves b (List.mem_of_mem_erase member)
        · intro some_allowed b member
          simp only [Phase.pending] at member
          split at member
          · cases member
          · exact ready.allowed some_allowed b (List.mem_of_mem_erase member)

theorem Fit.dispatch (fit : s.Fit su) (bound : i < s.next) {allOpen : Bool}
    {remaining : List String} (ready : s.Ready su req allOpen remaining) (fault : Option Stretch) :
    (s.dispatch su i req allOpen remaining s.clock fault).Fit su := by
  unfold Server.dispatch
  split
  · exact fit.finish bound _ rfl rfl rfl rfl rfl rfl
  split
  · split
    · exact fit.finish bound _ rfl rfl rfl rfl rfl rfl
    rename_i topk ranked
    split
    · exact fit.finish bound _ rfl rfl rfl rfl rfl rfl
    · refine fit.change bound rfl le_rfl (fun d member => .inl member)
        (fun _ _ _ _ => Keeps.same rfl rfl rfl) (fun b member => member) ?_ ?_
      · intro req' held b member
        cases held
        exact ready.serves b (Router.topKBackends_subset ranked member)
      · intro some_allowed b member
        exact ready.allowed some_allowed b (Router.topKBackends_subset ranked member)
  · exact fit.attempt bound ready _ fault

/-! ### Spans of a request -/

/-- Freshly routed candidates are ready to be dispatched to. -/
theorem ready_route {semanticHit : Bool} {fault : Option Stretch} {remaining : List String}
    (picked : (s.disaggDecision su req (s.narrowed su req s.clock)).all
      (fun decision => decide (decision.prefillBackend ∈ s.selected su req s.clock)) = true)
    (routed : (s.route su req semanticHit s.clock fault).2 = .ok remaining) :
    s.Ready su req (s.allOpen su req s.clock) remaining := by
  have selected : ∀ b ∈ remaining, b ∈ s.selected su req s.clock := by
    intro b member
    rcases route_mem routed member with selected | ⟨decision, chosen, rfl⟩
    · exact selected
    · rw [chosen] at picked
      simpa using picked
  refine ⟨nodup_route routed, fun b member => ?_, fun some_allowed b member => ?_,
    fun all b member => ?_⟩
  · exact idsFor_serves (selected_subset (selected b member))
  · exact selected_allow some_allowed (selected b member)
  · exact not_allow_of_allOpen all member

theorem Fit.arrive (fit : s.Fit su) (semanticHit : Bool) (fault : Option Stretch)
    (picked : (s.disaggDecision su req (s.narrowed su req s.clock)).all
      (fun decision => decide (decision.prefillBackend ∈ s.selected su req s.clock)) = true) :
    (s.arrive su req semanticHit s.clock fault).Fit su := by
  have ready : ∀ remaining, (s.route su req semanticHit s.clock fault).2 = .ok remaining →
      s.Ready su req (s.allOpen su req s.clock) remaining := fun _ => ready_route picked
  obtain ⟨limiter, sessions, router, frame⟩ := route_frame su s req semanticHit s.clock fault
  unfold Server.arrive
  generalize s.allOpen su req s.clock = allOpen at ready ⊢
  generalize s.route su req semanticHit s.clock fault = result at *
  obtain ⟨routed, outcome⟩ := result
  dsimp only at frame ready ⊢
  subst frame
  cases outcome with
  | error reply => exact fit.steady rfl rfl rfl fun _ _ _ => Keeps.same rfl rfl rfl
  | ok remaining =>
      have left := ready remaining rfl
      have numbered : ((({ s with limiter := limiter, sessions := sessions, router := router } :
          Server).acquireSlot req allOpen remaining).1).Fit su := by
        refine fit.change (i := s.next) (Nat.lt_succ_self _) rfl (Nat.le_succ _)
          (fun d member => .inl member) (fun _ _ _ _ => Keeps.same rfl rfl rfl) ?_ ?_ ?_
        · split
          · trivial
          · exact left.nodup
        · intro req' held b member
          split at held <;> split at member
          · cases member
          · cases member
          · cases held
            cases member
          · cases held
            exact left.serves b member
        · intro degraded b member
          split at degraded <;> split at member
          · cases member
          · cases member
          · cases member
          · exact left.allowed degraded b member
      dsimp only
      split
      · exact numbered.dispatch (Nat.lt_succ_self _)
          ⟨left.nodup, left.serves, left.allowed, left.degraded⟩ fault
      · exact numbered

theorem Fit.resume (fit : s.Fit su) (fault : Option Stretch) (still : s.StillOpen su i s.clock)
    (taken : s.resume su i s.clock fault = some s') : s'.Fit su := by
  unfold Server.resume at taken
  split at taken
  · rename_i phase _
    cases taken
    exact fit.finish (fit.lt_next (by simp [phase])) _ rfl rfl rfl rfl rfl rfl
  · rename_i phase _
    cases taken
    exact fit.finish (fit.lt_next (by simp [phase])) _ rfl rfl rfl rfl rfl rfl
  · rename_i req remaining allOpen phase _
    cases taken
    have bound : i < s.next := fit.lt_next (by simp [phase])
    have running : (s.setPhase i (.running req)).Fit su := fit.setPhase bound trivial rfl
    have tidy := fit.tidy i
    have serves := fit.serves i req
    have allowed := fit.allowed i
    unfold StillOpen at still
    rw [phase] at tidy serves allowed still
    refine running.dispatch bound ⟨tidy, serves rfl, allowed, fun degraded => ?_⟩ fault
    exact still degraded req rfl
  · cases taken

/-- A success never takes anything away. -/
theorem keeps_recordSuccess (s : Server) (b b' : String) :
    s.breaker.allow b s.clock = true → (s.breaker.recordSuccess b').allow b s.clock = true := by
  intro before
  by_cases same : b = b'
  · rw [same]
    exact CircuitBreaker.allow_recordSuccess_self
  · rwa [CircuitBreaker.allow_recordSuccess same]

/-- The response is on its way. -/
theorem Fit.respond (fit : s.Fit su) (bound : i < s.next) {past : List Dispatch}
    (same : ∀ d ∈ past, d ∈ s.dispatches ∨ d.Eligible su) (r : RouteResult) (code : Nat)
    (fault : Option Stretch) (phase : s'.phase = s.phase) (next : s'.next = s.next)
    (dispatches : s'.dispatches = past) (registry : s'.registry = s.registry)
    (breaker : s'.breaker = s.breaker) (clock : s'.clock = s.clock) :
    (s'.respond i req r code fault).Fit su := by
  have keeps : ∀ s'' : Server, s''.registry = s.registry →
      s''.breaker = s.breaker.recordSuccess r.backendId → s''.clock = s.clock →
      ∀ b, Keeps su s s'' b := by
    intro s'' registry breaker clock b
    refine ⟨fun model serves => by rwa [Serves, registry], fun allow => ?_⟩
    rw [breaker, clock]
    exact keeps_recordSuccess s b r.backendId allow
  have answered : ∀ (s'' : Server) (p : Phase), p.Tidy → p.pending = [] →
      s''.phase = Function.update s.phase i p → s''.next = s.next → s''.dispatches = past →
      s''.registry = s.registry → s''.breaker = s.breaker.recordSuccess r.backendId →
      s''.clock = s.clock → s''.Fit su := by
    intro s'' p tidy none_pending phase next dispatches registry breaker clock
    exact fit.retire (by omega) phase (by omega) (fun d member => same d (dispatches ▸ member))
      (fun _ _ b _ => keeps s'' registry breaker clock b) tidy none_pending
  unfold Server.respond
  dsimp only
  split
  · refine answered _ .ended trivial rfl ?_ next dispatches registry ?_ clock
    · simp only [Server.finish, phase]
    · simp only [Server.finish, breaker]
  · refine answered _ (.returned req r code) trivial rfl ?_ next dispatches registry ?_ clock
    · simp only [Server.setPhase, phase]
    · simp only [Server.setPhase, breaker]

theorem Fit.connected (fit : s.Fit su) {code : Nat} {fault : Option Stretch}
    (taken : s.connected i code fault = some s') : s'.Fit su := by
  unfold Server.connected at taken
  split at taken
  · rename_i phase
    cases taken
    exact fit.respond (fit.lt_next (by simp [phase])) (fun d member => .inl member) _ code fault rfl
      rfl rfl rfl rfl rfl
  · cases taken

/-- A candidate of a race is eligible. -/
theorem Fit.eligible_racing (fit : s.Fit su) {allOpen : Bool} {topk : Router.TopK}
    {unopened : List String} (phase : s.phase i = .racing req allOpen topk unopened)
    (still : s.StillOpen su i s.clock) (member : b ∈ topk.backendIds) :
    Dispatch.Eligible su ⟨req, b, s.registry, s.breaker, s.clock⟩ := by
  have serves := fit.serves i req
  have allowed := fit.allowed i
  unfold StillOpen at still
  rw [phase] at serves allowed still
  refine ⟨serves rfl b member, ?_⟩
  cases degraded : allOpen with
  | false => exact .inl (allowed degraded b member)
  | true => exact .inr (still degraded req rfl)

theorem Fit.opened (fit : s.Fit su) (still : s.StillOpen su i s.clock)
    (taken : s.opened i b s.clock = some s') : s'.Fit su := by
  unfold Server.opened at taken
  split at taken
  · rename_i req allOpen topk unopened phase
    split at taken
    · rename_i waiting
      cases taken
      have tidy := fit.tidy i
      have serves := fit.serves i
      have allowed := fit.allowed i
      rw [phase] at tidy serves allowed
      have recorded := eligible_record (fit.eligible_racing phase still (tidy waiting))
      refine fit.change (fit.lt_next (by simp [phase])) rfl le_rfl recorded
        (fun _ _ _ _ => Keeps.same rfl rfl rfl) ?_ serves allowed
      exact fun b' member => tidy (List.mem_of_mem_erase member)
    · cases taken
  · cases taken

theorem Fit.won (fit : s.Fit su) {code : Nat} {fault : Option Stretch}
    (still : s.StillOpen su i s.clock) (taken : s.won i b code s.clock fault = some s') :
    s'.Fit su := by
  unfold Server.won at taken
  split at taken
  · rename_i req allOpen topk unopened phase
    split at taken
    · rename_i winner
      cases taken
      have bound : i < s.next := fit.lt_next (by simp [phase])
      have recorded := eligible_record (fit.eligible_racing phase still winner.1)
      split
      · exact fit.retire bound rfl le_rfl recorded (fun _ _ _ _ => Keeps.same rfl rfl rfl) trivial
          rfl
      · exact fit.respond bound recorded _ code fault rfl rfl rfl rfl rfl rfl
    · cases taken
  · cases taken

theorem Fit.lost (fit : s.Fit su) {fault : Option Stretch} (taken : s.lost su i fault = some s') :
    s'.Fit su := by
  unfold Server.lost at taken
  split at taken
  · rename_i phase
    cases taken
    exact fit.unreachable (fit.lt_next (by simp [phase])) fault
  · cases taken

/-- Marking one backend unhealthy leaves the others as they are. -/
theorem keeps_failure (s : Server) {b' : String} (ne : b ≠ b') (now : ℚ) (s' : Server)
    (registry : s'.registry = s.registry.setHealth b' false)
    (breaker : s'.breaker = s.breaker.recordFailure b' now) (clock : s'.clock = s.clock) :
    Keeps su s s' b where
  serves := by
    rintro model ⟨be, found, serves⟩
    refine ⟨be, ?_, serves⟩
    rw [registry, BackendRegistry.get_setHealth, if_neg ne]
    exact found
  allow := by
    intro allow
    rwa [breaker, clock, CircuitBreaker.allow_recordFailure ne]

theorem not_mem_idsFor_unhealthy {registry : BackendRegistry String} {model : Option String} :
    b ∉ su.idsFor (registry.setHealth b false) model := by
  intro member
  obtain ⟨be, found, serves⟩ := idsFor_serves member
  rw [BackendRegistry.get_setHealth, if_pos rfl] at found
  obtain ⟨be', _, rfl⟩ := Option.map_eq_some_iff.mp found
  simp [Backend.serves] at serves

theorem Fit.refused (fit : s.Fit su) {fault : Option Stretch}
    (undisturbed : s.Undisturbed su ⟨s.clock, .refused i fault⟩)
    (taken : s.refused su i s.clock fault = some s') : s'.Fit su := by
  unfold Server.refused at taken
  split at taken
  · rename_i req allOpen r remaining left phase
    cases taken
    simp only [Undisturbed, phase] at undisturbed
    obtain ⟨others, still⟩ := undisturbed
    have bound : i < s.next := fit.lt_next (by simp [phase])
    have running : (s.markFailed i req r s.clock).Fit su := by
      refine fit.retire (i := i) (p := .running req) bound rfl le_rfl (fun d member => .inl member)
        ?_ trivial rfl
      intro j ne b member
      refine keeps_failure s ?_ s.clock _ rfl rfl rfl
      rintro rfl
      exact others j (fit.lt_next_of_pending member) ne member
    split
    · exact running.finish bound _ rfl rfl rfl rfl rfl rfl
    · cases left with
      | zero => exact running.unreachable bound fault
      | succ left =>
          have tidy := fit.tidy i
          have serves := fit.serves i req
          have allowed := fit.allowed i
          rw [phase] at tidy serves allowed
          have keeps : ∀ b ∈ remaining.erase r.backendId,
              Keeps su s (s.markFailed i req r s.clock) b := by
            intro b member
            have ne : b ≠ r.backendId := ((List.Nodup.mem_erase_iff tidy).mp member).1
            exact keeps_failure s ne s.clock _ rfl rfl rfl
          refine running.attempt bound ⟨List.Nodup.erase _ tidy, fun b member => ?_,
            fun some_allowed b member => ?_, fun degraded b member => ?_⟩ _ fault
          · exact (keeps b member).serves _ (serves rfl b member)
          · exact (keeps b member).allow (allowed some_allowed b member)
          · have ne : b ≠ r.backendId := by
              rintro rfl
              exact not_mem_idsFor_unhealthy member
            exact (CircuitBreaker.allow_recordFailure ne).trans (still degraded b member)
  · cases taken

theorem Fit.start (fit : s.Fit su) (taken : s.start i = some s') : s'.Fit su := by
  unfold Server.start at taken
  split at taken
  · rename_i phase
    cases taken
    exact fit.setPhase (fit.lt_next (by simp [phase])) trivial rfl
  · cases taken

theorem Fit.chunk (fit : s.Fit su) {events : Nat} (taken : s.chunk i events = some s') :
    s'.Fit su := by
  unfold Server.chunk at taken
  split at taken
  · rename_i phase
    cases taken
    exact fit.setPhase (fit.lt_next (by simp [phase])) trivial rfl
  · cases taken

theorem Fit.stop (fit : s.Fit su) (taken : s.stop i = some s') : s'.Fit su := by
  unfold Server.stop at taken
  split at taken
  · rename_i phase
    cases taken
    exact fit.setPhase (fit.lt_next (by simp [phase])) trivial rfl
  · cases taken

theorem Fit.closed (fit : s.Fit su) {now : ℚ} {fault : Option Stretch}
    (taken : s.closed su i now fault = some s') : s'.Fit su := by
  unfold Server.closed at taken
  split at taken
  · rename_i phase
    cases taken
    have bound : i < s.next := fit.lt_next (by simp [phase])
    dsimp only
    split
    · exact fit.finish bound _ rfl rfl rfl rfl rfl rfl
    split
    · exact fit.finish bound _ rfl rfl rfl rfl rfl rfl
    · exact fit.finish bound _ rfl rfl rfl rfl rfl rfl
  · cases taken

theorem Fit.cancel (fit : s.Fit su) (taken : s.cancel i = some s') : s'.Fit su := by
  unfold Server.cancel at taken
  split at taken
  · rename_i phase
    split at taken
    · cases taken
      exact fit.steady rfl rfl rfl fun _ _ _ => Keeps.same rfl rfl rfl
    · cases taken
      have tidy := fit.tidy i
      have serves := fit.serves i
      have allowed := fit.allowed i
      rw [phase] at tidy serves allowed
      exact fit.change (fit.lt_next (by simp [phase])) rfl le_rfl (fun d member => .inl member)
        (fun _ _ _ _ => Keeps.same rfl rfl rfl) tidy serves allowed
  · rename_i phase
    cases taken
    exact fit.finish (fit.lt_next (by simp [phase])) _ rfl rfl rfl rfl rfl rfl
  · rename_i phase
    cases taken
    exact fit.finish (fit.lt_next (by simp [phase])) _ rfl rfl rfl rfl rfl rfl
  · rename_i phase
    cases taken
    exact fit.finish (fit.lt_next (by simp [phase])) _ rfl rfl rfl rfl rfl rfl
  · rename_i phase
    cases taken
    exact fit.setPhase (fit.lt_next (by simp [phase])) trivial rfl
  · rename_i phase
    cases taken
    exact fit.finish (fit.lt_next (by simp [phase])) _ rfl rfl rfl rfl rfl rfl
  · cases taken
  · cases taken

/-! ### Spans of the control plane -/

theorem Fit.adminAdd (fit : s.Fit su) (b url : String) (model : Option String) :
    (s.adminAdd b url model).Fit su := by
  unfold Server.adminAdd
  split
  · exact fit
  · refine fit.steady rfl rfl rfl fun j b' _ => ⟨?_, id⟩
    rintro served ⟨be, found, serves⟩
    by_cases same : b' = b
    · refine ⟨{ be with url := url }, ?_, serves⟩
      rw [BackendRegistry.get_add, if_pos same, ← same, found]
    · refine ⟨be, ?_, serves⟩
      rw [BackendRegistry.get_add, if_neg same]
      exact found

theorem Fit.adminRemove (fit : s.Fit su) (free : s.NoCandidate b) : (s.adminRemove b).Fit su := by
  unfold Server.adminRemove
  split
  · refine fit.steady rfl rfl rfl fun j b' member => ⟨?_, id⟩
    rintro served ⟨be, found, serves⟩
    refine ⟨be, ?_, serves⟩
    rw [BackendRegistry.get_remove, if_neg]
    · exact found
    · rintro rfl
      exact free j (fit.lt_next_of_pending member) member
  · exact fit

theorem Fit.adminDrain (fit : s.Fit su) {draining : Bool}
    (free : draining = true → s.NoCandidate b) : (s.adminDrain b draining).Fit su := by
  refine fit.steady rfl rfl rfl fun j b' member => ⟨?_, id⟩
  rintro served ⟨be, found, serves⟩
  by_cases same : b' = b
  · cases draining with
    | true => exact absurd (same ▸ member) (free rfl j (fit.lt_next_of_pending member))
    | false =>
        refine ⟨{ be with draining := false }, ?_, ?_⟩
        · rw [Server.adminDrain, BackendRegistry.get_setDraining, if_pos same, ← same, found]
          rfl
        · simp only [Backend.serves, Bool.and_eq_true] at serves ⊢
          exact ⟨⟨serves.1.1, rfl⟩, serves.2⟩
  · refine ⟨be, ?_, serves⟩
    rw [Server.adminDrain, BackendRegistry.get_setDraining, if_neg same]
    exact found

theorem Fit.scrape (fit : s.Fit su) {health : Health} (free : health ≠ .ok → s.NoCandidate b) :
    (s.scrape b health s.clock).Fit su := by
  have failed : health ≠ .ok → ∀ s' : Server, s'.phase = s.phase → s'.next = s.next →
      s'.dispatches = s.dispatches → s'.registry = s.registry.setHealth b false →
      s'.breaker = s.breaker.recordFailure b s.clock → s'.clock = s.clock → s'.Fit su := by
    intro bad s' phase next dispatches registry breaker clock
    refine fit.steady phase next dispatches fun j b' member => ?_
    refine keeps_failure s ?_ s.clock s' registry breaker clock
    rintro rfl
    exact free bad j (fit.lt_next_of_pending member) member
  cases health with
  | ok =>
      refine fit.steady rfl rfl rfl fun j b' _ => ⟨?_, keeps_recordSuccess s b' b⟩
      rintro served ⟨be, found, serves⟩
      by_cases same : b' = b
      · refine ⟨{ be with healthy := true }, ?_, ?_⟩
        · rw [Server.scrape, BackendRegistry.get_setHealth, if_pos same, ← same, found]
          rfl
        · simp only [Backend.serves, Bool.and_eq_true] at serves ⊢
          exact ⟨⟨trivial, serves.1.2⟩, serves.2⟩
      · refine ⟨be, ?_, serves⟩
        rw [Server.scrape, BackendRegistry.get_setHealth, if_neg same]
        exact found
  | notOk => exact failed (by simp) _ rfl rfl rfl rfl rfl rfl
  | failed => exact failed (by simp) _ rfl rfl rfl rfl rfl rfl

/-! ### Runs -/

theorem init_fit (su : Setup) (registry : BackendRegistry String)
    (backendCacheBlocks circuitFailThreshold : Int) (circuitCooldown : ℚ)
    (sessions : SessionAffinity String) (predictor : Option (List ℚ → Option ℚ))
    (scheduler : Option (Int × Dict String ℚ × ℚ × ℚ)) :
    (init su registry backendCacheBlocks circuitFailThreshold circuitCooldown sessions predictor
      scheduler).Fit su where
  past := fun _ member => by cases member
  idle := fun _ _ => rfl
  tidy := fun _ => trivial
  serves := fun _ _ held => by cases held
  allowed := fun _ _ _ member => by cases member

/-- **One span.** An undisturbed span dispatches to eligible backends only, and keeps the
candidates of all suspended requests eligible. -/
theorem step_fit {span : Span} (fit : s.Fit su) (undisturbed : s.Undisturbed su span)
    (taken : s.step su span = some s') : s'.Fit su := by
  obtain ⟨now, act⟩ := span
  unfold step at taken
  split at taken
  · rename_i passed
    have fit' := fit.tick passed
    cases act with
    | arrive req semanticHit fault =>
        cases taken
        exact fit'.arrive semanticHit fault undisturbed
    | resume i fault => exact fit'.resume fault undisturbed taken
    | connected i code fault => exact fit'.connected taken
    | refused i fault => exact fit'.refused undisturbed taken
    | opened i b => exact fit'.opened undisturbed taken
    | won i b code fault => exact fit'.won undisturbed taken
    | lost i fault => exact fit'.lost taken
    | start i => exact fit'.start taken
    | chunk i events => exact fit'.chunk taken
    | stop i => exact fit'.stop taken
    | closed i fault => exact fit'.closed taken
    | cancel i => exact fit'.cancel taken
    | adminAdd b url model =>
        cases taken
        exact fit'.adminAdd b url model
    | adminRemove b =>
        cases taken
        exact fit'.adminRemove undisturbed
    | adminDrain b draining =>
        cases taken
        exact fit'.adminDrain undisturbed
    | scrape b health =>
        cases taken
        exact fit'.scrape undisturbed
  · cases taken

/-- **Dispatch under every interleaving.** In every run of undisturbed spans, with every
combination of modes, each dispatch goes to a backend that is registered, healthy, not
draining and serves the requested model at that moment, and whose circuit is not open,
unless the circuits of all eligible backends are. -/
theorem dispatches_eligible {registry : BackendRegistry String}
    {backendCacheBlocks circuitFailThreshold : Int} {circuitCooldown : ℚ}
    {sessions : SessionAffinity String} {predictor : Option (List ℚ → Option ℚ)}
    {scheduler : Option (Int × Dict String ℚ × ℚ × ℚ)} {spans : List Span}
    (undisturbed : Machine.Along (step su) (Undisturbed su)
      (init su registry backendCacheBlocks circuitFailThreshold circuitCooldown sessions predictor
        scheduler) spans)
    (reach : Machine.run (step su)
      (init su registry backendCacheBlocks circuitFailThreshold circuitCooldown sessions predictor
        scheduler) spans = some s) :
    ∀ d ∈ s.dispatches,
      (∃ be, d.registry.get d.backend = some be ∧ be.healthy = true ∧ be.draining = false ∧
        (su.servedModel d.req.model = none ∨ su.servedModel d.req.model = some be.model)) ∧
      (d.breaker.state d.backend d.now ≠ .open ∨
        ∀ b ∈ su.idsFor d.registry d.req.model, d.breaker.state b d.now = .open) := by
  have fit : s.Fit su := Machine.run_invariant_along
    (fun _ _ _ fit undisturbed taken => step_fit fit undisturbed taken)
    (init_fit su registry backendCacheBlocks circuitFailThreshold circuitCooldown sessions
      predictor scheduler) undisturbed reach
  intro d member
  obtain ⟨⟨be, found, serves⟩, circuit⟩ := fit.past d member
  refine ⟨⟨be, found, ?_⟩, ?_⟩
  · simpa [Backend.serves, Option.isNone_iff_eq_none, and_assoc] using serves
  · simpa [CircuitBreaker.allow] using circuit

/-- A parked request is streamed, and the backend is drained afterwards. -/
def drainedAfterwards : List Span :=
  [⟨0, .arrive plainRequest false none⟩, ⟨0, .connected 0 200 none⟩, ⟨0, .start 0⟩,
    ⟨0, .arrive plainRequest false none⟩, ⟨1, .stop 0⟩, ⟨1, .closed 0 none⟩, ⟨1, .resume 1 none⟩,
    ⟨1, .connected 1 200 none⟩, ⟨2, .adminDrain "b0" true⟩]

theorem dispatches_eligible_parked :
    ∃ s, Machine.run (step oneSlot) oneBackend drainedAfterwards = some s ∧
      s.dispatches.length = 2 ∧ ∀ d ∈ s.dispatches,
        ∃ be, d.registry.get d.backend = some be ∧ be.healthy = true ∧ be.draining = false := by
  obtain ⟨s, reach, both⟩ : ∃ s,
      Machine.run (step oneSlot) oneBackend drainedAfterwards = some s ∧ s.dispatches.length = 2 :=
    Machine.exists_run (by decide +kernel)
  have undisturbed : Machine.Along (step oneSlot) (Undisturbed oneSlot) oneBackend
      drainedAfterwards := by
    decide +kernel
  refine ⟨s, reach, both, fun d member => ?_⟩
  obtain ⟨⟨be, found, healthy, draining, _⟩, _⟩ := dispatches_eligible undisturbed reach d member
  exact ⟨be, found, healthy, draining⟩

/-- The backend is drained while the second request is parked. -/
def drainedWhileParked : List Span :=
  [⟨0, .arrive plainRequest false none⟩, ⟨0, .connected 0 200 none⟩, ⟨0, .start 0⟩,
    ⟨0, .arrive plainRequest false none⟩, ⟨1, .adminDrain "b0" true⟩, ⟨1, .stop 0⟩,
    ⟨1, .closed 0 none⟩, ⟨1, .resume 1 none⟩]

/-- The parked request is dispatched to the draining backend. -/
theorem dispatch_to_drained :
    ∃ s, Machine.run (step oneSlot) oneBackend drainedWhileParked = some s ∧
      ∃ d ∈ s.dispatches, d.backend = "b0" ∧
        (d.registry.get d.backend).map Backend.draining = some true :=
  Machine.exists_run (by decide +kernel)

end Server

end Gateway
