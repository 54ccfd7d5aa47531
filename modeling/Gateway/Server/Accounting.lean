import Gateway.FairSched.Tasks
import Gateway.Server.Routing

/-!
The counters of the chat handler under every interleaving.

A request in flight holds up to three things: a slot of its tenant (`limiter.inflight`),
a dispatch slot (`scheduler.active`) and a place on a backend (`load.inflight`). The
handler gives them back on its regular exits, but not when it is left in the middle:
by an exception of a helper, a cancellation, `registry.url` on a backend that was
removed meanwhile, or a response body that is never started. And `admin_remove_backend`
clears the count of a backend whatever is still in flight there.

`Clean` rules these out, and `counters_exact` is the result: in every run whose spans
are all clean, each counter is at all times the number of unfinished requests that
hold the resource. `counters_leak_after_removal` is a run that is not.

The scheduler's part is the gate of `Gateway.FairSched.Tasks`: `gate` is the view of the
server that forgets everything else, and the spans of the handler are actions of the
gate under that view.
-/

namespace Gateway

/-! ### What a request holds -/

namespace Phase

/-- The tenant whose quota an unfinished request counts against. -/
def tenant (p : Phase) : Option String := p.req?.map fun req => req.tenant.id

/-- The backend a request was dispatched to and is not done with. -/
def backend : Phase → Option String
  | .connecting _ _ r _ _ => some r.backendId
  | .returned _ r _ => some r.backendId
  | .streaming _ r _ _ => some r.backendId
  | .closing _ r _ _ => some r.backendId
  | _ => none

/-- The request as a caller of the scheduler. -/
def caller : Phase → Caller
  | .waiting _ _ _ mustCancel => .waiting mustCancel
  | .ended => .finished
  | _ => .holding

end Phase

/-- A request counts against a tenant's quota. -/
def Setup.HoldsQuota (su : Setup) (p : Phase) (t : String) : Prop :=
  su.cfg.rateLimitEnabled = true ∧ p.tenant = some t

instance (su : Setup) (p : Phase) (t : String) : Decidable (su.HoldsQuota p t) :=
  inferInstanceAs (Decidable (_ ∧ _))

/-- A stretch in which an exception ends a request that holds something. -/
def Setup.exposed (su : Setup) (wfq : Bool) : Stretch → Bool
  | .parse | .resolve | .throttled | .refusal | .logged => false
  | .select | .pin | .probe | .narrow | .settled => su.cfg.rateLimitEnabled
  | .granted | .routed | .failed => su.cfg.rateLimitEnabled || wfq
  | .dispatched | .connected => true

namespace Server

/-- A request with a dispatch slot: it runs, or was granted one and has not resumed. -/
def HoldsSlot (s : Server) (i : Nat) : Prop :=
  match s.phase i with
  | .ended => False
  | .waiting _ _ _ _ => s.fut i = .finished
  | _ => True

instance (s : Server) : DecidablePred s.HoldsSlot := fun i => by
  unfold HoldsSlot
  cases s.phase i <;> dsimp only <;> infer_instance

/-- `b` is registered. -/
def registered (s : Server) (b : String) : Bool := (s.registry.get b).isSome

/-- No unfinished request is on `b` or may still be dispatched to it. -/
def Unused (s : Server) (b : String) : Prop :=
  ∀ i < s.next, (s.phase i).backend ≠ some b ∧ b ∉ (s.phase i).pending

instance (s : Server) (b : String) : Decidable (s.Unused b) :=
  inferInstanceAs (Decidable (∀ i < s.next, _ ∧ _))

/-- No exception is raised where it would leave something behind. -/
def harmless (su : Setup) (s : Server) (fault : Option Stretch) : Bool :=
  fault.all fun stretch => !su.exposed s.scheduler.isSome stretch

/-- A request that routes holds something, so routing must not raise. -/
def MayRoute (su : Setup) (s : Server) (req : Request) : Prop :=
  (su.cfg.rateLimitEnabled || s.scheduler.isSome) = true →
    Router.Routes su.cfg req.prompt req.strategy

instance (su : Setup) (s : Server) (req : Request) : Decidable (s.MayRoute su req) :=
  inferInstanceAs (Decidable (_ → _))

/-- **The condition on a span.** -/
def Clean (su : Setup) (s : Server) (span : Span) : Prop :=
  match span.act with
  | .arrive req _ fault =>
      s.harmless su fault = true ∧ s.MayRoute su req ∧
        (su.cfg.rateLimitEnabled && su.splitRaises) = false ∧
        (s.disaggDecision su req (s.narrowed su req span.now)).all
          (fun decision => s.registered decision.prefillBackend) = true
  | .resume i fault =>
      match s.phase i with
      | .waiting req _ _ mustCancel =>
          s.harmless su fault = true ∧ s.MayRoute su req ∧
            (s.fut i = .cancelled ∨ mustCancel = true → su.cfg.rateLimitEnabled = false)
      | _ => True
  | .refused i fault =>
      match s.phase i with
      | .connecting req _ _ _ _ => s.harmless su fault = true ∧ s.MayRoute su req
      | _ => True
  | .connected _ _ fault | .won _ _ _ fault | .lost _ fault | .closed _ fault =>
      s.harmless su fault = true
  | .cancel i =>
      match s.phase i with
      | .racing _ _ _ _ => (su.cfg.rateLimitEnabled || s.scheduler.isSome) = false
      | .connecting _ _ _ _ _ | .returned _ _ _ | .closing _ _ _ _ => False
      | _ => True
  | .adminRemove b => s.registered b = true → s.Unused b
  | _ => True

instance (su : Setup) (s : Server) (span : Span) : Decidable (s.Clean su span) := by
  unfold Clean
  cases span.act <;> dsimp only <;> (try split) <;> infer_instance

/-! ### The invariant -/

/-- The server as the gate of its scheduler. -/
def gate (s : Server) (sched : AsyncFairScheduler String Nat) (grants : List Nat) : Gate String :=
  ⟨sched, s.fut, fun i => (s.phase i).caller, s.next, grants⟩

/-- The scheduler and its callers are in order. -/
def SlotsSound (s : Server) : Prop :=
  ∀ sched, s.scheduler = some sched → ∃ grants, (s.gate sched grants).Sound

/-- Every counter is the number of its holders. -/
structure Balanced (su : Setup) (s : Server) : Prop where
  load : ∀ b, s.load.inflightOf b = census (fun i => (s.phase i).backend = some b) s.next
  tenants : ∀ t, s.limiter.inflightOf t = census (fun i => su.HoldsQuota (s.phase i) t) s.next
  slots : s.SlotsSound
  idle : ∀ i, s.next ≤ i → s.phase i = .ended
  known : ∀ i, ∀ b ∈ (s.phase i).pending, s.registered b = true

variable {su : Setup} {s s' : Server} {i : Nat} {p : Phase} {req : Request}

theorem registered_congr (registry : s'.registry = s.registry) (b : String) :
    s'.registered b = s.registered b := by
  rw [registered, registered, registry]

theorem Balanced.lt_next (bal : s.Balanced su) (busy : s.phase i ≠ .ended) : i < s.next := by
  by_contra later
  exact busy (bal.idle i (Nat.le_of_not_lt later))

/-- One request changes: each counter follows what it holds. -/
theorem Balanced.change (bal : s.Balanced su) (bound : i < s.next)
    (phase : s'.phase = Function.update s.phase i p) (next : s'.next = s.next)
    (load : ∀ b, s'.load.inflightOf b + tally ((s.phase i).backend = some b) =
      s.load.inflightOf b + tally (p.backend = some b))
    (tenants : ∀ t, s'.limiter.inflightOf t + tally (su.HoldsQuota (s.phase i) t) =
      s.limiter.inflightOf t + tally (su.HoldsQuota p t))
    (slots : s'.SlotsSound) (registry : ∀ b, s.registered b = true → s'.registered b = true)
    (pending : ∀ b ∈ p.pending, s'.registered b = true) : s'.Balanced su := by
  have other : ∀ {j}, j ≠ i → s'.phase j = s.phase j := by
    intro j ne
    rw [phase, Function.update_of_ne ne]
  refine ⟨?_, ?_, slots, ?_, ?_⟩
  · intro b
    rw [next]
    exact census_follow (fun q : Phase => q.backend = some b) bound phase (bal.load b) (load b)
  · intro t
    rw [next]
    exact census_follow (fun q : Phase => su.HoldsQuota q t) bound phase (bal.tenants t) (tenants t)
  · intro j later
    rw [next] at later
    rw [other (by omega)]
    exact bal.idle j later
  · intro j b member
    by_cases same : j = i
    · rw [same, phase, Function.update_self] at member
      exact pending b member
    · rw [other same] at member
      exact registry b (bal.known j b member)

/-! ### The scheduler's part -/

theorem caller_update (s : Server) (i : Nat) (p : Phase) :
    (fun j => (Function.update s.phase i p j).caller) =
      Function.update (fun j => (s.phase j).caller) i p.caller := by
  funext j
  by_cases same : j = i
  · rw [same, Function.update_self, Function.update_self]
  · rw [Function.update_of_ne same, Function.update_of_ne same]

/-- The same scheduler and the same callers. -/
theorem SlotsSound.congr (slots : s.SlotsSound) (scheduler : s'.scheduler = s.scheduler)
    (fut : s'.fut = s.fut) (next : s'.next = s.next)
    (callers : ∀ j, (s'.phase j).caller = (s.phase j).caller) : s'.SlotsSound := by
  intro sched found
  obtain ⟨grants, sound⟩ := slots sched (scheduler ▸ found)
  refine ⟨grants, ?_⟩
  have same : s'.gate sched grants = s.gate sched grants := by
    unfold gate
    rw [fut, next]
    congr 1
    exact funext callers
  rw [same]
  exact sound

/-- A request changes and stays the caller it was. -/
theorem SlotsSound.stay (slots : s.SlotsSound) (scheduler : s'.scheduler = s.scheduler)
    (fut : s'.fut = s.fut) (next : s'.next = s.next)
    (phase : s'.phase = Function.update s.phase i p) (caller : p.caller = (s.phase i).caller) :
    s'.SlotsSound := by
  refine slots.congr scheduler fut next fun j => ?_
  rw [phase]
  by_cases same : j = i
  · rw [same, Function.update_self, caller]
  · rw [Function.update_of_ne same]

theorem hasSlot_gate {sched : AsyncFairScheduler String Nat} {grants : List Nat} :
    (s.gate sched grants).HasSlot i ↔ s.HoldsSlot i := by
  unfold Gate.HasSlot HoldsSlot gate
  dsimp only
  cases s.phase i with
  | waiting req remaining allOpen mustCancel => cases mustCancel <;> simp [Phase.caller]
  | _ => simp [Phase.caller]

/-- A request with a slot hands it on and ends. -/
theorem SlotsSound.releaseSlot (slots : s.SlotsSound) (slot : s.HoldsSlot i)
    (scheduler : s'.scheduler = s.releaseSlot.scheduler) (fut : s'.fut = s.releaseSlot.fut)
    (next : s'.next = s.next) (phase : s'.phase = Function.update s.phase i .ended) :
    s'.SlotsSound := by
  intro sched' found
  simp only [Server.releaseSlot, releaseOn] at scheduler fut
  cases before : s.scheduler with
  | none =>
      rw [before] at scheduler
      rw [scheduler] at found
      cases found
  | some sched =>
      obtain ⟨grants, sound⟩ := slots sched before
      rw [before] at scheduler fut
      rw [scheduler] at found
      cases found
      have handed := sound.handOver (hasSlot_gate.mpr slot)
      refine ⟨grants ++ (sched.releaseOne s.fut).2.2.toList, ?_⟩
      have same : s'.gate (sched.releaseOne s.fut).1
          (grants ++ (sched.releaseOne s.fut).2.2.toList) = (s.gate sched grants).handOver i := by
        unfold gate Gate.handOver
        rw [fut, next, phase, caller_update]
        rfl
      rw [same]
      exact handed

/-- The next request asks for a slot. -/
theorem SlotsSound.acquireSlot (slots : s.SlotsSound) (allOpen : Bool) (remaining : List String) :
    (s.acquireSlot req allOpen remaining).1.SlotsSound := by
  intro sched' found
  simp only [Server.acquireSlot, acquireOn] at found
  cases before : s.scheduler with
  | none =>
      rw [before] at found
      cases found
  | some sched =>
      obtain ⟨grants, sound⟩ := slots sched before
      rw [before] at found
      cases found
      refine ⟨grants, Gate.step_sound (a := .acquire req.tenant.tier) sound ?_⟩
      simp only [Gate.step, gate, Server.acquireSlot, acquireOn, before, caller_update]
      split <;> simp [Phase.caller, *]

/-- A step of the gate is a step of the server's view of it. -/
theorem SlotsSound.gate_step (slots : s.SlotsSound) (action : Gate.Action String)
    (scheduler : s'.scheduler = s.scheduler)
    (taken : ∀ sched grants, (s.gate sched grants).step action = some (s'.gate sched grants)) :
    s'.SlotsSound := by
  intro sched found
  obtain ⟨grants, sound⟩ := slots sched (scheduler ▸ found)
  exact ⟨grants, Gate.step_sound sound (taken sched grants)⟩

/-! ### Quota -/

/-- What an admitted request adds to the in-flight count of a tenant. -/
def quota (su : Setup) (req : Request) (t : String) : Nat :=
  tally (su.cfg.rateLimitEnabled = true ∧ some req.tenant.id = some t)

theorem quota_off (off : su.cfg.rateLimitEnabled = false) (t : String) : quota su req t = 0 := by
  simp [quota, tally, off]

/-- An unfinished request holds exactly its quota. -/
theorem tally_holdsQuota (req : Request) (t : String) (held : p.req? = some req) :
    tally (su.HoldsQuota p t) = quota su req t := by
  simp only [Setup.HoldsQuota, Phase.tenant, held, Option.map_some, quota]

theorem not_holdsQuota_ended (t : String) : ¬ su.HoldsQuota .ended t := by
  rintro ⟨_, held⟩
  cases held

theorem inflightOf_admission (su : Setup) (s : Server) (req : Request) (now : ℚ) (t : String) :
    (s.admission su req now).1.inflightOf t =
      s.limiter.inflightOf t + if (s.admission su req now).2 = true then quota su req t else 0 := by
  unfold admission quota
  by_cases limited : su.cfg.rateLimitEnabled = true
  · simp only [limited, if_true, RateLimiter.inflightOf_tryAdmit, tally, true_and,
      Option.some.injEq, eq_comm (a := t)]
    by_cases same : req.tenant.id = t
    · simp only [same, true_and, if_true]
      split <;> rfl
    · simp only [same, false_and, if_false, ite_self, Nat.add_zero]
  · simp [limited, tally]

theorem inflightOf_release (s : Server) (req : Request) (actualOutput : Nat) (t : String) :
    (s.release su req actualOutput).limiter.inflightOf t =
      s.limiter.inflightOf t - quota su req t := by
  unfold release quota
  by_cases limited : su.cfg.rateLimitEnabled = true
  · simp only [limited, if_true, RateLimiter.inflightOf_release, tally, true_and,
      Option.some.injEq, eq_comm (a := t)]
    split <;> rfl
  · simp [limited, tally]

/-- The count of a tenant covers every request that holds its quota. -/
theorem Balanced.quota_le (bal : s.Balanced su) (held : (s.phase i).req? = some req) (t : String) :
    quota su req t ≤ s.limiter.inflightOf t := by
  have bound : i < s.next := bal.lt_next fun ended => by
    rw [ended] at held
    cases held
  rw [bal.tenants t, ← tally_holdsQuota req t held]
  exact tally_le_census (p := fun j => su.HoldsQuota (s.phase j) t) bound

/-! ### Arrival -/

/-- What routing does to the quota: an admitted request holds it, and a request that
ended holds nothing. -/
def Counted (su : Setup) (s s' : Server) (req : Request) (outcome : Except Reply (List String)) :
    Prop :=
  ∀ t, s'.limiter.inflightOf t =
    s.limiter.inflightOf t + if outcome.isOk = true then quota su req t else 0

theorem harmless_of {fault : Option Stretch} {stretch : Stretch}
    (harmless : s.harmless su fault = true) (here : fault = some stretch) :
    su.exposed s.scheduler.isSome stretch = false := by
  rw [here, Server.harmless] at harmless
  simpa using harmless

/-- The quota is given back. -/
theorem counted_release (actualOutput : Nat)
    (taken : ∀ t, s'.limiter.inflightOf t = s.limiter.inflightOf t + quota su req t)
    (reply : Reply) : Counted su s (s'.release su req actualOutput) req (.error reply) := by
  intro t
  rw [inflightOf_release, taken]
  simp [Except.isOk, Except.toBool]

/-- Nothing was taken. -/
theorem counted_raised (off : su.cfg.rateLimitEnabled = false)
    (taken : ∀ t, s'.limiter.inflightOf t = s.limiter.inflightOf t + quota su req t)
    (reply : Reply) : Counted su s s' req (.error reply) := by
  intro t
  rw [taken, quota_off off]
  simp

theorem probe_isSome {remaining : List String} (routes : Router.Routes su.cfg req.prompt req.strategy)
    (some_left : remaining ≠ []) : (s.probe su req remaining).isSome = true := by
  unfold probe
  split
  · rw [Option.isSome_map]
    exact Router.choose_isSome routes some_left
  · rfl

theorem counted_place {base : Server} {fault : Option Stretch} {remaining : List String}
    (harmless : s.harmless su fault = true) (routes : s.MayRoute su req)
    (splits : (su.cfg.rateLimitEnabled && su.splitRaises) = false) (some_left : remaining ≠ [])
    (taken : ∀ t, s.limiter.inflightOf t = base.limiter.inflightOf t + quota su req t) :
    Counted su base (s.place su req remaining fault).1 req (s.place su req remaining fault).2 := by
  unfold place
  split
  · rename_i stuck
    -- routing raises only when nothing is held
    refine counted_raised ?_ taken _
    by_contra limited
    have := probe_isSome (s := s) (routes (by simp [limited])) some_left
    rw [stuck] at this
    cases this
  · dsimp only
    split
    · rename_i here
      exact counted_raised (harmless_of harmless here) taken _
    split
    · refine counted_release 0 ?_ _
      exact taken
    split
    · rename_i stuck
      refine counted_raised ?_ taken _
      rcases stuck with here | unhashed
      · exact harmless_of harmless here
      · rwa [unhashed, Bool.and_true] at splits
    split
    · refine counted_release 0 ?_ _
      exact taken
    · exact fun t => taken t

theorem counted_select {base : Server} {fault : Option Stretch} {semanticHit : Bool} {now : ℚ}
    (harmless : s.harmless su fault = true) (routes : s.MayRoute su req)
    (splits : (su.cfg.rateLimitEnabled && su.splitRaises) = false)
    (taken : ∀ t, s.limiter.inflightOf t = base.limiter.inflightOf t + quota su req t) :
    Counted su base (s.select su req semanticHit now fault).1 req
      (s.select su req semanticHit now fault).2 := by
  unfold select
  split
  · rename_i here
    exact counted_raised (harmless_of harmless here) taken _
  split
  · exact counted_release 0 taken _
  split
  · exact counted_release 0 taken _
  dsimp only
  split
  · rename_i here
    exact counted_raised (harmless_of harmless here) taken _
  · rename_i eligible _ _
    refine counted_place harmless routes splits ?_ taken
    exact narrowed_ne_nil (s := s) (by simpa using eligible)

/-- A routed request holds its quota, and a request that ended before holds none. -/
theorem counted_route {fault : Option Stretch} {semanticHit : Bool} {now : ℚ}
    (harmless : s.harmless su fault = true) (routes : s.MayRoute su req)
    (splits : (su.cfg.rateLimitEnabled && su.splitRaises) = false) :
    Counted su s (s.route su req semanticHit now fault).1 req
      (s.route su req semanticHit now fault).2 := by
  have untouched : ∀ reply, Counted su s s req (.error reply) := fun reply t => rfl
  have admission := inflightOf_admission su s req now
  unfold route
  split
  · exact untouched _
  split
  · exact untouched _
  split
  · exact untouched _
  dsimp only
  split
  · rename_i allowed
    refine counted_select harmless routes splits fun t => ?_
    rw [admission t, if_pos allowed]
  · rename_i throttled
    intro t
    rw [admission t, if_neg throttled]
    rfl

/-- A request is numbered: the counters already count it. -/
theorem Balanced.enrol (bal : s.Balanced su) (req : Request)
    (phase : s'.phase = Function.update s.phase s.next p) (next : s'.next = s.next + 1)
    (held : p.req? = some req) (bare : p.backend = none) (load : s'.load = s.load)
    (tenants : ∀ t, s'.limiter.inflightOf t = s.limiter.inflightOf t + quota su req t)
    (slots : s'.SlotsSound) (registry : s'.registry = s.registry)
    (pending : ∀ b ∈ p.pending, s.registered b = true) : s'.Balanced su := by
  have here : s'.phase s.next = p := by rw [phase, Function.update_self]
  have other : ∀ {j}, j ≠ s.next → s'.phase j = s.phase j := by
    intro j ne
    rw [phase, Function.update_of_ne ne]
  have same_registered := registered_congr registry
  refine ⟨?_, ?_, slots, ?_, ?_⟩
  · intro b
    have count := census_state_arrive (fun q : Phase => q.backend = some b)
      fun j below => other (j := j) (Nat.ne_of_lt below)
    rw [here, bare, tally_of_not (by simp)] at count
    rw [next, count, load, bal.load b]
    rfl
  · intro t
    have count := census_state_arrive (fun q : Phase => su.HoldsQuota q t)
      fun j below => other (j := j) (Nat.ne_of_lt below)
    rw [here, tally_holdsQuota req t held] at count
    rw [next, count, tenants t, bal.tenants t]
  · intro j later
    rw [other (by omega)]
    exact bal.idle j (by omega)
  · intro j b member
    rw [same_registered]
    by_cases same : j = s.next
    · rw [same, here] at member
      exact pending b member
    · rw [other same] at member
      exact bal.known j b member

/-! ### Endings -/

/-- A request that holds nothing may be left in the middle. -/
theorem Balanced.abandon (bal : s.Balanced su) (bound : i < s.next)
    (bare : (s.phase i).backend = none)
    (nothing : (su.cfg.rateLimitEnabled || s.scheduler.isSome) = false) (reply : Reply) :
    (s.finish i req reply).Balanced su := by
  rw [Bool.or_eq_false_iff] at nothing
  obtain ⟨off, no_scheduler⟩ := nothing
  have no_quota : ∀ q t, tally (su.HoldsQuota q t) = 0 := fun q t =>
    tally_of_not fun holds => by
      rw [Setup.HoldsQuota, off] at holds
      cases holds.1
  refine bal.change bound rfl rfl (fun b => ?_) (fun t => ?_) ?_ (fun _ known => known)
    (fun _ member => by cases member)
  · rw [bare]
    rfl
  · rw [no_quota, no_quota]
    rfl
  · intro sched found
    have : s.scheduler = some sched := found
    rw [this] at no_scheduler
    cases no_scheduler

/-- A request that is on no backend gives everything back and ends. -/
theorem Balanced.unreachable (bal : s.Balanced su) (held : (s.phase i).req? = some req)
    (bare : (s.phase i).backend = none) (slot : s.HoldsSlot i) (fault : Option Stretch) :
    (s.unreachable su i req fault).Balanced su := by
  have bound : i < s.next := bal.lt_next fun ended => by
    rw [ended] at held
    cases held
  refine bal.change bound rfl rfl (fun b => ?_) (fun t => ?_) ?_ (fun _ known => known)
    (fun _ member => by cases member)
  · rw [bare]
    rfl
  · have covered := bal.quota_le held t
    have back : (s.unreachable su i req fault).limiter.inflightOf t =
        s.limiter.inflightOf t - quota su req t := inflightOf_release s req 0 t
    rw [back, tally_holdsQuota req t held, tally_of_not (not_holdsQuota_ended t)]
    omega
  · exact bal.slots.releaseSlot slot rfl rfl rfl rfl

/-! ### Dispatch -/

/-- A running request goes on to a backend. -/
theorem Balanced.connect (bal : s.Balanced su) (req : Request) (bound : i < s.next)
    (held : (s.phase i).req? = some req) (bare : (s.phase i).backend = none)
    (holding : (s.phase i).caller = .holding) {r : RouteResult}
    (held' : p.req? = some req) (on : p.backend = some r.backendId) (holding' : p.caller = .holding)
    (phase : s'.phase = Function.update s.phase i p) (next : s'.next = s.next)
    (load : s'.load = s.load.onDispatch r.backendId r.tokens) (limiter : s'.limiter = s.limiter)
    (scheduler : s'.scheduler = s.scheduler) (fut : s'.fut = s.fut)
    (registry : s'.registry = s.registry) (pending : ∀ b ∈ p.pending, s.registered b = true) :
    s'.Balanced su := by
  have same_registered := registered_congr registry
  refine bal.change bound phase next (fun b => ?_) (fun t => ?_)
    (bal.slots.stay scheduler fut next phase (holding'.trans holding.symm))
    (fun b known => (same_registered b).trans known)
    (fun b member => (same_registered b).trans (pending b member))
  · rw [load, bare, on, LoadTracker.inflightOf_onDispatch, tally_of_not (by simp)]
    by_cases here : b = r.backendId
    · rw [if_pos here, here, tally_of rfl]
    · rw [if_neg here, tally_of_not (by simpa using Ne.symm here)]
  · rw [limiter, tally_holdsQuota req t held, tally_holdsQuota req t held']

/-- A request moves on and holds what it held. -/
theorem Balanced.advance (bal : s.Balanced su) (bound : i < s.next)
    (req? : p.req? = (s.phase i).req?) (backend : p.backend = (s.phase i).backend)
    (caller : p.caller = (s.phase i).caller) (phase : s'.phase = Function.update s.phase i p)
    (next : s'.next = s.next) (load : s'.load = s.load) (limiter : s'.limiter = s.limiter)
    (scheduler : s'.scheduler = s.scheduler) (fut : s'.fut = s.fut)
    (registry : s'.registry = s.registry) (pending : ∀ b ∈ p.pending, s.registered b = true) :
    s'.Balanced su := by
  have same_registered := registered_congr registry
  refine bal.change bound phase next (fun b => ?_) (fun t => ?_)
    (bal.slots.stay scheduler fut next phase caller)
    (fun b known => (same_registered b).trans known)
    (fun b member => (same_registered b).trans (pending b member))
  · rw [load, backend]
  · have same : su.HoldsQuota (s.phase i) t ↔ su.HoldsQuota p t := by
      simp only [Setup.HoldsQuota, Phase.tenant, req?]
    rw [limiter, tally_congr same]

theorem url_isNone (s : Server) (b : String) :
    (s.registry.url b).isNone = !s.registered b := by
  unfold BackendRegistry.url registered BackendRegistry.get
  cases s.registry.byId.get? b <;> rfl

theorem acquireOn_isSome (scheduler : Option (AsyncFairScheduler String Nat)) (fut : Nat → Future)
    (i : Nat) (tier : String) :
    (acquireOn scheduler fut i tier).1.isSome = scheduler.isSome := by
  cases scheduler <;> rfl

theorem harmless_congr (su : Setup) (fault : Option Stretch)
    (same : s'.scheduler.isSome = s.scheduler.isSome) :
    s'.harmless su fault = s.harmless su fault := by
  rw [harmless, harmless, same]

/-- Request `i` runs in the current span. -/
structure Running (s : Server) (i : Nat) (req : Request) : Prop where
  phase : s.phase i = .running req
  bound : i < s.next

theorem Running.slot (running : s.Running i req) : s.HoldsSlot i := by
  unfold HoldsSlot
  rw [running.phase]
  trivial

theorem Balanced.attempt (bal : s.Balanced su) (running : s.Running i req) {allOpen : Bool}
    {remaining : List String} {left : Nat} {now : ℚ} {fault : Option Stretch}
    (harmless : s.harmless su fault = true) (routes : s.MayRoute su req)
    (known : ∀ b ∈ remaining, s.registered b = true) :
    (s.attempt su i req allOpen remaining left now fault).Balanced su := by
  have held : (s.phase i).req? = some req := by rw [running.phase]; rfl
  have bare : (s.phase i).backend = none := by rw [running.phase]; rfl
  unfold Server.attempt
  split
  · exact bal.unreachable held bare running.slot fault
  split
  · exact bal.unreachable held bare running.slot fault
  rename_i some_left
  split
  · rename_i stuck
    -- routing raises only when nothing is held
    refine bal.abandon running.bound bare ?_ .raised
    rw [← Bool.not_eq_true]
    intro something
    have found : (s.router.choose su.cfg s.tree s.load req.prompt remaining req.strategy
        (su.seed req)).isSome = true :=
      Router.choose_isSome (routes something) (by simpa using some_left)
    rw [stuck] at found
    cases found
  · rename_i r router chosen
    have moved : ({ s with router := router } : Server).Balanced su :=
      ⟨bal.load, bal.tenants, bal.slots, bal.idle, bal.known⟩
    dsimp only
    split
    · rename_i here
      exact moved.abandon running.bound bare (harmless_of harmless here) .raised
    split
    · rename_i stuck
      rw [Bool.or_eq_true, decide_eq_true_eq] at stuck
      rcases stuck with gone | here
      · have := known r.backendId (Router.choose_mem chosen)
        rw [url_isNone] at gone
        simp [registered, dispatchTo, record] at gone this
        rw [gone] at this
        cases this
      · exact absurd (harmless_of harmless here) (by simp [Setup.exposed])
    · refine bal.connect req running.bound held bare (by rw [running.phase]; rfl) (r := r)
        (p := .connecting req allOpen r remaining _) rfl rfl rfl rfl rfl rfl rfl rfl rfl rfl ?_
      intro b member
      simp only [Phase.pending] at member
      split at member
      · cases member
      · exact known b (List.mem_of_mem_erase member)

theorem Balanced.dispatch (bal : s.Balanced su) (running : s.Running i req) {allOpen : Bool}
    {remaining : List String} {now : ℚ} {fault : Option Stretch}
    (harmless : s.harmless su fault = true) (routes : s.MayRoute su req)
    (known : ∀ b ∈ remaining, s.registered b = true) :
    (s.dispatch su i req allOpen remaining now fault).Balanced su := by
  have bare : (s.phase i).backend = none := by rw [running.phase]; rfl
  unfold Server.dispatch
  split
  · rename_i here
    exact bal.abandon running.bound bare (harmless_of harmless here) .raised
  split
  · split
    · rename_i _ stuck
      -- hashing raises only when nothing is held
      refine bal.abandon running.bound bare ?_ .raised
      rw [← Bool.not_eq_true]
      intro something
      have found : (s.router.topKBackends su.cfg s.tree s.load req.prompt remaining
          su.cfg.speculativeK (su.seed req)).isSome = true :=
        Router.topKBackends_isSome (routes something).1
      rw [stuck] at found
      cases found
    rename_i _ topk found
    have ranked : ∀ b ∈ topk.backendIds, s.registered b = true := fun b member =>
      known b (Router.topKBackends_subset found member)
    split
    · rename_i gone
      obtain ⟨b, member, missing⟩ := List.any_eq_true.mp gone
      rw [url_isNone, ranked b member] at missing
      cases missing
    · refine bal.advance running.bound ?_ ?_ ?_ rfl rfl rfl rfl rfl rfl rfl ranked
      all_goals rw [running.phase]; rfl
  · exact bal.attempt running harmless routes known

/-! ### Spans of a request -/

theorem registered_of_mem_idsFor {b : String} {model : Option String}
    (member : b ∈ su.idsFor s.registry model) : s.registered b = true := by
  obtain ⟨be, found, _⟩ := idsFor_serves member
  rw [registered, found]
  rfl

theorem Balanced.arrive (bal : s.Balanced su) {semanticHit : Bool} {now : ℚ}
    {fault : Option Stretch} (harmless : s.harmless su fault = true)
    (routes : s.MayRoute su req)
    (splits : (su.cfg.rateLimitEnabled && su.splitRaises) = false)
    (picked : (s.disaggDecision su req (s.narrowed su req now)).all
      (fun decision => s.registered decision.prefillBackend) = true) :
    (s.arrive su req semanticHit now fault).Balanced su := by
  have known : ∀ remaining, (s.route su req semanticHit now fault).2 = .ok remaining →
      ∀ b ∈ remaining, s.registered b = true := by
    intro remaining routed b member
    rcases route_mem routed member with selected | ⟨decision, chosen, rfl⟩
    · exact registered_of_mem_idsFor (selected_subset selected)
    · rw [chosen] at picked
      simpa using picked
  have counted : Counted su s (s.route su req semanticHit now fault).1 req
      (s.route su req semanticHit now fault).2 := counted_route harmless routes splits
  obtain ⟨limiter, sessions, router, frame⟩ := route_frame su s req semanticHit now fault
  unfold Server.arrive
  generalize s.route su req semanticHit now fault = result at *
  obtain ⟨routed, outcome⟩ := result
  dsimp only at frame known counted ⊢
  subst frame
  cases outcome with
  | error reply =>
      refine ⟨bal.load, fun t => ?_, bal.slots, bal.idle, bal.known⟩
      exact (counted t).trans (bal.tenants t)
  | ok remaining =>
      have left := known remaining rfl
      have numbered : ((({ s with limiter := limiter, sessions := sessions, router := router } :
          Server).acquireSlot req (s.allOpen su req now) remaining).1).Balanced su := by
        refine bal.enrol req rfl rfl ?_ ?_ rfl counted ?_ rfl ?_
        · split <;> rfl
        · split <;> rfl
        · exact SlotsSound.acquireSlot bal.slots _ _
        · intro b member
          split at member
          · cases member
          · exact left b member
      dsimp only
      split
      · rename_i free
        refine numbered.dispatch ⟨?_, Nat.lt_succ_self _⟩ ?_ ?_ left
        · rw [acquireSlot] at free ⊢
          dsimp only at free ⊢
          rw [Function.update_self, free]
          rfl
        · exact (harmless_congr su fault (acquireOn_isSome ..)).trans harmless
        · exact fun something => routes (by rwa [acquireSlot, acquireOn_isSome] at something)
      · exact numbered

/-- A parked request ends. Its quota is not given back, so there must be none. -/
theorem Balanced.withdraw (bal : s.Balanced su) {remaining : List String}
    {allOpen mustCancel : Bool} (parked : s.phase i = .waiting req remaining allOpen mustCancel)
    (off : su.cfg.rateLimitEnabled = false) (phase : s'.phase = Function.update s.phase i .ended)
    (next : s'.next = s.next) (load : s'.load = s.load) (limiter : s'.limiter = s.limiter)
    (registry : s'.registry = s.registry) (slots : s'.SlotsSound) : s'.Balanced su := by
  have bound : i < s.next := bal.lt_next (by simp [parked])
  refine bal.change bound phase next (fun b => ?_) (fun t => ?_) slots
    (fun b known => (registered_congr registry b).trans known) (fun _ member => by cases member)
  · rw [load, parked]
    rfl
  · rw [limiter, parked, tally_holdsQuota req t rfl, quota_off off,
      tally_of_not (not_holdsQuota_ended t)]

theorem Balanced.resume (bal : s.Balanced su) {now : ℚ} {fault : Option Stretch}
    (clean : s.Clean su ⟨now, .resume i fault⟩) (taken : s.resume su i now fault = some s') :
    s'.Balanced su := by
  unfold Server.resume at taken
  split at taken
  · rename_i req remaining allOpen mustCancel phase gone
    cases taken
    simp only [Clean, phase] at clean
    have off := clean.2.2 (.inl gone)
    refine bal.withdraw phase off rfl rfl rfl rfl rfl ?_
    refine bal.slots.gate_step (.resume i) rfl fun sched grants => ?_
    have caller : (s.phase i).caller = .waiting mustCancel := by rw [phase]; rfl
    simp only [Gate.step, gate, Server.finish, caller_update, caller, gone]
    rfl
  · rename_i req remaining allOpen phase granted
    cases taken
    simp only [Clean, phase] at clean
    have off := clean.2.2 (.inr trivial)
    have slot : s.HoldsSlot i := by
      unfold HoldsSlot
      rw [phase]
      exact granted
    exact bal.withdraw phase off rfl rfl rfl rfl rfl (bal.slots.releaseSlot slot rfl rfl rfl rfl)
  · rename_i req remaining allOpen phase granted
    cases taken
    simp only [Clean, phase] at clean
    obtain ⟨harmless, routes, _⟩ := clean
    have bound : i < s.next := bal.lt_next (by simp [phase])
    have running : (s.setPhase i (.running req)).Balanced su := by
      refine bal.change bound rfl rfl (fun b => ?_) (fun t => ?_) ?_ (fun _ known => known)
        (fun _ member => by cases member)
      · rw [phase]
        rfl
      · rw [phase, tally_holdsQuota req t rfl, tally_holdsQuota req t rfl]
        rfl
      · refine bal.slots.gate_step (.resume i) rfl fun sched grants => ?_
        have caller : (s.phase i).caller = .waiting false := by rw [phase]; rfl
        simp only [Gate.step, gate, Server.setPhase, caller_update, caller, granted]
        rfl
    refine running.dispatch ⟨Function.update_self .., bound⟩ harmless routes ?_
    intro b member
    exact bal.known i b (by rw [phase]; exact member)
  · cases taken

/-- The response is on its way. -/
theorem Balanced.connected (bal : s.Balanced su) {code : Nat} {fault : Option Stretch}
    (harmless : s.harmless su fault = true) (taken : s.connected i code fault = some s') :
    s'.Balanced su := by
  unfold Server.connected at taken
  split at taken
  · rename_i req allOpen r remaining left phase
    cases taken
    unfold respond
    dsimp only
    split
    · rename_i here
      exact absurd (harmless_of harmless here) (by simp [Setup.exposed])
    · have bound : i < s.next := bal.lt_next (by simp [phase])
      refine bal.advance bound (p := .returned req r code) ?_ ?_ ?_ rfl rfl rfl rfl rfl rfl rfl
        (fun _ member => by cases member)
      all_goals rw [phase]; rfl
  · cases taken

theorem registered_setHealth (s : Server) (b b' : String) (healthy : Bool) :
    ((s.registry.setHealth b healthy).get b').isSome = s.registered b' := by
  rw [BackendRegistry.get_setHealth, registered]
  split
  · rename_i same
    rw [same, Option.isSome_map]
  · rfl

/-- The place on the backend is given back. -/
theorem Balanced.load_onComplete (bal : s.Balanced su) {r : RouteResult}
    (on : (s.phase i).backend = some r.backendId) (bare : p.backend = none) (b : String) :
    (s.load.onComplete r.backendId r.tokens).inflightOf b +
        tally ((s.phase i).backend = some b) =
      s.load.inflightOf b + tally (p.backend = some b) := by
  have bound : i < s.next := bal.lt_next fun ended => by
    rw [ended] at on
    cases on
  have covered := tally_le_census (p := fun j => (s.phase j).backend = some b) bound
  rw [← bal.load b] at covered
  rw [bare, tally_of_not (a := none = some b) (by simp), LoadTracker.inflightOf_onComplete]
  by_cases here : b = r.backendId
  · have holds : (s.phase i).backend = some b := by rw [on, here]
    rw [tally_of holds] at covered ⊢
    rw [if_pos here, ← here]
    omega
  · have holds : ¬ (s.phase i).backend = some b := by
      rw [on]
      simpa using Ne.symm here
    rw [tally_of_not holds, if_neg here]

theorem Balanced.refused (bal : s.Balanced su) {now : ℚ} {fault : Option Stretch}
    (clean : s.Clean su ⟨now, .refused i fault⟩) (taken : s.refused su i now fault = some s') :
    s'.Balanced su := by
  unfold Server.refused at taken
  split at taken
  · rename_i req allOpen r remaining left phase
    cases taken
    simp only [Clean, phase] at clean
    obtain ⟨harmless, routes⟩ := clean
    have bound : i < s.next := bal.lt_next (by simp [phase])
    have running : (s.markFailed i req r now).Balanced su := by
      refine bal.change bound rfl rfl (bal.load_onComplete (by rw [phase]; rfl) rfl) (fun t => ?_)
        ?_ (fun b known => (registered_setHealth ..).trans known) (fun _ member => by cases member)
      · rw [phase, tally_holdsQuota req t rfl, tally_holdsQuota req t rfl]
        rfl
      · refine bal.slots.stay rfl rfl rfl (p := .running req) rfl ?_
        rw [phase]
        rfl
    split
    · rename_i here
      refine running.abandon bound ?_ (harmless_of harmless here) .raised
      simp [markFailed, setPhase, Phase.backend]
    · cases left with
      | zero =>
          refine running.unreachable ?_ ?_ ?_ fault
          · simp [markFailed, setPhase, Phase.req?]
          · simp [markFailed, setPhase, Phase.backend]
          · simp [HoldsSlot, markFailed, setPhase]
      | succ left =>
          refine running.attempt ⟨Function.update_self .., bound⟩ harmless routes ?_
          intro b member
          refine (registered_setHealth ..).trans (bal.known i b ?_)
          rw [phase]
          exact member
  · cases taken

theorem Balanced.won (bal : s.Balanced su) {b : String} {code : Nat} {now : ℚ}
    {fault : Option Stretch} (harmless : s.harmless su fault = true)
    (taken : s.won i b code now fault = some s') : s'.Balanced su := by
  unfold Server.won at taken
  split at taken
  · rename_i req allOpen topk unopened phase
    split at taken
    · cases taken
      split
      · rename_i here
        exact absurd (harmless_of harmless here) (by simp [Setup.exposed])
      · unfold respond
        dsimp only
        split
        · rename_i here
          exact absurd (harmless_of harmless here) (by simp [Setup.exposed])
        · have bound : i < s.next := bal.lt_next (by simp [phase])
          refine bal.connect req bound ?_ ?_ ?_ rfl rfl rfl rfl rfl rfl rfl rfl rfl rfl
            (fun _ member => by cases member)
          all_goals rw [phase]; rfl
    · cases taken
  · cases taken

theorem Balanced.lost (bal : s.Balanced su) {fault : Option Stretch}
    (taken : s.lost su i fault = some s') : s'.Balanced su := by
  unfold Server.lost at taken
  split at taken
  · rename_i req allOpen topk phase
    cases taken
    refine bal.unreachable ?_ ?_ ?_ fault
    · rw [phase]
      rfl
    · rw [phase]
      rfl
    · unfold HoldsSlot
      rw [phase]
      trivial
  · cases taken

theorem Balanced.opened (bal : s.Balanced su) {b : String} {now : ℚ}
    (taken : s.opened i b now = some s') : s'.Balanced su := by
  unfold Server.opened at taken
  split at taken
  · rename_i req allOpen topk unopened phase
    split at taken
    · cases taken
      have bound : i < s.next := bal.lt_next (by simp [phase])
      refine bal.advance bound (p := .racing req allOpen topk (unopened.erase b)) ?_ ?_ ?_ rfl rfl
        rfl rfl rfl rfl rfl (fun b' member => bal.known i b' ?_)
      · rw [phase]
        rfl
      · rw [phase]
        rfl
      · rw [phase]
        rfl
      · rw [phase]
        exact member
    · cases taken
  · cases taken

/-- The body moves on. -/
theorem Balanced.stream (bal : s.Balanced su) (busy : s.phase i ≠ .ended)
    (req? : p.req? = (s.phase i).req?) (backend : p.backend = (s.phase i).backend)
    (caller : p.caller = (s.phase i).caller) (none_pending : p.pending = []) :
    (s.setPhase i p).Balanced su :=
  bal.advance (bal.lt_next busy) req? backend caller rfl rfl rfl rfl rfl rfl rfl
    (fun b member => by rw [none_pending] at member; cases member)

theorem Balanced.start (bal : s.Balanced su) (taken : s.start i = some s') : s'.Balanced su := by
  unfold Server.start at taken
  split at taken
  · rename_i req r code phase
    cases taken
    refine bal.stream (by simp [phase]) ?_ ?_ ?_ rfl
    all_goals rw [phase]; rfl
  · cases taken

theorem Balanced.chunk (bal : s.Balanced su) {events : Nat} (taken : s.chunk i events = some s') :
    s'.Balanced su := by
  unfold Server.chunk at taken
  split at taken
  · rename_i req r code outEvents phase
    cases taken
    refine bal.stream (by simp [phase]) ?_ ?_ ?_ rfl
    all_goals rw [phase]; rfl
  · cases taken

theorem Balanced.stop (bal : s.Balanced su) (taken : s.stop i = some s') : s'.Balanced su := by
  unfold Server.stop at taken
  split at taken
  · rename_i req r code outEvents phase
    cases taken
    refine bal.stream (by simp [phase]) ?_ ?_ ?_ rfl
    all_goals rw [phase]; rfl
  · cases taken

theorem Balanced.closed (bal : s.Balanced su) {now : ℚ} {fault : Option Stretch}
    (harmless : s.harmless su fault = true) (taken : s.closed su i now fault = some s') :
    s'.Balanced su := by
  unfold Server.closed at taken
  split at taken
  · rename_i req r code outEvents phase
    cases taken
    have bound : i < s.next := bal.lt_next (by simp [phase])
    have held : (s.phase i).req? = some req := by rw [phase]; rfl
    have load := bal.load_onComplete (i := i) (p := .ended) (r := r) (by rw [phase]; rfl) rfl
    have slots : ∀ s' : Server, s'.scheduler = s.releaseSlot.scheduler → s'.fut = s.releaseSlot.fut →
        s'.next = s.next → s'.phase = Function.update s.phase i .ended → s'.SlotsSound := by
      refine fun s' => bal.slots.releaseSlot ?_
      unfold HoldsSlot
      rw [phase]
      trivial
    dsimp only
    split
    · rename_i here
      refine bal.change bound rfl rfl load (fun t => ?_) (slots _ rfl rfl rfl rfl)
        (fun _ known => known) (fun _ member => by cases member)
      rw [tally_holdsQuota req t held, quota_off (harmless_of harmless here),
        tally_of_not (not_holdsQuota_ended t)]
      rfl
    · have back : ∀ learnt : Server, learnt.limiter = s.limiter → ∀ t,
          (learnt.release su req (outEvents - 1)).limiter.inflightOf t +
            tally (su.HoldsQuota (s.phase i) t) =
          s.limiter.inflightOf t + tally (su.HoldsQuota .ended t) := by
        intro learnt same t
        have covered := bal.quota_le held t
        rw [inflightOf_release, same, tally_holdsQuota req t held,
          tally_of_not (not_holdsQuota_ended t)]
        omega
      split
      · exact bal.change bound rfl rfl load (back _ rfl) (slots _ rfl rfl rfl rfl)
          (fun _ known => known) (fun _ member => by cases member)
      · exact bal.change bound rfl rfl load (back _ rfl) (slots _ rfl rfl rfl rfl)
          (fun _ known => known) (fun _ member => by cases member)
  · cases taken

theorem Balanced.cancel (bal : s.Balanced su) (now : ℚ) (clean : s.Clean su ⟨now, .cancel i⟩)
    (taken : s.cancel i = some s') : s'.Balanced su := by
  unfold Server.cancel at taken
  split at taken
  · rename_i req remaining allOpen mustCancel phase
    have bound : i < s.next := bal.lt_next (by simp [phase])
    split at taken
    · rename_i pending
      cases taken
      refine ⟨bal.load, bal.tenants, ?_, bal.idle, bal.known⟩
      refine bal.slots.gate_step (.cancel i) rfl fun sched grants => ?_
      have caller : (s.phase i).caller = .waiting mustCancel := by rw [phase]; rfl
      simp only [Gate.step, gate, caller, pending, if_true]
    · rename_i done
      cases taken
      refine bal.change bound rfl rfl (fun b => ?_) (fun t => ?_) ?_ (fun _ known => known) ?_
      · rw [phase]
        rfl
      · rw [phase, tally_holdsQuota req t rfl, tally_holdsQuota req t rfl]
        rfl
      · refine bal.slots.gate_step (.cancel i) rfl fun sched grants => ?_
        have caller : (s.phase i).caller = .waiting mustCancel := by rw [phase]; rfl
        simp only [Gate.step, gate, Server.setPhase, caller_update, caller, done, if_false]
        rfl
      · intro b member
        refine bal.known i b ?_
        rw [phase]
        exact member
  · rename_i req allOpen topk unopened phase
    cases taken
    simp only [Clean, phase] at clean
    refine bal.abandon (bal.lt_next (by simp [phase])) ?_ clean .raised
    rw [phase]
    rfl
  · rename_i phase
    simp only [Clean, phase] at clean
  · rename_i phase
    simp only [Clean, phase] at clean
  · rename_i req r code outEvents phase
    cases taken
    refine bal.stream (by simp [phase]) ?_ ?_ ?_ rfl
    all_goals rw [phase]; rfl
  · rename_i phase
    simp only [Clean, phase] at clean
  · cases taken
  · cases taken

/-! ### Spans of the control plane -/

/-- Requests, counters and scheduler stay as they are. -/
theorem Balanced.steady (bal : s.Balanced su) (phase : s'.phase = s.phase) (next : s'.next = s.next)
    (load : ∀ b, s'.load.inflightOf b = s.load.inflightOf b) (limiter : s'.limiter = s.limiter)
    (scheduler : s'.scheduler = s.scheduler) (fut : s'.fut = s.fut)
    (known : ∀ j, ∀ b ∈ (s.phase j).pending, s'.registered b = true) : s'.Balanced su where
  load := fun b => by rw [load, phase, next, bal.load b]
  tenants := fun t => by rw [limiter, phase, next, bal.tenants t]
  slots := bal.slots.congr scheduler fut next fun j => by rw [phase]
  idle := fun j later => by rw [phase]; exact bal.idle j (next ▸ later)
  known := fun j b member => known j b (phase ▸ member)

theorem Balanced.adminAdd (bal : s.Balanced su) (b url : String) (model : Option String) :
    (s.adminAdd b url model).Balanced su := by
  unfold Server.adminAdd
  split
  · exact bal
  · refine bal.steady rfl rfl (fun _ => rfl) rfl rfl rfl fun j b' member => ?_
    have before := bal.known j b' member
    rw [registered] at before ⊢
    rw [BackendRegistry.get_add]
    split
    · rfl
    · exact before

theorem Balanced.adminRemove (bal : s.Balanced su) {b : String}
    (unused : s.registered b = true → s.Unused b) : (s.adminRemove b).Balanced su := by
  unfold Server.adminRemove
  split
  · rename_i present
    have free : s.Unused b := unused present
    refine bal.steady rfl rfl (fun b' => ?_) rfl rfl rfl fun j b' member => ?_
    · rw [LoadTracker.inflightOf_forget]
      split
      · rename_i same
        rw [same, bal.load b, eq_comm, census_eq_zero_iff]
        exact fun j below => (free j below).1
      · rfl
    · have before := bal.known j b' member
      have bound : j < s.next := bal.lt_next fun ended => by
        rw [ended] at member
        cases member
      rw [registered] at before ⊢
      rw [BackendRegistry.get_remove, if_neg]
      · exact before
      · rintro rfl
        exact (free j bound).2 member
  · exact bal

theorem Balanced.adminDrain (bal : s.Balanced su) (b : String) (draining : Bool) :
    (s.adminDrain b draining).Balanced su := by
  refine bal.steady rfl rfl (fun _ => rfl) rfl rfl rfl fun j b' member => ?_
  have before := bal.known j b' member
  rw [registered] at before ⊢
  rw [Server.adminDrain, BackendRegistry.get_setDraining]
  split
  · rename_i same
    rw [Option.isSome_map, ← same]
    exact before
  · exact before

theorem Balanced.scrape (bal : s.Balanced su) (b : String) (health : Health) (now : ℚ) :
    (s.scrape b health now).Balanced su := by
  cases health <;>
    exact bal.steady rfl rfl (fun _ => rfl) rfl rfl rfl fun j b' member =>
      (registered_setHealth ..).trans (bal.known j b' member)

/-! ### Runs -/

theorem init_balanced (su : Setup) (registry : BackendRegistry String)
    (backendCacheBlocks circuitFailThreshold : Int) (circuitCooldown : ℚ)
    (sessions : SessionAffinity String) (predictor : Option (List ℚ → Option ℚ))
    (scheduler : Option (Int × Dict String ℚ × ℚ × ℚ)) :
    (init su registry backendCacheBlocks circuitFailThreshold circuitCooldown sessions predictor
      scheduler).Balanced su where
  load := fun _ => rfl
  tenants := fun _ => rfl
  slots := by
    intro sched found
    obtain ⟨⟨maxConcurrency, weights, defaultWeight, cost⟩, _, rfl⟩ :=
      Option.map_eq_some_iff.mp found
    exact ⟨[], Gate.init_sound ..⟩
  idle := fun _ _ => rfl
  known := fun _ _ member => by cases member

/-- **One span.** A clean span keeps the balance. -/
theorem step_balanced {span : Span} (bal : s.Balanced su) (clean : s.Clean su span)
    (taken : s.step su span = some s') : s'.Balanced su := by
  obtain ⟨now, act⟩ := span
  unfold step at taken
  split at taken
  · have bal' : ({ s with clock := now } : Server).Balanced su :=
      ⟨bal.load, bal.tenants, bal.slots, bal.idle, bal.known⟩
    cases act with
    | arrive req semanticHit fault =>
        cases taken
        exact bal'.arrive clean.1 clean.2.1 clean.2.2.1 clean.2.2.2
    | resume i fault => exact bal'.resume clean taken
    | connected i code fault => exact bal'.connected clean taken
    | refused i fault => exact bal'.refused clean taken
    | opened i b => exact bal'.opened taken
    | won i b code fault => exact bal'.won clean taken
    | lost i fault => exact bal'.lost taken
    | start i => exact bal'.start taken
    | chunk i events => exact bal'.chunk taken
    | stop i => exact bal'.stop taken
    | closed i fault => exact bal'.closed clean taken
    | cancel i => exact bal'.cancel now clean taken
    | adminAdd b url model =>
        cases taken
        exact bal'.adminAdd b url model
    | adminRemove b =>
        cases taken
        exact bal'.adminRemove clean
    | adminDrain b draining =>
        cases taken
        exact bal'.adminDrain b draining
    | scrape b health =>
        cases taken
        exact bal'.scrape b health now
  · cases taken

/-- Every request has ended. -/
def Quiet (s : Server) : Prop := ∀ i < s.next, (s.phase i).req? = none

instance (s : Server) : Decidable s.Quiet := inferInstanceAs (Decidable (∀ i < s.next, _))

/-- **The counters under every interleaving.** In every state of a run of clean spans,
`load.inflight[b]` is the number of requests on `b`, `limiter.inflight[t]` the number of
unfinished requests of `t` under rate limiting, and `scheduler.active` the number of
requests with a dispatch slot. So all are zero once every request has ended. -/
theorem counters_exact {registry : BackendRegistry String}
    {backendCacheBlocks circuitFailThreshold : Int} {circuitCooldown : ℚ}
    {sessions : SessionAffinity String} {predictor : Option (List ℚ → Option ℚ)}
    {scheduler : Option (Int × Dict String ℚ × ℚ × ℚ)} {spans : List Span}
    (clean : Machine.Along (step su) (Clean su)
      (init su registry backendCacheBlocks circuitFailThreshold circuitCooldown sessions predictor
        scheduler) spans)
    (reach : Machine.run (step su)
      (init su registry backendCacheBlocks circuitFailThreshold circuitCooldown sessions predictor
        scheduler) spans = some s) :
    (∀ b, s.load.inflightOf b = census (fun i => (s.phase i).backend = some b) s.next) ∧
      (∀ t, s.limiter.inflightOf t = census (fun i => su.HoldsQuota (s.phase i) t) s.next) ∧
      (∀ sched, s.scheduler = some sched → sched.active = census s.HoldsSlot s.next) ∧
      (∀ i, s.next ≤ i → s.phase i = .ended) ∧
      (s.Quiet → (∀ b, s.load.inflightOf b = 0) ∧ (∀ t, s.limiter.inflightOf t = 0) ∧
        ∀ sched, s.scheduler = some sched → sched.active = 0) := by
  have bal : s.Balanced su := Machine.run_invariant_along
    (fun _ _ _ bal clean taken => step_balanced bal clean taken)
    (init_balanced su registry backendCacheBlocks circuitFailThreshold circuitCooldown sessions
      predictor scheduler) clean reach
  have slots : ∀ sched, s.scheduler = some sched → sched.active = census s.HoldsSlot s.next := by
    intro sched found
    obtain ⟨grants, sound⟩ := bal.slots sched found
    have count := sound.count
    rw [census_congr fun i _ => hasSlot_gate.symm]
    exact count
  refine ⟨bal.load, bal.tenants, slots, bal.idle, fun quiet => ⟨fun b => ?_, fun t => ?_, ?_⟩⟩
  · rw [bal.load b, census_eq_zero_iff]
    intro i below on
    rw [Phase.eq_ended (quiet i below)] at on
    cases on
  · rw [bal.tenants t, census_eq_zero_iff]
    rintro i below ⟨_, held⟩
    rw [Phase.tenant, quiet i below] at held
    cases held
  · intro sched found
    have none_holds : census s.HoldsSlot s.next = 0 := by
      rw [census_eq_zero_iff]
      intro i below slot
      rw [HoldsSlot, Phase.eq_ended (quiet i below)] at slot
      exact slot
    rw [slots sched found, none_holds]
    rfl

/-! ### Two runs -/

/-- The first request fails to connect and answers 502; the second, parked behind it, is
streamed to its end. -/
def failedThenStreamed : List Span :=
  [⟨0, .arrive plainRequest false none⟩, ⟨0, .arrive plainRequest false none⟩, ⟨1, .refused 0 none⟩,
    ⟨1, .resume 1 none⟩, ⟨1, .connected 1 200 none⟩, ⟨1, .start 1⟩, ⟨2, .chunk 1 3⟩, ⟨2, .stop 1⟩,
    ⟨2, .closed 1 none⟩]

theorem counters_exact_failover :
    ∃ s, Machine.run (step oneSlot) oneBackend failedThenStreamed = some s ∧ s.Quiet ∧ s.next = 2 ∧
      s.load.inflightOf "b0" = 0 ∧ s.limiter.inflightOf "anonymous" = 0 := by
  obtain ⟨s, reach, quiet, both⟩ : ∃ s,
      Machine.run (step oneSlot) oneBackend failedThenStreamed = some s ∧ s.Quiet ∧ s.next = 2 :=
    Machine.exists_run (by decide +kernel)
  have clean : Machine.Along (step oneSlot) (Clean oneSlot) oneBackend failedThenStreamed := by
    decide +kernel
  obtain ⟨load, tenants, _⟩ := (counters_exact clean reach).2.2.2.2 quiet
  exact ⟨s, reach, quiet, both, load "b0", tenants "anonymous"⟩

/-- The backend is removed while a second request is parked; nothing else goes wrong. -/
def removedWhileParked : List Span :=
  [⟨0, .arrive plainRequest false none⟩, ⟨0, .connected 0 200 none⟩, ⟨0, .start 0⟩,
    ⟨0, .arrive plainRequest false none⟩, ⟨1, .adminRemove "b0"⟩, ⟨1, .stop 0⟩, ⟨1, .closed 0 none⟩,
    ⟨1, .resume 1 none⟩]

/-- `registry.url` raises for the parked request, and all three counters keep it. -/
theorem counters_leak_after_removal :
    ∃ s, Machine.run (step oneSlot) oneBackend removedWhileParked = some s ∧ s.Quiet ∧
      s.load.inflightOf "b0" = 1 ∧ s.limiter.inflightOf "anonymous" = 1 ∧
      s.scheduler.map AsyncFairScheduler.active = some 1 :=
  Machine.exists_run (by decide +kernel)

end Server

end Gateway
