import Mathlib.Algebra.BigOperators.Group.Finset.Basic
import Gateway.Cluster.FleetView
import Gateway.Cluster.Prefixes
import Gateway.Cluster.SyncLoop
import Gateway.Router

/-!
What a router of a fleet knows about the load.

Every replica counts its own requests in its load tracker and publishes the counts in each
pass of the sync loop; `Router._inflight` adds to a replica's own count what the last snapshots
of its peers say. The broker delivers in order and loses nothing, so the snapshots that a view
has applied, followed by those in its inbox, are all that peers have published
(`LoadFleet.Delivered`).

So whenever every replica has published since its counts last changed, a replica whose inbox is
empty counts exactly what the whole fleet has in flight on every backend (`fleet_load_exact`),
and no request is counted twice.
-/

namespace Gateway

variable {H B O : Type} [DecidableEq H] [DecidableEq B] [LinearOrder O]

/-- Replicas at one broker with their load trackers and the ticks of their loops. `published` is
bookkeeping: the snapshots published so far. -/
structure LoadFleet (H B O : Type) where
  broker : Broker H B O
  load : O → LoadTracker B
  tick : O → Nat
  published : List (LoadEvent B O)

namespace LoadFleet

/-- All replicas started. -/
def start (cap : O → Int) (registry : O → Option (BackendRegistry B))
    (store : O → Option (SnapshotStore B)) : LoadFleet H B O :=
  ⟨.start cap registry store, fun _ => .empty, fun _ => 0, []⟩

/-- What can happen on a replica: a request is dispatched to a backend or ends, the count of a
removed backend is dropped, an endpoint calls the coordinator, or the loop passes. -/
inductive Action (H B O : Type) where
  | dispatch (r : O) (b : B) (tokens : Nat)
  | complete (r : O) (b : B) (tokens : Nat)
  | forget (r : O) (b : B)
  | request (r : O) (q : Mesh.Request H B)
  | pass (r : O) (unhealthy : List B)

/-- The replica that acts. -/
def Action.replica : Action H B O → O
  | .dispatch r _ _ => r
  | .complete r _ _ => r
  | .forget r _ => r
  | .request r _ => r
  | .pass r _ => r

/-- The counts of a replica change. -/
def Action.counts : Action H B O → Bool
  | .dispatch _ _ _ => true
  | .complete _ _ _ => true
  | .forget _ _ => true
  | _ => false

/-- Change the load tracker of a replica. -/
def track (s : LoadFleet H B O) (r : O) (l : LoadTracker B) : LoadFleet H B O :=
  { s with load := Function.update s.load r l }

/-- Put a replica back after a call; what it published is broadcast. -/
def put (s : LoadFleet H B O) (r : O) (c : Coordinator H B O) : LoadFleet H B O :=
  { s with
    broker := s.broker.put r c
    published := s.published ++ Coordinator.loadsOf c.outbox }

/-- `sync` on the drained inbox. -/
def drain (s : LoadFleet H B O) (r : O) : LoadFleet H B O :=
  { s with
    broker := { s.broker with inbox := Function.update s.broker.inbox r [] }.put r
      ((s.broker.replica r).sync (s.broker.inbox r)).1 }

/-- One action. A pass publishes, `publish_load(dict(load.inflight), unhealthy)` first, and then
syncs. -/
def step (s : LoadFleet H B O) : Action H B O → Option (LoadFleet H B O)
  | .dispatch r b tokens => some (s.track r ((s.load r).onDispatch b tokens))
  | .complete r b tokens => some (s.track r ((s.load r).onComplete b tokens))
  | .forget r b => some (s.track r ((s.load r).forget b))
  | .request r q => some (s.put r ((s.broker.replica r).request q))
  | .pass r unhealthy =>
      let inflight := (s.load r).inflight.mapValues Int.ofNat
      let s' := (s.put r ((s.broker.replica r).announce (s.tick r) inflight unhealthy)).drain r
      some { s' with tick := Function.update s'.tick r (s'.tick r + 1) }

end LoadFleet

/-! ### What is published -/

namespace Broker

variable {s : Broker H B O} {r : O} {c : Coordinator H B O}

omit [DecidableEq H] [DecidableEq B] in
/-- What a replica published is in the inboxes of all others. -/
theorem inbox_put (own : ∀ e ∈ c.outbox, e.origin = r) (q : O) :
    (s.put r c).inbox q = if q = r then s.inbox q else s.inbox q ++ c.outbox := by
  have broadcasts : ∀ (events : List (Event H B O)) (inbox : O → List (Event H B O)),
      (∀ e ∈ events, e.origin = r) → events.foldl broadcast inbox q =
        if q = r then inbox q else inbox q ++ events := by
    intro events
    induction events with
    | nil => simp
    | cons e events ih =>
        intro inbox own
        rw [List.forall_mem_cons] at own
        rw [List.foldl_cons, ih _ own.2]
        by_cases same : q = r
        · simp [broadcast, own.1, same]
        · simp [broadcast, own.1, same]
  exact broadcasts c.outbox s.inbox own

end Broker

namespace Coordinator

omit [DecidableEq H] [DecidableEq B] [LinearOrder O] in
theorem loadsOf_append (events events' : List (Event H B O)) :
    loadsOf (events ++ events') = loadsOf events ++ loadsOf events' :=
  List.filterMap_append

omit [DecidableEq H] [DecidableEq B] [LinearOrder O] in
theorem loadsOf_append_silent {events events' : List (Event H B O)} (silent : loadsOf events' = []) :
    loadsOf (events ++ events') = loadsOf events := by
  rw [loadsOf_append, silent, List.append_nil]

omit [DecidableEq H] [DecidableEq B] [LinearOrder O] in
theorem mem_loadsOf {events : List (Event H B O)} {ev : LoadEvent B O}
    (member : ev ∈ loadsOf events) :
    .loadEvent ev.origin ev.seq ev.inflight ev.unhealthy ∈ events := by
  obtain ⟨e, sent, carried⟩ := List.mem_filterMap.mp member
  cases e with
  | loadEvent origin seq inflight unhealthy =>
      cases carried
      exact sent
  | prefixEvent => cases carried
  | drainEvent => cases carried
  | drainDigest => cases carried
  | memberEvent => cases carried
  | membershipDigest => cases carried

omit [LinearOrder O] in
/-- A request publishes no load, and does not reach the view. -/
theorem loads_request (c : Coordinator H B O) (q : Mesh.Request H B) :
    loadsOf (c.request q).outbox = loadsOf c.outbox ∧ (c.request q).fleet = c.fleet := by
  cases q with
  | adminAdd b url model => exact ⟨loadsOf_append_silent rfl, rfl⟩
  | adminRemove b =>
      simp only [request, adminRemove]
      split
      · exact ⟨rfl, rfl⟩
      · split
        · exact ⟨loadsOf_append_silent rfl, rfl⟩
        · exact ⟨rfl, rfl⟩
  | adminDrain b =>
      simp only [request, adminSetDraining]
      split
      · exact ⟨rfl, rfl⟩
      · split
        · exact ⟨loadsOf_append_silent rfl, rfl⟩
        · exact ⟨rfl, rfl⟩
  | adminUndrain b =>
      simp only [request, adminSetDraining]
      split
      · exact ⟨rfl, rfl⟩
      · split
        · exact ⟨loadsOf_append_silent rfl, rfl⟩
        · exact ⟨rfl, rfl⟩
  | dispatch hashes b =>
      simp only [request, publishInsert]
      split
      · exact ⟨rfl, rfl⟩
      · exact ⟨loadsOf_append_silent rfl, rfl⟩
  | forget b => exact ⟨loadsOf_append_silent rfl, rfl⟩

omit [DecidableEq H] [DecidableEq B] [LinearOrder O] in
/-- Digests publish no load. -/
theorem loads_digests (c : Coordinator H B O) :
    (loadsOf c.publishDrainDigest.outbox = loadsOf c.outbox ∧ c.publishDrainDigest.fleet = c.fleet) ∧
      loadsOf c.publishMembershipDigest.outbox = loadsOf c.outbox ∧
      c.publishMembershipDigest.fleet = c.fleet := by
  rw [publishDrainDigest, publishMembershipDigest]
  constructor
  · split
    · exact ⟨rfl, rfl⟩
    · exact ⟨loadsOf_append_silent rfl, rfl⟩
  · split
    · exact ⟨rfl, rfl⟩
    · exact ⟨loadsOf_append_silent rfl, rfl⟩

omit [DecidableEq H] [LinearOrder O] in
/-- A pass publishes one snapshot, of the counts that are not zero. -/
theorem loads_announce (c : Coordinator H B O) (tick : Nat) (inflight : Dict B Int)
    (unhealthy : List B) :
    loadsOf (c.announce tick inflight unhealthy).outbox = loadsOf c.outbox ++
        [⟨c.replicaId, c.seq + 1, inflight.filterKeys fun b => inflight.getD b 0 != 0, unhealthy⟩] ∧
      (c.announce tick inflight unhealthy).fleet = c.fleet := by
  have first : loadsOf (c.publishLoad inflight unhealthy).outbox = loadsOf c.outbox ++
      [⟨c.replicaId, c.seq + 1, inflight.filterKeys fun b => inflight.getD b 0 != 0, unhealthy⟩] :=
    loadsOf_append _ _
  simp only [announce]
  split
  · obtain ⟨⟨outbox, fleet⟩, _⟩ := (c.publishLoad inflight unhealthy).loads_digests
    obtain ⟨_, outbox', fleet'⟩ :=
      (c.publishLoad inflight unhealthy).publishDrainDigest.loads_digests
    exact ⟨outbox'.trans (outbox.trans first), fleet'.trans fleet⟩
  · exact ⟨first, rfl⟩

end Coordinator

namespace LoadFleet

/-! ### In order and complete -/

/-- What `p` has applied, followed by what waits in its inbox, is all that its peers have
published, in order. -/
structure Delivered (s : LoadFleet H B O) : Prop where
  ids : ∀ r, (s.broker.replica r).replicaId = r
  flushed : ∀ r, (s.broker.replica r).outbox = []
  caught : ∀ p, ∃ seen, (s.broker.replica p).fleet = .after seen ∧
    seen ++ Coordinator.loadsOf (s.broker.inbox p) = s.published.filter fun ev => ev.origin ≠ p

omit [DecidableEq H] [DecidableEq B] in
theorem start_delivered (cap : O → Int) (registry : O → Option (BackendRegistry B))
    (store : O → Option (SnapshotStore B)) :
    (start cap registry store : LoadFleet H B O).Delivered where
  ids := fun _ => rfl
  flushed := fun _ => rfl
  caught := fun _ => ⟨[], rfl, rfl⟩

variable {s s' : LoadFleet H B O}

omit [DecidableEq H] [DecidableEq B] in
theorem replica_put_self (s : LoadFleet H B O) (r : O) (c : Coordinator H B O) :
    (s.put r c).broker.replica r = { c with outbox := [] } := Function.update_self ..

omit [DecidableEq H] [DecidableEq B] in
theorem replica_put_of_ne (s : LoadFleet H B O) {r p : O} (other : p ≠ r) (c : Coordinator H B O) :
    (s.put r c).broker.replica p = s.broker.replica p := Function.update_of_ne other ..

omit [DecidableEq H] [DecidableEq B] in
/-- A replica publishes. -/
theorem Delivered.put (delivered : s.Delivered) {r : O} {c : Coordinator H B O}
    {new : List (Event H B O)} (publishes : (s.broker.replica r).Publishes c new)
    (fleet : c.fleet = (s.broker.replica r).fleet) : (s.put r c).Delivered := by
  have outbox : c.outbox = new := by rw [publishes.outbox, delivered.flushed, List.nil_append]
  have own : ∀ e ∈ c.outbox, e.origin = r := by
    intro e member
    rw [outbox] at member
    rw [(publishes.numbered e member).1, delivered.ids]
  have loads : ∀ ev ∈ Coordinator.loadsOf c.outbox, ev.origin = r := fun ev member =>
    own _ (Coordinator.mem_loadsOf member)
  have inbox : ∀ p, (s.put r c).broker.inbox p =
      if p = r then s.broker.inbox p else s.broker.inbox p ++ c.outbox := Broker.inbox_put own
  have published : (s.put r c).published = s.published ++ Coordinator.loadsOf c.outbox := rfl
  refine ⟨fun p => ?_, fun p => ?_, fun p => ?_⟩
  · by_cases same : p = r
    · rw [same, replica_put_self]
      exact publishes.replicaId.trans (delivered.ids r)
    · rw [replica_put_of_ne s same, delivered.ids]
  · by_cases same : p = r
    · rw [same, replica_put_self]
    · rw [replica_put_of_ne s same, delivered.flushed]
  · obtain ⟨seen, shown, complete⟩ := delivered.caught p
    refine ⟨seen, ?_, ?_⟩
    · by_cases same : p = r
      · rw [same, replica_put_self]
        rw [same] at shown
        exact fleet.trans shown
      · rw [replica_put_of_ne s same, shown]
    · rw [inbox, published, List.filter_append, ← complete]
      by_cases same : p = r
      · have dropped : (Coordinator.loadsOf c.outbox).filter (fun ev => ev.origin ≠ p) = [] := by
          rw [List.filter_eq_nil_iff]
          intro ev member
          simp [loads ev member, same]
        rw [if_pos same, dropped, List.append_nil]
      · have kept : (Coordinator.loadsOf c.outbox).filter (fun ev => ev.origin ≠ p) =
            Coordinator.loadsOf c.outbox := by
          rw [List.filter_eq_self]
          intro ev member
          simp [loads ev member, Ne.symm same]
        rw [if_neg same, kept, Coordinator.loadsOf_append, List.append_assoc]

/-- A replica syncs. -/
theorem Delivered.drain (delivered : s.Delivered) (r : O) : (s.drain r).Delivered := by
  obtain ⟨outbox, replicaId, _⟩ := (s.broker.replica r).bus_sync (s.broker.inbox r)
  have silent : ((s.broker.replica r).sync (s.broker.inbox r)).1.outbox = [] :=
    outbox.trans (delivered.flushed r)
  have self : (s.drain r).broker.replica r =
      { ((s.broker.replica r).sync (s.broker.inbox r)).1 with outbox := [] } :=
    Function.update_self ..
  have others : ∀ p, p ≠ r → (s.drain r).broker.replica p = s.broker.replica p := fun p other =>
    Function.update_of_ne other ..
  have inbox : ∀ p, (s.drain r).broker.inbox p = if p = r then [] else s.broker.inbox p := by
    intro p
    simp only [LoadFleet.drain, Broker.put, silent, List.foldl_nil, Function.update_apply]
  refine ⟨fun p => ?_, fun p => ?_, fun p => ?_⟩
  · by_cases same : p = r
    · rw [same, self]
      exact replicaId.trans (delivered.ids r)
    · rw [others p same, delivered.ids]
  · by_cases same : p = r
    · rw [same, self]
    · rw [others p same, delivered.flushed]
  · obtain ⟨seen, shown, complete⟩ := delivered.caught p
    rw [inbox]
    by_cases same : p = r
    · subst same
      refine ⟨seen ++ Coordinator.loadsOf (s.broker.inbox p), ?_, ?_⟩
      · rw [self]
        show ((s.broker.replica p).sync (s.broker.inbox p)).1.fleet = _
        rw [Coordinator.fleet_sync, shown, FleetLoadView.after, FleetLoadView.after,
          List.foldl_append]
      · rw [if_pos rfl]
        exact (List.append_nil _).trans complete
    · exact ⟨seen, by rw [others p same, shown], by rw [if_neg same]; exact complete⟩

/-! ### Up to date -/

/-- What a replica published last, for a backend. -/
def said (s : LoadFleet H B O) (r : O) (b : B) : Int :=
  ((LoadEvent.latest r s.published).map fun e => e.inflight.getD b 0).getD 0

/-- A replica's last snapshot is what it counts. -/
def Current (s : LoadFleet H B O) (r : O) : Prop := ∀ b, s.said r b = (s.load r).inflightOf b

/-- The snapshot that a pass publishes. -/
def snapshot (s : LoadFleet H B O) (r : O) (unhealthy : List B) : LoadEvent B O :=
  let inflight := (s.load r).inflight.mapValues Int.ofNat
  ⟨r, (s.broker.replica r).seq + 1, inflight.filterKeys fun b => inflight.getD b 0 != 0, unhealthy⟩

omit [DecidableEq H] [LinearOrder O] in
/-- Leaving out the counts that are zero does not change what a snapshot says. -/
theorem getD_snapshot (s : LoadFleet H B O) (r : O) (unhealthy : List B) (b : B) :
    (s.snapshot r unhealthy).inflight.getD b 0 = (s.load r).inflightOf b := by
  have counted : ((s.load r).inflight.mapValues Int.ofNat).getD b 0 = (s.load r).inflightOf b := by
    rw [Dict.getD, Dict.get?_mapValues, LoadTracker.inflightOf, Dict.getD]
    cases (s.load r).inflight.get? b <;> rfl
  rw [← counted]
  simp only [snapshot, Dict.getD, Dict.get?_filterKeys]
  split
  · rfl
  · rename_i zero
    have none_counted : ((s.load r).inflight.mapValues Int.ofNat).getD b 0 = 0 := by
      simpa [Dict.getD] using zero
    exact none_counted.symm

omit [DecidableEq H] [LinearOrder O] in
@[simp] theorem origin_snapshot (s : LoadFleet H B O) (r : O) (unhealthy : List B) :
    (s.snapshot r unhealthy).origin = r := rfl

/-- The snapshots that an action publishes. -/
def snapshots (s : LoadFleet H B O) : Action H B O → List (LoadEvent B O)
  | .pass r unhealthy => [s.snapshot r unhealthy]
  | _ => []

theorem published_step {a : Action H B O} (delivered : s.Delivered) (happens : s.step a = some s') :
    s'.published = s.published ++ s.snapshots a := by
  cases a with
  | dispatch r b tokens =>
      cases happens
      exact (List.append_nil _).symm
  | complete r b tokens =>
      cases happens
      exact (List.append_nil _).symm
  | forget r b =>
      cases happens
      exact (List.append_nil _).symm
  | request r q =>
      cases happens
      have silent := ((s.broker.replica r).loads_request q).1
      rw [delivered.flushed] at silent
      show s.published ++ Coordinator.loadsOf _ = _
      rw [silent]
      rfl
  | pass r unhealthy =>
      cases happens
      have one := ((s.broker.replica r).loads_announce (s.tick r)
        ((s.load r).inflight.mapValues Int.ofNat) unhealthy).1
      rw [delivered.flushed, delivered.ids] at one
      show s.published ++ Coordinator.loadsOf _ = _
      rw [one]
      rfl

theorem step_delivered {a : Action H B O} (delivered : s.Delivered)
    (happens : s.step a = some s') : s'.Delivered := by
  cases a with
  | dispatch r b tokens =>
      cases happens
      exact ⟨delivered.ids, delivered.flushed, delivered.caught⟩
  | complete r b tokens =>
      cases happens
      exact ⟨delivered.ids, delivered.flushed, delivered.caught⟩
  | forget r b =>
      cases happens
      exact ⟨delivered.ids, delivered.flushed, delivered.caught⟩
  | request r q =>
      cases happens
      have silent := ((s.broker.replica r).loads_request q).2
      rcases Coordinator.drains_lawful.request (s.broker.replica r) q with
        ⟨_, new, publishes, _⟩ | ⟨_, _, e, _, publishes, _⟩
      · exact delivered.put publishes silent
      · exact delivered.put publishes silent
  | pass r unhealthy =>
      cases happens
      obtain ⟨new, publishes, _⟩ := (s.broker.replica r).publishes_announce (s.tick r)
        ((s.load r).inflight.mapValues Int.ofNat) unhealthy
      have passed := (delivered.put publishes ((s.broker.replica r).loads_announce (s.tick r)
        ((s.load r).inflight.mapValues Int.ofNat) unhealthy).2).drain r
      exact ⟨passed.ids, passed.flushed, passed.caught⟩

theorem load_step {a : Action H B O} (happens : s.step a = some s') {r : O}
    (idle : a.counts = true → a.replica ≠ r) : s'.load r = s.load r := by
  cases a with
  | dispatch q b tokens =>
      cases happens
      exact Function.update_of_ne (Ne.symm (idle rfl)) ..
  | complete q b tokens =>
      cases happens
      exact Function.update_of_ne (Ne.symm (idle rfl)) ..
  | forget q b =>
      cases happens
      exact Function.update_of_ne (Ne.symm (idle rfl)) ..
  | request q c =>
      cases happens
      rfl
  | pass q unhealthy =>
      cases happens
      rfl

/-- The replica published since its counts last changed. -/
def UpToDate (as : List (Action H B O)) (r : O) : Prop :=
  ∃ before unhealthy after, as = before ++ .pass r unhealthy :: after ∧
    ∀ a ∈ after, a.counts = true → a.replica ≠ r

/-- A pass makes a replica's last snapshot current, and nothing but its own counts changes that. -/
theorem current_step {a : Action H B O} (delivered : s.Delivered) (happens : s.step a = some s')
    {r : O} (idle : a.counts = true → a.replica ≠ r)
    (current : s.Current r ∨ ∃ unhealthy, a = .pass r unhealthy) : s'.Current r := by
  intro b
  have published := published_step delivered happens
  rw [load_step happens idle, said, published]
  rcases current with before | ⟨unhealthy, rfl⟩
  · cases a with
    | pass q unhealthy =>
        rw [snapshots, LoadEvent.latest_append, origin_snapshot]
        by_cases same : q = r
        · subst same
          rw [if_pos rfl]
          exact getD_snapshot s q unhealthy b
        · rw [if_neg same]
          exact before b
    | dispatch q b' tokens => simpa [snapshots, said] using before b
    | complete q b' tokens => simpa [snapshots, said] using before b
    | forget q b' => simpa [snapshots, said] using before b
    | request q c => simpa [snapshots, said] using before b
  · rw [snapshots, LoadEvent.latest_append, origin_snapshot, if_pos rfl]
    exact getD_snapshot s r unhealthy b

theorem delivered_run {as : List (Action H B O)} (delivered : s.Delivered)
    (reach : Machine.run step s as = some s') : s'.Delivered :=
  Machine.run_invariant (fun _ _ _ delivered happens => step_delivered delivered happens)
    delivered reach

/-- While its counts stay, a replica's last snapshot stays current. -/
theorem current_idle {as : List (Action H B O)} (delivered : s.Delivered)
    (reach : Machine.run step s as = some s') {r : O}
    (idle : ∀ a ∈ as, a.counts = true → a.replica ≠ r) (current : s.Current r) : s'.Current r := by
  induction as generalizing s with
  | nil =>
      cases reach
      exact current
  | cons a as ih =>
      obtain ⟨mid, happens, reach⟩ := Machine.run_cons_eq_some.mp reach
      rw [List.forall_mem_cons] at idle
      exact ih (step_delivered delivered happens) reach idle.2
        (current_step delivered happens idle.1 (.inl current))

theorem current_run {as : List (Action H B O)} (delivered : s.Delivered)
    (reach : Machine.run step s as = some s') {r : O} (upToDate : UpToDate as r) : s'.Current r := by
  obtain ⟨before, unhealthy, after, rfl, idle⟩ := upToDate
  obtain ⟨mid, reach, reach'⟩ := Machine.run_append_eq_some.mp reach
  obtain ⟨passed, happens, reach'⟩ := Machine.run_cons_eq_some.mp reach'
  have delivered_mid := delivered_run delivered reach
  refine current_idle (step_delivered delivered_mid happens) reach' idle ?_
  exact current_step delivered_mid happens (fun counts => by cases counts) (.inr ⟨unhealthy, rfl⟩)

/-- Snapshots come from replicas that act. -/
theorem origins_run {as : List (Action H B O)} {fleet : Finset O} (delivered : s.Delivered)
    (within : ∀ ev ∈ s.published, ev.origin ∈ fleet) (acting : ∀ a ∈ as, a.replica ∈ fleet)
    (reach : Machine.run step s as = some s') : ∀ ev ∈ s'.published, ev.origin ∈ fleet := by
  induction as generalizing s with
  | nil =>
      cases reach
      exact within
  | cons a as ih =>
      obtain ⟨mid, happens, reach⟩ := Machine.run_cons_eq_some.mp reach
      rw [List.forall_mem_cons] at acting
      refine ih (step_delivered delivered happens) ?_ acting.2 reach
      intro ev member
      rw [published_step delivered happens] at member
      rcases List.mem_append.mp member with old | new
      · exact within ev old
      · cases a with
        | pass r unhealthy =>
            rw [List.mem_singleton.mp new]
            exact acting.1
        | dispatch q b' tokens => cases new
        | complete q b' tokens => cases new
        | forget q b' => cases new
        | request q c => cases new

omit [DecidableEq H] in
/-- What a view says when nothing waits in the inbox. -/
theorem Delivered.peerInflight (delivered : s.Delivered) {p : O} (empty : s.broker.inbox p = [])
    {fleet : Finset O} (within : ∀ ev ∈ s.published, ev.origin ∈ fleet) (b : B) :
    (s.broker.replica p).fleet.peerInflight b = ∑ r ∈ fleet.erase p, s.said r b := by
  obtain ⟨seen, shown, complete⟩ := delivered.caught p
  rw [empty] at complete
  have seen_eq : seen = s.published.filter fun ev => ev.origin ≠ p := by
    rw [← complete]
    exact (List.append_nil _).symm
  have latest : ∀ r, r ≠ p → LoadEvent.latest r seen = LoadEvent.latest r s.published := by
    intro r other
    rw [seen_eq, LoadEvent.latest, LoadEvent.latest, List.filter_filter]
    congr 1
    refine List.filter_congr fun ev _ => ?_
    by_cases same : ev.origin = r
    · simp [same, other]
    · simp [same]
  have peers : LoadEvent.origins seen ⊆ fleet.erase p := by
    intro r member
    obtain ⟨ev, sent, rfl⟩ := List.mem_map.mp (List.mem_toFinset.mp member)
    rw [seen_eq] at sent
    obtain ⟨sent, other⟩ := List.mem_filter.mp sent
    exact Finset.mem_erase.mpr ⟨of_decide_eq_true other, within ev sent⟩
  rw [shown, FleetLoadView.peerInflight_after]
  calc ∑ r ∈ LoadEvent.origins seen, (FleetLoadView.after seen).countFrom r b
      = ∑ r ∈ fleet.erase p, (FleetLoadView.after seen).countFrom r b := by
        refine Finset.sum_subset peers fun r _ silent => ?_
        have none_seen : LoadEvent.latest r seen = none := by
          rw [← Option.not_isSome_iff_eq_none, FleetLoadView.latest_isSome]
          exact silent
        rw [FleetLoadView.countFrom_after, none_seen]
        rfl
    _ = ∑ r ∈ fleet.erase p, s.said r b := by
        refine Finset.sum_congr rfl fun r member => ?_
        rw [FleetLoadView.countFrom_after, latest r (Finset.ne_of_mem_erase member)]
        rfl

theorem load_exact {cap : O → Int} {registry : O → Option (BackendRegistry B)}
    {store : O → Option (SnapshotStore B)} {as : List (Action H B O)} {fleet : Finset O}
    (reach : Machine.run step (start cap registry store) as = some s)
    (acting : ∀ a ∈ as, a.replica ∈ fleet) {p : O} (member : p ∈ fleet)
    (upToDate : ∀ r ∈ fleet, r ≠ p → UpToDate as r) (empty : s.broker.inbox p = []) (b : B) :
    (s.load p).inflightOf b + (s.broker.replica p).fleet.peerInflight b =
      ∑ r ∈ fleet, ((s.load r).inflightOf b : Int) := by
  have started := start_delivered (H := H) cap registry store
  have delivered := delivered_run started reach
  have within := origins_run started (fun _ member => by cases member) acting reach
  rw [delivered.peerInflight empty within, ← Finset.add_sum_erase fleet _ member]
  congr 1
  refine Finset.sum_congr rfl fun r other => ?_
  exact current_run started reach
    (upToDate r (Finset.mem_of_mem_erase other) (Finset.ne_of_mem_erase other)) b

/-- The router of a replica. -/
def router (s : LoadFleet H String String) (p : String) (rr : Nat)
    (predictor : Option (List ℚ → Option ℚ)) : Router :=
  ⟨rr, predictor, some (s.broker.replica p).fleet⟩

/-- **The fleet's load, exactly.** In every run, whatever the replicas dispatch, decide, publish
and sync: the router of a replica whose inbox is empty counts, on every backend, the requests
that the whole fleet has in flight there, if every peer has published since its own counts last
changed. -/
theorem fleet_load_exact {cap : String → Int} {registry : String → Option (BackendRegistry String)}
    {store : String → Option (SnapshotStore String)} {as : List (Action H String String)}
    {fleet : Finset String} {s : LoadFleet H String String}
    (reach : Machine.run step (start cap registry store) as = some s)
    (acting : ∀ a ∈ as, a.replica ∈ fleet) {p : String} (member : p ∈ fleet)
    (upToDate : ∀ r ∈ fleet, r ≠ p → UpToDate as r) (empty : s.broker.inbox p = []) (rr : Nat)
    (predictor : Option (List ℚ → Option ℚ)) (b : String) :
    (s.router p rr predictor).inflight (s.load p) b = ∑ r ∈ fleet, ((s.load r).inflightOf b : Int) :=
  load_exact reach acting member upToDate empty b

/-- Two gateways dispatch to the same backend and pass; the first one passes again. -/
def twoGateways : List (Action Nat String String) :=
  [.dispatch "A" "b1" 10, .dispatch "B" "b1" 10, .dispatch "B" "b1" 10, .complete "B" "b1" 10,
    .request "B" (.dispatch [1] "b1"), .pass "B" [], .dispatch "A" "b1" 10, .pass "A" []]

theorem fleet_load_exact_pair : ∃ s : LoadFleet Nat String String,
    Machine.run step (start (fun _ => 4) (fun _ => none) fun _ => none) twoGateways = some s ∧
      (s.load "A").inflightOf "b1" = 2 ∧ (s.router "A" 0 none).inflight (s.load "A") "b1" = 3 ∧
      (s.router "A" 0 none).inflight (s.load "A") "b1" =
        ∑ r ∈ ({"A", "B"} : Finset String), ((s.load r).inflightOf "b1" : Int) := by
  obtain ⟨s, reach, own, empty, total⟩ : ∃ s : LoadFleet Nat String String,
      Machine.run step (start (fun _ => 4) (fun _ => none) fun _ => none) twoGateways = some s ∧
        (s.load "A").inflightOf "b1" = 2 ∧ s.broker.inbox "A" = [] ∧
        (s.router "A" 0 none).inflight (s.load "A") "b1" = 3 :=
    Machine.exists_run (by decide +kernel)
  refine ⟨s, reach, own, total, ?_⟩
  refine fleet_load_exact reach (by decide) (by decide) ?_ empty 0 none "b1"
  intro r member other
  have peer : r = "B" := by
    rcases Finset.mem_insert.mp member with rfl | last
    · exact absurd rfl other
    · exact Finset.mem_singleton.mp last
  subst peer
  exact ⟨twoGateways.take 5, [], [.dispatch "A" "b1" 10, .pass "A" []], rfl, by decide⟩

end LoadFleet

end Gateway
