import Gateway.Cluster.Convergence
import Gateway.Cluster.Reconcile

/-!
The sync loop of `gateway/server.py` over the gossip transport of `gateway/cluster/bus.py`.

`HttpGossipBus.publish` buffers, `poll` pushes the buffer to every peer and hands out what
peers have pushed. A push can fail and is not repeated, and it arrives at any later time: the
batches in flight are on `wire`, from which each is delivered once or lost. One pass of
`cluster_sync_loop` publishes the load, every `DIGEST_EVERY` passes also the digests of both
maps, and then syncs.

What a replica publishes has its id as origin and numbers above all earlier ones
(`Publishes`).
-/

namespace Gateway

variable {H B O : Type}

/-- `e.seq`. -/
def Event.seq : Event H B O → Int
  | .prefixEvent _ _ _ seq _ => seq
  | .loadEvent _ seq _ _ => seq
  | .drainEvent _ seq _ _ _ => seq
  | .drainDigest _ seq _ => seq
  | .memberEvent _ seq _ _ _ _ _ => seq
  | .membershipDigest _ seq _ => seq

/-- A replica: its coordinator, whose outbox is that of the bus, the inbox of the bus and the
`tick` of the loop. `heard` is bookkeeping: the events that its passes have applied. -/
structure GossipNode (H B O : Type) where
  coord : Coordinator H B O
  inbox : List (Event H B O)
  tick : Nat
  heard : List (Event H B O)

/-- The replicas and the batches in flight, each with its receiver. -/
structure Mesh (H B O : Type) where
  node : O → GossipNode H B O
  wire : List (O × List (Event H B O))

/-- What the endpoints and the scrape loop of a gateway do to its replica. -/
inductive Mesh.Request (H B : Type) where
  | adminAdd (b : B) (url : String) (model : Option String)
  | adminRemove (b : B)
  | adminDrain (b : B)
  | adminUndrain (b : B)
  /-- `tree.insert(hashes, b); cluster.publish_insert(hashes, b)`. -/
  | dispatch (hashes : List H) (b : B)
  /-- `tree.remove_backend(b); cluster.publish_remove(b)`. -/
  | forget (b : B)

/-- `DIGEST_EVERY`. -/
def digestEvery : Nat := 8

namespace Coordinator

variable [DecidableEq H] [DecidableEq B] [LinearOrder O]

/-- One request. -/
def request (c : Coordinator H B O) : Mesh.Request H B → Coordinator H B O
  | .adminAdd b url model => c.adminAdd b url model
  | .adminRemove b => c.adminRemove b
  | .adminDrain b => c.adminSetDraining b true
  | .adminUndrain b => c.adminSetDraining b false
  | .dispatch hashes b => { c with tree := c.tree.insert hashes b }.publishInsert hashes b
  | .forget b => { c with tree := c.tree.removeBackend b }.publishRemove b

/-- What a pass of the loop publishes. -/
def announce (c : Coordinator H B O) (tick : Nat) (inflight : Dict B Int) (unhealthy : List B) :
    Coordinator H B O :=
  let c := c.publishLoad inflight unhealthy
  if tick % digestEvery = 0 then c.publishDrainDigest.publishMembershipDigest else c

end Coordinator

namespace Mesh

/-- What can happen. -/
inductive Action (H B O : Type) where
  | request (r : O) (q : Request H B)
  | pass (r : O) (inflight : Dict B Int) (unhealthy : List B)
  | deliver (i : Nat)
  | lose (i : Nat)

/-- Fresh replicas without a snapshot store. -/
def init (cap : Int) (registry : O → Option (BackendRegistry B)) : Mesh H B O where
  node := fun r => ⟨.init (.init cap) r (registry r) none, [], 0, []⟩
  wire := []

variable [DecidableEq H] [DecidableEq B] [LinearOrder O]

/-- Replace one replica. -/
def put (g : Mesh H B O) (r : O) (n : GossipNode H B O) : Mesh H B O :=
  { g with node := Function.update g.node r n }

omit [DecidableEq H] [DecidableEq B] in
@[simp] theorem node_put_self (g : Mesh H B O) (r : O) (n : GossipNode H B O) :
    (g.put r n).node r = n := Function.update_self ..

omit [DecidableEq H] [DecidableEq B] in
theorem node_put_of_ne (g : Mesh H B O) {r q : O} (other : q ≠ r) (n : GossipNode H B O) :
    (g.put r n).node q = g.node q := Function.update_of_ne other ..

/-- One pass of `cluster_sync_loop`: publish, push the outbox to every peer, and apply the
inbox. -/
def pass (peers : O → List O) (g : Mesh H B O) (r : O) (inflight : Dict B Int)
    (unhealthy : List B) : Mesh H B O :=
  let n := g.node r
  let c := n.coord.announce n.tick inflight unhealthy
  let batch := c.outbox
  let c := ({ c with outbox := [] }.sync n.inbox).1
  { g.put r ⟨c, [], n.tick + 1, n.heard ++ n.inbox⟩ with
    wire := g.wire ++ if batch.isEmpty then [] else (peers r).map fun p => (p, batch) }

/-- `ingest`: a replica drops its own echoes. -/
def ingest (g : Mesh H B O) (p : O) (batch : List (Event H B O)) : Mesh H B O :=
  let n := g.node p
  g.put p { n with inbox := n.inbox ++ batch.filter fun e => e.origin ≠ n.coord.replicaId }

/-- One action. -/
def step (peers : O → List O) (g : Mesh H B O) : Action H B O → Option (Mesh H B O)
  | .request r q =>
      some (g.put r { g.node r with coord := (g.node r).coord.request q })
  | .pass r inflight unhealthy => some (g.pass peers r inflight unhealthy)
  | .deliver i =>
      (g.wire[i]?).map fun message =>
        { g.ingest message.1 message.2 with wire := g.wire.eraseIdx i }
  | .lose i => (g.wire[i]?).map fun _ => { g with wire := g.wire.eraseIdx i }

end Mesh

/-! ### What a replica publishes -/

namespace Coordinator

/-- From `c` on, `new` was published, with the origin of the replica and increasing numbers. -/
structure Publishes (c c' : Coordinator H B O) (new : List (Event H B O)) : Prop where
  outbox : c'.outbox = c.outbox ++ new
  replicaId : c'.replicaId = c.replicaId
  later : c.seq ≤ c'.seq
  numbered : ∀ e ∈ new, e.origin = c.replicaId ∧ c.seq < e.seq ∧ e.seq ≤ c'.seq

theorem Publishes.of_same {c c' : Coordinator H B O} (outbox : c'.outbox = c.outbox)
    (replicaId : c'.replicaId = c.replicaId) (seq : c'.seq = c.seq) : Publishes c c' [] where
  outbox := by rw [outbox, List.append_nil]
  replicaId := replicaId
  later := seq.ge
  numbered := by simp

theorem Publishes.trans {c c' c'' : Coordinator H B O} {new new' : List (Event H B O)}
    (first : Publishes c c' new) (second : Publishes c' c'' new') :
    Publishes c c'' (new ++ new') where
  outbox := by rw [second.outbox, first.outbox, List.append_assoc]
  replicaId := second.replicaId.trans first.replicaId
  later := first.later.trans second.later
  numbered := by
    intro e member
    have := first.later
    have := second.later
    rcases List.mem_append.mp member with one | two
    · obtain ⟨origin, above, within⟩ := first.numbered e one
      exact ⟨origin, above, by omega⟩
    · obtain ⟨origin, above, within⟩ := second.numbered e two
      exact ⟨origin.trans first.replicaId, by omega, within⟩

/-- One event is published. -/
theorem publishes_one {c c' : Coordinator H B O} {e : Event H B O}
    (outbox : c'.outbox = c.outbox ++ [e]) (replicaId : c'.replicaId = c.replicaId)
    (seq : c'.seq = c.seq + 1) (origin : e.origin = c.replicaId) (number : e.seq = c.seq + 1) :
    Publishes c c' [e] where
  outbox := outbox
  replicaId := replicaId
  later := by omega
  numbered := by
    intro e' member
    rw [List.mem_singleton.mp member]
    exact ⟨origin, by omega, by omega⟩

end Coordinator

/-! ### The two replicated maps -/

/-- A replicated map of the coordinator: where it is, the operations that events carry on it,
the events that are digests of it, and its test for a change. -/
structure Aspect (H B V O : Type) where
  map : Coordinator H B O → Lww B V O
  ops : Event H B O → List (B × Entry V O)
  digest : Event H B O → Bool
  differs : V → V → Bool

/-- The drain map. -/
def drains : Aspect H B Bool O where
  map := Coordinator.drain
  ops := Coordinator.drainOps
  digest := fun
    | .drainDigest _ _ _ => true
    | _ => false
  differs := DrainState.differs

/-- The membership map. -/
def members : Aspect H B Member O where
  map := Coordinator.membership
  ops := Coordinator.memberOps
  digest := fun
    | .membershipDigest _ _ _ => true
    | _ => false
  differs := MembershipState.differs

namespace Aspect

variable {V : Type} (A : Aspect H B V O)

/-- Only events without operations on the map were published. -/
def Untouched (c c' : Coordinator H B O) : Prop :=
  A.map c' = A.map c ∧ ∃ new, c.Publishes c' new ∧ ∀ e ∈ new, A.ops e = [] ∧ A.digest e = false

variable {A}

theorem untouched_silent {c c' : Coordinator H B O} (map : A.map c' = A.map c)
    (outbox : c'.outbox = c.outbox) (replicaId : c'.replicaId = c.replicaId)
    (seq : c'.seq = c.seq) : A.Untouched c c' :=
  ⟨map, [], .of_same outbox replicaId seq, by simp⟩

theorem untouched_one {c c' : Coordinator H B O} {e : Event H B O} (map : A.map c' = A.map c)
    (publishes : c.Publishes c' [e]) (ops : A.ops e = []) (digest : A.digest e = false) :
    A.Untouched c c' := by
  refine ⟨map, [e], publishes, fun e' member => ?_⟩
  rw [List.mem_singleton.mp member]
  exact ⟨ops, digest⟩

variable (A)

variable [DecidableEq B]

/-- The replica wrote to the map, and published the operation. -/
def Written (c c' : Coordinator H B O) : Prop :=
  ∃ b v e, A.map c' = ((A.map c).setLocal b v c.replicaId).1 ∧ c.Publishes c' [e] ∧
    A.ops e = [(b, ⟨v, (A.map c).clock + 1, c.replicaId⟩)] ∧ A.digest e = false

end Aspect

/-- Requests that are not decisions of an operator. -/
def Mesh.Request.isTraffic : Mesh.Request H B → Bool
  | .dispatch _ _ => true
  | .forget _ => true
  | _ => false

namespace Aspect

variable [DecidableEq H] [DecidableEq B] [LinearOrder O] {V : Type}

/-- What the coordinator does with one of its replicated maps. -/
structure Lawful (A : Aspect H B V O) : Prop where
  init : ∀ tree r registry store, A.map (.init tree r registry store) = .empty
  flushed : ∀ c, A.map { c with outbox := [] } = A.map c
  request : ∀ c q, A.Untouched c (c.request q) ∨ A.Written c (c.request q)
  traffic : ∀ c q, q.isTraffic = true → A.Untouched c (c.request q)
  announce : ∀ c tick inflight unhealthy, A.map (c.announce tick inflight unhealthy) = A.map c ∧
    ∃ new, c.Publishes (c.announce tick inflight unhealthy) new ∧
      ∀ e ∈ new, A.ops e = if A.digest e then (A.map c).entries.items else []
  digested : ∀ c tick inflight unhealthy, tick % digestEvery = 0 →
    (A.map c).entries.items ≠ [] → ∃ e ∈ (c.announce tick inflight unhealthy).outbox,
      A.digest e = true ∧ e.origin = c.replicaId ∧ c.seq < e.seq
  sync : ∀ c events, A.map (c.sync events).1 =
    ((A.map c).applyAll A.differs (events.flatMap A.ops)).1

end Aspect

namespace Coordinator

variable [DecidableEq H] [DecidableEq B] [LinearOrder O]

omit [LinearOrder O] in
/-- A request that changes nothing but the tree publishes at most prefix events. -/
theorem untouched_traffic {V : Type} {A : Aspect H B V O} (c : Coordinator H B O)
    {q : Mesh.Request H B} (traffic : q.isTraffic = true) (map : A.map (c.request q) = A.map c)
    (ops : ∀ kind b origin seq hashes, A.ops (.prefixEvent kind b origin seq hashes) = [])
    (digest : ∀ kind b origin seq hashes, A.digest (.prefixEvent kind b origin seq hashes) = false) :
    A.Untouched c (c.request q) := by
  cases q with
  | dispatch hashes b =>
      simp only [request, publishInsert] at map ⊢
      split at map
      · rename_i empty
        rw [if_pos empty]
        exact Aspect.untouched_silent map rfl rfl rfl
      · rename_i filled
        rw [if_neg filled]
        exact Aspect.untouched_one map (publishes_one rfl rfl rfl rfl rfl) (ops ..) (digest ..)
  | forget b =>
      exact Aspect.untouched_one map (publishes_one rfl rfl rfl rfl rfl) (ops ..) (digest ..)
  | adminAdd b url model => cases traffic
  | adminRemove b => cases traffic
  | adminDrain b => cases traffic
  | adminUndrain b => cases traffic

omit [LinearOrder O] in
theorem maps_traffic (c : Coordinator H B O) {q : Mesh.Request H B} (traffic : q.isTraffic = true) :
    (c.request q).drain = c.drain ∧ (c.request q).membership = c.membership := by
  cases q with
  | dispatch hashes b =>
      simp only [request, publishInsert]
      split <;> exact ⟨rfl, rfl⟩
  | forget b => exact ⟨rfl, rfl⟩
  | adminAdd b url model => cases traffic
  | adminRemove b => cases traffic
  | adminDrain b => cases traffic
  | adminUndrain b => cases traffic

omit [DecidableEq H] [LinearOrder O] in
/-- Draining or restoring a backend writes to the drain map, if the backend is registered. -/
theorem drains_adminSetDraining (c : Coordinator H B O) (b : B) (draining : Bool) :
    (drains.Untouched c (c.adminSetDraining b draining) ∨
        drains.Written c (c.adminSetDraining b draining)) ∧
      members.Untouched c (c.adminSetDraining b draining) := by
  rw [adminSetDraining]
  split
  · exact ⟨.inl (Aspect.untouched_silent rfl rfl rfl rfl), Aspect.untouched_silent rfl rfl rfl rfl⟩
  · split
    · exact ⟨.inr ⟨b, draining, _, rfl, publishes_one rfl rfl rfl rfl rfl, rfl, rfl⟩,
        Aspect.untouched_one rfl (publishes_one rfl rfl rfl rfl rfl) rfl rfl⟩
    · exact ⟨.inl (Aspect.untouched_silent rfl rfl rfl rfl), Aspect.untouched_silent rfl rfl rfl rfl⟩

omit [DecidableEq H] [LinearOrder O] in
/-- Removing a backend writes to the membership map, if the backend is registered. -/
theorem members_adminRemove (c : Coordinator H B O) (b : B) :
    (members.Untouched c (c.adminRemove b) ∨ members.Written c (c.adminRemove b)) ∧
      drains.Untouched c (c.adminRemove b) := by
  rw [adminRemove]
  split
  · exact ⟨.inl (Aspect.untouched_silent rfl rfl rfl rfl), Aspect.untouched_silent rfl rfl rfl rfl⟩
  · split
    · exact ⟨.inr ⟨b, ⟨false, "", ""⟩, _, rfl, publishes_one rfl rfl rfl rfl rfl, rfl, rfl⟩,
        Aspect.untouched_one rfl (publishes_one rfl rfl rfl rfl rfl) rfl rfl⟩
    · exact ⟨.inl (Aspect.untouched_silent rfl rfl rfl rfl), Aspect.untouched_silent rfl rfl rfl rfl⟩

omit [DecidableEq H] [DecidableEq B] [LinearOrder O] in
theorem publishes_publishDrainDigest (c : Coordinator H B O) :
    ∃ new, c.Publishes c.publishDrainDigest new ∧
      ∀ e ∈ new, ∃ seq, e = .drainDigest c.replicaId seq c.drain.entries := by
  rw [publishDrainDigest]
  split
  · exact ⟨[], .of_same rfl rfl rfl, by simp⟩
  · refine ⟨[_], publishes_one rfl rfl rfl rfl rfl, fun e member => ?_⟩
    exact ⟨_, List.mem_singleton.mp member⟩

omit [DecidableEq H] [DecidableEq B] [LinearOrder O] in
theorem publishes_publishMembershipDigest (c : Coordinator H B O) :
    ∃ new, c.Publishes c.publishMembershipDigest new ∧
      ∀ e ∈ new, ∃ seq, e = .membershipDigest c.replicaId seq c.membership.entries := by
  rw [publishMembershipDigest]
  split
  · exact ⟨[], .of_same rfl rfl rfl, by simp⟩
  · refine ⟨[_], publishes_one rfl rfl rfl rfl rfl, fun e member => ?_⟩
    exact ⟨_, List.mem_singleton.mp member⟩

omit [DecidableEq H] [DecidableEq B] [LinearOrder O] in
theorem maps_publishDrainDigest (c : Coordinator H B O) :
    c.publishDrainDigest.drain = c.drain ∧ c.publishDrainDigest.membership = c.membership := by
  rw [publishDrainDigest]
  split <;> exact ⟨rfl, rfl⟩

omit [DecidableEq H] [DecidableEq B] [LinearOrder O] in
theorem maps_publishMembershipDigest (c : Coordinator H B O) :
    c.publishMembershipDigest.drain = c.drain ∧
      c.publishMembershipDigest.membership = c.membership := by
  rw [publishMembershipDigest]
  split <;> exact ⟨rfl, rfl⟩

omit [DecidableEq H] [LinearOrder O] in
theorem maps_announce (c : Coordinator H B O) (tick : Nat) (inflight : Dict B Int)
    (unhealthy : List B) :
    (c.announce tick inflight unhealthy).drain = c.drain ∧
      (c.announce tick inflight unhealthy).membership = c.membership := by
  simp only [announce]
  split
  · obtain ⟨drain, membership⟩ :=
      maps_publishMembershipDigest (c.publishLoad inflight unhealthy).publishDrainDigest
    obtain ⟨drain', membership'⟩ := maps_publishDrainDigest (c.publishLoad inflight unhealthy)
    exact ⟨drain.trans drain', membership.trans membership'⟩
  · exact ⟨rfl, rfl⟩

omit [DecidableEq H] [LinearOrder O] in
/-- What a pass publishes: the load, and on some passes the digests of both maps. -/
theorem publishes_announce (c : Coordinator H B O) (tick : Nat) (inflight : Dict B Int)
    (unhealthy : List B) :
    ∃ new, c.Publishes (c.announce tick inflight unhealthy) new ∧ ∀ e ∈ new,
      (∃ origin seq counts shed, e = .loadEvent origin seq counts shed) ∨
        (∃ origin seq, e = .drainDigest origin seq c.drain.entries) ∨
        ∃ origin seq, e = .membershipDigest origin seq c.membership.entries := by
  have load : c.Publishes (c.publishLoad inflight unhealthy) [_] :=
    publishes_one rfl rfl rfl rfl rfl
  simp only [announce]
  split
  · obtain ⟨one, first, only⟩ := publishes_publishDrainDigest (c.publishLoad inflight unhealthy)
    obtain ⟨two, second, only'⟩ :=
      publishes_publishMembershipDigest (c.publishLoad inflight unhealthy).publishDrainDigest
    refine ⟨_, (load.trans first).trans second, fun e member => ?_⟩
    rcases List.mem_append.mp member with before | last
    · rcases List.mem_append.mp before with loads | digests
      · exact .inl ⟨_, _, _, _, List.mem_singleton.mp loads⟩
      · obtain ⟨seq, rfl⟩ := only e digests
        exact .inr (.inl ⟨_, seq, rfl⟩)
    · obtain ⟨seq, rfl⟩ := only' e last
      rw [(maps_publishDrainDigest _).2]
      exact .inr (.inr ⟨_, seq, rfl⟩)
  · refine ⟨_, load, fun e member => ?_⟩
    exact .inl ⟨_, _, _, _, List.mem_singleton.mp member⟩

omit [DecidableEq H] [DecidableEq B] [LinearOrder O] in
theorem mem_publishDrainDigest {c : Coordinator H B O} (filled : c.drain.entries.items ≠ []) :
    .drainDigest c.replicaId (c.seq + 1) c.drain.entries ∈ c.publishDrainDigest.outbox := by
  have counted : c.drain.len ≠ 0 := mt List.length_eq_zero_iff.mp filled
  rw [publishDrainDigest, if_neg counted]
  exact List.mem_append_right _ List.mem_cons_self

omit [DecidableEq H] [DecidableEq B] [LinearOrder O] in
theorem mem_publishMembershipDigest {c : Coordinator H B O}
    (filled : c.membership.entries.items ≠ []) :
    .membershipDigest c.replicaId (c.seq + 1) c.membership.entries ∈
      c.publishMembershipDigest.outbox := by
  have counted : c.membership.len ≠ 0 := mt List.length_eq_zero_iff.mp filled
  rw [publishMembershipDigest, if_neg counted]
  exact List.mem_append_right _ List.mem_cons_self

omit [DecidableEq H] [LinearOrder O] in
/-- On a digest pass, a map that is not empty is published. -/
theorem digests_announce (c : Coordinator H B O) {tick : Nat} (inflight : Dict B Int)
    (unhealthy : List B) (due : tick % digestEvery = 0) :
    (c.drain.entries.items ≠ [] → ∃ seq, c.seq < seq ∧
        .drainDigest c.replicaId seq c.drain.entries ∈ (c.announce tick inflight unhealthy).outbox) ∧
      (c.membership.entries.items ≠ [] → ∃ seq, c.seq < seq ∧
        .membershipDigest c.replicaId seq c.membership.entries ∈
          (c.announce tick inflight unhealthy).outbox) := by
  have result : c.announce tick inflight unhealthy =
      (c.publishLoad inflight unhealthy).publishDrainDigest.publishMembershipDigest := by
    simp only [announce, if_pos due]
  have load : c.Publishes (c.publishLoad inflight unhealthy) [_] :=
    publishes_one rfl rfl rfl rfl rfl
  obtain ⟨_, first, _⟩ := publishes_publishDrainDigest (c.publishLoad inflight unhealthy)
  obtain ⟨_, second, _⟩ :=
    publishes_publishMembershipDigest (c.publishLoad inflight unhealthy).publishDrainDigest
  have later := load.later
  have later' := first.later
  rw [result]
  constructor
  · intro filled
    refine ⟨(c.publishLoad inflight unhealthy).seq + 1, by omega, ?_⟩
    rw [second.outbox]
    exact List.mem_append_left _ (mem_publishDrainDigest filled)
  · intro filled
    refine ⟨(c.publishLoad inflight unhealthy).publishDrainDigest.seq + 1, by omega, ?_⟩
    have same := (maps_publishDrainDigest (c.publishLoad inflight unhealthy)).2
    have sent := mem_publishMembershipDigest
      (c := (c.publishLoad inflight unhealthy).publishDrainDigest) (by rw [same]; exact filled)
    rw [first.replicaId, same] at sent
    exact sent

omit [LinearOrder O] in
theorem drains_traffic (c : Coordinator H B O) {q : Mesh.Request H B} (traffic : q.isTraffic = true) :
    drains.Untouched c (c.request q) :=
  untouched_traffic c traffic (maps_traffic c traffic).1 (fun _ _ _ _ _ => rfl)
    (fun _ _ _ _ _ => rfl)

omit [LinearOrder O] in
theorem members_traffic (c : Coordinator H B O) {q : Mesh.Request H B}
    (traffic : q.isTraffic = true) : members.Untouched c (c.request q) :=
  untouched_traffic c traffic (maps_traffic c traffic).2 (fun _ _ _ _ _ => rfl)
    (fun _ _ _ _ _ => rfl)

theorem drains_lawful : (drains : Aspect H B Bool O).Lawful where
  init := fun _ _ _ _ => rfl
  flushed := fun _ => rfl
  traffic := fun c _ traffic => drains_traffic c traffic
  request := by
    intro c q
    cases q with
    | adminAdd b url model =>
        exact .inl (Aspect.untouched_one rfl (publishes_one rfl rfl rfl rfl rfl) rfl rfl)
    | adminRemove b => exact .inl (members_adminRemove c b).2
    | adminDrain b => exact (drains_adminSetDraining c b true).1
    | adminUndrain b => exact (drains_adminSetDraining c b false).1
    | dispatch hashes b => exact .inl (drains_traffic c rfl)
    | forget b => exact .inl (drains_traffic c rfl)
  announce := by
    intro c tick inflight unhealthy
    obtain ⟨new, publishes, kinds⟩ := publishes_announce c tick inflight unhealthy
    refine ⟨(maps_announce c tick inflight unhealthy).1, new, publishes, fun e member => ?_⟩
    rcases kinds e member with ⟨_, _, _, _, rfl⟩ | ⟨_, _, rfl⟩ | ⟨_, _, rfl⟩ <;> rfl
  digested := by
    intro c tick inflight unhealthy due filled
    obtain ⟨seq, above, sent⟩ := (digests_announce c inflight unhealthy due).1 filled
    exact ⟨_, sent, rfl, rfl, above⟩
  sync := drain_sync

theorem members_lawful : (members : Aspect H B Member O).Lawful where
  init := fun _ _ _ _ => rfl
  flushed := fun _ => rfl
  traffic := fun c _ traffic => members_traffic c traffic
  request := by
    intro c q
    cases q with
    | adminAdd b url model =>
        exact .inr ⟨b, ⟨true, url, model.getD ""⟩, _, rfl, publishes_one rfl rfl rfl rfl rfl, rfl,
          rfl⟩
    | adminRemove b => exact (members_adminRemove c b).1
    | adminDrain b => exact .inl (drains_adminSetDraining c b true).2
    | adminUndrain b => exact .inl (drains_adminSetDraining c b false).2
    | dispatch hashes b => exact .inl (members_traffic c rfl)
    | forget b => exact .inl (members_traffic c rfl)
  announce := by
    intro c tick inflight unhealthy
    obtain ⟨new, publishes, kinds⟩ := publishes_announce c tick inflight unhealthy
    refine ⟨(maps_announce c tick inflight unhealthy).2, new, publishes, fun e member => ?_⟩
    rcases kinds e member with ⟨_, _, _, _, rfl⟩ | ⟨_, _, rfl⟩ | ⟨_, _, rfl⟩ <;> rfl
  digested := by
    intro c tick inflight unhealthy due filled
    obtain ⟨seq, above, sent⟩ := (digests_announce c inflight unhealthy due).2 filled
    exact ⟨_, sent, rfl, rfl, above⟩
  sync := membership_sync

/-! ### Syncing publishes nothing -/

theorem bus_applyEvent (c : Coordinator H B O) (e : Event H B O) :
    (c.applyEvent e).1.outbox = c.outbox ∧ (c.applyEvent e).1.replicaId = c.replicaId ∧
      (c.applyEvent e).1.seq = c.seq := by
  cases e with
  | prefixEvent kind b origin seq hashes => cases kind <;> exact ⟨rfl, rfl, rfl⟩
  | loadEvent origin seq inflight unhealthy => exact ⟨rfl, rfl, rfl⟩
  | drainEvent origin seq ts b draining => exact ⟨rfl, rfl, rfl⟩
  | drainDigest origin seq entries => exact ⟨rfl, rfl, rfl⟩
  | memberEvent origin seq action b url model ts => exact ⟨rfl, rfl, rfl⟩
  | membershipDigest origin seq entries => exact ⟨rfl, rfl, rfl⟩

theorem bus_applyEvents (c : Coordinator H B O) (events : List (Event H B O)) :
    (c.applyEvents events).1.outbox = c.outbox ∧
      (c.applyEvents events).1.replicaId = c.replicaId ∧ (c.applyEvents events).1.seq = c.seq := by
  induction events generalizing c with
  | nil => exact ⟨rfl, rfl, rfl⟩
  | cons e rest ih =>
      obtain ⟨outbox, replicaId, seq⟩ := c.bus_applyEvent e
      obtain ⟨outbox', replicaId', seq'⟩ := ih
        { (c.applyEvent e).1 with appliedRemote := (c.applyEvent e).1.appliedRemote + 1 }
      exact ⟨outbox'.trans outbox, replicaId'.trans replicaId, seq'.trans seq⟩

omit [DecidableEq H] [LinearOrder O] in
theorem bus_reconcileMembership (c : Coordinator H B O) :
    c.reconcileMembership.outbox = c.outbox ∧
      c.reconcileMembership.replicaId = c.replicaId ∧ c.reconcileMembership.seq = c.seq := by
  simp only [reconcileMembership]
  split <;> exact ⟨rfl, rfl, rfl⟩

theorem bus_sync (c : Coordinator H B O) (events : List (Event H B O)) :
    (c.sync events).1.outbox = c.outbox ∧ (c.sync events).1.replicaId = c.replicaId ∧
      (c.sync events).1.seq = c.seq := by
  obtain ⟨outbox, replicaId, seq⟩ := c.bus_applyEvents events
  simp only [sync]
  split <;> split
  · obtain ⟨outbox', replicaId', seq'⟩ :=
      (c.applyEvents events).1.reconcileDrains.bus_reconcileMembership
    exact ⟨outbox'.trans outbox, replicaId'.trans replicaId, seq'.trans seq⟩
  · obtain ⟨outbox', replicaId', seq'⟩ := (c.applyEvents events).1.bus_reconcileMembership
    exact ⟨outbox'.trans outbox, replicaId'.trans replicaId, seq'.trans seq⟩
  · exact ⟨outbox, replicaId, seq⟩
  · exact ⟨outbox, replicaId, seq⟩

end Coordinator

end Gateway
