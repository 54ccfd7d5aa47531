import Mathlib.Algebra.Ring.Int.Defs
import Gateway.Backends
import Gateway.Cluster.State
import Gateway.RadixTree.Basic

/-!
The replica side of `gateway/cluster`: events, the fleet load view, the drain
snapshot and `ClusterCoordinator`.

The bus is what it is to the coordinator: `publish` appends to an outbox, and the
events that `poll` returns are the argument of `sync`. `registry` and `store` are
optional, as in the constructor.

`sync` takes in a batch event by event, then reconciles the registry: draining
flags if the drain map changed, and after that the members if the membership map
changed.
-/

namespace Gateway

/-! ### Events -/

/-- The `kind` of a `PrefixEvent`. -/
inductive PrefixKind where
  | insert
  | removeBackend
  | other (kind : String)
  deriving DecidableEq, Repr

/-- The `action` of a `MemberEvent`. -/
inductive MemberAction where
  | add
  | remove
  deriving DecidableEq, Repr

/-- The events of `gateway/cluster/events.py`. -/
inductive Event (H B O : Type) where
  | prefixEvent (kind : PrefixKind) (backendId : B) (origin : O) (seq : Int) (hashes : List H)
  | loadEvent (origin : O) (seq : Int) (inflight : Dict B Int) (unhealthy : List B)
  | drainEvent (origin : O) (seq : Int) (ts : Int) (backendId : B) (draining : Bool)
  | drainDigest (origin : O) (seq : Int) (entries : Dict B (Entry Bool O))
  | memberEvent (origin : O) (seq : Int) (action : MemberAction) (backendId : B)
      (url model : String) (ts : Int)
  | membershipDigest (origin : O) (seq : Int) (entries : Dict B (Entry Member O))
  deriving DecidableEq

/-- `e.origin`. -/
def Event.origin {H B O : Type} : Event H B O → O
  | .prefixEvent _ _ origin _ _ => origin
  | .loadEvent origin _ _ _ => origin
  | .drainEvent origin _ _ _ _ => origin
  | .drainDigest origin _ _ => origin
  | .memberEvent origin _ _ _ _ _ _ => origin
  | .membershipDigest origin _ _ => origin

/-! ### Fleet load -/

/-- `FleetLoadView`: the last snapshot of every peer. -/
structure FleetLoadView (B O : Type) where
  inflight : Dict O (Dict B Int)
  unhealthy : Dict O (List B)

namespace FleetLoadView

variable {B O : Type} [DecidableEq B] [DecidableEq O]

def empty : FleetLoadView B O := ⟨.empty, .empty⟩

/-- `apply(ev)`. -/
def apply (v : FleetLoadView B O) (origin : O) (inflight : Dict B Int) (unhealthy : List B) :
    FleetLoadView B O :=
  ⟨v.inflight.set origin inflight, v.unhealthy.set origin unhealthy⟩

/-- `peer_inflight(backend_id)`. -/
def peerInflight (v : FleetLoadView B O) (b : B) : Int :=
  (v.inflight.values.map fun d => d.getD b 0).sum

/-- `peer_unhealthy(backend_id)`. -/
def peerUnhealthy (v : FleetLoadView B O) (b : B) : Bool :=
  v.unhealthy.values.any fun l => l.contains b

end FleetLoadView

/-! ### Drain snapshot -/

/-- `InMemorySnapshotStore`: the backends recorded as drained. -/
abbrev SnapshotStore (B : Type) := Dict B Unit

namespace SnapshotStore

variable {B : Type} [DecidableEq B]

/-- `record_drain(backend_id, draining)`. -/
def recordDrain (s : SnapshotStore B) (b : B) (draining : Bool) : SnapshotStore B :=
  if draining then s.set b () else s.erase b

/-- `drained()`. -/
def drained (s : SnapshotStore B) : List B := s.keys

theorem mem_drained_recordDrain {s : SnapshotStore B} {b b' : B} {draining : Bool} :
    b' ∈ (s.recordDrain b draining).drained ↔
      if b' = b then draining = true else b' ∈ s.drained := by
  cases draining with
  | false =>
      simp only [recordDrain, drained, Dict.mem_keys_iff, Dict.get?_erase, Bool.false_eq_true,
        if_false]
      split <;> simp
  | true =>
      simp only [recordDrain, drained, Dict.mem_keys_iff, Dict.get?_set, if_true]
      split <;> simp

end SnapshotStore

/-! ### The coordinator -/

/-- `ClusterCoordinator`. -/
structure Coordinator (H B O : Type) where
  tree : RadixTree H B
  outbox : List (Event H B O)
  replicaId : O
  registry : Option (BackendRegistry B)
  store : Option (SnapshotStore B)
  fleet : FleetLoadView B O
  drain : DrainState B O
  membership : MembershipState B O
  seq : Int
  published : Int
  appliedRemote : Int

namespace Coordinator

variable {H B O : Type}

/-- `ClusterCoordinator(tree, bus, replica_id, registry=registry, store=store)`. -/
def init (tree : RadixTree H B) (replicaId : O) (registry : Option (BackendRegistry B))
    (store : Option (SnapshotStore B)) : Coordinator H B O where
  tree := tree
  outbox := []
  replicaId := replicaId
  registry := registry
  store := store
  fleet := .empty
  drain := .empty
  membership := .empty
  seq := 0
  published := 0
  appliedRemote := 0

/-- `self._seq += 1; self._bus.publish(event(self._seq)); self.published += 1`. -/
def send (c : Coordinator H B O) (event : Int → Event H B O) : Coordinator H B O :=
  { c with
    seq := c.seq + 1
    outbox := c.outbox ++ [event (c.seq + 1)]
    published := c.published + 1 }

/-- `publish_insert(hashes, backend_id)`. -/
def publishInsert (c : Coordinator H B O) (hashes : List H) (b : B) : Coordinator H B O :=
  if hashes.isEmpty then c
  else c.send fun seq => .prefixEvent .insert b c.replicaId seq hashes

/-- `publish_remove(backend_id)`. -/
def publishRemove (c : Coordinator H B O) (b : B) : Coordinator H B O :=
  c.send fun seq => .prefixEvent .removeBackend b c.replicaId seq []

variable [DecidableEq B]

/-- `publish_load(inflight, unhealthy)`: zero counts are left out. -/
def publishLoad (c : Coordinator H B O) (inflight : Dict B Int) (unhealthy : List B) :
    Coordinator H B O :=
  c.send fun seq => .loadEvent c.replicaId seq
    (inflight.filterKeys fun b => inflight.getD b 0 != 0) unhealthy

/-- `_reconcile_drains`. -/
def reconcileDrains (c : Coordinator H B O) : Coordinator H B O :=
  { c with
    registry := c.registry.map fun r =>
      r.ids.foldl (fun r b => (r.setDraining b (c.drain.isDrained b)).1) r }

/-- `publish_drain(backend_id, draining)`. -/
def publishDrain (c : Coordinator H B O) (b : B) (draining : Bool) : Coordinator H B O :=
  let (drain, ts) := c.drain.setLocal b draining c.replicaId
  let c := { c with drain := drain }
  let c := c.send fun seq => .drainEvent c.replicaId seq ts b draining
  let c := { c with store := c.store.map fun s => SnapshotStore.recordDrain s b draining }
  c.reconcileDrains

/-- `publish_member_add(backend_id, url, model)`. -/
def publishMemberAdd (c : Coordinator H B O) (b : B) (url model : String) : Coordinator H B O :=
  let (membership, ts) := c.membership.setLocal b ⟨true, url, model⟩ c.replicaId
  let c := { c with membership := membership }
  c.send fun seq => .memberEvent c.replicaId seq .add b url model ts

/-- `publish_member_remove(backend_id)`. -/
def publishMemberRemove (c : Coordinator H B O) (b : B) : Coordinator H B O :=
  let (membership, ts) := c.membership.setLocal b ⟨false, "", ""⟩ c.replicaId
  let c := { c with membership := membership }
  c.send fun seq => .memberEvent c.replicaId seq .remove b "" "" ts

/-- `publish_membership_digest()`. -/
def publishMembershipDigest (c : Coordinator H B O) : Coordinator H B O :=
  if c.membership.len = 0 then c
  else c.send fun seq => .membershipDigest c.replicaId seq c.membership.digest

/-- `publish_drain_digest()`. -/
def publishDrainDigest (c : Coordinator H B O) : Coordinator H B O :=
  if c.drain.len = 0 then c
  else c.send fun seq => .drainDigest c.replicaId seq c.drain.digest

/-- `_reconcile_membership`: add the present backends, then pop the tombstones, with
their prefix holdings if they were registered. -/
def reconcileMembership (c : Coordinator H B O) : Coordinator H B O :=
  match c.registry with
  | none => c
  | some r =>
      let r := c.membership.present.foldl
        (fun r (b, url, model) => (r.add b url (if model = "" then none else some model)).1) r
      let (r, tree) := c.membership.removed.foldl
        (fun (r, tree) b =>
          let (r, removed) := r.remove b
          (r, if removed then tree.removeBackend b else tree)) (r, c.tree)
      { c with registry := some r, tree := tree }

/-- `warm_start()`; the iteration order of the stored set is the argument. -/
def warmStart (c : Coordinator H B O) (drained : List B) : Coordinator H B O :=
  match c.store with
  | none => c
  | some _ =>
      let drain := drained.foldl (fun d b => (d.setLocal b true c.replicaId).1) c.drain
      { c with drain := drain }.reconcileDrains

variable [DecidableEq H] [LinearOrder O]

/-- The body of the loop of `sync`: also whether the drain map and the membership map
changed. -/
def applyEvent (c : Coordinator H B O) : Event H B O → Coordinator H B O × Bool × Bool
  | .loadEvent origin _ inflight unhealthy =>
      ({ c with fleet := c.fleet.apply origin inflight unhealthy }, false, false)
  | .drainEvent origin _ ts b draining =>
      let (drain, changed) := c.drain.apply b draining ts origin
      ({ c with drain := drain }, changed, false)
  | .drainDigest _ _ entries =>
      let (drain, changed) := c.drain.merge entries
      ({ c with drain := drain }, changed, false)
  | .memberEvent origin _ action b url model ts =>
      let (membership, changed) :=
        c.membership.apply b ⟨action = .add, url, model⟩ ts origin
      ({ c with membership := membership }, false, changed)
  | .membershipDigest _ _ entries =>
      let (membership, changed) := c.membership.merge entries
      ({ c with membership := membership }, false, changed)
  | .prefixEvent .insert b _ _ hashes => ({ c with tree := c.tree.insert hashes b }, false, false)
  | .prefixEvent .removeBackend b _ _ _ => ({ c with tree := c.tree.removeBackend b }, false, false)
  | .prefixEvent (.other _) _ _ _ _ => (c, false, false)

/-- The loop of `sync`. -/
def applyEvents : Coordinator H B O → List (Event H B O) → Coordinator H B O × Bool × Bool
  | c, [] => (c, false, false)
  | c, e :: rest =>
      let (c, drains, members) := c.applyEvent e
      let c := { c with appliedRemote := c.appliedRemote + 1 }
      let (c, drains', members') := applyEvents c rest
      (c, drains || drains', members || members')

/-- `sync()` on the events that `poll` returned. -/
def sync (c : Coordinator H B O) (events : List (Event H B O)) : Coordinator H B O × Nat :=
  let (c, drainsChanged, membersChanged) := c.applyEvents events
  let c := if drainsChanged then c.reconcileDrains else c
  let c := if membersChanged then c.reconcileMembership else c
  (c, events.length)

/-! ### Taking in a batch -/

/-- The drain operations that an event carries. -/
def drainOps : Event H B O → List (B × Entry Bool O)
  | .drainEvent origin _ ts b draining => [(b, ⟨draining, ts, origin⟩)]
  | .drainDigest _ _ entries => entries.items
  | _ => []

/-- The membership operations that an event carries. -/
def memberOps : Event H B O → List (B × Entry Member O)
  | .memberEvent origin _ action b url model ts => [(b, ⟨⟨action = .add, url, model⟩, ts, origin⟩)]
  | .membershipDigest _ _ entries => entries.items
  | _ => []

/-- The drain map after a batch, and whether a status changed. -/
def drainAfter (c : Coordinator H B O) (events : List (Event H B O)) : DrainState B O × Bool :=
  Lww.applyAll DrainState.differs c.drain (events.flatMap drainOps)

/-- The membership map after a batch, and whether a member changed. -/
def membershipAfter (c : Coordinator H B O) (events : List (Event H B O)) :
    MembershipState B O × Bool :=
  Lww.applyAll MembershipState.differs c.membership (events.flatMap memberOps)

theorem applyEvent_spec (c : Coordinator H B O) (e : Event H B O) :
    ((c.applyEvent e).1.drain, (c.applyEvent e).2.1) =
        Lww.applyAll DrainState.differs c.drain (drainOps e) ∧
      ((c.applyEvent e).1.membership, (c.applyEvent e).2.2) =
        Lww.applyAll MembershipState.differs c.membership (memberOps e) ∧
      (c.applyEvent e).1.registry = c.registry := by
  cases e with
  | prefixEvent kind b origin seq hashes =>
      cases kind <;> exact ⟨rfl, rfl, rfl⟩
  | loadEvent origin seq inflight unhealthy => exact ⟨rfl, rfl, rfl⟩
  | drainEvent origin seq ts b draining =>
      simp [applyEvent, drainOps, memberOps, Lww.applyAll, DrainState.apply]
  | drainDigest origin seq entries => exact ⟨rfl, rfl, rfl⟩
  | memberEvent origin seq action b url model ts =>
      simp [applyEvent, drainOps, memberOps, Lww.applyAll, MembershipState.apply]
  | membershipDigest origin seq entries => exact ⟨rfl, rfl, rfl⟩

/-- The loop of `sync` takes the operations of the batch into both maps. -/
theorem applyEvents_spec (c : Coordinator H B O) (events : List (Event H B O)) :
    ((c.applyEvents events).1.drain, (c.applyEvents events).2.1) = c.drainAfter events ∧
      ((c.applyEvents events).1.membership, (c.applyEvents events).2.2) =
        c.membershipAfter events ∧
      (c.applyEvents events).1.registry = c.registry := by
  induction events generalizing c with
  | nil => exact ⟨rfl, rfl, rfl⟩
  | cons e rest ih =>
      obtain ⟨drain, membership, registry⟩ := c.applyEvent_spec e
      obtain ⟨drain', membership', registry'⟩ := ih
        { (c.applyEvent e).1 with appliedRemote := (c.applyEvent e).1.appliedRemote + 1 }
      simp only [drainAfter, membershipAfter, List.flatMap_cons, Lww.applyAll_append] at *
      rw [← drain, ← membership]
      simp only at drain' membership' ⊢
      rw [← drain', ← membership']
      exact ⟨rfl, rfl, registry'.trans registry⟩

omit [DecidableEq H] [LinearOrder O] in
@[simp] theorem drain_reconcileDrains (c : Coordinator H B O) :
    c.reconcileDrains.drain = c.drain := rfl

omit [DecidableEq H] [LinearOrder O] in
@[simp] theorem membership_reconcileDrains (c : Coordinator H B O) :
    c.reconcileDrains.membership = c.membership := rfl

omit [DecidableEq H] [LinearOrder O] in
@[simp] theorem drain_reconcileMembership (c : Coordinator H B O) :
    c.reconcileMembership.drain = c.drain := by
  simp only [reconcileMembership]
  split <;> rfl

/-- Reconciling the registry leaves the drain map to the batch. -/
theorem drain_sync (c : Coordinator H B O) (events : List (Event H B O)) :
    (c.sync events).1.drain = (c.drainAfter events).1 := by
  have taken : (c.applyEvents events).1.drain = (c.drainAfter events).1 :=
    congrArg Prod.fst (c.applyEvents_spec events).1
  simp only [sync]
  split <;> split <;> simp [taken]

omit [DecidableEq H] [LinearOrder O] in
@[simp] theorem membership_reconcileMembership (c : Coordinator H B O) :
    c.reconcileMembership.membership = c.membership := by
  simp only [reconcileMembership]
  split <;> rfl

/-- Reconciling the registry leaves the membership map to the batch. -/
theorem membership_sync (c : Coordinator H B O) (events : List (Event H B O)) :
    (c.sync events).1.membership = (c.membershipAfter events).1 := by
  have taken : (c.applyEvents events).1.membership = (c.membershipAfter events).1 :=
    congrArg Prod.fst (c.applyEvents_spec events).2.1
  simp only [sync]
  split <;> split <;> simp [taken]

end Coordinator

end Gateway
