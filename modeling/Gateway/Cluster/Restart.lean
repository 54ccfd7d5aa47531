import Mathlib.Data.String.Basic
import Gateway.Cluster.Coordinator
import Gateway.Lib.Machine

/-!
Drain decisions across joins and restarts.

A deployment is the running replicas, the snapshot store they share, and the wire:
every event and digest ever published. Replicas start (for the first time, or again
under their id, having lost their maps) and seed their drain map from the store;
they crash, publish drains and digests, and sync with what is on the wire.

`warm_start` stamps what it finds in the store as fresh local writes, under a clock
that starts from zero, and a restarted replica writes on under that clock. So a
stamp may exceed the version of a later decision, and a later decision may fall
short of a version that is still around.

* `StampWins`: what the replica that publishes a decision has to find for it to win,
  every version of the opposite value is below the stamp of the decision or below a
  published version that agrees with it.
* `last_decision_stands`: in every run whose last decision on a backend finds that,
  every running replica ends with the decision, once everything on the wire has
  arrived, whatever replicas join, crash and restart before or afterwards.
* `undrain_lost_after_join`: a run in which a joining replica's stamp beats an
  undrain, and the drain comes back.
-/

namespace Gateway

/-- The running replicas, the shared drain snapshot, and everything ever published. -/
structure Deployment (H B O : Type) where
  running : Dict O (Coordinator H B O)
  store : SnapshotStore B
  wire : List (Event H B O)

namespace Deployment

variable {H B O : Type}

/-- Nothing runs yet. -/
def empty : Deployment H B O := ⟨.empty, .empty, []⟩

/-- What can happen. `start` names the configuration of the replica, and the order in
which `warm_start` iterates over the stored set. -/
inductive Action (H B O : Type) where
  | start (r : O) (cap : Int) (registry : Option (BackendRegistry B)) (order : List B)
  | crash (r : O)
  | publishDrain (r : O) (b : B) (draining : Bool)
  | publishDrainDigest (r : O)
  | sync (r : O) (events : List (Event H B O))

variable [DecidableEq H] [DecidableEq B] [LinearOrder O]

/-- Put a replica back after a call: what it published goes on the wire, and its store
is the shared one. -/
def put (s : Deployment H B O) (r : O) (c : Coordinator H B O) : Deployment H B O where
  running := s.running.set r { c with outbox := [] }
  store := c.store.getD s.store
  wire := s.wire ++ c.outbox

/-- One action. A replica that does not run does nothing; a sync polls published
events, without the replica's own. -/
def step (s : Deployment H B O) : Action H B O → Option (Deployment H B O)
  | .start r cap registry order =>
      if order.Perm s.store.drained then
        some (s.put r ((Coordinator.init (.init cap) r registry (some s.store)).warmStart order))
      else none
  | .crash r => some { s with running := s.running.erase r }
  | .publishDrain r b draining =>
      (s.running.get? r).map fun c => s.put r ({ c with store := some s.store }.publishDrain b draining)
  | .publishDrainDigest r =>
      (s.running.get? r).map fun c => s.put r { c with store := some s.store }.publishDrainDigest
  | .sync r events =>
      if events.all fun e => s.wire.contains e && e.origin != r then
        (s.running.get? r).map fun c => s.put r ({ c with store := some s.store }.sync events).1
      else none

/-! ### Versions in a deployment -/

/-- A drain operation on the wire. -/
def Sent (s : Deployment H B O) (b : B) (x : Entry Bool O) : Prop :=
  ∃ e ∈ s.wire, (b, x) ∈ Coordinator.drainOps e

/-- An entry in the drain map of a running replica. -/
def Holds (s : Deployment H B O) (b : B) (x : Entry Bool O) : Prop :=
  ∃ r c, s.running.get? r = some c ∧ c.drain.entries.get? b = some x

/-- A replica's map reflects an operation: it holds that version or a greater one. -/
def reflects (c : Coordinator H B O) (op : B × Entry Bool O) : Bool :=
  match c.drain.entries.get? op.1 with
  | none => false
  | some x => op.2.version ≤ x.version

/-- All events and digests have been delivered: every running replica's map reflects
every operation on the wire, received directly or inside a later digest. -/
def AllDelivered (s : Deployment H B O) : Prop :=
  ∀ item ∈ s.running.items, ∀ e ∈ s.wire, ∀ op ∈ Coordinator.drainOps e, reflects item.2 op = true

instance (s : Deployment H B O) : Decidable s.AllDelivered :=
  inferInstanceAs (Decidable (∀ _ ∈ _, ∀ _ ∈ _, ∀ _ ∈ _, _))

/-- The versions of `b` on the wire. -/
def sentOn (s : Deployment H B O) (b : B) : List (Entry Bool O) :=
  (s.wire.flatMap Coordinator.drainOps).filterMap fun op => if op.1 = b then some op.2 else none

/-- The versions of `b` in the maps of the running replicas. -/
def heldOn (s : Deployment H B O) (b : B) : List (Entry Bool O) :=
  s.running.items.filterMap fun item => item.2.drain.entries.get? b

omit [DecidableEq H] [LinearOrder O] in
theorem mem_sentOn {s : Deployment H B O} {b : B} {x : Entry Bool O} :
    x ∈ s.sentOn b ↔ s.Sent b x := by
  simp only [sentOn, Sent, List.mem_filterMap, List.mem_flatMap, Prod.exists]
  constructor
  · rintro ⟨b', x', carried, here⟩
    split at here
    · rename_i same
      cases here
      cases same
      exact carried
    · cases here
  · intro carried
    exact ⟨b, x, carried, if_pos rfl⟩

omit [DecidableEq H] in
theorem mem_heldOn {s : Deployment H B O} {b : B} {x : Entry Bool O} :
    x ∈ s.heldOn b ↔ s.Holds b x := by
  simp only [heldOn, Holds, List.mem_filterMap, Prod.exists, Dict.mem_items_iff]

/-- What a decision has to find: every version of the opposite value, in flight or in a
running replica's map, is below the version that `r` is about to stamp or below a
published version that agrees with the decision. -/
def StampWins (s : Deployment H B O) (r : O) (b : B) (draining : Bool) : Prop :=
  ∀ c ∈ s.running.get? r, ∀ x ∈ s.sentOn b ++ s.heldOn b, x.value ≠ draining →
    x.version < Entry.version ⟨draining, c.drain.clock + 1, r⟩ ∨
      ∃ y ∈ s.sentOn b, y.value = draining ∧ x.version < y.version

instance (s : Deployment H B O) (r : O) (b : B) (draining : Bool) :
    Decidable (s.StampWins r b draining) :=
  inferInstanceAs (Decidable (∀ _ ∈ _, ∀ _ ∈ _, _ → _))

/-- A decision on `b` that stands: it is on the wire, the store agrees with it, and
every opposite version is below a published one that agrees. -/
structure Decided (s : Deployment H B O) (b : B) (draining : Bool) : Prop where
  sent : ∃ x, s.Sent b x ∧ x.value = draining
  stale : ∀ x, s.Sent b x ∨ s.Holds b x → x.value ≠ draining →
    ∃ y, s.Sent b y ∧ y.value = draining ∧ x.version < y.version
  store : b ∈ s.store.drained ↔ draining = true

omit [DecidableEq H] in
/-- Once everything is delivered, a decision that stands is held everywhere. -/
theorem Decided.held {s : Deployment H B O} {b : B} {draining : Bool}
    (decided : s.Decided b draining) (delivered : s.AllDelivered) {r : O}
    {c : Coordinator H B O} (runs : s.running.get? r = some c) :
    ∃ x, c.drain.entries.get? b = some x ∧ x.value = draining := by
  have reflected : ∀ y, s.Sent b y → ∃ x, c.drain.entries.get? b = some x ∧
      y.version ≤ x.version := by
    rintro y ⟨e, published, carried⟩
    have := delivered (r, c) (Dict.mem_items_iff.mpr runs) e published (b, y) carried
    simp only [reflects] at this
    split at this
    · cases this
    · rename_i x held
      exact ⟨x, held, of_decide_eq_true this⟩
  obtain ⟨y, sent, _⟩ := decided.sent
  obtain ⟨x, held, _⟩ := reflected y sent
  refine ⟨x, held, ?_⟩
  by_contra opposite
  obtain ⟨z, sent', _, less⟩ := decided.stale x (.inr ⟨r, c, runs, held⟩) opposite
  obtain ⟨x', held', le⟩ := reflected z sent'
  rw [held] at held'
  cases held'
  exact absurd less (not_lt.mpr le)

/-! ### The calls -/

omit [DecidableEq H] in
/-- Where the operations on `b` in a deployment come from after a call on `r`: from
before, from the new map of `r`, or from what it published. -/
theorem sent_or_holds_put {s : Deployment H B O} {r : O} {c : Coordinator H B O} {b : B}
    {x : Entry Bool O} (found : (s.put r c).Sent b x ∨ (s.put r c).Holds b x) :
    (s.Sent b x ∨ s.Holds b x) ∨ (∃ e ∈ c.outbox, (b, x) ∈ Coordinator.drainOps e) ∨
      c.drain.entries.get? b = some x := by
  rcases found with ⟨e, published, carried⟩ | ⟨q, c', runs, held⟩
  · rcases List.mem_append.mp published with before | new
    · exact .inl (.inl ⟨e, before, carried⟩)
    · exact .inr (.inl ⟨e, new, carried⟩)
  · simp only [put, Dict.get?_set] at runs
    split at runs
    · cases runs
      exact .inr (.inr held)
    · exact .inl (.inr ⟨q, c', runs, held⟩)

omit [DecidableEq H] [DecidableEq B] in
theorem Sent.put {s : Deployment H B O} {b : B} {x : Entry Bool O} (sent : s.Sent b x) (r : O)
    (c : Coordinator H B O) : (s.put r c).Sent b x := by
  obtain ⟨e, published, carried⟩ := sent
  exact ⟨e, List.mem_append_left _ published, carried⟩

omit [DecidableEq H] in
/-- A call that brings in no opposite version of `b` and leaves the store of `b` alone
keeps a decision standing. -/
theorem Decided.put {s : Deployment H B O} {b : B} {draining : Bool} (decided : s.Decided b draining)
    {r : O} {c : Coordinator H B O}
    (published : ∀ e ∈ c.outbox, ∀ x, (b, x) ∈ Coordinator.drainOps e →
      s.Sent b x ∨ s.Holds b x ∨ x.value = draining)
    (held : ∀ x, c.drain.entries.get? b = some x → s.Sent b x ∨ s.Holds b x ∨ x.value = draining)
    (store : b ∈ (c.store.getD s.store).drained ↔ b ∈ s.store.drained) :
    (s.put r c).Decided b draining where
  sent := by
    obtain ⟨x, sent, agrees⟩ := decided.sent
    exact ⟨x, sent.put r c, agrees⟩
  stale := by
    intro x found opposite
    have before : s.Sent b x ∨ s.Holds b x := by
      rcases sent_or_holds_put found with before | ⟨e, new, carried⟩ | now
      · exact before
      · rcases published e new x carried with sent | holds | agrees
        · exact .inl sent
        · exact .inr holds
        · exact absurd agrees opposite
      · rcases held x now with sent | holds | agrees
        · exact .inl sent
        · exact .inr holds
        · exact absurd agrees opposite
    obtain ⟨y, sent, agrees, less⟩ := decided.stale x before opposite
    exact ⟨y, sent.put r c, agrees, less⟩
  store := store.trans decided.store

omit [DecidableEq H] [LinearOrder O] in
/-- `warm_start` on a fresh replica brings in stamps of the stored backends only. -/
theorem held_warmStart {r : O} {cap : Int} {registry : Option (BackendRegistry B)}
    {store : SnapshotStore B} {order : List B} {b : B} {x : Entry Bool O}
    (held : ((Coordinator.init (.init cap : RadixTree H B) r registry (some store)).warmStart
      order).drain.entries.get? b = some x) : b ∈ order ∧ x.value = true := by
  have fold : ∀ (l : List B) (d : DrainState B O),
      (l.foldl (fun d b => (d.setLocal b true r).1) d).entries.get? b = some x →
        d.entries.get? b = some x ∨ (b ∈ l ∧ x.value = true) := by
    intro l
    induction l with
    | nil => exact fun d held => .inl held
    | cons a rest ih =>
        intro d held
        rcases ih _ held with before | ⟨member, drained⟩
        · change (Lww.setLocal d a true r).1.entries.get? b = some x at before
          rw [Lww.get?_setLocal] at before
          split at before
          · rename_i here
            cases before
            exact .inr ⟨here ▸ List.mem_cons_self, rfl⟩
          · exact .inl before
        · exact .inr ⟨List.mem_cons_of_mem _ member, drained⟩
  rcases fold order .empty held with none_held | stamped
  · cases none_held
  · exact stamped

/-- The outbox, the store and the id of a replica do not change in the other calls. -/
def Quiet (c c' : Coordinator H B O) : Prop :=
  c'.outbox = c.outbox ∧ c'.store = c.store ∧ c'.replicaId = c.replicaId

omit [DecidableEq H] [DecidableEq B] [LinearOrder O] in
theorem Quiet.trans {c c' c'' : Coordinator H B O} (first : Quiet c c') (second : Quiet c' c'') :
    Quiet c c'' :=
  ⟨second.1.trans first.1, second.2.1.trans first.2.1, second.2.2.trans first.2.2⟩

theorem quiet_applyEvents (c : Coordinator H B O) (events : List (Event H B O)) :
    Quiet c (c.applyEvents events).1 := by
  induction events generalizing c with
  | nil => exact ⟨rfl, rfl, rfl⟩
  | cons e rest ih =>
      have one : Quiet c
          { (c.applyEvent e).1 with appliedRemote := (c.applyEvent e).1.appliedRemote + 1 } := by
        cases e with
        | prefixEvent kind => cases kind <;> exact ⟨rfl, rfl, rfl⟩
        | _ => exact ⟨rfl, rfl, rfl⟩
      exact one.trans (ih _)

/-- A sync publishes nothing and does not touch the store. -/
theorem quiet_sync (c : Coordinator H B O) (events : List (Event H B O)) :
    Quiet c (c.sync events).1 := by
  have drains : ∀ c : Coordinator H B O, Quiet c c.reconcileDrains := fun c => ⟨rfl, rfl, rfl⟩
  have members : ∀ c : Coordinator H B O, Quiet c c.reconcileMembership := by
    intro c
    simp only [Coordinator.reconcileMembership]
    split <;> exact ⟨rfl, rfl, rfl⟩
  have batch := quiet_applyEvents c events
  simp only [Coordinator.sync]
  split <;> split
  · exact (batch.trans (drains _)).trans (members _)
  · exact batch.trans (members _)
  · exact batch.trans (drains _)
  · exact batch

/-! ### Runs -/

/-- Between actions, replicas have nothing left to publish and go by their id. -/
def Idle (s : Deployment H B O) : Prop :=
  ∀ r c, s.running.get? r = some c → c.outbox = [] ∧ c.replicaId = r

omit [DecidableEq H] [DecidableEq B] in
theorem idle_put {s : Deployment H B O} (idle : s.Idle) {r : O} {c : Coordinator H B O}
    (id : c.replicaId = r) : (s.put r c).Idle := by
  intro q c' runs
  simp only [put, Dict.get?_set] at runs
  split at runs
  · rename_i same
    cases runs
    exact ⟨rfl, id.trans same.symm⟩
  · exact idle q c' runs

theorem step_idle {s s' : Deployment H B O} {a : Action H B O} (idle : s.Idle)
    (taken : s.step a = some s') : s'.Idle := by
  cases a with
  | start r cap registry order =>
      simp only [step] at taken
      split at taken
      · cases taken
        exact idle_put idle rfl
      · cases taken
  | crash r =>
      cases taken
      intro q c runs
      simp only [Dict.get?_erase] at runs
      split at runs
      · cases runs
      · exact idle q c runs
  | publishDrain r b draining =>
      obtain ⟨c, runs, rfl⟩ := Option.map_eq_some_iff.mp taken
      exact idle_put idle (idle r c runs).2
  | publishDrainDigest r =>
      obtain ⟨c, runs, rfl⟩ := Option.map_eq_some_iff.mp taken
      refine idle_put idle ?_
      simp only [Coordinator.publishDrainDigest]
      split <;> exact (idle r c runs).2
  | sync r events =>
      simp only [step] at taken
      split at taken
      · obtain ⟨c, runs, rfl⟩ := Option.map_eq_some_iff.mp taken
        exact idle_put idle ((quiet_sync _ events).2.2.trans (idle r c runs).2)
      · cases taken

omit [DecidableEq H] [LinearOrder O] in
/-- What `publish_drain` does to the drain map, the outbox and the store. -/
theorem publishDrain_spec (c : Coordinator H B O) (b : B) (draining : Bool) :
    (c.publishDrain b draining).drain = (c.drain.setLocal b draining c.replicaId).1 ∧
      (c.publishDrain b draining).outbox = c.outbox ++
        [.drainEvent c.replicaId (c.seq + 1) (c.drain.clock + 1) b draining] ∧
      (c.publishDrain b draining).store = c.store.map fun s => SnapshotStore.recordDrain s b draining :=
  ⟨rfl, rfl, rfl⟩

section Decisions

variable {s s' : Deployment H B O} {b : B} {draining : Bool}

/-- A replica that starts takes its drains from the store. -/
theorem Decided.start (decided : s.Decided b draining) {r : O} {cap : Int}
    {registry : Option (BackendRegistry B)} {order : List B}
    (taken : s.step (.start r cap registry order) = some s') : s'.Decided b draining := by
  simp only [step] at taken
  split at taken
  · rename_i perm
    cases taken
    refine decided.put (fun e new => ?_) (fun x held => ?_) Iff.rfl
    · cases new
    · obtain ⟨stored, drained⟩ := held_warmStart held
      rw [drained, eq_comm, ← decided.store]
      exact .inr (.inr (perm.subset stored))
  · cases taken

theorem Decided.crash (decided : s.Decided b draining) {r : O}
    (taken : s.step (.crash r) = some s') : s'.Decided b draining := by
  cases taken
  refine ⟨decided.sent, fun x found opposite => ?_, decided.store⟩
  refine decided.stale x (found.imp_right ?_) opposite
  rintro ⟨q, c, runs, held⟩
  simp only [Dict.get?_erase] at runs
  split at runs
  · cases runs
  · exact ⟨q, c, runs, held⟩

/-- A decision on another backend. -/
theorem Decided.publishDrain (decided : s.Decided b draining) (idle : s.Idle) {r : O} {b' : B}
    {d : Bool} (ne : b ≠ b') (taken : s.step (.publishDrain r b' d) = some s') :
    s'.Decided b draining := by
  obtain ⟨c, runs, rfl⟩ := Option.map_eq_some_iff.mp taken
  obtain ⟨drain, outbox, store⟩ := publishDrain_spec { c with store := some s.store } b' d
  refine decided.put (fun e new x carried => ?_) (fun x held => ?_) ?_
  · rw [outbox, (idle r c runs).1, List.nil_append, List.mem_singleton] at new
    subst new
    exact absurd (Prod.mk.inj (List.mem_singleton.mp carried)).1 ne
  · rw [drain] at held
    change (Lww.setLocal c.drain b' d c.replicaId).1.entries.get? b = some x at held
    rw [Lww.get?_setLocal, if_neg ne] at held
    exact .inr (.inl ⟨r, c, runs, held⟩)
  · rw [store]
    show b ∈ (SnapshotStore.recordDrain s.store b' d).drained ↔ _
    rw [SnapshotStore.mem_drained_recordDrain, if_neg ne]

/-- A digest repeats what its replica holds. -/
theorem Decided.publishDrainDigest (decided : s.Decided b draining) (idle : s.Idle) {r : O}
    (taken : s.step (.publishDrainDigest r) = some s') : s'.Decided b draining := by
  obtain ⟨c, runs, rfl⟩ := Option.map_eq_some_iff.mp taken
  simp only [Coordinator.publishDrainDigest]
  split
  · refine decided.put (fun e new => ?_) (fun x held => .inr (.inl ⟨r, c, runs, held⟩)) Iff.rfl
    change e ∈ c.outbox at new
    rw [(idle r c runs).1] at new
    cases new
  · refine decided.put (fun e new x carried => ?_)
      (fun x held => .inr (.inl ⟨r, c, runs, held⟩)) Iff.rfl
    simp only [Coordinator.send, (idle r c runs).1, List.nil_append, List.mem_singleton] at new
    subst new
    exact .inr (.inl ⟨r, c, runs, Dict.mem_items_iff.mp carried⟩)

/-- What a replica takes in was held or sent before. -/
theorem Decided.sync (decided : s.Decided b draining) (idle : s.Idle) {r : O}
    {events : List (Event H B O)} (taken : s.step (.sync r events) = some s') :
    s'.Decided b draining := by
  simp only [step] at taken
  split at taken
  · rename_i polled
    obtain ⟨c, runs, rfl⟩ := Option.map_eq_some_iff.mp taken
    obtain ⟨outbox, store, _⟩ := quiet_sync { c with store := some s.store } events
    refine decided.put (fun e new => ?_) (fun x held => ?_) ?_
    · rw [outbox, (idle r c runs).1] at new
      cases new
    · rw [Coordinator.drain_sync] at held
      rcases Lww.stored_applyAll held with before | taken_in
      · exact .inr (.inl ⟨r, c, runs, before⟩)
      · obtain ⟨e, member, carried⟩ := List.mem_flatMap.mp taken_in
        have sent := (Bool.and_eq_true_iff.mp (List.all_eq_true.mp polled e member)).1
        exact .inl ⟨e, List.contains_iff_mem.mp sent, carried⟩
    · rw [store]
      rfl
  · cases taken

/-- **A decision that stands survives every action but a new decision on the same
backend.** -/
theorem step_decided {a : Action H B O} (idle : s.Idle) (decided : s.Decided b draining)
    (taken : s.step a = some s') (other : ∀ q d, a ≠ .publishDrain q b d) :
    s'.Decided b draining := by
  cases a with
  | start r cap registry order => exact decided.start taken
  | crash r => exact decided.crash taken
  | publishDrain r b' d =>
      have ne : b ≠ b' := fun same => other r d (by rw [same])
      exact decided.publishDrain idle ne taken
  | publishDrainDigest r => exact decided.publishDrainDigest idle taken
  | sync r events => exact decided.sync idle taken

end Decisions

/-- **A decision that finds what it needs stands.** -/
theorem publish_decided {s s' : Deployment H B O} {r : O} {b : B} {draining : Bool}
    (idle : s.Idle) (wins : s.StampWins r b draining)
    (taken : s.step (.publishDrain r b draining) = some s') : s'.Decided b draining := by
  obtain ⟨c, runs, rfl⟩ := Option.map_eq_some_iff.mp taken
  obtain ⟨empty, id⟩ := idle r c runs
  obtain ⟨drain, outbox, store⟩ := publishDrain_spec { c with store := some s.store } b draining
  set c' := { c with store := some s.store }.publishDrain b draining
  have sent : (s.put r c').Sent b ⟨draining, c.drain.clock + 1, r⟩ := by
    refine ⟨.drainEvent r (c.seq + 1) (c.drain.clock + 1) b draining, ?_, List.mem_singleton_self _⟩
    refine List.mem_append_right _ ?_
    rw [outbox]
    simp [id]
  refine ⟨⟨_, sent, rfl⟩, fun x found opposite => ?_, ?_⟩
  · rcases sent_or_holds_put found with before | ⟨e, new, carried⟩ | now
    · have known : x ∈ s.sentOn b ++ s.heldOn b :=
        List.mem_append.mpr (before.imp mem_sentOn.mpr mem_heldOn.mpr)
      rcases wins c runs x known opposite with less | ⟨y, sent', agrees, less⟩
      · exact ⟨_, sent, rfl, less⟩
      · exact ⟨y, (mem_sentOn.mp sent').put r c', agrees, less⟩
    · rw [outbox] at new
      simp only [empty, List.nil_append, List.mem_singleton] at new
      subst new
      rw [(Prod.mk.inj (List.mem_singleton.mp carried)).2] at opposite
      exact absurd rfl opposite
    · rw [drain] at now
      change (Lww.setLocal c.drain b draining c.replicaId).1.entries.get? b = some x at now
      rw [Lww.get?_setLocal, if_pos rfl] at now
      cases now
      exact absurd rfl opposite
  · show b ∈ (c'.store.getD s.store).drained ↔ _
    rw [store]
    show b ∈ (SnapshotStore.recordDrain s.store b draining).drained ↔ _
    rw [SnapshotStore.mem_drained_recordDrain, if_pos rfl]

omit [DecidableEq H] [DecidableEq B] in
theorem empty_idle : (empty : Deployment H B O).Idle := fun _ _ runs => by cases runs

/-- **The last decision on a backend stands.** In every run of a deployment with joins,
crashes and restarts, if the last `publish_drain` on `b` finds that its stamp wins, then
once all events and digests are delivered every running replica holds its value. -/
theorem last_decision_stands {before after : List (Action H B O)} {r : O} {b : B}
    {draining : Bool} {s : Deployment H B O}
    (reach : Machine.run step empty (before ++ .publishDrain r b draining :: after) = some s)
    (wins : ∀ mid, Machine.run step empty before = some mid → mid.StampWins r b draining)
    (last : ∀ a ∈ after, ∀ q d, a ≠ .publishDrain q b d) (delivered : s.AllDelivered) :
    ∀ q c, s.running.get? q = some c →
      ∃ x, c.drain.entries.get? b = some x ∧ x.value = draining := by
  obtain ⟨mid, reach_mid, rest⟩ := Machine.run_append_eq_some.mp reach
  obtain ⟨decision, taken, rest⟩ := Machine.run_cons_eq_some.mp rest
  have idle_mid : mid.Idle :=
    Machine.run_invariant (fun _ _ _ idle taken => step_idle idle taken) empty_idle reach_mid
  have decided : decision.Decided b draining :=
    publish_decided idle_mid (wins mid reach_mid) taken
  have along : Machine.Along step (fun _ a => ∀ q d, a ≠ .publishDrain q b d) decision after :=
    .of_forall decision fun a member _ => last a member
  have settled : s.Idle ∧ s.Decided b draining := by
    refine Machine.run_invariant_along (I := fun s => s.Idle ∧ s.Decided b draining) ?_
      ⟨step_idle idle_mid taken, decided⟩ along rest
    rintro s a s' ⟨idle, decided⟩ other taken
    exact ⟨step_idle idle taken, step_decided idle decided taken other⟩
  intro q c runs
  exact settled.2.held delivered runs

/-- `A` drains `b1`, crashes and restarts, seeded from the store. -/
def restarted : List (Action Nat String String) :=
  [.start "A" 8 none [], .start "B" 8 none [], .publishDrain "A" "b1" true,
    .sync "B" [.drainEvent "A" 1 1 "b1" true], .crash "A", .start "A" 8 none ["b1"]]

theorem last_decision_stands_restarted :
    ∃ s, Machine.run step empty (restarted ++ .publishDrain "B" "b1" false ::
        [.sync "A" [.drainEvent "B" 1 2 "b1" false]]) = some s ∧ s.AllDelivered ∧
      ∀ q c, s.running.get? q = some c →
        ∃ x, c.drain.entries.get? "b1" = some x ∧ x.value = false := by
  obtain ⟨s, reach, delivered⟩ : ∃ s, Machine.run step empty (restarted ++
      .publishDrain "B" "b1" false :: [.sync "A" [.drainEvent "B" 1 2 "b1" false]]) = some s ∧
      s.AllDelivered := Machine.exists_run (by decide +kernel)
  obtain ⟨mid, reach_mid, wins⟩ : ∃ mid, Machine.run step empty restarted = some mid ∧
      mid.StampWins "B" "b1" false := Machine.exists_run (by decide +kernel)
  refine ⟨s, reach, delivered, last_decision_stands reach ?_ (by simp) delivered⟩
  intro mid' reach_mid'
  rw [reach_mid] at reach_mid'
  cases reach_mid'
  exact wins

/-- `A` drains `b1` and `B` drains `b2`; `C` joins, stamps both from the store, and
receives both events. -/
def lateJoin : List (Action Nat String String) :=
  [.start "A" 8 none [], .start "B" 8 none [], .publishDrain "A" "b1" true,
    .publishDrain "B" "b2" true, .sync "A" [.drainEvent "B" 1 1 "b2" true],
    .sync "B" [.drainEvent "A" 1 1 "b1" true], .start "C" 8 none ["b1", "b2"],
    .sync "C" [.drainEvent "A" 1 1 "b1" true, .drainEvent "B" 1 1 "b2" true]]

/-- The event of an undrain of `b2` by `A`, then the digest of `C`. -/
def lateDigest : List (Action Nat String String) :=
  [.sync "B" [.drainEvent "A" 2 2 "b2" false], .sync "C" [.drainEvent "A" 2 2 "b2" false],
    .publishDrainDigest "C",
    .sync "A" [.drainDigest "C" 1 ((Dict.empty.set "b1" ⟨true, 1, "C"⟩).set "b2" ⟨true, 2, "C"⟩)],
    .sync "B" [.drainDigest "C" 1 ((Dict.empty.set "b1" ⟨true, 1, "C"⟩).set "b2" ⟨true, 2, "C"⟩)]]

/-- Whether every running replica holds a value for a backend. -/
def allHold (s : Deployment H B O) (b : B) (draining : Bool) : Bool :=
  s.running.items.all fun item =>
    (item.2.drain.entries.get? b).map Entry.value == some draining

/-- **An undrain is lost.** Before `A` undrains `b2`, the only earlier decision on it
has reached all three replicas; afterwards everything is delivered, and every replica
holds `b2` as drained: the stamp `(2, C)` of the joining replica beats the decision
`(2, A)`. -/
theorem undrain_lost_after_join :
    (∃ mid, Machine.run step (empty : Deployment Nat String String) lateJoin = some mid ∧
      mid.AllDelivered ∧ mid.running.keys = ["A", "B", "C"]) ∧
    ∃ s, Machine.run step (empty : Deployment Nat String String)
        (lateJoin ++ .publishDrain "A" "b2" false :: lateDigest) = some s ∧
      s.AllDelivered ∧ s.running.keys = ["A", "B", "C"] ∧ s.allHold "b2" true = true ∧
      "b2" ∉ s.store.drained :=
  ⟨Machine.exists_run (by decide +kernel), Machine.exists_run (by decide +kernel)⟩

end Deployment

end Gateway
