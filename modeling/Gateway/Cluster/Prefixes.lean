import Mathlib.Data.Fintype.Basic
import Mathlib.Order.Fin.Basic
import Gateway.Cluster.Coordinator
import Gateway.Lib.Machine
import Gateway.RadixTree.Naive

/-!
Prefix trees replicated over one broker.

Every replica has its own tree, coordinator and inbox at one `InMemoryBroker`
(`gateway/cluster/bus.py`). A replica inserts a prefix or removes a backend in its own
tree and publishes the mutation, which the broker appends at once to the inbox of every
other replica; `sync` drains the replica's own inbox and applies it in order.

So every inbox holds the mutations of the others in the order in which they were made,
but a replica applies its own mutation at once, ahead of what waits in its inbox. Inserts
of the same backend commute, and so do mutations of different backends; an insert and a
removal of the same backend do not.

* `Broker.Consistent`: what a replica has applied, followed by what waits in its inbox,
  leaves every backend with the same sequences as all mutations in the order in which
  they were made.
* `Broker.InOrder`: the condition on a step, no waiting mutation of the other kind on the
  backend that is mutated.
* `trees_agree`: under it, and as long as no tree evicts, all trees answer every query
  alike once the inboxes are empty.
* `trees_disagree_raced`: a removal overtaken by an insert that was waiting.
-/

namespace Gateway

/-! ### Mutations out of order -/

namespace RadixTree

variable {H B : Type} [DecidableEq H] [DecidableEq B]

omit [DecidableEq H] in
theorem sequences_append (ops more : List (Op H B)) (b : B) :
    sequences (ops ++ more) b = more.foldl (sequencesStep b) (sequences ops b) := by
  simp [sequences]

/-- Without a removal of `b`, the sequences of `b` only grow, in whatever order. -/
theorem mem_foldl_sequencesStep {ops : List (Op H B)} {b : B} (kept : .remove b ∉ ops)
    (seqs : List (List H)) (s : List H) :
    s ∈ ops.foldl (sequencesStep b) seqs ↔ s ∈ seqs ∨ .insert s b ∈ ops := by
  induction ops generalizing seqs with
  | nil => simp
  | cons op ops ih =>
      simp only [List.mem_cons, not_or] at kept
      rw [List.foldl_cons, ih kept.2]
      cases op with
      | insert h b' =>
          by_cases same : b' = b
          · subst same
            simp only [sequencesStep, if_true, List.mem_append, List.mem_cons, Op.insert.injEq,
              and_true]
            tauto
          · simp [sequencesStep, same, Ne.symm same]
      | remove b' =>
          have other : b' ≠ b := fun same => kept.1 (by rw [same])
          simp [sequencesStep, other]

omit [DecidableEq H] in
/-- Without an insert for `b`, nothing comes back after a removal. -/
theorem foldl_sequencesStep_nil {ops : List (Op H B)} {b : B}
    (none_inserted : ∀ h, Op.insert h b ∉ ops) : ops.foldl (sequencesStep b) [] = [] := by
  induction ops with
  | nil => rfl
  | cons op ops ih =>
      simp only [List.mem_cons, not_or] at none_inserted
      rw [List.foldl_cons]
      cases op with
      | insert h b' =>
          have other : b' ≠ b := by
            rintro rfl
            exact (none_inserted h).1 rfl
          simpa [sequencesStep, other] using ih fun h => (none_inserted h).2
      | remove b' => simpa [sequencesStep] using ih fun h => (none_inserted h).2

omit [DecidableEq H] in
/-- A mutation does the same to equal sets of sequences. -/
theorem mem_sequences_snoc_congr {ops ops' : List (Op H B)} {b : B}
    (same : ∀ s, s ∈ sequences ops b ↔ s ∈ sequences ops' b) (op : Op H B) (s : List H) :
    s ∈ sequences (ops ++ [op]) b ↔ s ∈ sequences (ops' ++ [op]) b := by
  rw [sequences_snoc, sequences_snoc]
  cases op with
  | insert h b' =>
      simp only [sequencesStep]
      split
      · simp only [List.mem_append, same]
      · exact same s
  | remove b' =>
      simp only [sequencesStep]
      split
      · rfl
      · exact same s

/-- A mutation conflicts with another one on the same backend of the other kind. -/
def Op.conflicts : Op H B → Op H B → Bool
  | .insert _ b, .remove b' => b = b'
  | .remove b, .insert _ b' => b = b'
  | _, _ => false

/-- A mutation may overtake those it does not conflict with. -/
theorem mem_sequences_overtake {op : Op H B} {waiting : List (Op H B)}
    (free : ∀ w ∈ waiting, op.conflicts w = false) (done : List (Op H B)) (b : B) (s : List H) :
    s ∈ sequences (done ++ [op] ++ waiting) b ↔ s ∈ sequences (done ++ waiting ++ [op]) b := by
  rw [sequences_append, sequences_snoc, sequences_snoc, sequences_append]
  cases op with
  | insert h b' =>
      by_cases here : b' = b
      · subst here
        have kept : .remove b' ∉ waiting := fun member => by
          simpa [Op.conflicts] using free _ member
        simp only [sequencesStep, if_true, List.mem_append, List.mem_singleton,
          mem_foldl_sequencesStep kept]
        tauto
      · simp [sequencesStep, here]
  | remove b' =>
      by_cases here : b' = b
      · subst here
        have none_inserted : ∀ h, Op.insert h b' ∉ waiting := fun h member => by
          simpa [Op.conflicts] using free _ member
        simp [sequencesStep, foldl_sequencesStep_nil none_inserted]
      · simp [sequencesStep, here]

/-- No call of a batch evicts anything. -/
def SparesAll : RadixTree H B → List (Op H B) → Prop
  | _, [] => True
  | t, op :: ops => t.Spares op ∧ SparesAll (t.apply op) ops

instance decidableSpares (t : RadixTree H B) : ∀ op, Decidable (t.Spares op)
  | .insert _ _ => inferInstanceAs (Decidable (_ ∨ _))
  | .remove _ => isTrue trivial

instance decidableSparesAll : ∀ (t : RadixTree H B) ops, Decidable (t.SparesAll ops)
  | _, [] => isTrue trivial
  | t, op :: ops =>
      have : Decidable (SparesAll (t.apply op) ops) := decidableSparesAll (t.apply op) ops
      inferInstanceAs (Decidable (t.Spares op ∧ _))

theorem HoldsSequences.applyAll {t : RadixTree H B} {path : NodeId → List H}
    {done ops : List (Op H B)} (inv : Inv t path) (holds : HoldsSequences t path done)
    (spares : t.SparesAll ops) :
    ∃ path', Inv (ops.foldl RadixTree.apply t) path' ∧
      HoldsSequences (ops.foldl RadixTree.apply t) path' (done ++ ops) := by
  induction ops generalizing t path done with
  | nil => exact ⟨path, inv, by simpa using holds⟩
  | cons op ops ih =>
      obtain ⟨path', inv', holds'⟩ := holds.apply inv op spares.1
      have rest := ih inv' holds' spares.2
      rwa [List.append_assoc, List.singleton_append] at rest

end RadixTree

/-! ### Syncing on prefix events -/

namespace Coordinator

variable {H B O : Type} [DecidableEq H] [DecidableEq B] [LinearOrder O]

open RadixTree (Op)

/-- The mutation that a prefix event carries. -/
def prefixOp : Event H B O → Option (Op H B)
  | .prefixEvent .insert b _ _ hashes => some (.insert hashes b)
  | .prefixEvent .removeBackend b _ _ _ => some (.remove b)
  | _ => none

/-- The mutations that a batch carries, in order. -/
def prefixOps (events : List (Event H B O)) : List (Op H B) := events.filterMap prefixOp

/-- Every event of the batch is a mutation. -/
def AllPrefix (events : List (Event H B O)) : Prop := ∀ e ∈ events, (prefixOp e).isSome = true

theorem tree_applyEvents (c : Coordinator H B O) (events : List (Event H B O)) :
    (c.applyEvents events).1.tree = (prefixOps events).foldl RadixTree.apply c.tree := by
  induction events generalizing c with
  | nil => rfl
  | cons e events ih =>
      refine (ih _).trans ?_
      cases e with
      | prefixEvent kind b origin seq hashes => cases kind <;> rfl
      | loadEvent origin seq inflight unhealthy => rfl
      | drainEvent origin seq ts b draining => rfl
      | drainDigest origin seq entries => rfl
      | memberEvent origin seq action b url model ts => rfl
      | membershipDigest origin seq entries => rfl

theorem replicaId_applyEvents (c : Coordinator H B O) (events : List (Event H B O)) :
    (c.applyEvents events).1.replicaId = c.replicaId ∧
      (c.applyEvents events).1.outbox = c.outbox := by
  induction events generalizing c with
  | nil => exact ⟨rfl, rfl⟩
  | cons e events ih =>
      obtain ⟨id, outbox⟩ := ih { (c.applyEvent e).1 with
        appliedRemote := (c.applyEvent e).1.appliedRemote + 1 }
      have same : (c.applyEvent e).1.replicaId = c.replicaId ∧
          (c.applyEvent e).1.outbox = c.outbox := by
        cases e with
        | prefixEvent kind b origin seq hashes => cases kind <;> exact ⟨rfl, rfl⟩
        | loadEvent origin seq inflight unhealthy => exact ⟨rfl, rfl⟩
        | drainEvent origin seq ts b draining => exact ⟨rfl, rfl⟩
        | drainDigest origin seq entries => exact ⟨rfl, rfl⟩
        | memberEvent origin seq action b url model ts => exact ⟨rfl, rfl⟩
        | membershipDigest origin seq entries => exact ⟨rfl, rfl⟩
      exact ⟨id.trans same.1, outbox.trans same.2⟩

/-- On mutations alone, `sync` applies them to the tree and reconciles nothing. -/
theorem sync_prefix_events (c : Coordinator H B O) {events : List (Event H B O)}
    (mutations : AllPrefix events) :
    (c.sync events).1.tree = (prefixOps events).foldl RadixTree.apply c.tree ∧
      (c.sync events).1.replicaId = c.replicaId ∧ (c.sync events).1.outbox = c.outbox := by
  have none_drain : events.flatMap drainOps = [] := by
    rw [List.flatMap_eq_nil_iff]
    intro e member
    have mutation := mutations e member
    cases e <;> simp_all [prefixOp, drainOps]
  have none_member : events.flatMap memberOps = [] := by
    rw [List.flatMap_eq_nil_iff]
    intro e member
    have mutation := mutations e member
    cases e <;> simp_all [prefixOp, memberOps]
  obtain ⟨drains, members, -⟩ := c.applyEvents_spec events
  have drains_same : (c.applyEvents events).2.1 = false := by
    simpa [drainAfter, none_drain, Lww.applyAll] using congrArg Prod.snd drains
  have members_same : (c.applyEvents events).2.2 = false := by
    simpa [membershipAfter, none_member, Lww.applyAll] using congrArg Prod.snd members
  simp only [sync, drains_same, members_same, Bool.false_eq_true, if_false]
  exact ⟨c.tree_applyEvents events, c.replicaId_applyEvents events⟩

end Coordinator

/-! ### Replicas on one broker -/

/-- A replica per id, and its inbox at the broker. -/
structure Broker (H B O : Type) where
  replica : O → Coordinator H B O
  inbox : O → List (Event H B O)

namespace Broker

variable {H B O : Type} [DecidableEq H] [DecidableEq B] [LinearOrder O]

open RadixTree (Op)
open Coordinator (prefixOp prefixOps AllPrefix)

/-- All replicas started, each with its own cap, registry and snapshot store. -/
def start (cap : O → Int) (registry : O → Option (BackendRegistry B))
    (store : O → Option (SnapshotStore B)) : Broker H B O where
  replica := fun r => .init (.init (cap r)) r (registry r) (store r)
  inbox := fun _ => []

/-- What can happen. -/
inductive Action (H B O : Type) where
  | insert (r : O) (hashes : List H) (b : B)
  | remove (r : O) (b : B)
  | sync (r : O)

/-- `broadcast(event)`. -/
def broadcast (inbox : O → List (Event H B O)) (e : Event H B O) : O → List (Event H B O) :=
  fun q => if q = e.origin then inbox q else inbox q ++ [e]

/-- Put a replica back after a call; what it published is broadcast. -/
def put (s : Broker H B O) (r : O) (c : Coordinator H B O) : Broker H B O where
  replica := Function.update s.replica r { c with outbox := [] }
  inbox := c.outbox.foldl broadcast s.inbox

/-- One action: `tree.insert` and `publish_insert`, `tree.remove_backend` and
`publish_remove`, or `sync` on the drained inbox. -/
def step (s : Broker H B O) : Action H B O → Option (Broker H B O)
  | .insert r hashes b =>
      let c := s.replica r
      some (s.put r ({ c with tree := c.tree.insert hashes b }.publishInsert hashes b))
  | .remove r b =>
      let c := s.replica r
      some (s.put r ({ c with tree := c.tree.removeBackend b }.publishRemove b))
  | .sync r =>
      some ({ s with inbox := Function.update s.inbox r [] }.put r
        ((s.replica r).sync (s.inbox r)).1)

/-- No tree evicts during the step. -/
def NoEviction (s : Broker H B O) : Action H B O → Prop
  | .insert r hashes b => (s.replica r).tree.Spares (.insert hashes b)
  | .remove _ _ => True
  | .sync r => (s.replica r).tree.SparesAll (prefixOps (s.inbox r))

instance decidableNoEviction (s : Broker H B O) : ∀ a, Decidable (s.NoEviction a)
  | .insert r hashes b => RadixTree.decidableSpares (s.replica r).tree (.insert hashes b)
  | .remove .. => isTrue trivial
  | .sync r => RadixTree.decidableSparesAll (s.replica r).tree (prefixOps (s.inbox r))

/-- The condition on a step: no mutation of the same backend and the other kind waits in
the inbox of the replica that mutates. -/
def InOrder (s : Broker H B O) : Action H B O → Prop
  | .insert r hashes b =>
      hashes = [] ∨ ∀ w ∈ prefixOps (s.inbox r), (Op.insert hashes b).conflicts w = false
  | .remove r b => ∀ w ∈ prefixOps (s.inbox r), (Op.remove b : Op H B).conflicts w = false
  | .sync _ => True

instance decidableInOrder (s : Broker H B O) : ∀ a, Decidable (s.InOrder a)
  | .insert .. => inferInstanceAs (Decidable (_ ∨ ∀ _ ∈ _, _))
  | .remove .. => inferInstanceAs (Decidable (∀ _ ∈ _, _))
  | .sync _ => isTrue trivial

/-! ### What every replica knows -/

/-- A replica's tree holds what its mutations `done` leave; with those that wait in its
inbox they leave every backend the same sequences as `log`. -/
def Caught (s : Broker H B O) (log : List (Op H B)) (r : O) : Prop :=
  ∃ path done, RadixTree.Inv (s.replica r).tree path ∧
    RadixTree.HoldsSequences (s.replica r).tree path done ∧
    ∀ b x, x ∈ RadixTree.sequences (done ++ prefixOps (s.inbox r)) b ↔
      x ∈ RadixTree.sequences log b

/-- `log` is all mutations in the order in which they were made. -/
structure Consistent (s : Broker H B O) (log : List (Op H B)) : Prop where
  id : ∀ r, (s.replica r).replicaId = r
  outbox : ∀ r, (s.replica r).outbox = []
  mutations : ∀ r, AllPrefix (s.inbox r)
  caught : ∀ r, s.Caught log r

omit [LinearOrder O] in
theorem start_consistent (cap : O → Int) (registry : O → Option (BackendRegistry B))
    (store : O → Option (SnapshotStore B)) :
    (start cap registry store : Broker H B O).Consistent [] where
  id := fun _ => rfl
  outbox := fun _ => rfl
  mutations := fun _ _ member => by cases member
  caught := by
    intro r
    refine ⟨_, [], RadixTree.init_inv (cap r), fun b p => ?_, fun _ _ => Iff.rfl⟩
    simp [RadixTree.sequences, RadixTree.Held, start, Coordinator.init, RadixTree.init]

section Step

variable {s : Broker H B O} {log : List (Op H B)}

/-- A replica mutates its own tree and publishes one event for it. -/
theorem Consistent.mutate (consistent : s.Consistent log) (op : Op H B) (e : Event H B O) {r : O}
    {c : Coordinator H B O} (tree : c.tree = (s.replica r).tree.apply op)
    (id : c.replicaId = r) (outbox : c.outbox = [e]) (carries : prefixOp e = some op)
    (origin : e.origin = r) (spares : (s.replica r).tree.Spares op)
    (free : ∀ w ∈ prefixOps (s.inbox r), op.conflicts w = false) :
    (s.put r c).Consistent (log ++ [op]) := by
  have inbox : ∀ q, (s.put r c).inbox q = if q = r then s.inbox q else s.inbox q ++ [e] := by
    intro q
    simp [put, outbox, broadcast, origin]
  constructor
  · intro q
    by_cases same : q = r
    · simpa [put, same] using id
    · simpa [put, same] using consistent.id q
  · intro q
    by_cases same : q = r
    · simp [put, same]
    · simpa [put, same] using consistent.outbox q
  · intro q e' member
    rw [inbox] at member
    split at member
    · exact consistent.mutations q e' member
    · rcases List.mem_append.mp member with before | new
      · exact consistent.mutations q e' before
      · rw [List.mem_singleton.mp new, carries]
        rfl
  · intro q
    obtain ⟨path, done, inv, holds, same_as⟩ := consistent.caught q
    by_cases same : q = r
    · subst same
      obtain ⟨path', inv', holds'⟩ := holds.apply inv op spares
      rw [← tree] at inv' holds'
      refine ⟨path', done ++ [op], ?_, ?_, fun b x => ?_⟩
      · simpa [put] using inv'
      · simpa [put] using holds'
      · rw [inbox, if_pos rfl, RadixTree.mem_sequences_overtake free]
        exact RadixTree.mem_sequences_snoc_congr (same_as b) op x
    · refine ⟨path, done, ?_, ?_, fun b x => ?_⟩
      · simpa [put, same] using inv
      · simpa [put, same] using holds
      · have waiting : prefixOps (s.inbox q ++ [e]) = prefixOps (s.inbox q) ++ [op] := by
          simp [prefixOps, carries]
        rw [inbox, if_neg same, waiting, ← List.append_assoc]
        exact RadixTree.mem_sequences_snoc_congr (same_as b) op x

/-- Draining an inbox only moves mutations from waiting to applied. -/
theorem Consistent.drain (consistent : s.Consistent log) {r : O}
    (spares : (s.replica r).tree.SparesAll (prefixOps (s.inbox r))) :
    ({ s with inbox := Function.update s.inbox r [] }.put r
      ((s.replica r).sync (s.inbox r)).1).Consistent log := by
  obtain ⟨tree, id, outbox⟩ := (s.replica r).sync_prefix_events (consistent.mutations r)
  have silent : ((s.replica r).sync (s.inbox r)).1.outbox = [] := outbox.trans (consistent.outbox r)
  constructor
  · intro q
    by_cases same : q = r
    · subst same
      simpa [put] using id.trans (consistent.id q)
    · simpa [put, same] using consistent.id q
  · intro q
    by_cases same : q = r
    · simp [put, same]
    · simpa [put, same] using consistent.outbox q
  · intro q e member
    by_cases same : q = r
    · simp [put, silent, same] at member
    · exact consistent.mutations q e (by simpa [put, silent, same] using member)
  · intro q
    obtain ⟨path, done, inv, holds, same_as⟩ := consistent.caught q
    by_cases same : q = r
    · subst same
      obtain ⟨path', inv', holds'⟩ := holds.applyAll inv spares
      rw [← tree] at inv' holds'
      refine ⟨path', done ++ prefixOps (s.inbox q), ?_, ?_, fun b x => ?_⟩
      · simpa [put] using inv'
      · simpa [put] using holds'
      · simpa [put, silent, prefixOps] using same_as b x
    · refine ⟨path, done, ?_, ?_, fun b x => ?_⟩
      · simpa [put, same] using inv
      · simpa [put, same] using holds
      · simpa [put, silent, same] using same_as b x

/-- Inserting the empty sequence is no mutation. -/
theorem Consistent.idle (consistent : s.Consistent log) (r : O) :
    (s.put r (s.replica r)).Consistent log := by
  have outbox := consistent.outbox r
  have kept : ({ s.replica r with outbox := [] } : Coordinator H B O) = s.replica r := by
    rw [← outbox]
  have same : s.put r (s.replica r) = s := by
    rw [put, kept, outbox, Function.update_eq_self]
    rfl
  rwa [same]

theorem step_consistent (a : Action H B O) {s' : Broker H B O} (consistent : s.Consistent log)
    (spares : s.NoEviction a) (ordered : s.InOrder a) (taken : s.step a = some s') :
    ∃ log', s'.Consistent log' := by
  cases a with
  | insert r hashes b =>
      cases taken
      by_cases empty : hashes = []
      · subst empty
        exact ⟨log, consistent.idle r⟩
      · have sent : hashes.isEmpty = false := by simpa using empty
        refine ⟨log ++ [.insert hashes b], ?_⟩
        simp only [Coordinator.publishInsert, sent, Bool.false_eq_true, if_false]
        refine consistent.mutate (.insert hashes b)
          (.prefixEvent .insert b (s.replica r).replicaId ((s.replica r).seq + 1) hashes) rfl
          (consistent.id r) ?_ rfl (consistent.id r) spares (ordered.resolve_left empty)
        simp [Coordinator.send, consistent.outbox r]
  | remove r b =>
      cases taken
      refine ⟨log ++ [.remove b], ?_⟩
      refine consistent.mutate (.remove b)
        (.prefixEvent .removeBackend b (s.replica r).replicaId ((s.replica r).seq + 1) []) rfl
        (consistent.id r) ?_ rfl (consistent.id r) trivial ordered
      simp [Coordinator.publishRemove, Coordinator.send, consistent.outbox r]
  | sync r =>
      cases taken
      exact ⟨log, consistent.drain spares⟩

end Step

/-- **Trees agree once the inboxes are empty.** In every run without evictions in which no
replica mutates a backend while a mutation of it of the other kind waits in its inbox,
all replicas' trees return the same `match(q)` for every `q` when no event waits. -/
theorem trees_agree (cap : O → Int) (registry : O → Option (BackendRegistry B))
    (store : O → Option (SnapshotStore B)) (as : List (Action H B O)) (s : Broker H B O)
    (spares : Machine.Along step NoEviction (start cap registry store) as)
    (ordered : Machine.Along step InOrder (start cap registry store) as)
    (reach : Machine.run step (start cap registry store) as = some s)
    (drained : ∀ r, s.inbox r = []) (r r' : O) (q : List H) (b : B) :
    ((s.replica r).tree.matchPrefix q).get? b = ((s.replica r').tree.matchPrefix q).get? b := by
  have keeps : ∀ (s : Broker H B O) a s', (∃ log, s.Consistent log) →
      (NoEviction s a ∧ InOrder s a) → s.step a = some s' → ∃ log, s'.Consistent log := by
    rintro s a s' ⟨log, consistent⟩ ⟨spares, ordered⟩ taken
    exact step_consistent a consistent spares ordered taken
  obtain ⟨log, consistent⟩ := Machine.run_invariant_along keeps
    ⟨[], start_consistent cap registry store⟩ (spares.and ordered) reach
  obtain ⟨path, done, inv, holds, same⟩ := consistent.caught r
  obtain ⟨path', done', inv', holds', same'⟩ := consistent.caught r'
  refine holds.matchPrefix_congr inv inv' holds' (fun x => ?_) q
  have left := same b x
  have right := same' b x
  rw [drained, prefixOps, List.filterMap_nil, List.append_nil] at left right
  rw [left, right]

/-- Two replicas insert for one backend at the same time, and one of them removes it after
it has synced. -/
theorem trees_agree_synced :
    let as : List (Action Nat String (Fin 2)) :=
      [.insert 0 [1, 2] "b", .insert 1 [1, 3] "b", .sync 0, .sync 1, .remove 1 "b",
        .insert 1 [7] "b", .sync 0]
    ∃ s, Machine.run step (start (fun _ => 8) (fun _ => none) fun _ => none) as = some s ∧
      ((s.replica 0).tree.matchPrefix [7]).get? "b" = some 1 ∧
      ∀ q b, ((s.replica 0).tree.matchPrefix q).get? b =
        ((s.replica 1).tree.matchPrefix q).get? b := by
  intro as
  have spares : Machine.Along step NoEviction
      (start (fun _ => 8) (fun _ => none) fun _ => none) as := by
    decide +kernel
  have ordered : Machine.Along step InOrder
      (start (fun _ => 8) (fun _ => none) fun _ => none) as := by
    decide +kernel
  obtain ⟨s, reach, drained, found⟩ : ∃ s,
      Machine.run step (start (fun _ => 8) (fun _ => none) fun _ => none) as = some s ∧
        (∀ r, s.inbox r = []) ∧ ((s.replica 0).tree.matchPrefix [7]).get? "b" = some 1 :=
    Machine.exists_run (by decide +kernel)
  refine ⟨s, reach, found, fun q b => ?_⟩
  exact trees_agree (fun _ => 8) (fun _ => none) (fun _ => none) as s spares ordered reach drained
    0 1 q b

/-- One replica removes a backend while another replica's insert for it waits in its inbox.
It applies the removal first and the insert afterwards; its peer applies them as they
were made. All inboxes are empty, and the trees answer differently. -/
theorem trees_disagree_raced :
    let as : List (Action Nat String (Fin 2)) :=
      [.insert 0 [1, 2] "b", .remove 1 "b", .sync 0, .sync 1]
    Machine.Along step NoEviction (start (fun _ => 8) (fun _ => none) fun _ => none) as ∧
      ∃ s, Machine.run step (start (fun _ => 8) (fun _ => none) fun _ => none) as = some s ∧
        (∀ r, s.inbox r = []) ∧
        ((s.replica 0).tree.matchPrefix [1, 2]).get? "b" = none ∧
        ((s.replica 1).tree.matchPrefix [1, 2]).get? "b" = some 2 := by
  intro as
  constructor
  · decide +kernel
  · exact Machine.exists_run (by decide +kernel)

end Broker

end Gateway
