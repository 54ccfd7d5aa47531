import Gateway.Cluster.Reconcile

/-!
When replicas with equal membership maps have equal registries.

A fleet is a replica per id, all started with the same backend configuration, and the
wire: every event and digest ever published. Operators add and remove backends on any
replica; replicas publish digests and sync with any published events of the others, in
any order and any number of times.

A membership map determines ids, urls and models (`Startup.expected`): a backend it
names present has the url and the model it gives, a tombstone has no record, and any
other backend is as configured. The registry of a replica follows its map in ids and
urls on every path. It does not follow it in models: `BackendRegistry.add` updates only
the url of an existing record, and a change of the model alone is not reported as a
change. So two replicas with equal maps can end up with different models for a backend.

* `Coordinator.Follows`: the registry is the one that the map determines.
* `Replicas.KeepsModels`: the condition on a step, no record that stays changes its
  model.
* `registries_agree`: under it, equal maps give equal registries in every reachable
  fleet.
* `registries_disagree_remodelled`: an operator adds a backend again under another
  model.
-/

namespace Gateway

namespace BackendRegistry

variable {B : Type} [DecidableEq B]

/-- The url and the model of a registered backend. -/
def record (r : BackendRegistry B) (b : B) : Option (String × String) :=
  (r.get b).map fun be => (be.url, be.model)

/-- The record that a startup registry and a membership map determine. -/
def expected {O : Type} (startup : BackendRegistry B) (m : MembershipState B O) (b : B) :
    Option (String × String) :=
  match m.entries.get? b with
  | none => startup.record b
  | some e =>
      if e.value.present then some (e.value.url, startup.modelOr (some e.value.model)) else none

omit [DecidableEq B] in
theorem modelOr_congr {r r' : BackendRegistry B} (same : r.defaultModel = r'.defaultModel)
    (model : Option String) : r.modelOr model = r'.modelOr model := by
  simp only [modelOr, same]

omit [DecidableEq B] in
theorem modelOr_getD (r : BackendRegistry B) (model : Option String) :
    r.modelOr (some (model.getD "")) = r.modelOr model := by
  cases model <;> simp [modelOr]

end BackendRegistry

namespace Coordinator

variable {H B O : Type} [DecidableEq H] [DecidableEq B] [LinearOrder O]

/-- The url and the model under which a replica has registered a backend. -/
def record (c : Coordinator H B O) (b : B) : Option (String × String) :=
  c.registry.bind fun r => r.record b

/-- The registry of a replica is the one its membership map determines. -/
def Follows (startup : BackendRegistry B) (c : Coordinator H B O) : Prop :=
  ∃ r, c.registry = some r ∧ r.defaultModel = startup.defaultModel ∧
    ∀ b, r.record b = startup.expected c.membership b

variable {startup : BackendRegistry B} {c : Coordinator H B O}

omit [DecidableEq H] [LinearOrder O] in
theorem Follows.of_same {c' : Coordinator H B O} (follows : Follows startup c)
    (registry : c'.registry = c.registry) (membership : c'.membership = c.membership) :
    Follows startup c' := by
  obtain ⟨r, known, default, matching⟩ := follows
  refine ⟨r, registry.trans known, default, fun b => ?_⟩
  rw [membership]
  exact matching b

omit [DecidableEq H] [LinearOrder O] in
/-- An admin add: the record must not have another model already. -/
theorem Follows.adminAdd (follows : Follows startup c) (b : B) (url : String)
    (model : Option String)
    (keeps : ∀ r, c.registry = some r → ∀ be, r.get b = some be → be.model = r.modelOr model) :
    Follows startup (c.adminAdd b url model) := by
  obtain ⟨r, known, default, matching⟩ := follows
  refine ⟨(r.add b url model).1, ?_, (defaultModel_add _ _ _ _).trans default, fun b' => ?_⟩
  · simp [Coordinator.adminAdd, publishMemberAdd, send, known]
  · have map : (c.adminAdd b url model).membership =
        (c.membership.setLocal b ⟨true, url, model.getD ""⟩ c.replicaId).1 := by
      simp [Coordinator.adminAdd, publishMemberAdd, send]
    rw [map, BackendRegistry.expected, MembershipState.setLocal, Lww.get?_setLocal,
      BackendRegistry.record, BackendRegistry.get_add]
    by_cases here : b' = b
    · subst here
      have effective := BackendRegistry.modelOr_congr default model
      simp only [if_true, Option.map_some, BackendRegistry.modelOr_getD, ← effective]
      cases found : r.get b' with
      | none => rfl
      | some be => simp [keeps r known be found]
    · simp only [here, if_false]
      exact matching b'

omit [DecidableEq H] [LinearOrder O] in
/-- An admin remove leaves a tombstone and no record, or does nothing. -/
theorem Follows.adminRemove (follows : Follows startup c) (b : B) :
    Follows startup (c.adminRemove b) := by
  obtain ⟨r, known, default, matching⟩ := follows
  simp only [Coordinator.adminRemove, known]
  split
  · refine ⟨(r.remove b).1, rfl, default, fun b' => ?_⟩
    show _ = startup.expected (c.membership.setLocal b ⟨false, "", ""⟩ c.replicaId).1 b'
    rw [BackendRegistry.expected, MembershipState.setLocal, Lww.get?_setLocal,
      BackendRegistry.record, BackendRegistry.get_remove]
    by_cases here : b' = b
    · simp [here]
    · simp only [here, if_false]
      exact matching b'
  · exact ⟨r, known, default, matching⟩

omit [DecidableEq H] [LinearOrder O] in
theorem Follows.publishMembershipDigest (follows : Follows startup c) :
    Follows startup c.publishMembershipDigest := by
  simp only [Coordinator.publishMembershipDigest]
  split
  · exact follows
  · exact follows.of_same rfl rfl

/-! ### Sync -/

/-- Draining flags are no part of a record. -/
theorem record_foldl_setDraining (drained : B → Bool) (l : List B) (r : BackendRegistry B) (b : B) :
    (l.foldl (fun r b => (r.setDraining b (drained b)).1) r).record b = r.record b := by
  rw [BackendRegistry.record, get_foldl_setDraining]
  split
  · cases found : r.get b <;> simp [BackendRegistry.record, found]
  · rfl

theorem defaultModel_foldl_setDraining (drained : B → Bool) (l : List B) (r : BackendRegistry B) :
    (l.foldl (fun r b => (r.setDraining b (drained b)).1) r).defaultModel = r.defaultModel := by
  induction l generalizing r with
  | nil => rfl
  | cons b rest ih =>
      refine (ih _).trans ?_
      simp only [BackendRegistry.setDraining]
      split <;> rfl

omit [DecidableEq H] [LinearOrder O] in
/-- `_reconcile_membership` on records: a backend that stays keeps its model. -/
theorem record_reconcileMembership {r r' : BackendRegistry B} (before : c.registry = some r)
    (after : c.reconcileMembership.registry = some r') (b : B) :
    r'.record b =
      match c.membership.entries.get? b with
      | none => r.record b
      | some e =>
          if e.value.present then
            some (e.value.url, ((r.record b).map Prod.snd).getD (r.modelOr (some e.value.model)))
          else none := by
  rw [BackendRegistry.record, get_reconcileMembership before after]
  cases c.membership.entries.get? b with
  | none => rfl
  | some e =>
      cases present : e.value.present with
      | false => simp [present]
      | true => cases known : r.get b <;> simp [BackendRegistry.record, known, present, Backend.new]

/-- The registry before `sync` reconciles members: only draining flags may have changed. -/
theorem registry_sync_drains {r : BackendRegistry B} (known : c.registry = some r)
    (events : List (Event H B O)) :
    ∃ r', (if (c.applyEvents events).2.1 then (c.applyEvents events).1.reconcileDrains
        else (c.applyEvents events).1).registry = some r' ∧
      r'.defaultModel = r.defaultModel ∧ (∀ b, r'.record b = r.record b) := by
  have registry := (c.applyEvents_spec events).2.2
  split
  · refine ⟨_, by simp only [reconcileDrains, registry, known, Option.map_some]; rfl, ?_, ?_⟩
    · exact defaultModel_foldl_setDraining _ _ r
    · exact record_foldl_setDraining _ _ r
  · exact ⟨r, registry.trans known, rfl, fun _ => rfl⟩

omit [DecidableEq H] in
/-- A batch that reports no change leaves presence and url of every member alone. -/
theorem seen_membershipAfter {events : List (Event H B O)}
    (same : (c.membershipAfter events).2 = false) (b : B) :
    ((c.membershipAfter events).1.entries.get? b).map (fun e => (e.value.present, e.value.url)) =
      (c.membership.entries.get? b).map fun e => (e.value.present, e.value.url) := by
  refine Lww.seen_applyAll (f := fun m : Member => (m.present, m.url)) ?_ same b
  intro m m' unseen
  simpa [MembershipState.differs] using unseen

/-- What a sync may not do: leave a backend registered whose model in the merged map is
not the one in its record. -/
def SyncKeepsModels (c : Coordinator H B O) (events : List (Event H B O)) : Prop :=
  ∀ r ∈ c.registry, ∀ item ∈ r.byId.items,
    ∀ e ∈ (c.membershipAfter events).1.entries.get? item.1, e.value.present = true →
      item.2.model = r.modelOr (some e.value.model)

instance decidableSyncKeepsModels (c : Coordinator H B O) (events : List (Event H B O)) :
    Decidable (c.SyncKeepsModels events) :=
  inferInstanceAs (Decidable (∀ _ ∈ _, ∀ _ ∈ _, ∀ _ ∈ _, _ → _))

omit [DecidableEq H] in
theorem SyncKeepsModels.record {events : List (Event H B O)} (keeps : c.SyncKeepsModels events)
    {r : BackendRegistry B} (known : c.registry = some r) {b : B} {e : Entry Member O}
    (held : (c.membershipAfter events).1.entries.get? b = some e) (present : e.value.present = true)
    {url model : String} (found : r.record b = some (url, model)) :
    model = r.modelOr (some e.value.model) := by
  obtain ⟨be, registered, same⟩ := Option.map_eq_some_iff.mp found
  cases same
  exact keeps r known (b, be) (Dict.mem_items_iff.mpr registered) e held present

section Batch

variable {events : List (Event H B O)} {r : BackendRegistry B} (keeps : c.SyncKeepsModels events)
  (known : c.registry = some r) (default : r.defaultModel = startup.defaultModel)
  (matching : ∀ b, r.record b = startup.expected c.membership b)
include keeps known default matching

omit [DecidableEq H] in
/-- A record that is reconciled with the merged map follows it: a backend that stays keeps
its model, which is the one in the map. -/
theorem expected_reconciled (b : B) :
    (match (c.membershipAfter events).1.entries.get? b with
      | none => r.record b
      | some e =>
          if e.value.present then
            some (e.value.url, ((r.record b).map Prod.snd).getD (startup.modelOr (some e.value.model)))
          else none) = startup.expected (c.membershipAfter events).1 b := by
  rw [BackendRegistry.expected]
  cases held : (c.membershipAfter events).1.entries.get? b with
  | none =>
      have before : c.membership.entries.get? b = none := Lww.get?_applyAll_eq_none held
      simpa [BackendRegistry.expected, before] using matching b
  | some e =>
      cases present : e.value.present with
      | false => simp [present]
      | true =>
          cases found : r.record b with
          | none => simp
          | some entry =>
              have model := keeps.record known held present found
              rw [BackendRegistry.modelOr_congr default] at model
              simp [model]

omit [DecidableEq H] in
/-- A batch that reports no change may still change a model, but not of a registered backend. -/
theorem expected_unreported (quiet : (c.membershipAfter events).2 = false) (b : B) :
    r.record b = startup.expected (c.membershipAfter events).1 b := by
  have seen := seen_membershipAfter quiet b
  have record := matching b
  rw [record]
  simp only [BackendRegistry.expected] at record ⊢
  cases before : c.membership.entries.get? b with
  | none =>
      rw [before] at seen
      have after : (c.membershipAfter events).1.entries.get? b = none := by simpa using seen
      rw [after]
  | some e =>
      rw [before] at seen record
      obtain ⟨e', after, agree⟩ := Option.map_eq_some_iff.mp (seen.trans (Option.map_some ..))
      simp only [Prod.mk.injEq] at agree
      rw [after]
      cases present : e.value.present with
      | false => simp [agree.1, present]
      | true =>
          rw [present] at agree
          simp only [present, if_true] at record
          have model := keeps.record known after agree.1 record
          rw [BackendRegistry.modelOr_congr default] at model
          simp [agree.1, agree.2, present, model]

end Batch

theorem Follows.sync (follows : Follows startup c) (events : List (Event H B O))
    (keeps : c.SyncKeepsModels events) : Follows startup (c.sync events).1 := by
  obtain ⟨r, known, default, matching⟩ := follows
  obtain ⟨r', known', default', same⟩ := registry_sync_drains known events
  have changed : (c.applyEvents events).2.2 = (c.membershipAfter events).2 :=
    congrArg Prod.snd (c.applyEvents_spec events).2.1
  have membership : (c.applyEvents events).1.membership = (c.membershipAfter events).1 :=
    congrArg Prod.fst (c.applyEvents_spec events).2.1
  simp only [Coordinator.sync]
  set mid := if (c.applyEvents events).2.1 then (c.applyEvents events).1.reconcileDrains
    else (c.applyEvents events).1
  have mid_map : mid.membership = (c.membershipAfter events).1 := by
    simp only [mid]
    split <;> simp [membership]
  have default'' := default'.trans default
  by_cases reported : (c.applyEvents events).2.2 = true
  · simp only [reported, if_true]
    obtain ⟨r'', known''⟩ := registry_reconcileMembership known'
    refine ⟨r'', known'', (defaultModel_reconcileMembership known' known'').trans default'',
      fun b => ?_⟩
    rw [record_reconcileMembership known' known'', membership_reconcileMembership, mid_map, same,
      ← expected_reconciled keeps known default matching]
    simp only [BackendRegistry.modelOr_congr default'']
  · have quiet : (c.membershipAfter events).2 = false := by
      rw [← changed]
      simpa using reported
    simp only [reported, Bool.false_eq_true, if_false]
    refine ⟨r', known', default'', fun b => ?_⟩
    rw [mid_map, same]
    exact expected_unreported keeps known default matching quiet b

end Coordinator

/-! ### The fleet -/

/-- A replica per id, and everything ever published. -/
structure Replicas (H B O : Type) where
  replica : O → Coordinator H B O
  wire : List (Event H B O)

namespace Replicas

variable {H B O : Type} [DecidableEq H] [DecidableEq B] [LinearOrder O]

/-- All replicas as the gateway starts them, with the same backend configuration. -/
def boot (cap : Int) (defaultModel : String) (pairs : List (B × String)) : Replicas H B O where
  replica := fun r => .boot r cap defaultModel pairs none
  wire := []

/-- What can happen. -/
inductive Action (H B O : Type) where
  | adminAdd (r : O) (b : B) (url : String) (model : Option String)
  | adminRemove (r : O) (b : B)
  | publishMembershipDigest (r : O)
  | sync (r : O) (events : List (Event H B O))

/-- Put a replica back after a call; what it published goes on the wire. -/
def put (s : Replicas H B O) (r : O) (c : Coordinator H B O) : Replicas H B O where
  replica := Function.update s.replica r { c with outbox := [] }
  wire := s.wire ++ c.outbox

/-- One action; a sync polls published events, without the replica's own. -/
def step (s : Replicas H B O) : Action H B O → Option (Replicas H B O)
  | .adminAdd r b url model => some (s.put r ((s.replica r).adminAdd b url model))
  | .adminRemove r b => some (s.put r ((s.replica r).adminRemove b))
  | .publishMembershipDigest r => some (s.put r (s.replica r).publishMembershipDigest)
  | .sync r events =>
      if events.all fun e => e ∈ s.wire && e.origin != r then
        some (s.put r ((s.replica r).sync events).1)
      else none

/-- The condition on a step: an admin add of a registered backend names the model of its
record, and a sync leaves no backend registered whose model in the merged map is
another than its record's. -/
def KeepsModels (s : Replicas H B O) : Action H B O → Prop
  | .adminAdd r b _ model =>
      ∀ reg ∈ (s.replica r).registry, ∀ be ∈ reg.get b, be.model = reg.modelOr model
  | .sync r events => (s.replica r).SyncKeepsModels events
  | _ => True

instance decidableKeepsModels (s : Replicas H B O) : ∀ a, Decidable (s.KeepsModels a)
  | .adminAdd .. => inferInstanceAs (Decidable (∀ _ ∈ _, ∀ _ ∈ _, _))
  | .adminRemove .. => isTrue trivial
  | .publishMembershipDigest _ => isTrue trivial
  | .sync .. => Coordinator.decidableSyncKeepsModels _ _

/-- Every replica's registry is the one its map determines. -/
def AllFollow (startup : BackendRegistry B) (s : Replicas H B O) : Prop :=
  ∀ r, (s.replica r).Follows startup

omit [DecidableEq H] in
theorem allFollow_put {startup : BackendRegistry B} {s : Replicas H B O}
    (follow : s.AllFollow startup) {r : O} {c : Coordinator H B O} (new : c.Follows startup) :
    (s.put r c).AllFollow startup := by
  intro q
  by_cases same : q = r
  · subst same
    simp only [put, Function.update_self]
    exact new.of_same rfl rfl
  · simp only [put, Function.update_of_ne same]
    exact follow q

theorem step_allFollow {startup : BackendRegistry B} (s : Replicas H B O) (a : Action H B O)
    (s' : Replicas H B O) (follow : s.AllFollow startup) (keeps : s.KeepsModels a)
    (taken : s.step a = some s') : s'.AllFollow startup := by
  cases a with
  | adminAdd r b url model =>
      cases taken
      exact allFollow_put follow ((follow r).adminAdd b url model keeps)
  | adminRemove r b =>
      cases taken
      exact allFollow_put follow ((follow r).adminRemove b)
  | publishMembershipDigest r =>
      cases taken
      exact allFollow_put follow (follow r).publishMembershipDigest
  | sync r events =>
      simp only [step] at taken
      split at taken
      · cases taken
        exact allFollow_put follow ((follow r).sync events keeps)
      · cases taken

omit [DecidableEq H] [LinearOrder O] in
theorem boot_allFollow (cap : Int) (defaultModel : String) (pairs : List (B × String)) :
    (boot cap defaultModel pairs : Replicas H B O).AllFollow (.init defaultModel pairs) :=
  fun _ => ⟨_, rfl, rfl, fun _ => rfl⟩

/-- **Equal maps, equal registries.** In every fleet reached by steps that keep models, two
replicas with equal membership maps have registered the same backends, with the same
url and the same model for each. -/
theorem registries_agree (cap : Int) (defaultModel : String) (pairs : List (B × String))
    (as : List (Action H B O)) (s : Replicas H B O)
    (keeps : Machine.Along step KeepsModels (boot cap defaultModel pairs) as)
    (reach : Machine.run step (boot cap defaultModel pairs) as = some s) (r r' : O)
    (equal : ∀ b, (s.replica r).membership.entries.get? b =
      (s.replica r').membership.entries.get? b) (b : B) :
    (s.replica r).record b = (s.replica r').record b := by
  have follow := Machine.run_invariant_along step_allFollow
    (boot_allFollow cap defaultModel pairs) keeps reach
  obtain ⟨reg, known, -, matching⟩ := follow r
  obtain ⟨reg', known', -, matching'⟩ := follow r'
  rw [Coordinator.record, Coordinator.record, known, known', Option.bind_some, Option.bind_some,
    matching, matching', BackendRegistry.expected, BackendRegistry.expected, equal]

/-- An operator adds a backend on one replica and moves it to another url; the other
replica syncs. -/
theorem registries_agree_moved :
    let as : List (Action Nat String String) :=
      [.adminAdd "A" "b2" "u" (some "m1"), .adminAdd "A" "b2" "v" (some "m1"),
        .sync "B" [.memberEvent "A" 1 .add "b2" "u" "m1" 1, .memberEvent "A" 2 .add "b2" "v" "m1" 2],
        .sync "A" []]
    ∃ s, Machine.run step (boot 8 "m" [("b1", "http://b1")]) as = some s ∧
      (s.replica "B").record "b2" = some ("v", "m1") ∧
      ∀ b, (s.replica "A").record b = (s.replica "B").record b := by
  intro as
  have keeps : Machine.Along step KeepsModels (boot 8 "m" [("b1", "http://b1")]) as := by
    decide +kernel
  obtain ⟨s, reach, equal, record⟩ : ∃ s,
      Machine.run step (boot 8 "m" [("b1", "http://b1")]) as = some s ∧
        (s.replica "A").membership.entries = (s.replica "B").membership.entries ∧
        (s.replica "B").record "b2" = some ("v", "m1") :=
    Machine.exists_run (by decide +kernel)
  refine ⟨s, reach, record, ?_⟩
  exact registries_agree 8 "m" [("b1", "http://b1")] as s keeps reach "A" "B"
    (fun b => by rw [equal])

/-- An operator adds a backend and then adds it again under another model. The other
replica hears of both and both replicas sync; their maps are equal, and the first one
keeps the first model. -/
theorem registries_disagree_remodelled :
    let as : List (Action Nat String String) :=
      [.adminAdd "A" "b2" "u" (some "m1"), .adminAdd "A" "b2" "u" (some "m2"),
        .sync "B" [.memberEvent "A" 1 .add "b2" "u" "m1" 1, .memberEvent "A" 2 .add "b2" "u" "m2" 2],
        .sync "A" []]
    ∃ s, Machine.run step (boot 8 "m" [("b1", "http://b1")]) as = some s ∧
      (s.replica "A").membership.entries = (s.replica "B").membership.entries ∧
      (s.replica "A").record "b2" = some ("u", "m1") ∧
      (s.replica "B").record "b2" = some ("u", "m2") := by
  intro as
  exact Machine.exists_run (by decide +kernel)

end Replicas

end Gateway
