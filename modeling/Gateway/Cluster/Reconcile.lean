import Mathlib.Data.String.Basic
import Gateway.Cluster.Coordinator
import Gateway.Lib.Machine

/-!
When the registry's draining flags match the drain map.

The coordinator calls its drain map the source of truth that the registry's
draining flags reconcile to. `FlagsMatch` states it, and this module determines the
calls that keep it.

Every drain, undrain and drain batch ends in `_reconcile_drains`, which makes all
flags match (`flagsMatch_reconcileDrains`), and a batch that does not report a
change leaves every drained status as it was (`isDrained_applyAll`). What can break
the match is `BackendRegistry.add`, which creates a record with the flag off: an
admin add does not reconcile at all, and `sync` reconciles members after drains.

* `Coordinator.flagsMatch_call`: one call keeps the match precisely when it creates
  no record for a backend that the drain map calls drained (`CreatesUndrained`).
* `runCalls_flagsMatch_iff`: the same over every run of a replica.
* `not_flagsMatch_readded`: drain, remove and add a backend again.
-/

namespace Gateway

/-- What an operator, the gateway and the bus can call on a replica. Admin requests
without an id or a URL are refused before any of this. -/
inductive Call (H B O : Type) where
  | adminAdd (b : B) (url : String) (model : Option String)
  | adminRemove (b : B)
  | adminDrain (b : B)
  | adminUndrain (b : B)
  | publishInsert (hashes : List H) (b : B)
  | publishRemove (b : B)
  | publishLoad (inflight : Dict B Int) (unhealthy : List B)
  | publishDrain (b : B) (draining : Bool)
  | publishMemberAdd (b : B) (url model : String)
  | publishMemberRemove (b : B)
  | publishMembershipDigest
  | publishDrainDigest
  | warmStart (drained : List B)
  | sync (events : List (Event H B O))

namespace Coordinator

variable {H B O : Type} [DecidableEq H] [DecidableEq B] [LinearOrder O]

/-! ### Admin requests of `gateway/server.py`, on a replica -/

/-- `admin_add_backend`. -/
def adminAdd (c : Coordinator H B O) (b : B) (url : String) (model : Option String) :
    Coordinator H B O :=
  let c := { c with registry := c.registry.map fun r => (BackendRegistry.add r b url model).1 }
  c.publishMemberAdd b url (model.getD "")

/-- `admin_remove_backend`: nothing happens to an unknown backend. -/
def adminRemove (c : Coordinator H B O) (b : B) : Coordinator H B O :=
  match c.registry with
  | none => c
  | some r =>
      if (r.remove b).2 then
        { c with registry := some (r.remove b).1, tree := c.tree.removeBackend b }.publishMemberRemove b
      else c

/-- `admin_drain` and `admin_undrain`: nothing happens to an unknown backend. -/
def adminSetDraining (c : Coordinator H B O) (b : B) (draining : Bool) : Coordinator H B O :=
  match c.registry with
  | none => c
  | some r =>
      if (r.setDraining b draining).2 then
        { c with registry := some (r.setDraining b draining).1 }.publishDrain b draining
      else c

/-- One call. -/
def call (c : Coordinator H B O) : Call H B O → Coordinator H B O
  | .adminAdd b url model => c.adminAdd b url model
  | .adminRemove b => c.adminRemove b
  | .adminDrain b => c.adminSetDraining b true
  | .adminUndrain b => c.adminSetDraining b false
  | .publishInsert hashes b => c.publishInsert hashes b
  | .publishRemove b => c.publishRemove b
  | .publishLoad inflight unhealthy => c.publishLoad inflight unhealthy
  | .publishDrain b draining => c.publishDrain b draining
  | .publishMemberAdd b url model => c.publishMemberAdd b url model
  | .publishMemberRemove b => c.publishMemberRemove b
  | .publishMembershipDigest => c.publishMembershipDigest
  | .publishDrainDigest => c.publishDrainDigest
  | .warmStart drained => c.warmStart drained
  | .sync events => (c.sync events).1

/-- A sequence of calls. -/
def runCalls (c : Coordinator H B O) (calls : List (Call H B O)) : Coordinator H B O :=
  calls.foldl call c

/-- Every registered backend is draining precisely when the drain map says so. -/
def FlagsMatch (c : Coordinator H B O) : Prop :=
  ∀ r b be, c.registry = some r → r.get b = some be → be.draining = c.drain.isDrained b

omit [DecidableEq H] [LinearOrder O] in
/-- The match depends on the registry and the drain map only. -/
theorem flagsMatch_congr {c c' : Coordinator H B O} (registry : c'.registry = c.registry)
    (drain : ∀ b, c'.drain.isDrained b = c.drain.isDrained b) :
    FlagsMatch c' ↔ FlagsMatch c := by
  simp only [FlagsMatch, registry, drain]

/-! ### Reconciling drains -/

theorem get_foldl_setDraining (drained : B → Bool) (l : List B) (r : BackendRegistry B) (b : B) :
    (l.foldl (fun r b => (r.setDraining b (drained b)).1) r).get b =
      if b ∈ l then (r.get b).map fun be => { be with draining := drained b } else r.get b := by
  induction l generalizing r with
  | nil => simp
  | cons a rest ih =>
      rw [List.foldl_cons, ih, BackendRegistry.get_setDraining]
      by_cases here : b = a
      · subst here
        by_cases later : b ∈ rest
        · simp [later, Function.comp_def]
        · simp [later]
      · simp [here]

omit [DecidableEq H] [LinearOrder O] in
/-- `_reconcile_drains` does what its docstring says. -/
theorem flagsMatch_reconcileDrains (c : Coordinator H B O) : FlagsMatch c.reconcileDrains := by
  intro r' b be' registry found
  obtain ⟨r, _, rfl⟩ := Option.map_eq_some_iff.mp registry
  rw [get_foldl_setDraining] at found
  by_cases member : b ∈ r.ids
  · rw [if_pos member] at found
    obtain ⟨be, _, rfl⟩ := Option.map_eq_some_iff.mp found
    rfl
  · rw [if_neg member] at found
    rw [BackendRegistry.mem_ids_iff, found] at member
    simp at member

omit [DecidableEq H] [LinearOrder O] in
/-- It creates and removes no record. -/
theorem get_reconcileDrains_eq_none {c : Coordinator H B O} {r r' : BackendRegistry B}
    (before : c.registry = some r) (after : c.reconcileDrains.registry = some r') (b : B) :
    r'.get b = none ↔ r.get b = none := by
  simp only [reconcileDrains, before, Option.map_some, Option.some.injEq] at after
  rw [← after, get_foldl_setDraining]
  split <;> simp

/-- A batch that reports no change leaves every drained status as it was. -/
theorem isDrained_applyAll {d : DrainState B O} {ops : List (B × Entry Bool O)}
    (same : (Lww.applyAll DrainState.differs d ops).2 = false) (b : B) :
    DrainState.isDrained (Lww.applyAll DrainState.differs d ops).1 b = d.isDrained b := by
  have sees : ∀ v v' : Bool, DrainState.differs v v' = false → v = v' := by decide
  have value := Lww.value_applyAll sees same b
  have of_value : ∀ m : DrainState B O,
      m.isDrained b = ((m.entries.get? b).map Entry.value).getD false := by
    intro m
    simp only [DrainState.isDrained]
    cases m.entries.get? b <;> rfl
  rw [of_value, of_value, value]

/-! ### Reconciling members -/

omit [LinearOrder O] in
theorem mem_present_iff {m : MembershipState B O} {b : B} :
    b ∈ m.present.map Prod.fst ↔ ∃ e, m.entries.get? b = some e ∧ e.value.present = true := by
  simp only [MembershipState.present, List.mem_map, List.mem_filterMap, Prod.exists,
    Dict.mem_items_iff, exists_and_right, exists_eq_right]
  constructor
  · rintro ⟨url, model, b', e, found, here⟩
    split at here
    · rename_i present
      simp only [Option.some.injEq, Prod.mk.injEq] at here
      obtain ⟨rfl, _, _⟩ := here
      exact ⟨e, found, present⟩
    · cases here
  · rintro ⟨e, found, present⟩
    exact ⟨e.value.url, e.value.model, b, e, found, by simp [present]⟩

omit [LinearOrder O] in
theorem mem_removed_iff {m : MembershipState B O} {b : B} :
    b ∈ m.removed ↔ ∃ e, m.entries.get? b = some e ∧ e.value.present = false := by
  simp only [MembershipState.removed, List.mem_filterMap, Prod.exists, Dict.mem_items_iff]
  constructor
  · rintro ⟨b', e, found, here⟩
    split at here
    · cases here
    · rename_i absent
      cases here
      exact ⟨e, found, by simpa using absent⟩
  · rintro ⟨e, found, absent⟩
    exact ⟨b, e, found, by simp [absent]⟩

omit [DecidableEq B] [LinearOrder O] in
theorem nodup_present (m : MembershipState B O) : (m.present.map Prod.fst).Nodup := by
  have keys : (m.present.map Prod.fst).Sublist (m.entries.items.map Prod.fst) := by
    rw [MembershipState.present]
    induction m.entries.items with
    | nil => exact List.Sublist.slnil
    | cons item rest ih =>
        obtain ⟨b, e⟩ := item
        simp only [List.filterMap_cons]
        split
        · exact ih.cons _
        · rename_i here
          split at here
          · cases here
            exact ih.cons_cons _
          · cases here
  exact keys.nodup m.entries.nodup

/-- `self._registry.add(bid, url, model or None)`, for every present backend. -/
def addPresent (r : BackendRegistry B) (l : List (B × String × String)) : BackendRegistry B :=
  l.foldl (fun r (b, url, model) =>
    (r.add b url (if model = "" then none else some model)).1) r

theorem defaultModel_add (r : BackendRegistry B) (b : B) (url : String) (model : Option String) :
    (r.add b url model).1.defaultModel = r.defaultModel := by
  simp only [BackendRegistry.add]
  split <;> rfl

theorem defaultModel_addPresent (r : BackendRegistry B) (l : List (B × String × String)) :
    (addPresent r l).defaultModel = r.defaultModel := by
  induction l generalizing r with
  | nil => rfl
  | cons item rest ih => exact (ih _).trans (defaultModel_add _ _ _ _)

omit [DecidableEq B] in
theorem modelOr_or_none (r : BackendRegistry B) (model : String) :
    r.modelOr (if model = "" then none else some model) = r.modelOr (some model) := by
  simp only [BackendRegistry.modelOr]
  split <;> simp_all

theorem get_addPresent_of_notMem {l : List (B × String × String)} {b : B}
    (absent : b ∉ l.map Prod.fst) (r : BackendRegistry B) : (addPresent r l).get b = r.get b := by
  induction l generalizing r with
  | nil => rfl
  | cons item rest ih =>
      simp only [List.map_cons, List.mem_cons, not_or] at absent
      refine (ih absent.2 _).trans ?_
      rw [BackendRegistry.get_add, if_neg absent.1]

/-- A present backend gets a record, or a new url in the one it has. -/
theorem get_addPresent_of_mem {l : List (B × String × String)} (nodup : (l.map Prod.fst).Nodup)
    {b : B} {url model : String} (member : (b, url, model) ∈ l) (r : BackendRegistry B) :
    (addPresent r l).get b =
      some (match r.get b with
        | none => { Backend.new url (r.modelOr (some model)) with healthy := false }
        | some be => { be with url := url }) := by
  induction l generalizing r with
  | nil => cases member
  | cons item rest ih =>
      simp only [List.map_cons, List.nodup_cons] at nodup
      rcases List.mem_cons.mp member with rfl | later
      · refine (get_addPresent_of_notMem nodup.1 _).trans ?_
        cases found : r.get b with
        | none => simp only [BackendRegistry.get_add, if_pos, modelOr_or_none, found]
        | some be => simp only [BackendRegistry.get_add, if_pos, found]
      · have other : b ≠ item.1 := by
          rintro rfl
          exact nodup.1 (List.mem_map.mpr ⟨_, later, rfl⟩)
        refine (ih nodup.2 later _).trans ?_
        have same : (r.add item.1 item.2.1
            (if item.2.2 = "" then none else some item.2.2)).1.get b = r.get b := by
          rw [BackendRegistry.get_add, if_neg other]
        simp only [same, BackendRegistry.modelOr, defaultModel_add]

omit [DecidableEq H] in
/-- Popping tombstones removes their records. -/
theorem get_foldl_remove (l : List B) (r : BackendRegistry B) (tree : RadixTree H B) (b : B) :
    (l.foldl (fun (p : BackendRegistry B × RadixTree H B) b =>
        ((p.1.remove b).1, if (p.1.remove b).2 then p.2.removeBackend b else p.2))
      (r, tree)).1.get b = if b ∈ l then none else r.get b := by
  induction l generalizing r tree with
  | nil => simp
  | cons a rest ih =>
      rw [List.foldl_cons, ih]
      simp only [BackendRegistry.get_remove]
      by_cases here : b = a
      · simp [here]
      · simp [here]

omit [DecidableEq H] in
theorem defaultModel_foldl_remove (l : List B) (r : BackendRegistry B) (tree : RadixTree H B) :
    (l.foldl (fun (p : BackendRegistry B × RadixTree H B) b =>
        ((p.1.remove b).1, if (p.1.remove b).2 then p.2.removeBackend b else p.2))
      (r, tree)).1.defaultModel = r.defaultModel := by
  induction l generalizing r tree with
  | nil => rfl
  | cons a rest ih => exact ih _ _

omit [DecidableEq H] [LinearOrder O] in
/-- **`_reconcile_membership`**: present backends get a record or a new url in the one they
have, tombstones lose theirs, and backends the map does not name keep theirs. -/
theorem get_reconcileMembership {c : Coordinator H B O} {r r' : BackendRegistry B}
    (before : c.registry = some r) (after : c.reconcileMembership.registry = some r') (b : B) :
    r'.get b =
      match c.membership.entries.get? b with
      | none => r.get b
      | some e =>
          if e.value.present then
            some (match r.get b with
              | none =>
                  { Backend.new e.value.url (r.modelOr (some e.value.model)) with healthy := false }
              | some be => { be with url := e.value.url })
          else none := by
  simp only [reconcileMembership, before, Option.some.injEq] at after
  rw [← after]
  have popped := get_foldl_remove c.membership.removed (addPresent r c.membership.present) c.tree b
  refine popped.trans ?_
  simp only [mem_removed_iff]
  cases held : c.membership.entries.get? b with
  | none =>
      have absent : b ∉ c.membership.present.map Prod.fst := by
        rw [mem_present_iff]
        simp [held]
      simp [get_addPresent_of_notMem absent]
  | some e =>
      cases present : e.value.present with
      | false => simp [present]
      | true =>
          have member : (b, e.value.url, e.value.model) ∈ c.membership.present := by
            rw [MembershipState.present, List.mem_filterMap]
            exact ⟨(b, e), Dict.mem_items_iff.mpr held, by simp [present]⟩
          simp [present, get_addPresent_of_mem (nodup_present c.membership) member]

omit [LinearOrder O] [DecidableEq H] in
theorem defaultModel_reconcileMembership {c : Coordinator H B O} {r r' : BackendRegistry B}
    (before : c.registry = some r) (after : c.reconcileMembership.registry = some r') :
    r'.defaultModel = r.defaultModel := by
  simp only [reconcileMembership, before, Option.some.injEq] at after
  rw [← after]
  exact (defaultModel_foldl_remove _ _ _).trans (defaultModel_addPresent _ _)

/-- The draining flag of a registered backend. -/
def flag (r : BackendRegistry B) (b : B) : Option Bool := (r.get b).map Backend.draining

theorem flag_add (r : BackendRegistry B) (b b' : B) (url : String) (model : Option String) :
    flag (r.add b url model).1 b' = if b' = b then some ((flag r b).getD false) else flag r b' := by
  simp only [flag, BackendRegistry.get_add]
  split
  · rename_i same
    subst same
    cases r.get b' <;> rfl
  · rfl

omit [DecidableEq H] [LinearOrder O] in
/-- `_reconcile_membership`, as far as flags go: every new record has the flag off. -/
theorem flag_reconcileMembership {c : Coordinator H B O} {r r' : BackendRegistry B}
    (before : c.registry = some r) (after : c.reconcileMembership.registry = some r') (b : B) :
    flag r' b =
      match c.membership.entries.get? b with
      | none => flag r b
      | some e => if e.value.present then some ((flag r b).getD false) else none := by
  rw [flag, get_reconcileMembership before after]
  cases c.membership.entries.get? b with
  | none => rfl
  | some e =>
      cases present : e.value.present with
      | false => simp [present]
      | true => cases known : r.get b <;> simp [flag, known, present, Backend.new]

omit [DecidableEq H] [LinearOrder O] in
theorem flagsMatch_iff {c : Coordinator H B O} {r : BackendRegistry B}
    (registry : c.registry = some r) :
    FlagsMatch c ↔ ∀ b f, flag r b = some f → f = c.drain.isDrained b := by
  constructor
  · intro good b f found
    obtain ⟨be, found', rfl⟩ := Option.map_eq_some_iff.mp found
    exact good r b be registry found'
  · intro good r' b be registry' found
    rw [registry] at registry'
    cases registry'
    exact good b be.draining (by rw [flag, found]; rfl)

omit [DecidableEq H] [LinearOrder O] in
theorem registry_reconcileMembership {c : Coordinator H B O} {r : BackendRegistry B}
    (registry : c.registry = some r) : ∃ r', c.reconcileMembership.registry = some r' := by
  simp only [reconcileMembership, registry]
  exact ⟨_, rfl⟩

omit [DecidableEq H] [LinearOrder O] in
/-- Reconciling members keeps the match precisely when no member that lacks a record is
drained. -/
theorem flagsMatch_reconcileMembership {c : Coordinator H B O} (good : FlagsMatch c) :
    FlagsMatch c.reconcileMembership ↔
      ∀ r b e, c.registry = some r → r.get b = none → c.membership.entries.get? b = some e →
        e.value.present = true → c.drain.isDrained b = false := by
  cases registry : c.registry with
  | none =>
      have same : c.reconcileMembership = c := by simp [reconcileMembership, registry]
      simp [same, good]
  | some r =>
      obtain ⟨r', registry'⟩ := registry_reconcileMembership registry
      have flags := flag_reconcileMembership registry registry'
      rw [flagsMatch_iff registry', drain_reconcileMembership]
      have before := (flagsMatch_iff registry).mp good
      constructor
      · intro after r'' b e same fresh member present
        cases same
        have off : flag r' b = some false := by
          rw [flags, member]
          simp [present, flag, fresh]
        exact (after b false off).symm
      · intro undrained b f found
        rw [flags] at found
        cases member : c.membership.entries.get? b with
        | none =>
            rw [member] at found
            exact before b f found
        | some e =>
            simp only [member] at found
            split at found
            · rename_i present
              cases fresh : r.get b with
              | none =>
                  have off : f = false := by simpa [flag, fresh, eq_comm] using found
                  rw [off, undrained r b e rfl fresh member present]
              | some be =>
                  have kept : flag r b = some f := by simpa [flag, fresh] using found
                  exact before b f kept
            · cases found

/-! ### The calls -/

/-- The backends for which `sync` would create a record are not drained. -/
def SyncCreatesUndrained (c : Coordinator H B O) (events : List (Event H B O)) : Prop :=
  (c.membershipAfter events).2 = true →
    ∀ r b e, c.registry = some r → r.get b = none →
      (c.membershipAfter events).1.entries.get? b = some e → e.value.present = true →
      DrainState.isDrained (c.drainAfter events).1 b = false

/-- The condition on a call: it creates no record for a backend that the drain map
calls drained. -/
def CreatesUndrained (c : Coordinator H B O) : Call H B O → Prop
  | .adminAdd b _ _ => ∀ r, c.registry = some r → r.get b = none → c.drain.isDrained b = false
  | .sync events => c.SyncCreatesUndrained events
  | _ => True

omit [DecidableEq H] [LinearOrder O] in
theorem flagsMatch_adminAdd {c : Coordinator H B O} (good : FlagsMatch c) (b : B) (url : String)
    (model : Option String) :
    FlagsMatch (c.adminAdd b url model) ↔
      ∀ r, c.registry = some r → r.get b = none → c.drain.isDrained b = false := by
  cases registry : c.registry with
  | none =>
      refine iff_of_true (fun r b be found => ?_) (fun r found => by cases found)
      simp [adminAdd, publishMemberAdd, send, registry] at found
  | some r =>
      have registry' : (c.adminAdd b url model).registry = some (r.add b url model).1 := by
        simp [adminAdd, publishMemberAdd, send, registry]
      have before := (flagsMatch_iff registry).mp good
      rw [flagsMatch_iff registry']
      show (∀ b' f, _ → f = c.drain.isDrained b') ↔ _
      simp only [flag_add, Option.some.injEq, forall_eq']
      constructor
      · intro after fresh
        have off := after b false (by simp [flag, fresh])
        exact off.symm
      · intro undrained b' f found
        split at found
        · rename_i same
          subst same
          cases fresh : r.get b' with
          | none =>
              have off : f = false := by simpa [flag, fresh, eq_comm] using found
              rw [off, undrained fresh]
          | some be => exact before b' f (by simpa [flag, fresh] using found)
        · exact before b' f found

omit [DecidableEq H] [LinearOrder O] in
theorem flagsMatch_adminRemove {c : Coordinator H B O} (good : FlagsMatch c) (b : B) :
    FlagsMatch (c.adminRemove b) := by
  simp only [adminRemove]
  split
  · exact good
  · rename_i r registry
    split
    · intro r' b' be registry' found
      have : r' = (r.remove b).1 := by simpa [publishMemberRemove, send, eq_comm] using registry'
      rw [this, BackendRegistry.get_remove] at found
      split at found
      · cases found
      · exact good r b' be registry found
    · exact good

omit [DecidableEq H] [LinearOrder O] in
theorem flagsMatch_publishDrain (c : Coordinator H B O) (b : B) (draining : Bool) :
    FlagsMatch (c.publishDrain b draining) := flagsMatch_reconcileDrains _

omit [DecidableEq H] [LinearOrder O] in
theorem flagsMatch_adminSetDraining {c : Coordinator H B O} (good : FlagsMatch c) (b : B)
    (draining : Bool) : FlagsMatch (c.adminSetDraining b draining) := by
  simp only [adminSetDraining]
  split
  · exact good
  · split
    · exact flagsMatch_publishDrain _ b draining
    · exact good

omit [DecidableEq H] [LinearOrder O] in
theorem flagsMatch_warmStart {c : Coordinator H B O} (good : FlagsMatch c) (drained : List B) :
    FlagsMatch (c.warmStart drained) := by
  simp only [warmStart]
  split
  · exact good
  · exact flagsMatch_reconcileDrains _

/-- The drain half of `sync` always leaves the flags matching, without creating or
removing a record. -/
theorem flagsMatch_sync_drains {c : Coordinator H B O} (good : FlagsMatch c)
    (events : List (Event H B O)) :
    let mid := if (c.applyEvents events).2.1 then (c.applyEvents events).1.reconcileDrains
      else (c.applyEvents events).1
    FlagsMatch mid ∧ mid.drain = (c.drainAfter events).1 ∧
      mid.membership = (c.membershipAfter events).1 ∧
      ∀ b, (∃ r, mid.registry = some r ∧ r.get b = none) ↔
        ∃ r, c.registry = some r ∧ r.get b = none := by
  obtain ⟨drains, members, registry⟩ := c.applyEvents_spec events
  have drain : (c.applyEvents events).1.drain = (c.drainAfter events).1 := congrArg Prod.fst drains
  have membership : (c.applyEvents events).1.membership = (c.membershipAfter events).1 :=
    congrArg Prod.fst members
  intro mid
  by_cases reported : (c.applyEvents events).2.1 = true
  · simp only [mid, reported, if_true, drain_reconcileDrains, membership_reconcileDrains]
    refine ⟨flagsMatch_reconcileDrains _, drain, membership, fun b => ?_⟩
    rw [← registry]
    cases before : (c.applyEvents events).1.registry with
    | none => simp [reconcileDrains, before]
    | some r =>
        obtain ⟨r', after⟩ : ∃ r', (c.applyEvents events).1.reconcileDrains.registry = some r' := by
          simp [reconcileDrains, before]
        have same := get_reconcileDrains_eq_none before after b
        simp [after, same]
  · have quiet : (c.drainAfter events).2 = false := by
      rw [← drains]
      simpa using reported
    simp only [mid, reported, Bool.false_eq_true, if_false]
    refine ⟨(flagsMatch_congr registry fun b => ?_).mpr good, drain, membership, fun b => ?_⟩
    · rw [drain]
      exact isDrained_applyAll quiet b
    · rw [registry]

theorem flagsMatch_sync {c : Coordinator H B O} (good : FlagsMatch c)
    (events : List (Event H B O)) :
    FlagsMatch (c.sync events).1 ↔ c.SyncCreatesUndrained events := by
  have changed : (c.applyEvents events).2.2 = (c.membershipAfter events).2 :=
    congrArg Prod.snd (c.applyEvents_spec events).2.1
  obtain ⟨good', drain, membership, records⟩ := flagsMatch_sync_drains good events
  simp only [sync, SyncCreatesUndrained, ← changed]
  set mid := if (c.applyEvents events).2.1 then (c.applyEvents events).1.reconcileDrains
    else (c.applyEvents events).1
  by_cases reported : (c.applyEvents events).2.2 = true
  · simp only [reported, if_true, true_implies]
    rw [flagsMatch_reconcileMembership good', drain, membership]
    constructor
    · intro undrained r b e registry fresh
      obtain ⟨r', registry', fresh'⟩ := (records b).mpr ⟨r, registry, fresh⟩
      exact undrained r' b e registry' fresh'
    · intro undrained r b e registry fresh
      obtain ⟨r', registry', fresh'⟩ := (records b).mp ⟨r, registry, fresh⟩
      exact undrained r' b e registry' fresh'
  · simp [reported, good']

/-- **One call keeps the match precisely when it creates no record for a drained
backend.** -/
theorem flagsMatch_call {c : Coordinator H B O} (good : FlagsMatch c) (call : Call H B O) :
    FlagsMatch (c.call call) ↔ c.CreatesUndrained call := by
  cases call with
  | adminAdd b url model => exact flagsMatch_adminAdd good b url model
  | adminRemove b => exact iff_of_true (flagsMatch_adminRemove good b) trivial
  | adminDrain b => exact iff_of_true (flagsMatch_adminSetDraining good b true) trivial
  | adminUndrain b => exact iff_of_true (flagsMatch_adminSetDraining good b false) trivial
  | publishInsert hashes b =>
      refine iff_of_true ?_ trivial
      simp only [Coordinator.call, publishInsert]
      split <;> exact good
  | publishRemove b => exact iff_of_true good trivial
  | publishLoad inflight unhealthy => exact iff_of_true good trivial
  | publishDrain b draining => exact iff_of_true (flagsMatch_publishDrain c b draining) trivial
  | publishMemberAdd b url model => exact iff_of_true good trivial
  | publishMemberRemove b => exact iff_of_true good trivial
  | publishMembershipDigest =>
      refine iff_of_true ?_ trivial
      simp only [Coordinator.call, publishMembershipDigest]
      split <;> exact good
  | publishDrainDigest =>
      refine iff_of_true ?_ trivial
      simp only [Coordinator.call, publishDrainDigest]
      split <;> exact good
  | warmStart drained => exact iff_of_true (flagsMatch_warmStart good drained) trivial
  | sync events => exact flagsMatch_sync good events

/-! ### Runs -/

/-- A replica as the gateway starts it. -/
def boot (replicaId : O) (cap : Int) (defaultModel : String) (pairs : List (B × String))
    (store : Option (SnapshotStore B)) : Coordinator H B O :=
  .init (.init cap) replicaId (some (.init defaultModel pairs)) store

omit [DecidableEq H] [LinearOrder O] in
theorem flagsMatch_boot (replicaId : O) (cap : Int) (defaultModel : String)
    (pairs : List (B × String)) (store : Option (SnapshotStore B)) :
    FlagsMatch (boot replicaId cap defaultModel pairs store : Coordinator H B O) := by
  intro r b be registry found
  cases registry
  exact BackendRegistry.draining_init found

/-- **The match over all runs.** After every call of a run the draining flags match the
drain map, precisely when no call of the run creates a record for a backend that the
drain map calls drained. -/
theorem runCalls_flagsMatch_iff (replicaId : O) (cap : Int) (defaultModel : String)
    (pairs : List (B × String)) (store : Option (SnapshotStore B)) (calls : List (Call H B O)) :
    let start : Coordinator H B O := boot replicaId cap defaultModel pairs store
    (∀ done, done <+: calls → FlagsMatch (start.runCalls done)) ↔
      ∀ done call, done ++ [call] <+: calls → (start.runCalls done).CreatesUndrained call := by
  intro start
  have boot := flagsMatch_boot (H := H) replicaId cap defaultModel pairs store
  refine Machine.foldl_good_iff (I := fun _ => True) (s := start) (fun _ _ _ => trivial) ?_ trivial
    boot calls
  intro c call _ good
  exact flagsMatch_call good call

/-- An operator drains a backend, removes it and adds it again: the drain map still
says drained, and the new record takes requests. -/
theorem not_flagsMatch_readded :
    let start : Coordinator Nat String String := boot "A" 8 "m" [("b1", "http://b1")] none
    let c := start.runCalls
      [.adminDrain "b1", .adminRemove "b1", .adminAdd "b1" "http://b1" none]
    c.drain.isDrained "b1" = true ∧
      c.registry.map (fun r => (r.get "b1").map Backend.draining) = some (some false) ∧
      ¬ FlagsMatch c := by
  intro start c
  have drained : c.drain.isDrained "b1" = true := by decide
  have record : c.registry.map (fun r => (r.get "b1").map Backend.draining) =
      some (some false) := by decide
  refine ⟨drained, record, fun good => ?_⟩
  obtain ⟨r, registry, found⟩ := Option.map_eq_some_iff.mp record
  obtain ⟨be, found, off⟩ := Option.map_eq_some_iff.mp found
  rw [good r "b1" be registry found, drained] at off
  cases off

end Coordinator

end Gateway
