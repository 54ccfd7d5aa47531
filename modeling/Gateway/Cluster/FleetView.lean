import Gateway.Cluster.Coordinator

/-!
The load snapshots of the peers, over every delivery.

`FleetLoadView.apply` stores the snapshot of an event under its origin, whatever was
there. The sequence number of the event is not read, so the view shows the snapshot that
was *delivered* last from every origin (`latest`), which is the one that was *published*
last (`newest`) only if nothing older comes after it.

* `shown_after`: the snapshots the view holds are the latest ones.
* `newest_eq_some`: the newest event of an origin, by its number alone.
* `fresh_iff`: the view shows the newest snapshots through a whole sequence of deliveries
  precisely when every event that comes late carries what the newest one carries.
* `late_snapshot_replaces`: two events of one origin, delivered the wrong way round.
* `fleet_syncs`: the view of a replica is that of the load events among all it has synced.
-/

namespace Gateway

/-- `LoadEvent`. -/
structure LoadEvent (B O : Type) where
  origin : O
  seq : Int
  inflight : Dict B Int
  unhealthy : List B

namespace LoadEvent

variable {B O : Type}

section Agrees

variable [DecidableEq B]

/-- The two snapshots read the same, for every backend. -/
structure Agrees (e e' : LoadEvent B O) : Prop where
  inflight : ∀ b, e.inflight.getD b 0 = e'.inflight.getD b 0
  unhealthy : ∀ b, b ∈ e.unhealthy ↔ b ∈ e'.unhealthy

theorem Agrees.refl (e : LoadEvent B O) : e.Agrees e := ⟨fun _ => rfl, fun _ => Iff.rfl⟩

theorem Agrees.symm {e e' : LoadEvent B O} (same : e.Agrees e') : e'.Agrees e :=
  ⟨fun b => (same.inflight b).symm, fun b => (same.unhealthy b).symm⟩

theorem Agrees.trans {e e' e'' : LoadEvent B O} (same : e.Agrees e') (same' : e'.Agrees e'') :
    e.Agrees e'' :=
  ⟨fun b => (same.inflight b).trans (same'.inflight b),
    fun b => (same.unhealthy b).trans (same'.unhealthy b)⟩

end Agrees

/-! ### The newest and the latest event of an origin -/

variable [DecidableEq O]

/-- The event of `o` with the highest sequence number; of equal numbers, the last. -/
def newest (o : O) (events : List (LoadEvent B O)) : Option (LoadEvent B O) :=
  events.foldl (fun best ev =>
    if ev.origin = o then
      match best with
      | none => some ev
      | some e => if ev.seq < e.seq then some e else some ev
    else best) none

/-- The event of `o` that was delivered last. -/
def latest (o : O) (events : List (LoadEvent B O)) : Option (LoadEvent B O) :=
  (events.filter fun ev => ev.origin = o).getLast?

/-- An event from the same origin with a higher number was delivered before. -/
def Stale (done : List (LoadEvent B O)) (ev : LoadEvent B O) : Prop :=
  ∃ e ∈ done, e.origin = ev.origin ∧ ev.seq < e.seq

/-- The origins of a sequence of events. -/
def origins (events : List (LoadEvent B O)) : Finset O := (events.map LoadEvent.origin).toFinset

theorem latest_append (o : O) (done : List (LoadEvent B O)) (ev : LoadEvent B O) :
    latest o (done ++ [ev]) = if ev.origin = o then some ev else latest o done := by
  rw [latest, List.filter_append]
  split <;> simp_all [latest]

theorem newest_append (o : O) (done : List (LoadEvent B O)) (ev : LoadEvent B O) :
    newest o (done ++ [ev]) =
      if ev.origin = o then
        match newest o done with
        | none => some ev
        | some e => if ev.seq < e.seq then some e else some ev
      else newest o done := by
  rw [newest, List.foldl_append]
  rfl

theorem newest_eq_none {o : O} {events : List (LoadEvent B O)} :
    newest o events = none ↔ ∀ e ∈ events, e.origin ≠ o := by
  induction events using List.reverseRecOn with
  | nil => simp [newest]
  | append_singleton done ev ih =>
      rw [newest_append]
      by_cases mine : ev.origin = o
      · rw [if_pos mine]
        refine iff_of_false ?_ fun none_of => none_of ev (by simp) mine
        split
        · simp
        · split <;> simp
      · rw [if_neg mine, ih]
        simp [or_imp, forall_and, mine]

/-- The newest event is one of the events, and none from its origin has a higher number. -/
theorem newest_eq_some {o : O} {events : List (LoadEvent B O)} {e : LoadEvent B O}
    (found : newest o events = some e) :
    e ∈ events ∧ e.origin = o ∧ ∀ e' ∈ events, e'.origin = o → e'.seq ≤ e.seq := by
  induction events using List.reverseRecOn generalizing e with
  | nil => cases found
  | append_singleton done ev ih =>
      rw [newest_append] at found
      simp only [List.mem_append, List.mem_singleton, or_imp, forall_and, forall_eq]
      by_cases mine : ev.origin = o
      · rw [if_pos mine] at found
        cases before : newest o done with
        | none =>
            rw [before] at found
            cases found
            refine ⟨.inr rfl, mine, fun e' earlier same => ?_, fun _ => le_refl _⟩
            exact absurd same (newest_eq_none.mp before e' earlier)
        | some best =>
            rw [before] at found
            obtain ⟨member, origin, top⟩ := ih before
            simp only at found
            split at found
            · rename_i below
              cases found
              exact ⟨.inl member, origin, top, fun _ => below.le⟩
            · rename_i above
              cases found
              refine ⟨.inr rfl, mine, fun e' earlier same => ?_, fun _ => le_refl _⟩
              exact (top e' earlier same).trans (not_lt.mp above)
      · rw [if_neg mine] at found
        obtain ⟨member, origin, top⟩ := ih found
        exact ⟨.inl member, origin, top, fun same => absurd same mine⟩

/-- An event that comes late does not change the newest one. -/
theorem newest_append_of_stale {done : List (LoadEvent B O)} {ev : LoadEvent B O}
    (stale : Stale done ev) (o : O) : newest o (done ++ [ev]) = newest o done := by
  obtain ⟨e, member, origin, below⟩ := stale
  rw [newest_append]
  split
  · rename_i mine
    cases best : newest o done with
    | none => exact absurd (origin.trans mine) (newest_eq_none.mp best e member)
    | some top =>
        have bound := (newest_eq_some best).2.2 e member (origin.trans mine)
        exact if_pos (below.trans_le bound)
  · rfl

/-- Any other event is the newest of its origin. -/
theorem newest_append_of_not_stale {done : List (LoadEvent B O)} {ev : LoadEvent B O}
    (current : ¬ Stale done ev) (o : O) :
    newest o (done ++ [ev]) = if ev.origin = o then some ev else newest o done := by
  rw [newest_append]
  split
  · rename_i mine
    cases best : newest o done with
    | none => rfl
    | some top =>
        obtain ⟨member, origin, -⟩ := newest_eq_some best
        exact if_neg fun below => current ⟨top, member, origin.trans mine.symm, below⟩
  · rfl

end LoadEvent

namespace FleetLoadView

variable {B O : Type} [DecidableEq B] [DecidableEq O]

open LoadEvent

/-- The view after a sequence of deliveries. -/
def after (events : List (LoadEvent B O)) : FleetLoadView B O :=
  events.foldl (fun v ev => v.apply ev.origin ev.inflight ev.unhealthy) .empty

/-- The count for `b` in the snapshot held for `o`. -/
def countFrom (v : FleetLoadView B O) (o : O) (b : B) : Int :=
  ((v.inflight.get? o).map fun d => d.getD b 0).getD 0

/-- The snapshot held for `o` lists `b`. -/
def shedBy (v : FleetLoadView B O) (o : O) (b : B) : Bool :=
  (v.unhealthy.get? o).any fun l => l.contains b

/-! ### What the view shows -/

omit [DecidableEq B] in
theorem after_append (done : List (LoadEvent B O)) (ev : LoadEvent B O) :
    after (done ++ [ev]) = (after done).apply ev.origin ev.inflight ev.unhealthy := by
  rw [after, List.foldl_append]
  rfl

omit [DecidableEq B] in
/-- The view holds, for every origin, the snapshot that was delivered last. -/
theorem shown_after (events : List (LoadEvent B O)) (o : O) :
    (after events).inflight.get? o = (latest o events).map LoadEvent.inflight ∧
      (after events).unhealthy.get? o = (latest o events).map LoadEvent.unhealthy := by
  induction events using List.reverseRecOn with
  | nil => exact ⟨rfl, rfl⟩
  | append_singleton done ev ih =>
      obtain ⟨inflight, unhealthy⟩ := ih
      rw [after_append, latest_append]
      simp only [apply, Dict.get?_set, inflight, unhealthy, eq_comm (a := o)]
      split <;> exact ⟨rfl, rfl⟩

theorem countFrom_after (events : List (LoadEvent B O)) (o : O) (b : B) :
    (after events).countFrom o b =
      ((latest o events).map fun e => e.inflight.getD b 0).getD 0 := by
  rw [countFrom, (shown_after events o).1, Option.map_map]
  rfl

theorem shedBy_after (events : List (LoadEvent B O)) (o : O) (b : B) :
    (after events).shedBy o b = true ↔ ∃ e, latest o events = some e ∧ b ∈ e.unhealthy := by
  rw [shedBy, (shown_after events o).2]
  simp [Option.any_eq_true]

omit [DecidableEq B] in
theorem latest_isSome {o : O} {events : List (LoadEvent B O)} :
    (latest o events).isSome ↔ o ∈ origins events := by
  rw [latest, List.getLast?_isSome, Ne, List.filter_eq_nil_iff]
  simp [origins]

theorem peerInflight_after (events : List (LoadEvent B O)) (b : B) :
    (after events).peerInflight b = ∑ o ∈ origins events, (after events).countFrom o b := by
  have keys : (after events).inflight.keys.toFinset = origins events := by
    ext o
    rw [List.mem_toFinset, Dict.mem_keys_iff, (shown_after events o).1, Option.isSome_map,
      latest_isSome]
  rw [peerInflight, Dict.sum_values, keys]
  rfl

theorem peerUnhealthy_iff (v : FleetLoadView B O) (b : B) :
    v.peerUnhealthy b = true ↔ ∃ o, v.shedBy o b = true := by
  simp only [peerUnhealthy, List.any_eq_true, shedBy, Option.any_eq_true, Dict.values,
    List.mem_map]
  constructor
  · rintro ⟨_, ⟨⟨o, l⟩, member, rfl⟩, lists⟩
    exact ⟨o, l, Dict.mem_items_iff.mp member, lists⟩
  · rintro ⟨o, l, found, lists⟩
    exact ⟨l, ⟨(o, l), Dict.mem_items_iff.mpr found, rfl⟩, lists⟩

/-! ### Showing the newest snapshots -/

/-- Through a sequence of deliveries, the view is that of the newest snapshots, and a late
event does not replace the snapshot that is held. -/
structure Fresh (events : List (LoadEvent B O)) : Prop where
  inflight : ∀ done, done <+: events → ∀ b, (after done).peerInflight b =
    ∑ o ∈ origins done, ((newest o done).map fun e => e.inflight.getD b 0).getD 0
  unhealthy : ∀ done, done <+: events → ∀ b,
    (after done).peerUnhealthy b = true ↔ ∃ o e, newest o done = some e ∧ b ∈ e.unhealthy
  kept : ∀ done ev, done ++ [ev] <+: events → Stale done ev → ∀ b,
    (after (done ++ [ev])).countFrom ev.origin b = (after done).countFrom ev.origin b ∧
      (after (done ++ [ev])).shedBy ev.origin b = (after done).shedBy ev.origin b

/-- What a delivery must satisfy: if it is late, it reads as the newest event does. -/
def Harmless (done : List (LoadEvent B O)) (ev : LoadEvent B O) : Prop :=
  Stale done ev → ∀ e, newest ev.origin done = some e → ev.Agrees e

/-- The latest snapshots read as the newest ones. -/
def Settled (done : List (LoadEvent B O)) : Prop :=
  ∀ o, Option.Rel Agrees (latest o done) (newest o done)

omit [DecidableEq B] in
theorem Stale.exists_newest {done : List (LoadEvent B O)} {ev : LoadEvent B O}
    (stale : Stale done ev) : ∃ e, newest ev.origin done = some e := by
  obtain ⟨e, member, origin, -⟩ := stale
  cases best : newest ev.origin done with
  | none => exact absurd origin (newest_eq_none.mp best e member)
  | some top => exact ⟨top, rfl⟩

theorem Settled.append {done : List (LoadEvent B O)} (settled : Settled done)
    {ev : LoadEvent B O} (harmless : Harmless done ev) : Settled (done ++ [ev]) := by
  intro o
  rw [latest_append]
  by_cases stale : Stale done ev
  · rw [newest_append_of_stale stale]
    split
    · rename_i mine
      subst mine
      obtain ⟨e, best⟩ := Stale.exists_newest stale
      rw [best]
      exact .some (harmless stale e best)
    · exact settled o
  · rw [newest_append_of_not_stale stale]
    split
    · exact .some (Agrees.refl ev)
    · exact settled o

theorem Settled.peerInflight {done : List (LoadEvent B O)} (settled : Settled done) (b : B) :
    (after done).peerInflight b =
      ∑ o ∈ origins done, ((newest o done).map fun e => e.inflight.getD b 0).getD 0 := by
  rw [peerInflight_after]
  refine Finset.sum_congr rfl fun o _ => ?_
  rw [countFrom_after]
  have here := settled o
  generalize latest o done = last at here ⊢
  generalize newest o done = best at here ⊢
  cases here with
  | none => rfl
  | some same => exact same.inflight b

theorem Settled.peerUnhealthy {done : List (LoadEvent B O)} (settled : Settled done) (b : B) :
    (after done).peerUnhealthy b = true ↔ ∃ o e, newest o done = some e ∧ b ∈ e.unhealthy := by
  rw [peerUnhealthy_iff]
  refine exists_congr fun o => ?_
  rw [shedBy_after]
  have here := settled o
  generalize latest o done = last at here ⊢
  generalize newest o done = best at here ⊢
  cases here with
  | none => simp
  | some same => simpa using same.unhealthy b

/-- On settled snapshots, a late event leaves what is held precisely when it reads as the
newest one. -/
theorem Settled.kept_iff {done : List (LoadEvent B O)} (settled : Settled done)
    {ev : LoadEvent B O} (stale : Stale done ev) :
    (∀ b, (after (done ++ [ev])).countFrom ev.origin b = (after done).countFrom ev.origin b ∧
        (after (done ++ [ev])).shedBy ev.origin b = (after done).shedBy ev.origin b) ↔
      Harmless done ev := by
  obtain ⟨e, best⟩ := Stale.exists_newest stale
  have here := settled ev.origin
  rw [best] at here
  cases held : latest ev.origin done with
  | none =>
      rw [held] at here
      cases here
  | some last =>
      rw [held] at here
      have same : last.Agrees e := by
        cases here with
        | some same => exact same
      have shown : latest ev.origin (done ++ [ev]) = some ev := by
        rw [latest_append, if_pos rfl]
      have counts : ∀ b, (after (done ++ [ev])).countFrom ev.origin b =
          (after done).countFrom ev.origin b ↔
            ev.inflight.getD b 0 = last.inflight.getD b 0 := fun b => by
        rw [countFrom_after, countFrom_after, shown, held]
        rfl
      have lists : ∀ b, (after (done ++ [ev])).shedBy ev.origin b =
          (after done).shedBy ev.origin b ↔ (b ∈ ev.unhealthy ↔ b ∈ last.unhealthy) := fun b => by
        rw [Bool.eq_iff_iff, shedBy_after, shedBy_after, shown, held]
        simp
      have reads : (∀ b, (after (done ++ [ev])).countFrom ev.origin b =
            (after done).countFrom ev.origin b ∧
          (after (done ++ [ev])).shedBy ev.origin b = (after done).shedBy ev.origin b) ↔
          ev.Agrees last := by
        simp only [counts, lists, forall_and]
        exact ⟨fun ⟨counts, lists⟩ => ⟨counts, lists⟩, fun same => ⟨same.inflight, same.unhealthy⟩⟩
      rw [reads]
      constructor
      · intro agrees _ e' best'
        obtain rfl := Option.some.inj (best.symm.trans best')
        exact agrees.trans same
      · intro harmless
        exact (harmless stale e best).trans same.symm

theorem settled_of_harmless {events : List (LoadEvent B O)}
    (harmless : ∀ done ev, done ++ [ev] <+: events → Settled done → Harmless done ev)
    {done : List (LoadEvent B O)} (visited : done <+: events) : Settled done := by
  induction done using List.reverseRecOn with
  | nil => exact fun _ => .none
  | append_singleton done ev ih =>
      have before : Settled done := ih ((List.prefix_append _ _).trans visited)
      exact before.append (harmless done ev visited before)

/-- **The newest snapshots are shown precisely when what comes late is harmless.** Through a
sequence of deliveries, in any order and with any repetition, the view aggregates the
newest event of every origin and no late event replaces a snapshot, if and only if every
event that is delivered after a higher-numbered one of its origin carries the same
snapshot as the highest-numbered one. -/
theorem fresh_iff (events : List (LoadEvent B O)) :
    Fresh events ↔ ∀ done ev, done ++ [ev] <+: events → Harmless done ev := by
  constructor
  · intro fresh
    have step : ∀ done ev, done ++ [ev] <+: events → Settled done → Harmless done ev :=
      fun done ev visited settled stale =>
        (settled.kept_iff stale).mp (fresh.kept done ev visited stale) stale
    intro done ev visited
    exact step done ev visited (settled_of_harmless step ((List.prefix_append _ _).trans visited))
  · intro harmless
    have settled : ∀ done, done <+: events → Settled done := fun done visited =>
      settled_of_harmless (fun done ev visited _ => harmless done ev visited) visited
    refine ⟨fun done visited => (settled done visited).peerInflight,
      fun done visited => (settled done visited).peerUnhealthy, fun done ev visited stale => ?_⟩
    have before : Settled done := settled done ((List.prefix_append _ _).trans visited)
    exact (before.kept_iff stale).mpr (harmless done ev visited)

/-- A newer snapshot of one peer is delivered before an older one, and the older one stays. -/
theorem late_snapshot_replaces :
    let newer : LoadEvent String String := ⟨"A", 2, Dict.empty.set "b0" 1, []⟩
    let older : LoadEvent String String := ⟨"A", 1, Dict.empty.set "b0" 9, ["b0"]⟩
    newest "A" [newer, older] = some newer ∧
      (after [newer, older]).peerInflight "b0" = 9 ∧
      (after [newer, older]).peerUnhealthy "b0" = true ∧ ¬ Fresh [newer, older] := by
  intro newer older
  refine ⟨rfl, by decide, by decide, fun fresh => ?_⟩
  have count := fresh.inflight [newer, older] (List.prefix_refl _) "b0"
  revert count
  decide

end FleetLoadView

/-! ### The view of a coordinator -/

namespace Coordinator

variable {H B O : Type} [DecidableEq H] [DecidableEq B] [LinearOrder O]

/-- The load events among the events of a batch. -/
def loadsOf (events : List (Event H B O)) : List (LoadEvent B O) :=
  events.filterMap fun e =>
    match e with
    | .loadEvent origin seq inflight unhealthy => some ⟨origin, seq, inflight, unhealthy⟩
    | _ => none

theorem fleet_applyEvents (c : Coordinator H B O) (events : List (Event H B O)) :
    (c.applyEvents events).1.fleet = (loadsOf events).foldl
      (fun v ev => v.apply ev.origin ev.inflight ev.unhealthy) c.fleet := by
  induction events generalizing c with
  | nil => rfl
  | cons e rest ih =>
      rw [applyEvents]
      simp only [ih]
      cases e with
      | prefixEvent kind b origin seq hashes => cases kind <;> rfl
      | loadEvent origin seq inflight unhealthy => rfl
      | drainEvent origin seq ts b draining => rfl
      | drainDigest origin seq entries => rfl
      | memberEvent origin seq action b url model ts => rfl
      | membershipDigest origin seq entries => rfl

/-- `sync` delivers the load events of its batch to the view, and nothing else reaches it. -/
theorem fleet_sync (c : Coordinator H B O) (events : List (Event H B O)) :
    (c.sync events).1.fleet = (loadsOf events).foldl
      (fun v ev => v.apply ev.origin ev.inflight ev.unhealthy) c.fleet := by
  have reconciled : ∀ c : Coordinator H B O, c.reconcileMembership.fleet = c.fleet := fun c => by
    simp only [reconcileMembership]
    split <;> rfl
  rw [← fleet_applyEvents]
  simp only [sync]
  split <;> split <;> simp [reconciled, reconcileDrains]

/-- The view of a replica that has synced any number of batches is that of their load
events, in the order of delivery. -/
theorem fleet_syncs (c : Coordinator H B O) (start : c.fleet = .empty)
    (batches : List (List (Event H B O))) :
    (batches.foldl (fun c events => (c.sync events).1) c).fleet =
      FleetLoadView.after (batches.flatMap loadsOf) := by
  induction batches using List.reverseRecOn with
  | nil => exact start
  | append_singleton batches events ih =>
      rw [List.foldl_append, List.foldl_cons, List.foldl_nil, fleet_sync, ih, List.flatMap_append,
        FleetLoadView.after, FleetLoadView.after, List.foldl_append]
      simp

end Coordinator

end Gateway
