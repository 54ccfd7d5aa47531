import Mathlib.Data.String.Basic
import Gateway.Cluster.State
import Gateway.Lib.Machine

/-!
Convergence of the replicated maps over a fleet.

A fleet is a map per replica id, so ids are pairwise distinct by construction.
Replicas write locally and publish the operation, publish digests of their whole
map, and take in any operation or digest ever published, in any order and any
number of times; a message that is lost is one that is never taken in.

`known r` is bookkeeping, not code: the operations that `r` issued or received,
directly or inside a digest.

* `Fleet.Sound` is the invariant of all runs (`Fleet.step_sound`): every map tracks
  what its owner knows, and the clock of a writer dominates its own stamps.
* `Fleet.Sound.convergent` draws from it that versions are unique, that local
  writes win over what they overwrite, and that maps are determined by what is
  known.
* `fleet_converges` is the result for drain maps and membership maps.
-/

namespace Gateway

variable {B V O : Type}

/-- The replicas' maps and everything that was ever put on the wire. -/
structure Fleet (B V O : Type) where
  replica : O → Lww B V O
  published : List (B × Entry V O)
  digests : List (Dict B (Entry V O))
  known : O → List (B × Entry V O)

namespace Fleet

/-- All maps empty, nothing published. -/
def empty : Fleet B V O := ⟨fun _ => .empty, [], [], fun _ => []⟩

/-- What can happen in a fleet. -/
inductive Action (B V O : Type) where
  | setLocal (r : O) (b : B) (v : V)
  | deliver (r : O) (b : B) (e : Entry V O)
  | gossip (r : O)
  | deliverDigest (r : O) (digest : Dict B (Entry V O))

variable [DecidableEq B] [DecidableEq V] [LinearOrder O]

/-- Replace the map of one replica, and record what it came to know. -/
def learn (s : Fleet B V O) (r : O) (m : Lww B V O) (ops : List (B × Entry V O)) : Fleet B V O :=
  { s with
    replica := Function.update s.replica r m
    known := Function.update s.known r (s.known r ++ ops) }

/-- One action; only what was published can be delivered. -/
def step (differs : V → V → Bool) (s : Fleet B V O) : Action B V O → Option (Fleet B V O)
  | .setLocal r b v =>
      let (m, ts) := (s.replica r).setLocal b v r
      some { s.learn r m [(b, ⟨v, ts, r⟩)] with published := s.published ++ [(b, ⟨v, ts, r⟩)] }
  | .deliver r b e =>
      if (b, e) ∈ s.published then
        some (s.learn r ((s.replica r).apply differs b e).1 [(b, e)])
      else none
  | .gossip r => some { s with digests := s.digests ++ [(s.replica r).entries] }
  | .deliverDigest r digest =>
      if digest ∈ s.digests then
        some (s.learn r ((s.replica r).merge differs digest).1 digest.items)
      else none

/-! ### The invariant -/

/-- What holds in every reachable fleet. -/
structure Sound (s : Fleet B V O) : Prop where
  tracks : ∀ r, (s.replica r).Tracks (s.known r)
  known : ∀ {r op}, op ∈ s.known r → op ∈ s.published
  digests : ∀ {d op}, d ∈ s.digests → op ∈ d.items → op ∈ s.published
  dominated : ∀ {op}, op ∈ s.published → op.2.ts ≤ (s.replica op.2.origin).clock
  distinct : (s.published.map fun op => op.2.version).Nodup

omit [DecidableEq V] in
theorem empty_sound : Sound (empty : Fleet B V O) where
  tracks := fun _ => Lww.tracks_empty
  known := fun h => by cases h
  digests := fun h => by cases h
  dominated := fun h => by cases h
  distinct := List.nodup_nil

variable {s : Fleet B V O}

omit [DecidableEq V] in
theorem Sound.unique (sound : s.Sound) {op op' : B × Entry V O} (member : op ∈ s.published)
    (member' : op' ∈ s.published) (same : op.2.version = op'.2.version) : op = op' :=
  List.inj_on_of_nodup_map sound.distinct member member' same

omit [DecidableEq V] in
/-- Taking in published operations keeps the invariant. -/
theorem Sound.learn (sound : s.Sound) {r : O} {m : Lww B V O} {ops : List (B × Entry V O)}
    (tracks : m.Tracks (s.known r ++ ops)) (later : (s.replica r).clock ≤ m.clock)
    (published : ∀ op ∈ ops, op ∈ s.published) : (s.learn r m ops).Sound where
  tracks := by
    intro q
    by_cases same : q = r
    · subst same
      simpa [Fleet.learn] using tracks
    · simpa [Fleet.learn, same] using sound.tracks q
  known := by
    intro q op member
    by_cases same : q = r
    · subst same
      have : op ∈ s.known q ∨ op ∈ ops := by simpa [Fleet.learn] using member
      rcases this with before | new
      · exact sound.known before
      · exact published op new
    · exact sound.known (r := q) (by simpa [Fleet.learn, same] using member)
  digests := sound.digests
  dominated := by
    intro op member
    have bound := sound.dominated member
    by_cases same : op.2.origin = r
    · simp only [Fleet.learn, same, Function.update_self]
      rw [same] at bound
      exact bound.trans later
    · simpa [Fleet.learn, same] using bound
  distinct := sound.distinct

omit [DecidableEq V] in
theorem clock_applyAll_le (differs : V → V → Bool) (m : Lww B V O) (ops : List (B × Entry V O)) :
    m.clock ≤ (m.applyAll differs ops).1.clock := by
  induction ops generalizing m with
  | nil => exact le_refl _
  | cons op rest ih =>
      obtain ⟨b, e⟩ := op
      refine le_trans ?_ (ih (m.apply differs b e).1)
      rw [Lww.clock_apply]
      exact le_max_left _ _

omit [DecidableEq V] in
/-- The version of a local write is new to the whole fleet. -/
theorem Sound.fresh (sound : s.Sound) (r : O) (v : V) {op : B × Entry V O}
    (member : op ∈ s.published) :
    op.2.version ≠ Entry.version ⟨v, (s.replica r).clock + 1, r⟩ := by
  intro same
  obtain ⟨ts, origin⟩ := Prod.mk.inj (toLex.injective same)
  have bound := sound.dominated member
  rw [ts, origin] at bound
  exact absurd bound (not_le.mpr (Int.lt_succ _))

omit [DecidableEq V] in
/-- A fleet in which one more operation was published but not yet taken in. -/
theorem Sound.setLocal (sound : s.Sound) (r : O) (b : B) (v : V) :
    Sound { s.learn r ((s.replica r).setLocal b v r).1 [(b, ⟨v, (s.replica r).clock + 1, r⟩)] with
      published := s.published ++ [(b, ⟨v, (s.replica r).clock + 1, r⟩)] } where
  tracks := by
    intro q
    by_cases same : q = r
    · subst same
      simpa [Fleet.learn] using (sound.tracks q).setLocal b v q
    · simpa [Fleet.learn, same] using sound.tracks q
  known := by
    intro q op member
    refine List.mem_append.mpr ?_
    by_cases same : q = r
    · subst same
      have : op ∈ s.known q ∨ op = (b, ⟨v, (s.replica q).clock + 1, q⟩) := by
        simpa [Fleet.learn] using member
      exact this.imp sound.known List.mem_singleton.mpr
    · exact .inl (sound.known (r := q) (by simpa [Fleet.learn, same] using member))
  digests := fun sent member => List.mem_append_left _ (sound.digests sent member)
  dominated := by
    intro op member
    have later : ∀ q, (s.replica q).clock ≤ ((s.learn r ((s.replica r).setLocal b v r).1
        [(b, ⟨v, (s.replica r).clock + 1, r⟩)]).replica q).clock := by
      intro q
      by_cases same : q = r
      · subst same
        simp only [Fleet.learn, Lww.setLocal, Function.update_self]
        omega
      · simp [Fleet.learn, same]
    rcases List.mem_append.mp member with before | new
    · exact (sound.dominated before).trans (later _)
    · rw [List.mem_singleton.mp new]
      simp [Fleet.learn, Lww.setLocal]
  distinct := by
    rw [List.map_append, List.map_singleton]
    refine List.Nodup.append sound.distinct (List.nodup_singleton _) ?_
    rw [List.disjoint_singleton]
    intro used
    obtain ⟨op, member, same⟩ := List.mem_map.mp used
    exact sound.fresh r v member same

/-- **Every action keeps the invariant.** -/
theorem step_sound {differs : V → V → Bool} {s' : Fleet B V O} (a : Action B V O)
    (sound : s.Sound) (taken : step differs s a = some s') : s'.Sound := by
  cases a with
  | setLocal r b v =>
      cases taken
      exact sound.setLocal r b v
  | deliver r b e =>
      simp only [step] at taken
      split at taken
      · rename_i member
        cases taken
        refine sound.learn ((sound.tracks r).apply differs b e) ?_ (by simpa using member)
        rw [Lww.clock_apply]
        exact le_max_left _ _
      · cases taken
  | gossip r =>
      cases taken
      refine ⟨sound.tracks, sound.known, ?_, sound.dominated, sound.distinct⟩
      intro d op sent member
      rcases List.mem_append.mp sent with before | new
      · exact sound.digests before member
      · rw [List.mem_singleton.mp new] at member
        exact sound.known ((sound.tracks r).stored (Dict.mem_items_iff.mp member))
  | deliverDigest r digest =>
      simp only [step] at taken
      split at taken
      · rename_i sent
        cases taken
        exact sound.learn ((sound.tracks r).merge differs digest)
          (clock_applyAll_le differs _ _) fun op member => sound.digests sent member
      · cases taken

/-! ### Convergence -/

/-- What the replicated maps are for. -/
structure Convergent (differs : V → V → Bool) (s : Fleet B V O) : Prop where
  /-- No two operations carry the same version. -/
  distinct : (s.published.map fun op => op.2.version).Nodup
  /-- A local write is newer than the entry it overwrites. -/
  overwrites : ∀ r b v cur, (s.replica r).entries.get? b = some cur →
    cur.version < Entry.version ⟨v, ((s.replica r).setLocal b v r).2, r⟩
  /-- An entry is the greatest operation known on its backend. -/
  latest : ∀ r b e, (s.replica r).entries.get? b = some e ↔
    (b, e) ∈ s.known r ∧ ∀ e', (b, e') ∈ s.known r → e'.version ≤ e.version
  /-- Equal knowledge gives equal maps. -/
  agree : ∀ p q, (∀ b e, (b, e) ∈ s.known p ↔ (b, e) ∈ s.known q) →
    ∀ b, (s.replica p).entries.get? b = (s.replica q).entries.get? b
  /-- Exchanged digests give equal maps, whether the second replica merges the
  digest that the first one sent before or after its own merge. -/
  exchange : ∀ p q b,
    let merged := ((s.replica p).merge differs (s.replica q).entries).1
    ((s.replica q).merge differs (s.replica p).entries).1.entries.get? b =
        merged.entries.get? b ∧
      ((s.replica q).merge differs merged.entries).1.entries.get? b = merged.entries.get? b

omit [DecidableEq V] in
theorem Sound.unique_known (sound : s.Sound) {p q : O} {b b' : B} {e e' : Entry V O}
    (member : (b, e) ∈ s.known p) (member' : (b', e') ∈ s.known q)
    (same : e.version = e'.version) : e = e' :=
  (Prod.mk.inj (sound.unique (sound.known member) (sound.known member') same)).2

omit [DecidableEq V] in
/-- What a replica holds it knows. -/
theorem Sound.known_items (sound : s.Sound) {p : O} {op : B × Entry V O}
    (member : op ∈ (s.replica p).entries.items) : op ∈ s.known p :=
  (sound.tracks p).stored (Dict.mem_items_iff.mp member)

omit [DecidableEq V] in
theorem Sound.convergent (sound : s.Sound) (differs : V → V → Bool) : s.Convergent differs where
  distinct := sound.distinct
  overwrites := fun r b v cur held =>
    (sound.tracks r).version_lt_setLocal ((sound.tracks r).stored held) v r
  latest := fun r b e => (sound.tracks r).get?_eq_some_iff sound.unique_known
  agree := fun p q same b => (sound.tracks p).get?_eq (sound.tracks q) same sound.unique_known b
  exchange := by
    intro p q b merged
    set ours := (s.replica p).entries.items
    set theirs := (s.replica q).entries.items
    have tracks : merged.Tracks (ours ++ theirs) := (sound.tracks p).self.merge differs _
    have unique : ∀ {k e k' e'}, (k, e) ∈ ours ++ theirs → (k', e') ∈ ours ++ theirs →
        e.version = e'.version → e = e' := by
      have known : ∀ {op}, op ∈ ours ++ theirs → op ∈ s.published := by
        intro op member
        rcases List.mem_append.mp member with left | right
        · exact sound.known (sound.known_items left)
        · exact sound.known (sound.known_items right)
      intro k e k' e' member member' same
      exact (Prod.mk.inj (sound.unique (known member) (known member') same)).2
    constructor
    · refine (tracks.get?_eq ((sound.tracks q).self.merge differs _) ?_ unique b).symm
      intro k e
      simp only [List.mem_append, or_comm, ours, theirs]
    · have absorbed : merged.Tracks (theirs ++ merged.entries.items) :=
        tracks.absorb fun op member => List.mem_append_right _ member
      refine (absorbed.get?_eq ((sound.tracks q).self.merge differs _) (fun _ _ => Iff.rfl) ?_ b).symm
      have known : ∀ {op}, op ∈ theirs ++ merged.entries.items → op ∈ ours ++ theirs := by
        intro op member
        rcases List.mem_append.mp member with left | right
        · exact List.mem_append_right _ left
        · exact tracks.stored (Dict.mem_items_iff.mp right)
      intro k e k' e' member member'
      exact unique (known member) (known member')

/-- The invariant over whole runs. -/
theorem run_sound {differs : V → V → Bool} {as : List (Action B V O)}
    (reach : Machine.run (step differs) empty as = some s) : s.Sound :=
  Machine.run_invariant (fun _ a _ sound taken => step_sound a sound taken) empty_sound reach

end Fleet

/-- **Convergence of drain and membership maps.** Over every run of a fleet, with any
order, repetition and loss of messages. -/
theorem fleet_converges [DecidableEq B] [LinearOrder O] :
    (∀ (as : List (Fleet.Action B Bool O)) (s : Fleet B Bool O),
        Machine.run (Fleet.step DrainState.differs) .empty as = some s →
        s.Convergent DrainState.differs) ∧
      ∀ (as : List (Fleet.Action B Member O)) (s : Fleet B Member O),
        Machine.run (Fleet.step MembershipState.differs) .empty as = some s →
        s.Convergent MembershipState.differs :=
  ⟨fun _ _ reach => (Fleet.run_sound reach).convergent _,
    fun _ _ reach => (Fleet.run_sound reach).convergent _⟩

/-- Concurrent writes on two replicas, delivered late and twice. -/
def crossedDrains : List (Fleet.Action String Bool String) :=
  [.setLocal "A" "b1" true, .setLocal "B" "b1" false, .deliver "A" "b1" ⟨false, 1, "B"⟩,
    .deliver "A" "b1" ⟨false, 1, "B"⟩, .deliver "B" "b1" ⟨true, 1, "A"⟩]

/-- A removal that overtakes a digest of the addition. -/
def overtakenDigest : List (Fleet.Action String Member String) :=
  [.setLocal "A" "b1" ⟨true, "http://b1", ""⟩, .gossip "A", .setLocal "A" "b1" ⟨false, "", ""⟩,
    .deliver "B" "b1" ⟨⟨false, "", ""⟩, 2, "A"⟩,
    .deliverDigest "B" (Dict.empty.set "b1" ⟨⟨true, "http://b1", ""⟩, 1, "A"⟩)]

theorem fleet_converges_crossed :
    (∃ s, Machine.run (Fleet.step DrainState.differs) .empty crossedDrains = some s ∧
      (s.replica "A").entries.get? "b1" = some ⟨false, 1, "B"⟩ ∧
      s.Convergent DrainState.differs) ∧
    ∃ s, Machine.run (Fleet.step MembershipState.differs) .empty overtakenDigest = some s ∧
      (s.replica "B").entries.get? "b1" = some ⟨⟨false, "", ""⟩, 2, "A"⟩ ∧
      s.Convergent MembershipState.differs := by
  constructor
  · obtain ⟨s, reach, entry⟩ : ∃ s,
        Machine.run (Fleet.step DrainState.differs) .empty crossedDrains = some s ∧
        (s.replica "A").entries.get? "b1" = some ⟨false, 1, "B"⟩ :=
      Machine.exists_run (by decide +kernel)
    exact ⟨s, reach, entry, fleet_converges.1 _ s reach⟩
  · obtain ⟨s, reach, entry⟩ : ∃ s,
        Machine.run (Fleet.step MembershipState.differs) .empty overtakenDigest = some s ∧
        (s.replica "B").entries.get? "b1" = some ⟨⟨false, "", ""⟩, 2, "A"⟩ :=
      Machine.exists_run (by decide +kernel)
    exact ⟨s, reach, entry, fleet_converges.2 _ s reach⟩

end Gateway
