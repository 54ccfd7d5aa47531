import Mathlib.Data.Fintype.Basic
import Mathlib.Order.Fin.Basic
import Gateway.Cluster.SyncLoop

/-!
What the digests of the sync loop repair.

A push of the gossip transport that fails is not repeated: its events are lost to that peer.
Every `DIGEST_EVERY` passes a replica publishes both of its maps, and the drain and membership
maps of all replicas are last-writer-wins maps of operations that their writers never forget.

* `Mesh.Sound` is the invariant of all runs: everybody knows what it published, and what is in
  flight was published. An action moves one replica (`Moves`, `step_moves`).
* `Mesh.Quiet` is the invariant of a phase without decisions: a digest that was published in it
  carries every last word of its origin, and whoever has applied it holds them.
* `antiEntropy_settles`: two replicas that have applied a digest of every other one agree,
  whatever else was lost before and meanwhile.
* `healed_settles`: `DIGEST_EVERY` passes without loss, and one more once they have arrived, are
  enough for the whole fleet.
-/

namespace Gateway

variable {H B V O : Type}

namespace Mesh

/-- An event that was published and may still be applied somewhere. -/
def Flying (g : Mesh H B O) (e : Event H B O) : Prop :=
  (∃ r, e ∈ (g.node r).coord.outbox) ∨ (∃ m ∈ g.wire, e ∈ m.2) ∨ ∃ r, e ∈ (g.node r).inbox

/-- What an action does at replica `r`: it publishes `new` and applies `taken`. -/
structure Moves (g g' : Mesh H B O) (r : O) (new taken : List (Event H B O)) : Prop where
  others : ∀ q, q ≠ r → (g'.node q).coord = (g.node q).coord ∧ (g'.node q).heard = (g.node q).heard
  replicaId : (g'.node r).coord.replicaId = (g.node r).coord.replicaId
  later : (g.node r).coord.seq ≤ (g'.node r).coord.seq
  heard : (g'.node r).heard = (g.node r).heard ++ taken
  flying : ∀ e, g'.Flying e → g.Flying e ∨ e ∈ new
  new : ∀ e ∈ new, e.origin = (g.node r).coord.replicaId ∧ (g.node r).coord.seq < e.seq ∧
    e.seq ≤ (g'.node r).coord.seq
  taken : ∀ e ∈ taken, g.Flying e

variable [DecidableEq H] [DecidableEq B] [LinearOrder O]
  {peers : O → List O} {g g' : Mesh H B O}

omit [DecidableEq H] [DecidableEq B] in
theorem flying_put {r : O} {n : GossipNode H B O} {e : Event H B O}
    (flying : (g.put r n).Flying e) : g.Flying e ∨ e ∈ n.coord.outbox ∨ e ∈ n.inbox := by
  rcases flying with ⟨q, sent⟩ | wired | ⟨q, received⟩
  · by_cases same : q = r
    · subst same
      rw [node_put_self] at sent
      exact .inr (.inl sent)
    · rw [node_put_of_ne g same] at sent
      exact .inl (.inl ⟨q, sent⟩)
  · exact .inl (.inr (.inl wired))
  · by_cases same : q = r
    · subst same
      rw [node_put_self] at received
      exact .inr (.inr received)
    · rw [node_put_of_ne g same] at received
      exact .inl (.inr (.inr ⟨q, received⟩))

/-- A request. -/
theorem moves_request {r : O} {q : Request H B} {new : List (Event H B O)}
    (publishes : (g.node r).coord.Publishes ((g.node r).coord.request q) new) :
    Moves g (g.put r { g.node r with coord := (g.node r).coord.request q }) r new [] where
  others := by
    intro p other
    rw [node_put_of_ne g other]
    exact ⟨rfl, rfl⟩
  replicaId := by
    rw [node_put_self]
    exact publishes.replicaId
  later := by
    rw [node_put_self]
    exact publishes.later
  heard := by
    rw [node_put_self, List.append_nil]
  flying := by
    intro e flying
    rcases flying_put flying with before | sent | received
    · exact .inl before
    · change e ∈ ((g.node r).coord.request q).outbox at sent
      rw [publishes.outbox] at sent
      rcases List.mem_append.mp sent with old | fresh
      · exact .inl (.inl ⟨r, old⟩)
      · exact .inr fresh
    · exact .inl (.inr (.inr ⟨r, received⟩))
  new := by
    rw [node_put_self]
    exact publishes.numbered
  taken := by simp

/-- A pass of the loop. -/
theorem moves_pass {r : O} {inflight : Dict B Int} {unhealthy : List B}
    {new : List (Event H B O)}
    (publishes : (g.node r).coord.Publishes
      ((g.node r).coord.announce (g.node r).tick inflight unhealthy) new) :
    Moves g (g.pass peers r inflight unhealthy) r new (g.node r).inbox := by
  set c := (g.node r).coord.announce (g.node r).tick inflight unhealthy with announced
  obtain ⟨outbox, replicaId, seq⟩ := ({ c with outbox := [] } : Coordinator H B O).bus_sync
    (g.node r).inbox
  have node : (g.pass peers r inflight unhealthy).node r =
      ⟨({ c with outbox := [] }.sync (g.node r).inbox).1, [], (g.node r).tick + 1,
        (g.node r).heard ++ (g.node r).inbox⟩ := by
    simp only [pass, put, Function.update_self, announced]
  refine ⟨?_, ?_, ?_, ?_, ?_, ?_, fun e member => .inr (.inr ⟨r, member⟩)⟩
  · intro q other
    simp only [pass, put, Function.update_of_ne other, and_self]
  · rw [node, replicaId]
    exact publishes.replicaId
  · rw [node, seq]
    exact publishes.later
  · rw [node]
  · intro e flying
    have sent : e ∈ c.outbox → g.Flying e ∨ e ∈ new := by
      intro member
      rw [publishes.outbox] at member
      rcases List.mem_append.mp member with old | fresh
      · exact .inl (.inl ⟨r, old⟩)
      · exact .inr fresh
    rcases flying with ⟨q, member⟩ | ⟨m, wired, member⟩ | ⟨q, member⟩
    · by_cases same : q = r
      · subst same
        rw [node, outbox] at member
        cases member
      · simp only [pass, put, Function.update_of_ne same] at member
        exact .inl (.inl ⟨q, member⟩)
    · rcases List.mem_append.mp wired with before | pushed
      · exact .inl (.inr (.inl ⟨m, before, member⟩))
      · split at pushed
        · cases pushed
        · obtain ⟨p, _, rfl⟩ := List.mem_map.mp pushed
          exact sent member
    · by_cases same : q = r
      · subst same
        rw [node] at member
        cases member
      · simp only [pass, put, Function.update_of_ne same] at member
        exact .inl (.inr (.inr ⟨q, member⟩))
  · rw [node, seq]
    exact publishes.numbered

omit [DecidableEq H] [DecidableEq B] in
/-- A batch arrives. -/
theorem moves_deliver {i : Nat} {p : O} {batch : List (Event H B O)}
    (there : g.wire[i]? = some (p, batch)) :
    Moves g { g.ingest p batch with wire := g.wire.eraseIdx i } p [] [] := by
  have node : ({ g.ingest p batch with wire := g.wire.eraseIdx i } : Mesh H B O).node =
      (g.ingest p batch).node := rfl
  have self : (g.ingest p batch).node p = { g.node p with
      inbox := (g.node p).inbox ++ batch.filter fun e => e.origin ≠ (g.node p).coord.replicaId } :=
    node_put_self ..
  refine ⟨?_, ?_, ?_, ?_, ?_, by simp, by simp⟩
  · intro q other
    rw [node, ingest, node_put_of_ne g other]
    exact ⟨rfl, rfl⟩
  · rw [node, self]
  · rw [node, self]
  · rw [node, self, List.append_nil]
  · intro e flying
    left
    have wired : ∀ {m}, m ∈ g.wire.eraseIdx i → m ∈ g.wire := fun member =>
      (List.eraseIdx_sublist _ _).subset member
    rcases flying with ⟨q, sent⟩ | ⟨m, member, carried⟩ | ⟨q, received⟩
    · by_cases same : q = p
      · subst same
        rw [node, self] at sent
        exact .inl ⟨q, sent⟩
      · rw [node, ingest, node_put_of_ne g same] at sent
        exact .inl ⟨q, sent⟩
    · exact .inr (.inl ⟨m, wired member, carried⟩)
    · by_cases same : q = p
      · subst same
        rw [node, self] at received
        rcases List.mem_append.mp received with before | arrived
        · exact .inr (.inr ⟨q, before⟩)
        · exact .inr (.inl ⟨_, List.mem_of_getElem? there, (List.mem_filter.mp arrived).1⟩)
      · rw [node, ingest, node_put_of_ne g same] at received
        exact .inr (.inr ⟨q, received⟩)

omit [DecidableEq H] [DecidableEq B] [LinearOrder O] in
/-- A batch is lost. -/
theorem moves_lose (i : Nat) (r : O) : Moves g { g with wire := g.wire.eraseIdx i } r [] [] where
  others := fun _ _ => ⟨rfl, rfl⟩
  replicaId := rfl
  later := le_refl _
  heard := (List.append_nil _).symm
  flying := by
    intro e flying
    rcases flying with sent | ⟨m, member, carried⟩ | received
    · exact .inl (.inl sent)
    · exact .inl (.inr (.inl ⟨m, (List.eraseIdx_sublist _ _).subset member, carried⟩))
    · exact .inl (.inr (.inr received))
  new := by simp
  taken := by simp

/-- No operator decides anything. -/
def Action.isQuiet : Action H B O → Bool
  | .request _ q => q.isTraffic
  | _ => true

variable {A : Aspect H B V O}

/-- **What an action does** to one of the replicated maps: the replica applies what it takes in,
and publishes digests of its map, or it writes and publishes the operation. -/
theorem step_moves (lawful : A.Lawful) {a : Action H B O} (happens : step peers g a = some g') :
    ∃ r new taken, Moves g g' r new taken ∧
      ((A.map (g'.node r).coord =
            ((A.map (g.node r).coord).applyAll A.differs (taken.flatMap A.ops)).1 ∧
          ∀ e ∈ new, A.ops e = if A.digest e then (A.map (g.node r).coord).entries.items else []) ∨
        (a.isQuiet = false ∧ taken = [] ∧ ∃ b v,
          A.map (g'.node r).coord =
            ((A.map (g.node r).coord).setLocal b v (g.node r).coord.replicaId).1 ∧
          ∀ e ∈ new, A.digest e = false ∧ A.ops e =
            [(b, ⟨v, (A.map (g.node r).coord).clock + 1, (g.node r).coord.replicaId⟩)])) := by
  cases a with
  | request r q =>
      cases happens
      have untouched : A.Untouched (g.node r).coord ((g.node r).coord.request q) →
          ∃ new, Moves g (g.put r { g.node r with coord := (g.node r).coord.request q }) r new [] ∧
            A.map ((g.node r).coord.request q) = A.map (g.node r).coord ∧
            ∀ e ∈ new, A.ops e = if A.digest e then (A.map (g.node r).coord).entries.items else [] := by
        rintro ⟨map, new, publishes, silent⟩
        refine ⟨new, moves_request publishes, map, fun e member => ?_⟩
        obtain ⟨ops, digest⟩ := silent e member
        rw [ops, digest]
        rfl
      rcases lawful.request (g.node r).coord q with same | ⟨b, v, e, map, publishes, ops, digest⟩
      · obtain ⟨new, moves, map, silent⟩ := untouched same
        refine ⟨r, new, [], moves, .inl ⟨?_, silent⟩⟩
        rw [node_put_self]
        exact map
      · cases quiet : q.isTraffic with
        | true =>
            obtain ⟨new, moves, map, silent⟩ := untouched (lawful.traffic _ q quiet)
            refine ⟨r, new, [], moves, .inl ⟨?_, silent⟩⟩
            rw [node_put_self]
            exact map
        | false =>
            refine ⟨r, [e], [], moves_request publishes, .inr ⟨quiet, rfl, b, v, ?_, ?_⟩⟩
            · rw [node_put_self]
              exact map
            · intro e' member
              rw [List.mem_singleton.mp member]
              exact ⟨digest, ops⟩
  | pass r inflight unhealthy =>
      cases happens
      obtain ⟨map, new, publishes, digests⟩ :=
        lawful.announce (g.node r).coord (g.node r).tick inflight unhealthy
      refine ⟨r, new, (g.node r).inbox, moves_pass publishes, .inl ⟨?_, digests⟩⟩
      simp only [pass, put, Function.update_self, lawful.sync, lawful.flushed, map]
  | deliver i =>
      obtain ⟨⟨p, batch⟩, there, rfl⟩ := Option.map_eq_some_iff.mp happens
      refine ⟨p, [], [], moves_deliver there, .inl ⟨?_, by simp⟩⟩
      show A.map ((g.ingest p batch).node p).coord = _
      rw [ingest, node_put_self]
      rfl
  | lose i =>
      obtain ⟨⟨p, batch⟩, _, rfl⟩ := Option.map_eq_some_iff.mp happens
      exact ⟨p, [], [], moves_lose i p, .inl ⟨rfl, by simp⟩⟩

/-! ### What is known -/

variable [DecidableEq V] {f : Fleet B V O}

/-- The mesh against an account of what was published and who knows what: everybody knows the
operations it published, and what is in flight was published. -/
structure Sound (A : Aspect H B V O) (g : Mesh H B O) (f : Fleet B V O) : Prop where
  ids : ∀ r, (g.node r).coord.replicaId = r
  fleet : f.Sound
  owned : ∀ op ∈ f.published, op ∈ f.known op.2.origin
  maps : ∀ r, f.replica r = A.map (g.node r).coord
  flying : ∀ e, g.Flying e → ∀ op ∈ A.ops e, op ∈ f.published
  numbered : ∀ e, (g.Flying e ∨ ∃ r, e ∈ (g.node r).heard) → e.seq ≤ (g.node e.origin).coord.seq

omit [DecidableEq V] in
theorem init_sound (lawful : A.Lawful) (cap : Int) (registry : O → Option (BackendRegistry B)) :
    Sound A (init cap registry) .empty where
  ids := fun _ => rfl
  fleet := Fleet.empty_sound
  owned := fun _ member => by cases member
  maps := fun r => (lawful.init ..).symm
  flying := by
    rintro e (⟨_, none⟩ | ⟨_, none, _⟩ | ⟨_, none⟩) <;> cases none
  numbered := by
    rintro e ((⟨_, none⟩ | ⟨_, none, _⟩ | ⟨_, none⟩) | ⟨_, none⟩) <;> cases none

omit [DecidableEq H] [DecidableEq B] in
theorem Moves.seq_le {r : O} {new taken : List (Event H B O)} (moves : Moves g g' r new taken)
    (q : O) : (g.node q).coord.seq ≤ (g'.node q).coord.seq := by
  by_cases same : q = r
  · rw [same]
    exact moves.later
  · rw [(moves.others q same).1]

omit [DecidableEq V] [DecidableEq H] in
/-- The numbers of events stay below those of their origins. -/
theorem Moves.numbered {r : O} {new taken : List (Event H B O)} (moves : Moves g g' r new taken)
    (sound : Sound A g f) (e : Event H B O)
    (known : g'.Flying e ∨ ∃ r, e ∈ (g'.node r).heard) : e.seq ≤ (g'.node e.origin).coord.seq := by
  have before : (g.Flying e ∨ ∃ r, e ∈ (g.node r).heard) → e.seq ≤ (g'.node e.origin).coord.seq :=
    fun known => (sound.numbered e known).trans (moves.seq_le _)
  rcases known with flying | ⟨q, heard⟩
  · rcases moves.flying e flying with old | fresh
    · exact before (.inl old)
    · obtain ⟨origin, _, within⟩ := moves.new e fresh
      rwa [origin, sound.ids]
  · by_cases same : q = r
    · rw [same, moves.heard] at heard
      rcases List.mem_append.mp heard with old | applied
      · exact before (.inr ⟨r, old⟩)
      · exact before (.inl (moves.taken e applied))
    · rw [(moves.others q same).2] at heard
      exact before (.inr ⟨q, heard⟩)

omit [DecidableEq H] [DecidableEq B] in
theorem Moves.ids {r : O} {new taken : List (Event H B O)} (moves : Moves g g' r new taken)
    (ids : ∀ q, (g.node q).coord.replicaId = q) (q : O) : (g'.node q).coord.replicaId = q := by
  by_cases same : q = r
  · rw [same, moves.replicaId, ids]
  · rw [(moves.others q same).1, ids]

omit [DecidableEq V] [DecidableEq H] in
/-- A replica takes in events, and publishes digests at most. -/
theorem Sound.takes (sound : Sound A g f) {r : O} {new taken : List (Event H B O)}
    (moves : Moves g g' r new taken)
    (map : A.map (g'.node r).coord =
      ((A.map (g.node r).coord).applyAll A.differs (taken.flatMap A.ops)).1)
    (digests : ∀ e ∈ new,
      A.ops e = if A.digest e then (A.map (g.node r).coord).entries.items else []) :
    Sound A g' (f.learn r (A.map (g'.node r).coord) (taken.flatMap A.ops)) where
  ids := moves.ids sound.ids
  fleet := by
    refine sound.fleet.learn ?_ ?_ ?_
    · rw [map, ← sound.maps]
      exact (sound.fleet.tracks r).applyAll A.differs _
    · rw [map, ← sound.maps]
      exact Fleet.clock_applyAll_le A.differs _ _
    · intro op member
      obtain ⟨e, applied, carried⟩ := List.mem_flatMap.mp member
      exact sound.flying e (moves.taken e applied) op carried
  owned := by
    intro op member
    have known := sound.owned op member
    by_cases same : op.2.origin = r
    · simp only [Fleet.learn, same, Function.update_self]
      rw [same] at known
      exact List.mem_append_left _ known
    · simpa [Fleet.learn, same] using known
  maps := by
    intro q
    by_cases same : q = r
    · subst same
      simp [Fleet.learn]
    · simp only [Fleet.learn, Function.update_of_ne same, (moves.others q same).1, sound.maps]
  flying := by
    intro e flying op carried
    rcases moves.flying e flying with old | fresh
    · exact sound.flying e old op carried
    · rw [digests e fresh] at carried
      split at carried
      · rw [← sound.maps] at carried
        exact sound.fleet.known (sound.fleet.known_items carried)
      · cases carried
  numbered := moves.numbered sound

omit [DecidableEq V] [DecidableEq H] in
/-- A replica writes. -/
theorem Sound.writes (sound : Sound A g f) {r : O} {new : List (Event H B O)}
    (moves : Moves g g' r new []) {b : B} {v : V}
    (map : A.map (g'.node r).coord =
      ((A.map (g.node r).coord).setLocal b v (g.node r).coord.replicaId).1)
    (ops : ∀ e ∈ new, A.ops e =
      [(b, ⟨v, (A.map (g.node r).coord).clock + 1, (g.node r).coord.replicaId⟩)]) :
    ∃ f', Sound A g' f' := by
  rw [sound.ids, ← sound.maps] at map ops
  let op : B × Entry V O := (b, ⟨v, (f.replica r).clock + 1, r⟩)
  refine ⟨{ f.learn r ((f.replica r).setLocal b v r).1 [op] with published := f.published ++ [op] },
    { ids := moves.ids sound.ids
      fleet := sound.fleet.setLocal r b v
      owned := ?_
      maps := ?_
      flying := ?_
      numbered := moves.numbered sound }⟩
  · intro op' member
    rcases List.mem_append.mp member with before | new
    · have known := sound.owned op' before
      by_cases same : op'.2.origin = r
      · simp only [Fleet.learn, same, Function.update_self]
        rw [same] at known
        exact List.mem_append_left _ known
      · simpa [Fleet.learn, same] using known
    · rw [List.mem_singleton.mp new]
      simp [Fleet.learn, op]
  · intro q
    by_cases same : q = r
    · subst same
      simp [Fleet.learn, map]
    · simp only [Fleet.learn, Function.update_of_ne same, (moves.others q same).1, sound.maps]
  · intro e flying op' carried
    rcases moves.flying e flying with old | fresh
    · exact List.mem_append_left _ (sound.flying e old op' carried)
    · rw [ops e fresh] at carried
      exact List.mem_append_right _ carried

omit [DecidableEq V] in
/-- **The account over whole runs.** -/
theorem run_sound (lawful : A.Lawful) {cap : Int} {registry : O → Option (BackendRegistry B)}
    {as : List (Action H B O)} (reach : Machine.run (step peers) (init cap registry) as = some g) :
    ∃ f, Sound A g f := by
  refine Machine.run_invariant (I := fun g => ∃ f, Sound A g f) ?_
    ⟨_, init_sound lawful cap registry⟩ reach
  rintro g a g' ⟨f, sound⟩ happens
  obtain ⟨r, new, taken, moves, ⟨map, digests⟩ | ⟨_, rfl, b, v, map, ops⟩⟩ :=
    step_moves lawful happens
  · exact ⟨_, sound.takes moves map digests⟩
  · exact sound.writes moves map fun e member => (ops e member).2

/-! ### A quiet phase -/

/-- The last word on its backend among the operations `ops`. -/
def Latest (ops : List (B × Entry V O)) (op : B × Entry V O) : Prop :=
  op ∈ ops ∧ ∀ e, (op.1, e) ∈ ops → e.version ≤ op.2.version

/-- A digest that its origin published after it had numbered `since` events. -/
def Recent (A : Aspect H B V O) (since : O → Int) (e : Event H B O) : Prop :=
  A.digest e = true ∧ since e.origin < e.seq

/-- A phase in which nothing is decided: recent digests carry, and those who have applied them
know, every last word of their origins. -/
structure Quiet (A : Aspect H B V O) (since : O → Int) (published : List (B × Entry V O))
    (g : Mesh H B O) (f : Fleet B V O) : Prop where
  sound : Sound A g f
  same : f.published = published
  carried : ∀ e, g.Flying e → Recent A since e → ∀ op, Latest published op →
    op.2.origin = e.origin → op ∈ A.ops e
  known : ∀ p, ∀ e ∈ (g.node p).heard, Recent A since e → ∀ op, Latest published op →
    op.2.origin = e.origin → op ∈ f.known p

omit [DecidableEq H] [DecidableEq V] in
/-- The phase begins: no digest is recent. -/
theorem Sound.quiet (sound : Sound A g f) :
    Quiet A (fun r => (g.node r).coord.seq) f.published g f where
  sound := sound
  same := rfl
  carried := by
    intro e flying recent
    exact absurd (sound.numbered e (.inl flying)) (not_le.mpr recent.2)
  known := by
    intro p e heard recent
    exact absurd (sound.numbered e (.inr ⟨p, heard⟩)) (not_le.mpr recent.2)

omit [DecidableEq H] [DecidableEq V] in
/-- Whoever knows a last word holds it. -/
theorem Sound.holds (sound : Sound A g f) {p : O} {op : B × Entry V O}
    (latest : Latest f.published op) (known : op ∈ f.known p) :
    (A.map (g.node p).coord).entries.get? op.1 = some op.2 := by
  rw [← sound.maps]
  refine ((sound.fleet.tracks p).get?_eq_some_iff sound.fleet.unique_known).mpr ⟨known, ?_⟩
  intro e member
  exact latest.2 e (sound.fleet.known member)

omit [DecidableEq V] in
/-- **One quiet action.** -/
theorem Quiet.step (lawful : A.Lawful) {since : O → Int} {published : List (B × Entry V O)}
    (quiet : Quiet A since published g f) {a : Action H B O} (silent : a.isQuiet = true)
    (happens : Mesh.step peers g a = some g') : ∃ f', Quiet A since published g' f' := by
  obtain ⟨r, new, taken, moves, ⟨map, digests⟩ | ⟨loud, _⟩⟩ := step_moves lawful happens
  · refine ⟨_, quiet.sound.takes moves map digests, quiet.same, ?_, ?_⟩
    · intro e flying recent op latest own
      rcases moves.flying e flying with old | fresh
      · exact quiet.carried e old recent op latest own
      · -- the digest is of a map that holds the last words of its owner
        obtain ⟨origin, _⟩ := moves.new e fresh
        rw [quiet.sound.ids] at origin
        rw [digests e fresh, if_pos recent.1]
        have knows : op ∈ f.known r := by
          rw [← origin, ← own]
          refine quiet.sound.owned op ?_
          rw [quiet.same]
          exact latest.1
        rw [← quiet.same] at latest
        exact Dict.mem_items_iff.mpr (quiet.sound.holds latest knows)
    · intro p e heard recent op latest own
      by_cases same : p = r
      · subst same
        simp only [Fleet.learn, Function.update_self, List.mem_append]
        rw [moves.heard] at heard
        rcases List.mem_append.mp heard with old | applied
        · exact .inl (quiet.known p e old recent op latest own)
        · have carried := quiet.carried e (moves.taken e applied) recent op latest own
          exact .inr (List.mem_flatMap.mpr ⟨e, applied, carried⟩)
      · rw [(moves.others p same).2] at heard
        simpa [Fleet.learn, same] using quiet.known p e heard recent op latest own
  · rw [silent] at loud
    cases loud

omit [DecidableEq V] in
theorem Quiet.run (lawful : A.Lawful) {since : O → Int} {published : List (B × Entry V O)}
    (quiet : Quiet A since published g f) {as : List (Action H B O)}
    (silent : ∀ a ∈ as, a.isQuiet = true) (reach : Machine.run (Mesh.step peers) g as = some g') :
    ∃ f', Quiet A since published g' f' := by
  induction as generalizing g f with
  | nil =>
      cases reach
      exact ⟨f, quiet⟩
  | cons a as ih =>
      obtain ⟨mid, happens, reach⟩ := Machine.run_cons_eq_some.mp reach
      rw [List.forall_mem_cons] at silent
      obtain ⟨f', quiet'⟩ := quiet.step lawful silent.1 happens
      exact ih quiet' silent.2 reach

/-! ### Agreement -/

/-- Since `g`, replica `p` has applied a digest of every other replica whose map is not empty,
published after `g`. -/
def Hears (A : Aspect H B V O) (g g' : Mesh H B O) (p : O) : Prop :=
  ∀ r, r ≠ p → (A.map (g.node r).coord).entries.items ≠ [] → ∃ e ∈ (g'.node p).heard,
    A.digest e = true ∧ e.origin = r ∧ (g.node r).coord.seq < e.seq

/-- Two replicas hold the same map, in which nothing is older than it was anywhere in `g`. -/
def Settled (A : Aspect H B V O) (g g' : Mesh H B O) (p q : O) : Prop :=
  ∀ b, (A.map (g'.node p).coord).entries.get? b = (A.map (g'.node q).coord).entries.get? b ∧
    ∀ r e, (A.map (g.node r).coord).entries.get? b = some e →
      ∃ e', (A.map (g'.node p).coord).entries.get? b = some e' ∧ e.version ≤ e'.version

omit [DecidableEq V] in
/-- Among operations on a backend there is a last word. -/
theorem exists_latest {ops : List (B × Entry V O)} {b : B} {e : Entry V O} (member : (b, e) ∈ ops) :
    ∃ e', Latest ops (b, e') := by
  -- it is what a map holds that has taken all of them in
  have tracks : (Lww.applyAll (fun _ _ => false) (.empty : Lww B V O) ops).1.Tracks ([] ++ ops) :=
    Lww.tracks_empty.applyAll _ ops
  rw [List.nil_append] at tracks
  obtain ⟨e', held, _⟩ := tracks.greatest member
  refine ⟨e', tracks.stored held, fun e'' member' => ?_⟩
  obtain ⟨cur, held', le⟩ := tracks.greatest member'
  rw [held] at held'
  cases held'
  exact le

omit [DecidableEq H] [DecidableEq V] in
/-- Whoever has heard everybody holds the last words, and nothing else. -/
theorem Quiet.get?_eq_some_iff (sound : Sound A g f) {f' : Fleet B V O}
    (quiet : Quiet A (fun r => (g.node r).coord.seq) f.published g' f') {p : O}
    (hears : Hears A g g' p) {b : B} {e : Entry V O} :
    (A.map (g'.node p).coord).entries.get? b = some e ↔ Latest f.published (b, e) := by
  have holds : ∀ {e}, Latest f.published (b, e) →
      (A.map (g'.node p).coord).entries.get? b = some e := by
    intro e latest
    have latest' := latest
    rw [← quiet.same] at latest'
    refine quiet.sound.holds latest' ?_
    by_cases own : e.origin = p
    · rw [← own]
      exact quiet.sound.owned _ latest'.1
    · have held := sound.holds latest (sound.owned _ latest.1)
      obtain ⟨d, heard, digest, origin, after⟩ := hears e.origin own (by
        intro empty
        have := Dict.mem_items_iff.mpr held
        rw [empty] at this
        cases this)
      refine quiet.known p d heard ⟨digest, ?_⟩ (b, e) latest origin.symm
      rwa [origin]
  constructor
  · intro held
    have known : (b, e) ∈ f'.known p := by
      refine (quiet.sound.fleet.tracks p).stored ?_
      rwa [quiet.sound.maps]
    have published := quiet.sound.fleet.known known
    rw [quiet.same] at published
    obtain ⟨e', latest⟩ := exists_latest published
    have top := holds latest
    rw [held] at top
    cases top
    exact latest
  · exact holds

omit [DecidableEq V] in
theorem settled (lawful : A.Lawful) {cap : Int} {registry : O → Option (BackendRegistry B)}
    {as later : List (Action H B O)}
    (reach : Machine.run (step peers) (init cap registry) as = some g)
    (silent : ∀ a ∈ later, a.isQuiet = true) (reach' : Machine.run (step peers) g later = some g')
    {p q : O} (hears : Hears A g g' p) (hears' : Hears A g g' q) : Settled A g g' p q := by
  obtain ⟨f, sound⟩ := run_sound lawful reach
  obtain ⟨f', quiet⟩ := sound.quiet.run lawful silent reach'
  intro b
  constructor
  · refine Option.ext fun e => ?_
    rw [quiet.get?_eq_some_iff sound hears, quiet.get?_eq_some_iff sound hears']
  · intro r e held
    rw [← sound.maps] at held
    have published := sound.fleet.known ((sound.fleet.tracks r).stored held)
    obtain ⟨e', latest⟩ := exists_latest published
    exact ⟨e', (quiet.get?_eq_some_iff sound hears).mpr latest, latest.2 e published⟩

/-- **Anti-entropy repairs every loss.** Whatever was decided, lost, delayed and reordered before,
and whatever traffic, loss and delay there is afterwards: once nothing is decided any more and
two replicas have each applied a digest of every other replica, they hold the same drain map and
the same membership map, and no decision that any replica held has been forgotten. -/
theorem antiEntropy_settles {cap : Int} {registry : O → Option (BackendRegistry B)}
    {as later : List (Action H B O)}
    (reach : Machine.run (step peers) (init cap registry) as = some g)
    (silent : ∀ a ∈ later, a.isQuiet = true) (reach' : Machine.run (step peers) g later = some g')
    (p q : O) :
    (Hears drains g g' p → Hears drains g g' q → Settled drains g g' p q) ∧
      (Hears members g g' p → Hears members g g' q → Settled members g g' p q) :=
  ⟨settled Coordinator.drains_lawful reach silent reach',
    settled Coordinator.members_lawful reach silent reach'⟩

/-- A registry with one backend. -/
def oneBackend : BackendRegistry String := .init "m" [("b1", "http://b1")]

/-- Two replicas that push to each other. -/
def pair (r : Fin 2) : List (Fin 2) := [1 - r]

/-- A drain on one replica, of which nothing arrives, and an undrain on the other. -/
def crossed : List (Action Nat String (Fin 2)) :=
  [.request 0 (.adminDrain "b1"), .pass 0 .empty [], .lose 0, .request 1 (.adminUndrain "b1")]

/-- Every batch is lost but the two with the next digests. -/
def lossy : List (Action Nat String (Fin 2)) :=
  (List.replicate 7 [.pass 0 .empty [], .lose 0]).flatten ++
    [.pass 0 .empty [], .deliver 0, .pass 1 .empty [], .deliver 0, .pass 0 .empty [], .lose 0]

instance {V : Type} [Fintype O] (A : Aspect H B V O) (g g' : Mesh H B O) (p : O) :
    Decidable (Hears A g g' p) :=
  inferInstanceAs (Decidable (∀ _, _ → _ → ∃ _ ∈ _, _ ∧ _ ∧ _))

theorem antiEntropy_settles_crossed : ∃ g g' : Mesh Nat String (Fin 2),
    Machine.run (step pair) (init 4 fun _ => some oneBackend) crossed = some g ∧
      Machine.run (step pair) g lossy = some g' ∧
      (g'.node 0).coord.drain.entries.get? "b1" = some ⟨false, 1, 1⟩ ∧
      Settled drains g g' 0 1 := by
  obtain ⟨g, reach, found⟩ : ∃ g,
      Machine.run (step pair) (init 4 fun _ => some oneBackend) crossed = some g ∧
        (Machine.run (step pair) g lossy).any (fun g' => decide (Hears drains g g' 0 ∧
          Hears drains g g' 1 ∧
          (g'.node 0).coord.drain.entries.get? "b1" = some ⟨false, 1, 1⟩)) = true :=
    Machine.exists_run (by decide +kernel)
  obtain ⟨g', reach', found⟩ := (Option.any_eq_true _ _).mp found
  obtain ⟨hears, hears', entry⟩ := of_decide_eq_true found
  exact ⟨g, g', reach, reach', entry,
    (antiEntropy_settles reach (by decide) reach' 0 1).1 hears hears'⟩

/-! ### When the network heals -/

/-- A pass of replica `r`. -/
def Action.isPassOf (r : O) : Action H B O → Bool
  | .pass q _ _ => q = r
  | _ => false

/-- A lost batch. -/
def Action.isLoss : Action H B O → Bool
  | .lose _ => true
  | _ => false

/-- How often a replica passes. -/
def passes (r : O) (as : List (Action H B O)) : Nat := as.countP (Action.isPassOf r)

/-- An event is on its way to `p`, or has arrived. -/
def Reaches (g : Mesh H B O) (p : O) (e : Event H B O) : Prop :=
  (∃ batch, (p, batch) ∈ g.wire ∧ e ∈ batch) ∨ e ∈ (g.node p).inbox ∨ e ∈ (g.node p).heard

theorem pass_self (g : Mesh H B O) (r : O) (inflight : Dict B Int) (unhealthy : List B) :
    ((g.pass peers r inflight unhealthy).node r).inbox = [] ∧
      ((g.pass peers r inflight unhealthy).node r).tick = (g.node r).tick + 1 ∧
      ((g.pass peers r inflight unhealthy).node r).heard = (g.node r).heard ++ (g.node r).inbox := by
  simp only [pass, put, Function.update_self, and_self]

theorem pass_of_ne (g : Mesh H B O) {r p : O} (other : p ≠ r) (inflight : Dict B Int)
    (unhealthy : List B) : (g.pass peers r inflight unhealthy).node p = g.node p := by
  simp only [pass, put, Function.update_of_ne other]

/-- The loop counts its passes. -/
theorem tick_step {a : Action H B O} (happens : step peers g a = some g') (r : O) :
    (g'.node r).tick = (g.node r).tick + if a.isPassOf r then 1 else 0 := by
  cases a with
  | request q _ =>
      cases happens
      by_cases same : r = q
      · subst same
        rw [node_put_self]
        rfl
      · rw [node_put_of_ne g same]
        rfl
  | pass q inflight unhealthy =>
      cases happens
      by_cases same : q = r
      · subst same
        rw [(pass_self g q inflight unhealthy).2.1]
        simp [Action.isPassOf]
      · rw [pass_of_ne g (Ne.symm same)]
        simp [Action.isPassOf, same]
  | deliver i =>
      obtain ⟨⟨p, batch⟩, _, rfl⟩ := Option.map_eq_some_iff.mp happens
      show ((g.ingest p batch).node r).tick = _
      by_cases same : r = p
      · subst same
        rw [ingest, node_put_self]
        rfl
      · rw [ingest, node_put_of_ne g same]
        rfl
  | lose i =>
      obtain ⟨_, _, rfl⟩ := Option.map_eq_some_iff.mp happens
      rfl

/-- Among `digestEvery` passes of a replica one publishes digests. -/
theorem exists_due {r : O} {as : List (Action H B O)} {d : Nat}
    (due : ((g.node r).tick + d) % digestEvery = 0) (enough : d < passes r as)
    (reach : Machine.run (step peers) g as = some g') :
    ∃ done inflight unhealthy left mid, as = done ++ .pass r inflight unhealthy :: left ∧
      Machine.run (step peers) g done = some mid ∧ (mid.node r).tick % digestEvery = 0 ∧
      Machine.run (step peers) (mid.pass peers r inflight unhealthy) left = some g' := by
  induction as generalizing g d with
  | nil => cases enough
  | cons a as ih =>
      obtain ⟨mid, happens, reach⟩ := Machine.run_cons_eq_some.mp reach
      have tick := tick_step happens r
      have later : ∀ d, ((mid.node r).tick + d) % digestEvery = 0 → d < passes r as →
          ∃ done inflight unhealthy left mid, a :: as = done ++ .pass r inflight unhealthy :: left ∧
            Machine.run (step peers) g done = some mid ∧ (mid.node r).tick % digestEvery = 0 ∧
            Machine.run (step peers) (mid.pass peers r inflight unhealthy) left = some g' := by
        intro d due enough
        obtain ⟨done, inflight, unhealthy, left, last, rfl, reach', due', after⟩ :=
          ih due enough reach
        exact ⟨a :: done, inflight, unhealthy, left, last, rfl,
          Machine.run_cons_eq_some.mpr ⟨mid, happens, reach'⟩, due', after⟩
      by_cases pass : a.isPassOf r = true
      · obtain ⟨inflight, unhealthy, rfl⟩ : ∃ inflight unhealthy, a = .pass r inflight unhealthy := by
          cases a with
          | pass q inflight unhealthy =>
              simp only [Action.isPassOf, decide_eq_true_eq] at pass
              exact ⟨inflight, unhealthy, by rw [pass]⟩
          | request q c => cases pass
          | deliver i => cases pass
          | lose i => cases pass
        cases d with
        | zero =>
            cases happens
            exact ⟨[], inflight, unhealthy, as, g, rfl, rfl, due, reach⟩
        | succ d =>
            rw [if_pos pass] at tick
            refine later d ?_ ?_
            · rw [tick, Nat.add_assoc, Nat.add_comm 1]
              exact due
            · rw [passes, List.countP_cons_of_pos pass] at enough
              exact Nat.lt_of_succ_lt_succ enough
      · rw [if_neg pass] at tick
        refine later d ?_ ?_
        · rw [tick]
          exact due
        · rwa [passes, List.countP_cons_of_neg pass] at enough

/-- What was applied stays applied. -/
theorem heard_step {a : Action H B O} (happens : step peers g a = some g') {p : O}
    {e : Event H B O} (heard : e ∈ (g.node p).heard) : e ∈ (g'.node p).heard := by
  obtain ⟨r, _, _, moves, _⟩ := step_moves Coordinator.drains_lawful happens
  by_cases same : p = r
  · rw [same] at heard ⊢
    rw [moves.heard]
    exact List.mem_append_left _ heard
  · rwa [(moves.others p same).2]

/-- What has arrived stays in the inbox until it is applied. -/
theorem inbox_step {a : Action H B O} (happens : step peers g a = some g') {p : O}
    {e : Event H B O} (received : e ∈ (g.node p).inbox) :
    (a.isPassOf p = true ∧ e ∈ (g'.node p).heard) ∨
      (a.isPassOf p = false ∧ e ∈ (g'.node p).inbox) := by
  cases a with
  | request r q =>
      cases happens
      refine .inr ⟨rfl, ?_⟩
      by_cases same : p = r
      · subst same
        rw [node_put_self]
        exact received
      · rw [node_put_of_ne g same]
        exact received
  | pass r inflight unhealthy =>
      cases happens
      by_cases same : r = p
      · subst same
        refine .inl ⟨by simp [Action.isPassOf], ?_⟩
        rw [(pass_self g r inflight unhealthy).2.2]
        exact List.mem_append_right _ received
      · refine .inr ⟨by simp [Action.isPassOf, same], ?_⟩
        rw [pass_of_ne g (Ne.symm same)]
        exact received
  | deliver i =>
      obtain ⟨⟨q, batch⟩, _, rfl⟩ := Option.map_eq_some_iff.mp happens
      refine .inr ⟨rfl, ?_⟩
      show e ∈ ((g.ingest q batch).node p).inbox
      by_cases same : p = q
      · subst same
        rw [ingest, node_put_self]
        exact List.mem_append_left _ received
      · rw [ingest, node_put_of_ne g same]
        exact received
  | lose i =>
      obtain ⟨_, _, rfl⟩ := Option.map_eq_some_iff.mp happens
      exact .inr ⟨rfl, received⟩

/-- Nothing that is on its way gets lost unless it is lost. -/
theorem reaches_step {a : Action H B O} (happens : step peers g a = some g')
    (lossless : a.isLoss = false) {p : O} {e : Event H B O}
    (foreign : e.origin ≠ (g.node p).coord.replicaId) (reaches : Reaches g p e) :
    Reaches g' p e := by
  rcases reaches with ⟨batch, wired, carried⟩ | received | heard
  · cases a with
    | request r q =>
        cases happens
        exact .inl ⟨batch, wired, carried⟩
    | pass r inflight unhealthy =>
        cases happens
        exact .inl ⟨batch, List.mem_append_left _ wired, carried⟩
    | deliver i =>
        obtain ⟨⟨q, batch'⟩, there, rfl⟩ := Option.map_eq_some_iff.mp happens
        obtain ⟨j, at_j⟩ := List.mem_iff_getElem?.mp wired
        by_cases same : j = i
        · subst same
          rw [there] at at_j
          cases at_j
          refine .inr (.inl ?_)
          show e ∈ ((g.ingest p batch).node p).inbox
          rw [ingest, node_put_self]
          refine List.mem_append_right _ (List.mem_filter.mpr ⟨carried, ?_⟩)
          simpa using foreign
        · exact .inl ⟨batch, List.mem_eraseIdx_iff_getElem?.mpr ⟨j, same, at_j⟩, carried⟩
    | lose i => cases lossless
  · rcases inbox_step happens received with ⟨_, heard⟩ | ⟨_, received⟩
    · exact .inr (.inr heard)
    · exact .inr (.inl received)
  · exact .inr (.inr (heard_step happens heard))

/-- The replicas keep their ids, and number on. -/
theorem ids_run {as : List (Action H B O)} (ids : ∀ r, (g.node r).coord.replicaId = r)
    (reach : Machine.run (step peers) g as = some g') (r : O) :
    (g'.node r).coord.replicaId = r ∧ (g.node r).coord.seq ≤ (g'.node r).coord.seq := by
  induction as generalizing g with
  | nil =>
      cases reach
      exact ⟨ids r, le_refl _⟩
  | cons a as ih =>
      obtain ⟨mid, happens, reach⟩ := Machine.run_cons_eq_some.mp reach
      obtain ⟨_, _, _, moves, _⟩ := step_moves Coordinator.drains_lawful happens
      obtain ⟨same, later⟩ := ih (moves.ids ids) reach
      exact ⟨same, (moves.seq_le r).trans later⟩

theorem reaches_run {as : List (Action H B O)} (ids : ∀ r, (g.node r).coord.replicaId = r)
    (reach : Machine.run (step peers) g as = some g') (lossless : ∀ a ∈ as, a.isLoss = false)
    {p : O} {e : Event H B O} (foreign : e.origin ≠ p) (reaches : Reaches g p e) :
    Reaches g' p e := by
  induction as generalizing g with
  | nil =>
      cases reach
      exact reaches
  | cons a as ih =>
      obtain ⟨mid, happens, reach⟩ := Machine.run_cons_eq_some.mp reach
      rw [List.forall_mem_cons] at lossless
      obtain ⟨_, _, _, moves, _⟩ := step_moves Coordinator.drains_lawful happens
      refine ih (moves.ids ids) reach lossless.2 (reaches_step happens lossless.1 ?_ reaches)
      rwa [ids]

/-- What has arrived is applied by the next pass. -/
theorem heard_run {as : List (Action H B O)} (reach : Machine.run (step peers) g as = some g')
    {p : O} {e : Event H B O}
    (arrived : e ∈ (g.node p).heard ∨ e ∈ (g.node p).inbox ∧ 0 < passes p as) :
    e ∈ (g'.node p).heard := by
  induction as generalizing g with
  | nil =>
      cases reach
      rcases arrived with heard | ⟨_, none⟩
      · exact heard
      · cases none
  | cons a as ih =>
      obtain ⟨mid, happens, reach⟩ := Machine.run_cons_eq_some.mp reach
      refine ih reach ?_
      rcases arrived with heard | ⟨received, pass⟩
      · exact .inl (heard_step happens heard)
      · rcases inbox_step happens received with ⟨_, heard⟩ | ⟨other, received⟩
        · exact .inl heard
        · rw [passes, List.countP_cons_of_neg (by simp [other])] at pass
          exact .inr ⟨received, pass⟩

omit [DecidableEq V] in
/-- A map that is not empty stays so while nothing is decided. -/
theorem filled_run (lawful : A.Lawful) {as : List (Action H B O)}
    (silent : ∀ a ∈ as, a.isQuiet = true) (reach : Machine.run (step peers) g as = some g') {r : O}
    (filled : (A.map (g.node r).coord).entries.items ≠ []) :
    (A.map (g'.node r).coord).entries.items ≠ [] := by
  induction as generalizing g with
  | nil =>
      cases reach
      exact filled
  | cons a as ih =>
      obtain ⟨mid, happens, reach⟩ := Machine.run_cons_eq_some.mp reach
      rw [List.forall_mem_cons] at silent
      refine ih silent.2 reach ?_
      obtain ⟨q, new, taken, moves, ⟨map, _⟩ | ⟨loud, _⟩⟩ := step_moves lawful happens
      · by_cases same : r = q
        · subst same
          intro empty
          obtain ⟨⟨b, e⟩, member⟩ := List.exists_mem_of_ne_nil _ filled
          have gone : (A.map (mid.node r).coord).entries.get? b = none := by
            simp [Dict.get?, Dict.lookup, empty]
          rw [map] at gone
          have held := Dict.mem_items_iff.mp member
          rw [Lww.get?_applyAll_eq_none gone] at held
          cases held
        · rwa [(moves.others r same).1]
      · rw [silent.1] at loud
        cases loud

omit [DecidableEq V] in
/-- A digest pass puts a digest of a map that is not empty on its way to every peer. -/
theorem pass_reaches (lawful : A.Lawful) {r p : O} (peer : p ∈ peers r) (inflight : Dict B Int)
    (unhealthy : List B) (due : (g.node r).tick % digestEvery = 0)
    (filled : (A.map (g.node r).coord).entries.items ≠ []) :
    ∃ e, A.digest e = true ∧ e.origin = (g.node r).coord.replicaId ∧
      (g.node r).coord.seq < e.seq ∧ Reaches (g.pass peers r inflight unhealthy) p e := by
  obtain ⟨e, sent, digest, origin, above⟩ :=
    lawful.digested (g.node r).coord _ inflight unhealthy due filled
  refine ⟨e, digest, origin, above, .inl ⟨_, List.mem_append_right _ ?_, sent⟩⟩
  rw [if_neg (by
    rw [List.isEmpty_iff]
    exact List.ne_nil_of_mem sent)]
  exact List.mem_map.mpr ⟨p, peer, rfl⟩

/-- The quiet phase of a fleet whose network has healed: every replica passes `digestEvery` times
and nothing is lost, what is in flight then arrives, and every replica passes once more. -/
structure Healed (peers : O → List O) (fleet : List O) (g g' : Mesh H B O)
    (as : List (Action H B O)) : Prop where
  silent : ∀ a ∈ as, a.isQuiet = true
  phases : ∃ ticks last mid, as = ticks ++ last ∧ Machine.run (step peers) g ticks = some mid ∧
    Machine.run (step peers) mid last = some g' ∧ (∀ a ∈ ticks, a.isLoss = false) ∧
    mid.wire = [] ∧ ∀ r ∈ fleet, digestEvery ≤ passes r ticks ∧ 0 < passes r last

omit [DecidableEq V] in
theorem Healed.hears {fleet : List O} {as : List (Action H B O)}
    (healed : Healed peers fleet g g' as) (lawful : A.Lawful)
    (ids : ∀ r, (g.node r).coord.replicaId = r)
    (mesh : ∀ r ∈ fleet, ∀ p ∈ fleet, p ≠ r → p ∈ peers r)
    (closed : ∀ r, r ∉ fleet → (A.map (g.node r).coord).entries.items = []) {p : O}
    (member : p ∈ fleet) : Hears A g g' p := by
  obtain ⟨ticks, last, mid, rfl, reach, reach', lossless, landed, often⟩ := healed.phases
  intro r other filled
  have member' : r ∈ fleet := by
    by_contra outside
    exact filled (closed r outside)
  -- the first pass of `r` that is due puts a digest on its way to `p`
  obtain ⟨done, inflight, unhealthy, left, at_pass, rfl, before, due, after⟩ :=
    exists_due (g := g) (r := r)
      (d := (digestEvery - (g.node r).tick % digestEvery) % digestEvery)
      (by simp only [digestEvery]; omega)
      (lt_of_lt_of_le (Nat.mod_lt _ (by decide)) (often r member').1) reach
  have ids_pass := fun q => (ids_run ids before q).1
  have silent : ∀ a ∈ done, a.isQuiet = true := fun a member => healed.silent a (by simp [member])
  obtain ⟨e, digest, origin, above, sent⟩ := pass_reaches lawful
    (mesh r member' p member (Ne.symm other)) inflight unhealthy due
    (filled_run lawful silent before filled)
  rw [ids_pass] at origin
  refine ⟨e, ?_, digest, origin, (ids_run ids before r).2.trans_lt above⟩
  -- nothing is lost, so it has arrived when the wire is empty
  have happens : step peers at_pass (.pass r inflight unhealthy) =
      some (at_pass.pass peers r inflight unhealthy) := rfl
  obtain ⟨_, _, _, moves, _⟩ := step_moves Coordinator.drains_lawful happens
  have arrived : Reaches mid p e := by
    refine reaches_run (moves.ids ids_pass) after (fun a member => lossless a ?_) ?_ sent
    · simp [member]
    · rw [origin]
      exact other
  refine heard_run reach' ?_
  rcases arrived with ⟨batch, wired, _⟩ | received | heard
  · rw [landed] at wired
    cases wired
  · exact .inr ⟨received, (often p member).2⟩
  · exact .inl heard

/-- **Nine passes after the network has healed, the fleet agrees.** -/
theorem healed_settles {cap : Int} {registry : O → Option (BackendRegistry B)}
    {as later : List (Action H B O)} {fleet : List O}
    (reach : Machine.run (step peers) (init cap registry) as = some g)
    (healed : Healed peers fleet g g' later)
    (mesh : ∀ r ∈ fleet, ∀ p ∈ fleet, p ≠ r → p ∈ peers r)
    (closed : ∀ r, r ∉ fleet → (drains.map (g.node r).coord).entries.items = [] ∧
      (members.map (g.node r).coord).entries.items = [])
    {p q : O} (member : p ∈ fleet) (member' : q ∈ fleet) :
    Settled drains g g' p q ∧ Settled members g g' p q := by
  have ids : ∀ r, (g.node r).coord.replicaId = r := fun r => (ids_run (fun _ => rfl) reach r).1
  have reach' : Machine.run (step peers) g later = some g' := by
    obtain ⟨ticks, last, mid, rfl, first, second, _⟩ := healed.phases
    rw [Machine.run_append, first]
    exact second
  constructor
  · have hears := fun {p} => healed.hears (p := p) Coordinator.drains_lawful ids mesh
      fun r outside => (closed r outside).1
    exact settled Coordinator.drains_lawful reach healed.silent reach' (hears member) (hears member')
  · have hears := fun {p} => healed.hears (p := p) Coordinator.members_lawful ids mesh
      fun r outside => (closed r outside).2
    exact settled Coordinator.members_lawful reach healed.silent reach' (hears member)
      (hears member')

/-- Eight passes of both replicas, whose batches arrive. -/
def healing : List (Action Nat String (Fin 2)) :=
  List.replicate 8 (.pass 0 .empty []) ++ List.replicate 8 (.pass 1 .empty []) ++
    List.replicate 16 (.deliver 0)

/-- One more pass each. -/
def lastPasses : List (Action Nat String (Fin 2)) := [.pass 0 .empty [], .pass 1 .empty []]

theorem healed_settles_crossed : ∃ g g' : Mesh Nat String (Fin 2),
    Machine.run (step pair) (init 4 fun _ => some oneBackend) crossed = some g ∧
      Machine.run (step pair) g (healing ++ lastPasses) = some g' ∧
      Settled drains g g' 0 1 ∧ Settled members g g' 0 1 := by
  obtain ⟨g, reach, found⟩ : ∃ g,
      Machine.run (step pair) (init 4 fun _ => some oneBackend) crossed = some g ∧
        (Machine.run (step pair) g healing).any (fun mid => decide (mid.wire = [] ∧
          (Machine.run (step pair) mid lastPasses).isSome = true)) = true :=
    Machine.exists_run (by decide +kernel)
  obtain ⟨mid, reach', found⟩ := (Option.any_eq_true _ _).mp found
  obtain ⟨landed, ended⟩ := of_decide_eq_true found
  obtain ⟨g', reach''⟩ := Option.isSome_iff_exists.mp ended
  refine ⟨g, g', reach, ?_, ?_⟩
  · rw [Machine.run_append, reach']
    exact reach''
  · have healed : Healed pair [0, 1] g g' (healing ++ lastPasses) :=
      ⟨by decide, healing, lastPasses, mid, rfl, reach', reach'', by decide, landed, by decide⟩
    have everybody : ∀ r : Fin 2, r ∈ [0, 1] := by decide
    exact healed_settles reach healed (by decide)
      (fun r outside => absurd (everybody r) outside) (everybody 0) (everybody 1)

end Mesh

end Gateway
