import Gateway.Cluster.Gossip
import Gateway.RadixTree.Invariant

/-!
Whether one bad gossip event hurts the others.

`receive_gossip` isolates: a text that does not decode is skipped. `sync` does not: an event
that raises ends the loop, the events behind it are gone with the inbox, and the registry
is not reconciled. `cleanly` is the `sync` that skips such events.

* `Applicable`: what the fields of an event must be for `sync` to take it in, in the state
  it finds. Keys must be hashable, the versions of a digest must read, and a version that
  ties with the stored one must come from a comparable origin.
* `isolated_iff`: for every batch of texts, `sync` ends, in the state of `cleanly`,
  precisely when every queued event is applicable at its turn.
* `one_bad_digest`: a digest with a number for a version, and a drain behind it.
-/

namespace Gateway.Gossip

/-! ### What a step of a walk needs -/

namespace Tree

/-- The walk of `insert` down a tree meets only hashable keys: the hashes it looks up, and
the two at which it splits an edge. -/
def Walkable (T : Trie.Shape Value) : Nat → NodeId → List Value → Prop
  | 0, _, _ => True
  | _ + 1, _, [] => True
  | fuel + 1, node, first :: rest =>
      first.hashable = true ∧
        match T.kid node first with
        | none => True
        | some child =>
            let j := commonLen (T.edge child) (first :: rest)
            if j = (T.edge child).length then Walkable T fuel child ((first :: rest).drop j)
            else
              ((T.edge child).drop j).head?.all Value.hashable = true ∧
                ((first :: rest).drop j).head?.all Value.hashable = true

theorem exists_insertLoop?_iff {b : Value} (hashable : b.hashable = true) (fuel : Nat)
    (t : RadixTree Value Value) (node : NodeId) (hashes : List Value) :
    (∃ t', insertLoop? b fuel t node hashes = some t') ↔ Walkable t.shape fuel node hashes := by
  induction fuel generalizing t node hashes with
  | zero => simp [insertLoop?, Walkable]
  | succ fuel ih =>
      cases hashes with
      | nil => simp [insertLoop?, Walkable]
      | cons first rest =>
          rw [insertLoop?, Walkable]
          by_cases key : first.hashable = true
          · simp only [key, hashable, Bool.and_self, Bool.not_true, Bool.false_eq_true, if_false,
              true_and]
            rw [show t.shape.kid node first = (t.node node).children.get? first from rfl]
            cases (t.node node).children.get? first with
            | none => simp
            | some child =>
                have edge : t.shape.edge child = (t.node child).edge := rfl
                simp only [edge]
                by_cases full :
                    commonLen (t.node child).edge (first :: rest) = (t.node child).edge.length
                · rw [if_pos full, if_pos full, ← RadixTree.shape_hold t b child]
                  exact ih (t.hold b child) child _
                · rw [if_neg full, if_neg full]
                  by_cases cut : ((t.node child).edge.drop
                      (commonLen (t.node child).edge (first :: rest))).head?.all Value.hashable
                  · simp only [cut, Bool.not_true, Bool.false_eq_true, if_false, true_and]
                    cases (first :: rest).drop (commonLen (t.node child).edge (first :: rest)) with
                    | nil => simp
                    | cons k tail => simp
                  · simp only [Bool.eq_false_iff.mpr cut, Bool.not_false, if_true]
                    exact iff_of_false (by simp) (by simp)
          · simp [key]

/-- What `insert` needs of its arguments; nothing if there are no hashes. -/
def Insertable (t : Tree) (hashes : List Value) (b : Value) : Prop :=
  hashes ≠ [] → b.hashable = true ∧
    Walkable t.tree.shape (hashes.length + t.tree.next) RadixTree.root hashes

theorem exists_insert?_iff (t : Tree) (hashes : List Value) (b : Value) :
    (∃ t', t.insert? hashes b = some t') ↔ t.Insertable hashes b := by
  cases hashes with
  | nil => simp [insert?, Insertable]
  | cons first rest =>
      simp only [insert?, List.isEmpty_cons, Bool.false_eq_true, if_false, Insertable, ne_eq,
        reduceCtorEq, not_false_eq_true, forall_const]
      by_cases key : b.hashable = true
      · have walk := exists_insertLoop?_iff key ((first :: rest).length + t.tree.next)
          { t.tree with clock := t.tree.clock + 1 } RadixTree.root (first :: rest)
        have same : { t.tree with clock := t.tree.clock + 1 }.shape = t.tree.shape := rfl
        rw [same] at walk
        simp only [key, true_and, ← walk, Option.map_eq_some_iff]
        constructor
        · rintro ⟨_, t', inserted, -⟩
          exact ⟨t', inserted⟩
        · rintro ⟨t', inserted⟩
          exact ⟨_, t', inserted, rfl⟩
      · have raised : ∀ fuel t' node, insertLoop? b (fuel + 1) t' node (first :: rest) = none :=
          fun fuel t' node => by simp [insertLoop?, key]
        rw [List.length_cons, Nat.add_right_comm, raised]
        simp [key]

/-- What `remove_backend` needs of its argument. -/
def Removable (t : Tree) (b : Value) : Prop := b.hashable = true ∨ t.lruKeys.keys = []

theorem exists_removeBackend?_iff (t : Tree) (b : Value) :
    (∃ t', t.removeBackend? b = some t') ↔ t.Removable b := by
  simp only [removeBackend?, Removable]
  split <;> rename_i met <;> simpa using met

end Tree

/-! ### What the maps need -/

section Maps

variable {V : Type}

/-- What a map needs to take in an entry: a hashable key and, if the entry ties with the
stored one, an origin that compares with the stored origin. -/
def Adoptable (m : Lww Value V Value) (b : Value) (e : Entry V Value) : Prop :=
  b.hashable = true ∧ ∀ cur, m.entries.get? b = some cur → e.ts = cur.ts →
    e.origin ≠ cur.origin → ∃ newer, e.origin.gt? cur.origin = some newer

theorem exists_beats?_iff (e cur : Entry V Value) :
    (∃ newer, beats? e cur = some newer) ↔
      (e.ts = cur.ts → e.origin ≠ cur.origin → ∃ newer, e.origin.gt? cur.origin = some newer) := by
  rw [beats?]
  split
  · rename_i tie
    split
    · rename_i same
      simp [same]
    · rename_i differ
      simp [tie, differ]
  · rename_i apart
    simp [apart]

theorem exists_adopt?_iff (differs : V → V → Bool) (m : Lww Value V Value) (b : Value)
    (e : Entry V Value) :
    (∃ s, adopt? differs m b e = some s) ↔ Adoptable m b e := by
  simp only [adopt?, Adoptable, Lww.entries_observe]
  by_cases key : b.hashable = true
  · simp only [key, Bool.not_true, Bool.false_eq_true, if_false, true_and]
    cases m.entries.get? b with
    | none => simp
    | some cur =>
        simp only [Option.map_eq_some_iff, Option.some.injEq, forall_eq', ← exists_beats?_iff]
        constructor
        · rintro ⟨_, newer, compared, -⟩
          exact ⟨newer, compared⟩
        · rintro ⟨newer, compared⟩
          exact ⟨_, newer, compared, rfl⟩
  · simp [key]

/-- What a map needs to merge a digest: every version reads, and is adoptable at its turn. -/
def Mergeable (differs : V → V → Bool) (read : Value → Option (Entry V Value))
    (m : Lww Value V Value) (entries : Dict Value Value) : Prop :=
  Machine.Along (mergeItem? differs read)
    (fun s item => ∃ e, read item.2 = some e ∧ Adoptable s.1 item.1 e) (m, false) entries.items

theorem exists_merge?_iff (differs : V → V → Bool) (read : Value → Option (Entry V Value))
    (m : Lww Value V Value) (entries : Dict Value Value) :
    (∃ s, merge? differs read m entries = some s) ↔ Mergeable differs read m entries := by
  refine Machine.exists_run_iff (fun s item => ?_) (m, false) entries.items
  simp only [mergeItem?, Option.bind_eq_some_iff, Option.map_eq_some_iff,
    ← exists_adopt?_iff differs]
  constructor
  · rintro ⟨_, e, reads, s', adopted, -⟩
    exact ⟨e, reads, s', adopted⟩
  · rintro ⟨e, reads, s', adopted⟩
    exact ⟨_, e, reads, s', adopted, rfl⟩

end Maps

/-! ### What an event needs -/

namespace Replica

section Events

variable (intOfStr : String → Option Int)

/-- What `sync` needs of an event, in the state in which it takes it in. -/
def Applicable (s : Progress) : RawEvent → Prop
  | .loadEvent origin _ _ unhealthy =>
      origin.hashable = true ∧ ∀ b ∈ unhealthy, b.hashable = true
  | .drainEvent origin _ ts b draining => Adoptable s.replica.drain b ⟨draining, ts, origin⟩
  | .drainDigest _ _ entries =>
      Mergeable DrainState.differs (readDrain? intOfStr) s.replica.drain entries
  | .memberEvent origin _ action b url model ts =>
      Adoptable s.replica.membership b ⟨⟨action = .add, url, model⟩, ts, origin⟩
  | .membershipDigest _ _ entries =>
      Mergeable Member.differs (readMember? intOfStr) s.replica.membership entries
  | .prefixEvent kind b _ _ hashes =>
      (kind = .str "insert" → s.replica.tree.Insertable hashes b) ∧
        (kind = .str "remove_backend" → s.replica.tree.Removable b)

theorem exists_map_iff {A C : Type} {x : Option A} {f : A → C} :
    (∃ c, x.map f = some c) ↔ ∃ a, x = some a := by
  cases x <;> simp

/-- An event raises precisely when it is not applicable. -/
theorem exists_applyEvent?_iff (s : Progress) (e : RawEvent) :
    (∃ s', applyEvent? intOfStr s e = some s') ↔ Applicable intOfStr s e := by
  rw [applyEvent?, exists_map_iff]
  cases e with
  | prefixEvent kind b origin seq hashes =>
      simp only [takeIn?, Applicable]
      split
      · rename_i inserting
        rw [exists_map_iff, Tree.exists_insert?_iff]
        simp [inserting]
      · split
        · rename_i _ removing
          rw [exists_map_iff, Tree.exists_removeBackend?_iff]
          simp [removing]
        · rename_i other other'
          simp [other, other']
  | loadEvent origin seq inflight unhealthy =>
      simp only [takeIn?, Applicable]
      rw [exists_map_iff, applyLoad?]
      split <;> rename_i met <;> simpa using met
  | drainEvent origin seq ts b draining =>
      simp only [takeIn?, Applicable]
      rw [exists_map_iff]
      exact exists_adopt?_iff _ _ _ _
  | drainDigest origin seq entries =>
      simp only [takeIn?, Applicable]
      rw [exists_map_iff]
      exact exists_merge?_iff _ _ _ _
  | memberEvent origin seq action b url model ts =>
      simp only [takeIn?, Applicable]
      rw [exists_map_iff]
      exact exists_adopt?_iff _ _ _ _
  | membershipDigest origin seq entries =>
      simp only [takeIn?, Applicable]
      rw [exists_map_iff]
      exact exists_merge?_iff _ _ _ _

/-! ### Isolation -/

/-- The `sync` that skips the events that raise. -/
def cleanly (c : Replica) : Replica :=
  finish (Machine.skipping (applyEvent? intOfStr) c.begin c.inbox)

/-- The same tree, fleet view, drain map, membership map and registry. -/
structure SameState (c c' : Replica) : Prop where
  tree : c.tree = c'.tree
  fleet : c.fleet = c'.fleet
  drain : c.drain = c'.drain
  membership : c.membership = c'.membership
  registry : c.registry = c'.registry

/-- A batch of texts is received and synced without raising, and the texts that do not
decode or do not apply have made no difference. -/
def Isolated (loads : String → Option (Json Number)) (c : Replica) (raw : List String) : Prop :=
  let received := (receiveGossip intOfStr loads c raw).1
  ∃ c', sync? intOfStr received = some c' ∧ SameState c' (cleanly intOfStr received)

/-- **A batch is isolated precisely when every event in it is applicable at its turn.** -/
theorem isolated_iff (loads : String → Option (Json Number)) (c : Replica) (raw : List String) :
    Isolated intOfStr loads c raw ↔
      Machine.Along (applyEvent? intOfStr) (Applicable intOfStr)
        (receiveGossip intOfStr loads c raw).1.begin
        (receiveGossip intOfStr loads c raw).1.inbox := by
  rw [Isolated, ← Machine.exists_run_iff (exists_applyEvent?_iff intOfStr)]
  constructor
  · rintro ⟨c', synced, -⟩
    obtain ⟨s, reach, -⟩ := Option.map_eq_some_iff.mp synced
    exact ⟨s, reach⟩
  · rintro ⟨s, reach⟩
    refine ⟨finish s, by rw [sync?, reach]; rfl, ?_⟩
    rw [cleanly, Machine.skipping_of_run reach]
    exact ⟨rfl, rfl, rfl, rfl, rfl⟩

end Events

/-- A digest with a number for a version is accepted, and so is the drain behind it. Then
`sync` raises, and the drain is gone with the inbox. -/
theorem one_bad_digest :
    let loads := (Json.compact Number).loads
    let bad := "\x7b\"k\":\"draindigest\",\"o\":\"p\",\"s\":1,\"e\":\x7b\"b0\":5\x7d\x7d"
    let good := "\x7b\"k\":\"drainop\",\"o\":\"p\",\"s\":2,\"t\":1,\"b\":\"b1\",\"d\":1\x7d"
    let received := receiveGossip (fun _ => none) loads (init "r" 4 none) [bad, good]
    received.2 = 2 ∧ (sync? (fun _ => none) received.1).isNone = true ∧
      ((cleanly (fun _ => none) received.1).drain.entries.get? (.str "b1")).any (·.value) = true ∧
      ¬ Isolated (fun _ => none) loads (init "r" 4 none) [bad, good] := by
  intro loads bad good received
  have raised : (sync? (fun _ => none) received.1).isNone = true := by decide +kernel
  refine ⟨by decide +kernel, raised, by decide +kernel, ?_⟩
  rintro ⟨c', synced, -⟩
  rw [synced] at raised
  cases raised

end Replica

end Gateway.Gossip
