import Gateway.Lib.Eviction
import Gateway.RadixTree.Walk

/-!
The prefix tree of the Rust gateway (`rust/src/radix_tree.rs`) against the Python one.

Both trees walk, split and attach in the same way. They differ in how they remember who
was used least recently: the Python tree keeps an ordered list per backend and moves
every touched node to its end, one after the other; the Rust tree stamps every touched
node with the clock of the insert, so all nodes of one insert share a stamp. To evict,
it takes the first node with the least stamp in the iteration order of a `HashMap`.

An iteration order is an argument (`Iteration`), so a run with evictions is a run for
some order in every iteration of `evict`. Nothing else depends on such an order: sums,
sets and the tables themselves do not. Clocks are unbounded.

* `Sim`: the trees have the same nodes, the same backends hold the same nodes, and every
  Python list is sorted by the Rust stamps.
* `RustTree.WholeTies`: what an eviction has to find, the stamp at which it stops belongs
  to one node, or all nodes with that stamp have to go, in whatever order.
* `RustTree.EvictsWholeTies`: the same, told on the tree before an insert by the nodes beside
  the way of its hashes and the room that the hashes leave them (`Sim.wholeTies`).
* `rust_matches_python`: in every run whose inserts meet that, `match_prefix` and
  `held_blocks` agree after every call, for every iteration order.
* `rust_differs_on_a_tie`: a backend extends a prompt it holds, and the Rust tree evicts
  the extension where the Python tree evicts the prompt, or the other way round.
-/

namespace Gateway

/-- The order in which the iterations of one call visit the keys of a `HashMap`. -/
structure Iteration where
  order : Nat → List NodeId → List NodeId
  perm : ∀ i l, (order i l).Perm l

/-- `RadixTree`: the arena of nodes (`0` is the root) and its length, and the stamp of
every node that a backend holds. -/
structure RustTree (H B : Type) where
  nodes : NodeId → Node H B
  len : NodeId
  cap : Nat
  clock : Nat
  lru : B → Dict NodeId Nat

namespace RustTree

variable {H B : Type}

/-- `RadixTree::new(backend_cache_blocks)`. -/
def init (backendCacheBlocks : Nat) : RustTree H B where
  nodes := fun _ => .new []
  len := 1
  cap := backendCacheBlocks
  clock := 0
  lru := fun _ => .empty

/-- `new_node(edge)`; its index is `t.len`. -/
def newNode (t : RustTree H B) (edge : List H) : RustTree H B :=
  { t with nodes := Function.update t.nodes t.len (.new edge), len := t.len + 1 }

/-- Update one node in place. -/
def modify (t : RustTree H B) (n : NodeId) (f : Node H B → Node H B) : RustTree H B :=
  { t with nodes := Function.update t.nodes n (f (t.nodes n)) }

/-- `nodes[n].children.insert(k, c)`. -/
def setChild [DecidableEq H] (t : RustTree H B) (n : NodeId) (k : H) (c : NodeId) :
    RustTree H B :=
  t.modify n fun nd => { nd with children := nd.children.set k c }

variable [DecidableEq H] [DecidableEq B]

/-- The loop of `match_prefix`. -/
def matchLoop (t : RustTree H B) :
    Nat → NodeId → List H → Option (List B) → Nat → Dict B Nat → Dict B Nat
  | 0, _, _, _, _, best => best
  | _ + 1, _, [], _, _, best => best
  | fuel + 1, node, first :: rest, alive, depth, best =>
      match (t.nodes node).children.get? first with
      | none => best
      | some child =>
          let e := (t.nodes child).edge
          let j := RadixTree.commonLen e (first :: rest)
          let alive := RadixTree.intersectAlive alive (t.nodes child).holders.keys
          if alive.isEmpty then best
          else
            let depth := depth + j
            let best := alive.foldl (fun best b => best.set b depth) best
            if j < e.length then best
            else matchLoop t fuel child ((first :: rest).drop j) (some alive) depth best

/-- `match_prefix(hashes)`. -/
def matchPrefix (t : RustTree H B) (hashes : List H) : Dict B Nat :=
  matchLoop t hashes.length 0 hashes none 0 .empty

/-- `track(backend, node)`. -/
def track (t : RustTree H B) (b : B) (n : NodeId) : RustTree H B :=
  { t with lru := Function.update t.lru b ((t.lru b).set n t.clock) }

/-- `hold(backend, node)`. -/
def hold (t : RustTree H B) (b : B) (n : NodeId) : RustTree H B :=
  (t.modify n fun nd => { nd with holders := nd.holders.set b t.clock }).track b n

/-- `for b in holders_copy.keys() { self.track(&b, split) }`. -/
def trackAll (t : RustTree H B) (bs : List B) (n : NodeId) : RustTree H B :=
  bs.foldl (fun t b => t.track b n) t

/-- A leaf for the remaining hashes; its index is `t.len`. -/
def attachLeaf (t : RustTree H B) (n : NodeId) (k : H) (rest : List H) : RustTree H B :=
  (t.newNode rest).setChild n k t.len

/-- Split `child`, found under `first` in `node`, at offset `j`. The index of the new
middle node is `t.len`. `edge[0]` of the shortened child exists, as `j < le`. -/
def splitEdge (t : RustTree H B) (node : NodeId) (first : H) (child : NodeId) (j : Nat) :
    RustTree H B :=
  let headEdge := (t.nodes child).edge.take j
  let tailEdge := (t.nodes child).edge.drop j
  let holdersCopy := (t.nodes child).holders
  let split := t.len
  let t := t.newNode headEdge
  let t := t.modify child fun nd => { nd with edge := tailEdge }
  let t := match tailEdge with
    | [] => t
    | tailFirst :: _ => t.setChild split tailFirst child
  let t := t.modify split fun nd => { nd with holders := holdersCopy }
  let t := t.setChild node first split
  t.trackAll holdersCopy.keys split

/-- The loop of `insert`. -/
def insertLoop (b : B) : Nat → RustTree H B → NodeId → List H → RustTree H B
  | 0, t, _, _ => t
  | _ + 1, t, _, [] => t
  | fuel + 1, t, node, first :: rest =>
      match (t.nodes node).children.get? first with
      | none => (t.attachLeaf node first (first :: rest)).hold b t.len
      | some child =>
          let e := (t.nodes child).edge
          let j := RadixTree.commonLen e (first :: rest)
          if j = e.length then
            insertLoop b fuel (t.hold b child) child ((first :: rest).drop j)
          else
            let split := t.len
            let t := (t.splitEdge node first child j).hold b split
            match (first :: rest).drop j with
            | [] => t
            | k :: tail => (t.attachLeaf split k (k :: tail)).hold b t.len

/-- `min_by_key`: the first of the least elements. -/
def minByKey (key : NodeId → Nat) : List NodeId → Option NodeId
  | [] => none
  | n :: rest =>
      match minByKey key rest with
      | none => some n
      | some m => if key m < key n then some m else some n

/-- The loop of `evict`, on the stamps of one backend. -/
def evictLoop (it : Iteration) (cap : Nat) (b : B) :
    Nat → Nat → Dict NodeId Nat → (NodeId → Node H B) → Dict NodeId Nat × (NodeId → Node H B)
  | 0, _, stamps, nodes => (stamps, nodes)
  | fuel + 1, i, stamps, nodes =>
      if RadixTree.blocks nodes stamps.keys ≤ cap then (stamps, nodes)
      else
        match minByKey (fun n => stamps.getD n 0) (it.order i stamps.keys) with
        | none => (stamps, nodes)
        | some victim =>
            evictLoop it cap b fuel (i + 1) (stamps.erase victim)
              (RadixTree.dropHolder b nodes victim)

/-- `evict(backend)`: every iteration drops one held node. -/
def evict (it : Iteration) (t : RustTree H B) (b : B) : RustTree H B :=
  let (stamps, nodes) := evictLoop it t.cap b (t.lru b).keys.length 0 (t.lru b) t.nodes
  { t with nodes := nodes, lru := Function.update t.lru b stamps }

/-- Everything `insert` does before `evict`. -/
def touch (t : RustTree H B) (hashes : List H) (b : B) : RustTree H B :=
  insertLoop b hashes.length { t with clock := t.clock + 1 } 0 hashes

/-- `insert(hashes, backend)`. -/
def insert (it : Iteration) (t : RustTree H B) (hashes : List H) (b : B) : RustTree H B :=
  if hashes.isEmpty then t else (t.touch hashes b).evict it b

/-- `remove_backend(backend)`. -/
def removeBackend (t : RustTree H B) (b : B) : RustTree H B :=
  { t with
    nodes := (t.lru b).keys.foldl (RadixTree.dropHolder b) t.nodes
    lru := Function.update t.lru b .empty }

/-- `held_blocks(backend)`. -/
def heldBlocks (t : RustTree H B) (b : B) : Nat := RadixTree.blocks t.nodes (t.lru b).keys

/-- One call, with the iteration orders it meets. -/
def apply (t : RustTree H B) : RadixTree.Op H B × Iteration → RustTree H B
  | (.insert hashes b, it) => t.insert it hashes b
  | (.remove b, _) => t.removeBackend b

/-- A sequence of calls on a fresh tree. -/
def runOps (cap : Nat) (ops : List (RadixTree.Op H B × Iteration)) : RustTree H B :=
  ops.foldl apply (init cap)

/-- The stamp of a node that a backend holds. -/
def stamp (t : RustTree H B) (b : B) (n : NodeId) : Nat := (t.lru b).getD n 0

end RustTree

/-! ### The simulation -/

open RadixTree (Inv Op blocks commonLen)

section Simulation

variable {H B : Type} [DecidableEq H] [DecidableEq B]

/-- A Python tree and a Rust tree that stand for each other. -/
structure Sim (p : RadixTree H B) (t : RustTree H B) : Prop where
  nodes : p.node = t.nodes
  next : p.next = t.len
  clock : p.clock = t.clock
  cap : p.cap = t.cap
  nodup : ∀ b, (p.lru b).Nodup
  keys : ∀ {b n}, n ∈ p.lru b ↔ n ∈ (t.lru b).keys
  sorted : ∀ b, (p.lru b).Pairwise fun m n => t.stamp b m ≤ t.stamp b n
  stamp_le : ∀ b n, t.stamp b n ≤ t.clock

variable {p : RadixTree H B} {t : RustTree H B}

omit [DecidableEq H] [DecidableEq B] in
theorem sim_init (cap : Nat) :
    Sim (RadixTree.init cap : RadixTree H B) (RustTree.init cap) where
  nodes := rfl
  next := rfl
  clock := rfl
  cap := rfl
  nodup := fun _ => List.nodup_nil
  keys := by simp [RadixTree.init, RustTree.init, Dict.empty, Dict.keys]
  sorted := fun _ => List.Pairwise.nil
  stamp_le := by simp [RustTree.stamp, RustTree.init, Dict.getD]

omit [DecidableEq H] [DecidableEq B] in
/-- The clock of the next insert. -/
theorem Sim.tick (sim : Sim p t) :
    Sim { p with clock := p.clock + 1 } { t with clock := t.clock + 1 } where
  nodes := sim.nodes
  next := sim.next
  clock := congrArg (· + 1) sim.clock
  cap := sim.cap
  nodup := sim.nodup
  keys := sim.keys
  sorted := sim.sorted
  stamp_le := fun b n => Nat.le_succ_of_le (sim.stamp_le b n)

omit [DecidableEq H] [DecidableEq B] in
/-- Changing nothing but the heaps, and those alike. -/
theorem Sim.heap (sim : Sim p t) {p' : RadixTree H B} {t' : RustTree H B}
    (nodes : p'.node = t'.nodes) (next : p'.next = t'.len)
    (python : p'.clock = p.clock ∧ p'.cap = p.cap ∧ p'.lru = p.lru)
    (rust : t'.clock = t.clock ∧ t'.cap = t.cap ∧ t'.lru = t.lru) : Sim p' t' := by
  obtain ⟨clock, cap, lru⟩ := python
  obtain ⟨clock', cap', lru'⟩ := rust
  have stamp : ∀ b n, t'.stamp b n = t.stamp b n := fun b n => by
    rw [RustTree.stamp, RustTree.stamp, lru']
  exact {
    nodes := nodes
    next := next
    clock := by rw [clock, clock', sim.clock]
    cap := by rw [cap, cap', sim.cap]
    nodup := by
      rw [lru]
      exact sim.nodup
    keys := by
      rw [lru, lru']
      exact sim.keys
    sorted := by
      simp only [lru, stamp]
      exact sim.sorted
    stamp_le := by
      simp only [stamp, clock']
      exact sim.stamp_le }

/-! ### The order of one backend -/

/-- The order in which Python keeps the nodes of a backend is that of the stamps which Rust
keeps for them. -/
structure Dated (order : List NodeId) (stamps : Dict NodeId Nat) (clock : Nat) : Prop where
  nodup : order.Nodup
  keys : ∀ n, n ∈ order ↔ n ∈ stamps.keys
  sorted : order.Pairwise fun m n => stamps.getD m 0 ≤ stamps.getD n 0
  stamp_le : ∀ n, stamps.getD n 0 ≤ clock

omit [DecidableEq H] [DecidableEq B] in
theorem Sim.dated (sim : Sim p t) (b : B) : Dated (p.lru b) (t.lru b) t.clock where
  nodup := sim.nodup b
  keys := fun _ => sim.keys
  sorted := sim.sorted b
  stamp_le := sim.stamp_le b

omit [DecidableEq H] in
/-- Another order for one backend, and nodes that have changed alike. -/
theorem Sim.relist (sim : Sim p t) (b : B) {nodes nodes' : NodeId → Node H B}
    {order : List NodeId} {stamps : Dict NodeId Nat} (alike : nodes = nodes')
    (dated : Dated order stamps t.clock) :
    Sim { p with node := nodes, lru := Function.update p.lru b order }
      { t with nodes := nodes', lru := Function.update t.lru b stamps } := by
  have each : ∀ b', Dated (Function.update p.lru b order b') (Function.update t.lru b stamps b')
      t.clock := by
    intro b'
    by_cases here : b' = b
    · subst here
      simpa only [Function.update_self] using dated
    · simpa only [Function.update_of_ne here] using sim.dated b'
  exact {
    nodes := alike
    next := sim.next
    clock := sim.clock
    cap := sim.cap
    nodup := fun b' => (each b').nodup
    keys := fun {b' n} => (each b').keys n
    sorted := fun b' => (each b').sorted
    stamp_le := fun b' => (each b').stamp_le }

section Dated

variable {order : List NodeId} {stamps : Dict NodeId Nat} {clock : Nat}

theorem dated_empty (clock : Nat) : Dated [] .empty clock where
  nodup := List.nodup_nil
  keys := by simp [Dict.empty, Dict.keys]
  sorted := List.Pairwise.nil
  stamp_le := by simp [Dict.getD]

/-- A node goes to the end of the others, where it has the greatest stamp. -/
theorem Dated.moved (dated : Dated order stamps clock) {n : NodeId} {others : List NodeId}
    (part : others.Sublist order) (absent : n ∉ others)
    (rest : ∀ m, m ≠ n → (m ∈ others ↔ m ∈ order)) :
    Dated (others ++ [n]) (stamps.set n clock) clock where
  nodup := by
    rw [List.nodup_append_comm, List.singleton_append, List.nodup_cons]
    exact ⟨absent, part.nodup dated.nodup⟩
  keys := by
    intro m
    rw [List.mem_append, List.mem_singleton, Dict.mem_keys_iff, Dict.get?_set]
    by_cases here : m = n
    · simp [here]
    · simp [here, rest m here, dated.keys, Dict.mem_keys_iff]
  sorted := by
    refine List.pairwise_append.mpr ⟨?_, List.pairwise_singleton _ _, ?_⟩
    · refine (dated.sorted.sublist part).imp_of_mem fun {m k} hm hk le => ?_
      have ne_m : m ≠ n := fun here => absent (here ▸ hm)
      have ne_k : k ≠ n := fun here => absent (here ▸ hk)
      simpa [Dict.getD_set, ne_m, ne_k] using le
    · intro m hm k hk
      have ne_m : m ≠ n := fun here => absent (here ▸ hm)
      rw [List.mem_singleton.mp hk]
      simpa [Dict.getD_set, ne_m] using dated.stamp_le m
  stamp_le := by
    intro m
    rw [Dict.getD_set]
    split
    · exact Nat.le_refl _
    · exact dated.stamp_le m

/-- Nodes are forgotten on both sides. -/
theorem Dated.restrict (dated : Dated order stamps clock) {kept : List NodeId}
    {stamps' : Dict NodeId Nat} (survive : kept.Sublist order)
    (same : ∀ n, n ∈ kept ↔ n ∈ stamps'.keys)
    (stamp : ∀ n ∈ kept, stamps'.getD n 0 = stamps.getD n 0) : Dated kept stamps' clock where
  nodup := survive.nodup dated.nodup
  keys := same
  sorted := by
    refine (dated.sorted.sublist survive).imp_of_mem fun {m k} hm hk le => ?_
    rw [stamp m hm, stamp k hk]
    exact le
  stamp_le := by
    intro n
    by_cases member : n ∈ kept
    · rw [stamp n member]
      exact dated.stamp_le n
    · have absent : stamps'.get? n = none := by
        rw [same, Dict.mem_keys_iff, Bool.not_eq_true, Option.isSome_eq_false_iff,
          Option.isNone_iff_eq_none] at member
        exact member
      simp [Dict.getD, absent]

/-- A touched node moves to the end on one side and gets the greatest stamp on the other. -/
theorem Dated.touch (dated : Dated order stamps clock) (n : NodeId) :
    Dated (if n ∈ order then order.erase n ++ [n] else order ++ [n]) (stamps.set n clock) clock := by
  split
  · exact dated.moved List.erase_sublist dated.nodup.not_mem_erase
      fun _ other => List.mem_erase_of_ne other
  · rename_i fresh
    exact dated.moved (List.Sublist.refl _) fresh fun _ _ => Iff.rfl

end Dated

omit [DecidableEq H] in
theorem Sim.track (sim : Sim p t) (b : B) (n : NodeId) : Sim (p.track b n) (t.track b n) :=
  sim.relist b sim.nodes ((sim.dated b).touch n)

omit [DecidableEq H] in
theorem Sim.trackAll (sim : Sim p t) (bs : List B) (n : NodeId) :
    Sim (p.trackAll bs n) (t.trackAll bs n) := by
  induction bs generalizing p t with
  | nil => exact sim
  | cons b bs ih => exact ih (sim.track b n)

omit [DecidableEq H] in
theorem Sim.hold (sim : Sim p t) (b : B) (n : NodeId) : Sim (p.hold b n) (t.hold b n) := by
  have held : Sim (p.modify n fun nd => { nd with holders := nd.holders.set b p.clock })
      (t.modify n fun nd => { nd with holders := nd.holders.set b t.clock }) := by
    refine sim.heap ?_ sim.next ⟨rfl, rfl, rfl⟩ ⟨rfl, rfl, rfl⟩
    simp only [RadixTree.modify, RustTree.modify, sim.nodes, sim.clock]
  exact held.track b n

omit [DecidableEq B] in
theorem Sim.attachLeaf (sim : Sim p t) (n : NodeId) (k : H) (rest : List H) :
    Sim (p.attachLeaf n k rest) (t.attachLeaf n k rest) := by
  refine sim.heap ?_ ?_ ⟨rfl, rfl, rfl⟩ ⟨rfl, rfl, rfl⟩
  · simp only [RadixTree.attachLeaf, RustTree.attachLeaf, RadixTree.setChild, RustTree.setChild,
      RadixTree.modify, RustTree.modify, RadixTree.newNode, RustTree.newNode, sim.nodes, sim.next]
  · exact congrArg (· + 1) sim.next

/-- The two sources set up the middle node in different orders. -/
theorem Sim.splitEdge (sim : Sim p t) {n child j : NodeId} (first : H) (hn : n < p.next)
    (hc : child < p.next) (short : j < (p.node child).edge.length) :
    Sim (p.splitEdge n first child j) (t.splitEdge n first child j) := by
  have ne_n : n ≠ t.len := sim.next ▸ Nat.ne_of_lt hn
  have ne_c : child ≠ t.len := sim.next ▸ Nat.ne_of_lt hc
  rw [sim.nodes] at short
  have drop_j := List.drop_eq_getElem_cons short
  have keys : ∀ q : RadixTree H B, (q.node t.len).holders = (t.nodes child).holders →
      ∀ r : RustTree H B, Sim q r →
      Sim (q.trackAll (q.node t.len).holders.keys t.len)
        (r.trackAll (t.nodes child).holders.keys t.len) := by
    intro q same r sim'
    rw [same]
    exact sim'.trackAll _ _
  simp only [RadixTree.splitEdge, RustTree.splitEdge, drop_j, sim.next, sim.nodes]
  apply keys
  · by_cases nc : child = n
    · subst nc
      simp [RadixTree.setChild, RadixTree.modify, RadixTree.newNode, ne_c, sim.nodes, sim.next]
    · simp [RadixTree.setChild, RadixTree.modify, RadixTree.newNode, ne_c, nc, sim.nodes, sim.next]
  · refine sim.heap (funext fun m => ?_) (congrArg (· + 1) sim.next) ⟨rfl, rfl, rfl⟩ ⟨rfl, rfl, rfl⟩
    simp only [RadixTree.setChild, RadixTree.modify, RadixTree.newNode, RustTree.setChild,
      RustTree.modify, RustTree.newNode, sim.nodes, sim.next]
    by_cases new : m = t.len
    · subst new
      by_cases nc : child = n
      · subst nc
        simp [ne_c, ne_c.symm]
      · simp [ne_c, ne_c.symm, ne_n, ne_n.symm, nc]
    · by_cases hmc : m = child
      · subst hmc
        by_cases nc : m = n
        · subst nc
          simp [new]
        · simp [new, nc]
      · by_cases hmn : m = n
        · subst hmn
          simp [new, hmc]
        · simp [new, hmc, hmn]

theorem Sim.insertLoop (sim : Sim p t) {path : NodeId → List H} (inv : Inv p path) (b : B)
    (fuel : Nat) {n : NodeId} (hn : n < p.next) (rest : List H) :
    Sim (RadixTree.insertLoop b fuel p n rest) (RustTree.insertLoop b fuel t n rest) := by
  induction fuel generalizing p t n rest with
  | zero => exact sim
  | succ fuel ih =>
      cases rest with
      | nil => exact sim
      | cons first rest =>
          simp only [RadixTree.insertLoop, RustTree.insertLoop]
          rw [← sim.nodes, ← sim.next]
          cases kid : (p.node n).children.get? first with
          | none => exact (sim.attachLeaf n first _).hold b _
          | some child =>
              obtain ⟨pos, alloc, -, tail, edge⟩ := inv.labelled.child (T := p.shape) hn kid
              change child < p.next at alloc
              dsimp only
              split
              · exact ih (sim.hold b child) (inv.hold b pos alloc) alloc _
              · rename_i part
                have short := lt_of_le_of_ne (RadixTree.commonLen_le_left _ _) part
                have split' := (sim.splitEdge first hn alloc short).hold b p.next
                cases (first :: rest).drop (commonLen (p.node child).edge (first :: rest)) with
                | nil => exact split'
                | cons k more =>
                    have leaf := (split'.attachLeaf p.next k (k :: more)).hold b
                      ((p.splitEdge n first child
                        (commonLen (p.node child).edge (first :: rest))).hold b p.next).next
                    dsimp only
                    rw [← split'.next]
                    exact leaf

theorem Sim.touch (sim : Sim p t) {path : NodeId → List H} (inv : Inv p path) (h : List H)
    (b : B) : Sim (p.touch h b) (t.touch h b) := by
  have ticked : Inv { p with clock := p.clock + 1 } path :=
    ⟨inv.labelled, inv.tracked.nodup, inv.tracked.alloc, inv.tracked.holders⟩
  exact sim.tick.insertLoop ticked b h.length inv.labelled.pos h

/-! ### The stamps of an insert -/

omit [DecidableEq H] in
theorem RustTree.stamp_hold (t : RustTree H B) (b : B) (n m : NodeId) :
    (t.hold b n).stamp b m = if m = n then t.clock else t.stamp b m := by
  simp [RustTree.stamp, RustTree.hold, RustTree.track, RustTree.modify, Dict.getD_set]

omit [DecidableEq H] in
theorem RustTree.stamp_trackAll {t : RustTree H B} (bs : List B) {b : B} {n m : NodeId}
    (other : m ≠ n) : (t.trackAll bs n).stamp b m = t.stamp b m := by
  induction bs generalizing t with
  | nil => rfl
  | cons b' bs ih =>
      refine (ih (t := t.track b' n)).trans ?_
      by_cases same : b = b'
      · subst same
        simp [RustTree.stamp, RustTree.track, Dict.getD_set, other]
      · simp [RustTree.stamp, RustTree.track, same]

omit [DecidableEq H] in
theorem RustTree.clock_trackAll (t : RustTree H B) (bs : List B) (n : NodeId) :
    (t.trackAll bs n).clock = t.clock := by
  induction bs generalizing t with
  | nil => rfl
  | cons b bs ih => exact ih (t.track b n)

omit [DecidableEq H] in
theorem RustTree.len_trackAll (t : RustTree H B) (bs : List B) (n : NodeId) :
    (t.trackAll bs n).len = t.len := by
  induction bs generalizing t with
  | nil => rfl
  | cons b bs ih => exact ih (t.track b n)

/-- A split stamps the new middle node only. -/
theorem RustTree.splitEdge_frame (t : RustTree H B) (n : NodeId) (first : H) (child j : NodeId) :
    (t.splitEdge n first child j).clock = t.clock ∧
      (t.splitEdge n first child j).len = t.len + 1 ∧
      ∀ b m, m ≠ t.len → (t.splitEdge n first child j).stamp b m = t.stamp b m := by
  simp only [RustTree.splitEdge]
  refine ⟨?_, ?_, fun b m other => ?_⟩
  · rw [RustTree.clock_trackAll]
    cases (t.nodes child).edge.drop j <;> rfl
  · rw [RustTree.len_trackAll]
    cases (t.nodes child).edge.drop j <;> rfl
  · rw [RustTree.stamp_trackAll _ other]
    cases (t.nodes child).edge.drop j <;> rfl

omit [DecidableEq H] in
theorem RustTree.edge_hold (t : RustTree H B) (b : B) (c m : NodeId) :
    ((t.hold b c).nodes m).edge = (t.nodes m).edge := by
  by_cases here : m = c
  · subst here
    simp [RustTree.hold, RustTree.track, RustTree.modify]
  · simp [RustTree.hold, RustTree.track, RustTree.modify, here]

theorem RustTree.walk_hold (t : RustTree H B) (b : B) (c : NodeId) (fuel : Nat) (n : NodeId)
    (rest : List H) : RadixTree.walk (t.hold b c).nodes fuel n rest =
      RadixTree.walk t.nodes fuel n rest := by
  refine RadixTree.walk_congr (fun m k => ?_) (t.edge_hold b c)
  by_cases here : m = c
  · subst here
    simp [RustTree.hold, RustTree.track, RustTree.modify]
  · simp [RustTree.hold, RustTree.track, RustTree.modify, here]

/-- The walk of an insert gives the clock to the nodes on whose whole edge it runs and to the
new ones, and leaves the other stamps. -/
structure Stamped (b : B) (passed : List (NodeId × Nat)) (t t' : RustTree H B) : Prop where
  touched : ∀ m, (m, (t.nodes m).edge.length) ∈ passed ∨ (t.len ≤ m ∧ m < t'.len) →
    t'.stamp b m = t.clock
  others : ∀ m, (m, (t.nodes m).edge.length) ∉ passed → ¬ (t.len ≤ m ∧ m < t'.len) →
    t'.stamp b m = t.stamp b m

omit [DecidableEq H] [DecidableEq B] in
theorem stamped_stop (b : B) (t : RustTree H B) : Stamped b [] t t where
  touched := by
    rintro m (member | ⟨least, below⟩)
    · cases member
    · exact absurd below (Nat.not_lt_of_le least)
  others := fun _ _ _ => rfl

theorem stamped_attach (b : B) (t : RustTree H B) (n : NodeId) (k : H) (rest : List H) :
    Stamped b [] t ((t.attachLeaf n k rest).hold b t.len) where
  touched := by
    rintro m (member | ⟨least, below⟩)
    · cases member
    · rw [RustTree.stamp_hold, if_pos (Nat.le_antisymm (Nat.le_of_lt_succ below) least)]
      rfl
  others := by
    intro m _ old
    have ne : m ≠ t.len := by
      rintro rfl
      exact old ⟨Nat.le_refl _, Nat.lt_succ_self _⟩
    rw [RustTree.stamp_hold, if_neg ne]
    rfl

omit [DecidableEq H] in
/-- A child whose whole edge the walk has run along is held, and goes on with the stamps. -/
theorem Stamped.enter {b : B} {passed : List (NodeId × Nat)} {child : NodeId} {t' : RustTree H B}
    (below : Stamped b passed (t.hold b child) t') :
    Stamped b ((child, (t.nodes child).edge.length) :: passed) t t' := by
  have touched := below.touched
  have others := below.others
  simp only [RustTree.edge_hold, RustTree.stamp_hold] at touched others
  refine ⟨fun m reached => ?_, fun m off old => ?_⟩
  · by_cases later : (m, (t.nodes m).edge.length) ∈ passed ∨ (t.len ≤ m ∧ m < t'.len)
    · exact touched m later
    · have here : m = child := by
        rcases reached with member | new
        · rcases List.mem_cons.mp member with same | member
          · exact congrArg Prod.fst same
          · exact absurd (.inl member) later
        · exact absurd (.inr new) later
      rw [others m (fun member => later (.inl member)) (fun new => later (.inr new)), if_pos here]
  · rw [List.mem_cons, not_or] at off
    rw [others m off.2 old, if_neg]
    rintro rfl
    exact off.1 rfl

/-- A middle node is new. -/
theorem Stamped.split {b : B} (n : NodeId) (first : H) {child j : NodeId} {t' : RustTree H B}
    (short : j < (t.nodes child).edge.length) (grows : t.len + 1 ≤ t'.len)
    (below : Stamped b [] ((t.splitEdge n first child j).hold b t.len) t') :
    Stamped b [(child, j)] t t' := by
  obtain ⟨clock, len, stamps⟩ := t.splitEdge_frame n first child j
  have len' : ((t.splitEdge n first child j).hold b t.len).len = t.len + 1 := len
  have clock' : ((t.splitEdge n first child j).hold b t.len).clock = t.clock := clock
  have touched : ∀ m, t.len + 1 ≤ m → m < t'.len → t'.stamp b m = t.clock := by
    intro m least within
    rw [← clock']
    exact below.touched m (.inr ⟨len' ▸ least, within⟩)
  have others : ∀ m < t.len + 1, t'.stamp b m = if m = t.len then t.clock else t.stamp b m := by
    intro m old
    rw [below.others m List.not_mem_nil fun new => absurd (len' ▸ new.1) (Nat.not_le_of_lt old),
      RustTree.stamp_hold, clock]
    split
    · rfl
    · rename_i other
      exact stamps b m other
  refine ⟨fun m reached => ?_, fun m _ old => ?_⟩
  · rcases reached with member | ⟨least, within⟩
    · have same := List.mem_singleton.mp member
      obtain ⟨rfl, whole⟩ := Prod.mk.inj same
      exact absurd short (Nat.not_lt_of_le (Nat.le_of_eq whole))
    · rcases Nat.eq_or_lt_of_le least with here | more
      · rw [others m (here ▸ Nat.lt_succ_self _), if_pos here.symm]
      · exact touched m more within
  · by_cases before : m < t.len
    · rw [others m (Nat.lt_succ_of_lt before), if_neg (Nat.ne_of_lt before)]
    · -- beyond the arena
      have beyond : t'.len ≤ m := Nat.le_of_not_lt fun within => old ⟨Nat.le_of_not_lt before, within⟩
      have := below.others m List.not_mem_nil fun new => absurd new.2 (Nat.not_lt_of_le beyond)
      have ne : m ≠ t.len := fun here => absurd (here ▸ beyond) (Nat.not_le_of_lt grows)
      rw [this, RustTree.stamp_hold, if_neg ne, stamps b m ne]

theorem RustTree.stamped_insertLoop (b : B) (fuel : Nat) (t : RustTree H B) (n : NodeId)
    (rest : List H) : Stamped b (RadixTree.walk t.nodes fuel n rest) t
      (RustTree.insertLoop b fuel t n rest) := by
  induction fuel generalizing t n rest with
  | zero => exact stamped_stop b t
  | succ fuel ih =>
      cases rest with
      | nil => exact stamped_stop b t
      | cons first rest =>
          cases kid : (t.nodes n).children.get? first with
          | none =>
              simp only [RustTree.insertLoop, RadixTree.walk, kid]
              exact stamped_attach b t n first _
          | some child =>
              simp only [RustTree.insertLoop, RadixTree.walk, kid]
              by_cases whole : commonLen (t.nodes child).edge (first :: rest) =
                  (t.nodes child).edge.length
              · have below := ih (t.hold b child) child
                  ((first :: rest).drop (commonLen (t.nodes child).edge (first :: rest)))
                rw [RustTree.walk_hold] at below
                rw [if_pos whole, if_pos whole]
                have entered := below.enter
                rwa [← whole] at entered
              · have short := lt_of_le_of_ne (RadixTree.commonLen_le_left _ _) whole
                rw [if_neg whole, if_neg whole]
                have len := (t.splitEdge_frame n first child
                  (commonLen (t.nodes child).edge (first :: rest))).2.1
                generalize (first :: rest).drop
                  (commonLen (t.nodes child).edge (first :: rest)) = more
                cases more with
                | nil =>
                    exact Stamped.split n first short (Nat.le_of_eq len.symm) (stamped_stop b _)
                | cons k tail =>
                    have leaf := stamped_attach b ((t.splitEdge n first child
                      (commonLen (t.nodes child).edge (first :: rest))).hold b t.len) t.len k
                      (k :: tail)
                    refine Stamped.split n first short ?_ leaf
                    exact Nat.le_succ_of_le (Nat.le_of_eq len.symm)

theorem RustTree.stamped_touch (t : RustTree H B) (h : List H) (b : B) :
    Stamped b (RadixTree.way t.nodes h) { t with clock := t.clock + 1 } (t.touch h b) :=
  RustTree.stamped_insertLoop b h.length { t with clock := t.clock + 1 } 0 h

/-! ### What the two trees answer -/

theorem Sim.matchPrefix (sim : Sim p t) (q : List H) : t.matchPrefix q = p.matchPrefix q := by
  have loop : ∀ fuel n rest alive depth best,
      RustTree.matchLoop t fuel n rest alive depth best =
        RadixTree.matchLoop p fuel n rest alive depth best := by
    intro fuel
    induction fuel with
    | zero => exact fun _ _ _ _ _ => rfl
    | succ fuel ih =>
        intro n rest alive depth best
        cases rest with
        | nil => rfl
        | cons first rest =>
            cases found : (p.node n).children.get? first with
            | none => simp only [RustTree.matchLoop, RadixTree.matchLoop, ← sim.nodes, found]
            | some child => simp only [RustTree.matchLoop, RadixTree.matchLoop, ← sim.nodes, found, ih]
  exact loop _ _ _ _ _ _

omit [DecidableEq H] [DecidableEq B] in
theorem Sim.perm (sim : Sim p t) (b : B) : (p.lru b).Perm (t.lru b).keys :=
  (List.perm_ext_iff_of_nodup (sim.nodup b) (t.lru b).nodup).mpr fun _ => sim.keys

omit [DecidableEq H] [DecidableEq B] in
theorem Sim.heldBlocks (sim : Sim p t) (b : B) : t.heldBlocks b = p.heldBlocks b := by
  rw [RustTree.heldBlocks, RadixTree.heldBlocks, sim.nodes]
  exact (((sim.perm b).map _).sum_eq).symm

/-! ### Removal -/

omit [DecidableEq H] in
/-- Dropping a holder from some nodes, in whatever order. -/
theorem foldl_dropHolder_apply (b : B) (l : List NodeId) (nodes : NodeId → Node H B)
    (m : NodeId) : l.foldl (RadixTree.dropHolder b) nodes m =
      if m ∈ l then { nodes m with holders := (nodes m).holders.erase b } else nodes m := by
  induction l generalizing nodes with
  | nil => rfl
  | cons n l ih =>
      rw [List.foldl_cons, ih]
      by_cases here : m = n
      · subst here
        by_cases again : m ∈ l
        · simp [RadixTree.dropHolder, again, Dict.erase]
        · simp [RadixTree.dropHolder, again]
      · simp [RadixTree.dropHolder, here]

omit [DecidableEq H] in
theorem Sim.removeBackend (sim : Sim p t) (b : B) :
    Sim (p.removeBackend b) (t.removeBackend b) := by
  refine sim.relist b (funext fun m => ?_) (dated_empty t.clock)
  simp only [foldl_dropHolder_apply, sim.keys, sim.nodes]

/-! ### Eviction -/

open Eviction (Drains Whole)

theorem minByKey_eq_none {key : NodeId → Nat} {l : List NodeId} :
    RustTree.minByKey key l = none ↔ l = [] := by
  cases l with
  | nil => simp [RustTree.minByKey]
  | cons n l =>
      simp only [RustTree.minByKey]
      cases RustTree.minByKey key l with
      | none => simp
      | some m =>
          dsimp only
          split <;> simp

theorem minByKey_least {key : NodeId → Nat} {l : List NodeId} {v : NodeId}
    (found : RustTree.minByKey key l = some v) : v ∈ l ∧ ∀ n ∈ l, key v ≤ key n := by
  induction l generalizing v with
  | nil => cases found
  | cons n l ih =>
      simp only [RustTree.minByKey] at found
      cases rest : RustTree.minByKey key l with
      | none =>
          rw [rest] at found
          cases found
          simp [minByKey_eq_none.mp rest]
      | some m =>
          rw [rest] at found
          obtain ⟨member, least⟩ := ih rest
          dsimp only at found
          split at found
          · rename_i less
            cases found
            refine ⟨List.mem_cons_of_mem _ member, fun k hk => ?_⟩
            rcases List.mem_cons.mp hk with rfl | hk
            · exact Nat.le_of_lt less
            · exact least k hk
          · rename_i more
            cases found
            refine ⟨List.mem_cons_self, fun k hk => ?_⟩
            rcases List.mem_cons.mp hk with rfl | hk
            · exact Nat.le_refl _
            · exact Nat.le_trans (Nat.le_of_not_lt more) (least k hk)

omit [DecidableEq H] [DecidableEq B] in
theorem blocks_eq_sum (nodes : NodeId → Node H B) {l : List NodeId} (nodup : l.Nodup) :
    blocks nodes l = ∑ n ∈ l.toFinset, (nodes n).edge.length :=
  (List.sum_toFinset _ nodup).symm

omit [DecidableEq H] [DecidableEq B] in
/-- The Python loop is one way of evicting. -/
theorem drains_survivors {stamp : NodeId → Nat} (cap : Nat) (nodes : NodeId → Node H B)
    {l : List NodeId} (nodup : l.Nodup) (sorted : l.Pairwise fun m n => stamp m ≤ stamp n) :
    Drains stamp (fun n => (nodes n).edge.length) cap l.toFinset
      (RadixTree.survivors cap nodes l).toFinset := by
  induction l with
  | nil => exact .fits (Nat.zero_le _)
  | cons n rest ih =>
      obtain ⟨fresh, nodup'⟩ := List.nodup_cons.mp nodup
      obtain ⟨least, sorted'⟩ := List.pairwise_cons.mp sorted
      simp only [RadixTree.survivors]
      split
      · rename_i large
        refine .evict n (by simp) ?_ ?_ ?_
        · intro m member
          rcases List.mem_cons.mp (List.mem_toFinset.mp member) with rfl | member
          · exact Nat.le_refl _
          · exact least m member
        · rw [← blocks_eq_sum nodes nodup]
          exact_mod_cast large
        · rw [List.toFinset_cons, Finset.erase_insert (by simpa using fresh)]
          exact ih nodup' sorted'
      · rename_i small
        refine .fits ?_
        rw [← blocks_eq_sum nodes nodup]
        exact_mod_cast not_lt.mp small

/-- What an eviction loop ends with, given the stamps and the nodes it starts with. -/
structure Evicted (b : B) (cap : Nat) (stamp size : NodeId → Nat) (stamps : Dict NodeId Nat)
    (nodes : NodeId → Node H B) (final : Dict NodeId Nat × (NodeId → Node H B)) : Prop where
  drains : Drains stamp size cap stamps.keys.toFinset final.1.keys.toFinset
  kept : ∀ n ∈ final.1.keys, n ∈ stamps.keys ∧ final.1.getD n 0 = stamp n
  dropped : ∀ m, final.2 m = if m ∈ stamps.keys ∧ m ∉ final.1.keys then
    { nodes m with holders := (nodes m).holders.erase b } else nodes m

section Loop

variable {b : B} {cap : Nat} {stamp size : NodeId → Nat} {stamps : Dict NodeId Nat}
  {nodes : NodeId → Node H B}

theorem mem_keys_erase {victim n : NodeId} :
    n ∈ (stamps.erase victim).keys ↔ n ≠ victim ∧ n ∈ stamps.keys := by
  simp only [Dict.mem_keys_iff, Dict.get?_erase]
  by_cases here : n = victim <;> simp [here]

theorem length_keys_erase_lt {victim : NodeId} (member : victim ∈ stamps.keys) :
    (stamps.erase victim).keys.length < stamps.keys.length := by
  have sublist : (stamps.erase victim).keys.Sublist stamps.keys := List.filter_sublist.map Prod.fst
  refine Nat.lt_of_le_of_ne sublist.length_le fun same => ?_
  rw [← sublist.eq_of_length same] at member
  exact (mem_keys_erase.mp member).1 rfl

omit [DecidableEq H] in
theorem Evicted.fits (stamped : ∀ n ∈ stamps.keys, stamps.getD n 0 = stamp n)
    (small : ∑ n ∈ stamps.keys.toFinset, size n ≤ cap) :
    Evicted b cap stamp size stamps nodes (stamps, nodes) where
  drains := .fits small
  kept := fun n member => ⟨member, stamped n member⟩
  dropped := fun m => by rw [if_neg fun both => both.2 both.1]

omit [DecidableEq H] in
theorem Evicted.evict {victim : NodeId} {final : Dict NodeId Nat × (NodeId → Node H B)}
    (member : victim ∈ stamps.keys) (least : ∀ n ∈ stamps.keys, stamp victim ≤ stamp n)
    (large : cap < ∑ n ∈ stamps.keys.toFinset, size n)
    (rest : Evicted b cap stamp size (stamps.erase victim) (RadixTree.dropHolder b nodes victim)
      final) : Evicted b cap stamp size stamps nodes final where
  drains := by
    refine .evict victim (List.mem_toFinset.mpr member)
      (fun n other => least n (List.mem_toFinset.mp other)) large ?_
    have toFinset : (stamps.erase victim).keys.toFinset = stamps.keys.toFinset.erase victim := by
      ext n
      simp [mem_keys_erase]
    exact toFinset ▸ rest.drains
  kept := fun n still => ⟨(mem_keys_erase.mp (rest.kept n still).1).2, (rest.kept n still).2⟩
  dropped := by
    intro m
    rw [rest.dropped m]
    simp only [mem_keys_erase]
    by_cases here : m = victim
    · have gone : m ∉ final.1.keys := fun still =>
        (mem_keys_erase.mp (rest.kept m still).1).1 here
      subst here
      simp [member, gone, RadixTree.dropHolder]
    · simp [here, RadixTree.dropHolder]

omit [DecidableEq H] in
/-- The Rust loop is another one, whatever order it iterates in. -/
theorem evicted_evictLoop {it : Iteration} {fuel i : Nat}
    (stamped : ∀ n ∈ stamps.keys, stamps.getD n 0 = stamp n)
    (sized : ∀ n, (nodes n).edge.length = size n) (enough : stamps.keys.length ≤ fuel) :
    Evicted b cap stamp size stamps nodes
      (RustTree.evictLoop it cap b fuel i stamps nodes) := by
  induction fuel generalizing i stamps nodes with
  | zero =>
      have empty : stamps.keys = [] := List.length_eq_zero_iff.mp (Nat.le_zero.mp enough)
      exact .fits stamped (by simp [empty])
  | succ fuel ih =>
      have total : blocks nodes stamps.keys = ∑ n ∈ stamps.keys.toFinset, size n :=
        (blocks_eq_sum nodes stamps.nodup).trans (Finset.sum_congr rfl fun n _ => sized n)
      simp only [RustTree.evictLoop]
      split
      · rename_i small
        exact .fits stamped (total ▸ small)
      · rename_i large
        cases found : RustTree.minByKey (fun n => stamps.getD n 0) (it.order i stamps.keys) with
        | none =>
            have perm := it.perm i stamps.keys
            rw [minByKey_eq_none.mp found] at perm
            exact absurd (by simp [perm.nil_eq.symm, blocks]) large
        | some victim =>
            obtain ⟨member, least⟩ := minByKey_least found
            rw [(it.perm i stamps.keys).mem_iff] at member
            refine .evict member ?_ (total ▸ Nat.lt_of_not_le large) (ih ?_ ?_ ?_)
            · intro n other
              have := least n ((it.perm i stamps.keys).mem_iff.mpr other)
              rwa [stamped _ member, stamped _ other] at this
            · intro n still
              rw [Dict.getD_erase, if_neg (mem_keys_erase.mp still).1]
              exact stamped n (mem_keys_erase.mp still).2
            · exact fun n => (congrArg List.length (RadixTree.dropHolder_edge ..)).trans (sized n)
            · exact Nat.le_of_lt_succ
                (Nat.lt_of_lt_of_le (length_keys_erase_lt member) enough)

end Loop

/-- What an eviction of the Rust tree has to find: if some of the nodes that share a stamp
have to go, then each of them has to, being too long for what is more recent. -/
def RustTree.WholeTies (t : RustTree H B) (b : B) : Prop :=
  Whole (t.stamp b) (fun n => (t.nodes n).edge.length) t.cap (t.lru b).keys.toFinset

omit [DecidableEq H] in
theorem RustTree.evicted (t : RustTree H B) (it : Iteration) (b : B) :
    Evicted b t.cap (t.stamp b) (fun n => (t.nodes n).edge.length) (t.lru b) t.nodes
      (RustTree.evictLoop it t.cap b (t.lru b).keys.length 0 (t.lru b) t.nodes) :=
  evicted_evictLoop (fun _ _ => rfl) (fun _ => rfl) (Nat.le_refl _)

omit [DecidableEq H] in
/-- Where ties are whole, both keep the same nodes. -/
theorem Sim.mem_survivors (sim : Sim p t) {b : B} (whole : t.WholeTies b) (it : Iteration)
    (n : NodeId) : n ∈ RadixTree.survivors t.cap t.nodes (p.lru b) ↔
      n ∈ (RustTree.evictLoop it t.cap b (t.lru b).keys.length 0 (t.lru b) t.nodes).1.keys := by
  have toFinset : (p.lru b).toFinset = (t.lru b).keys.toFinset := by
    ext m
    simp [sim.keys]
  have python := drains_survivors t.cap t.nodes (sim.nodup b) (sim.sorted b)
  rw [toFinset] at python
  rw [← List.mem_toFinset, python.eq_keep whole, ← (RustTree.evicted t it b).drains.eq_keep whole,
    List.mem_toFinset]

omit [DecidableEq H] in
theorem Sim.evict (sim : Sim p t) {b : B} (whole : t.WholeTies b) (it : Iteration) :
    Sim (p.evict b) (t.evict it b) := by
  have rust := RustTree.evicted t it b
  have same := sim.mem_survivors whole it
  rw [RadixTree.evict_eq, sim.cap, sim.nodes, RustTree.evict]
  generalize RustTree.evictLoop it t.cap b (t.lru b).keys.length 0 (t.lru b) t.nodes = final
    at rust same ⊢
  have parts := RadixTree.overflow_append_survivors t.cap t.nodes (p.lru b)
  generalize RadixTree.survivors t.cap t.nodes (p.lru b) = kept at same parts ⊢
  generalize RadixTree.overflow t.cap t.nodes (p.lru b) = popped at parts ⊢
  have nodup := sim.nodup b
  rw [← parts] at nodup
  have survive : kept.Sublist (p.lru b) := parts ▸ List.sublist_append_right popped kept
  refine sim.relist b (funext fun m => ?_) ((sim.dated b).restrict survive same fun n member => ?_)
  · have goes : m ∈ popped ↔ m ∈ (t.lru b).keys ∧ m ∉ final.1.keys := by
      rw [← same, ← sim.keys, ← parts, List.mem_append]
      have disjoint := List.disjoint_of_nodup_append nodup (a := m)
      tauto
    simp only [sim.nodes, foldl_dropHolder_apply, rust.dropped, goes]
  · exact (rust.kept n ((same n).mp member)).2

/-! ### Runs -/

/-- The nodes of a backend beside the way of some hashes. -/
def RustTree.beside (t : RustTree H B) (hashes : List H) (b : B) : Finset NodeId :=
  (RadixTree.beside t.nodes hashes (t.lru b).keys).toFinset

/-- The condition on one call, on the tree before it: the inserted hashes fit, and in the room
that they leave the nodes beside their way have whole ties; or each segment of the hashes
is too large by itself. -/
def RustTree.EvictsWholeTies (t : RustTree H B) : Op H B → Prop
  | .insert hashes b =>
      (hashes.length ≤ t.cap ∧ Whole (t.stamp b) (RadixTree.beyond t.nodes hashes)
        (t.cap - hashes.length) (t.beside hashes b)) ∨
      ∀ l ∈ RadixTree.segments t.nodes hashes, t.cap < l
  | .remove _ => True

instance RustTree.decidableEvictsWholeTies (t : RustTree H B) :
    (op : Op H B) → Decidable (t.EvictsWholeTies op)
  | .insert hashes b =>
      inferInstanceAs (Decidable ((hashes.length ≤ t.cap ∧
        Whole (t.stamp b) (RadixTree.beyond t.nodes hashes) (t.cap - hashes.length)
          (t.beside hashes b)) ∨ ∀ l ∈ RadixTree.segments t.nodes hashes, t.cap < l))
  | .remove _ => inferInstanceAs (Decidable True)

/-- What `insert(h, b)` leaves to `b` before its eviction, in the words of the tree before it:
the nodes beside the way of `h` with their stamps, and behind them, with the stamp of the
insert, one node for each segment of `h`. -/
structure Touched (t : RustTree H B) (h : List H) (b : B) (trail : List NodeId)
    (t' : RustTree H B) : Prop where
  keys : (t'.lru b).keys.toFinset = t.beside h b ∪ trail.toFinset
  nodup : trail.Nodup
  apart : Disjoint (t.beside h b) trail.toFinset
  size_beside : ∀ m ∈ t.beside h b, (t'.nodes m).edge.length = RadixTree.beyond t.nodes h m
  size_trail : trail.map (fun m => (t'.nodes m).edge.length) = RadixTree.segments t.nodes h
  older : ∀ m ∈ t.beside h b, t'.stamp b m = t.stamp b m
  newest : ∀ m ∈ trail.toFinset, t'.stamp b m = t.clock + 1

omit [DecidableEq B] in
theorem Sim.mem_beside (sim : Sim p t) {h : List H} {b : B} {m : NodeId} :
    m ∈ t.beside h b ↔ m ∈ RadixTree.beside p.node h (p.lru b) := by
  simp only [RustTree.beside, RadixTree.beside, List.mem_toFinset, List.mem_filter, sim.keys,
    sim.nodes]

theorem Sim.touched (sim : Sim p t) {path : NodeId → List H} (inv : Inv p path) (h : List H)
    (b : B) : ∃ trail, Touched t h b trail (t.touch h b) := by
  obtain ⟨_, trail, inv', layout⟩ := inv.layout_touch h b
  have sim' := sim.touch inv h b
  have stamped := t.stamped_touch h b
  have nodup := sim'.nodup b
  rw [layout.lru] at nodup
  refine ⟨trail, ?_, nodup.of_append_right, ?_, ?_, ?_, ?_, ?_⟩
  · ext m
    have here := layout.lru ▸ sim'.keys (b := b) (n := m)
    rw [List.mem_toFinset, ← here, List.mem_append, Finset.mem_union, List.mem_toFinset,
      sim.mem_beside]
  · refine Finset.disjoint_left.mpr fun m member new => ?_
    exact List.disjoint_of_nodup_append nodup (sim.mem_beside.mp member) (List.mem_toFinset.mp new)
  · intro m member
    rw [← sim'.nodes, ← sim.nodes]
    exact layout.size_beside m (sim.mem_beside.mp member)
  · rw [← sim'.nodes, ← sim.nodes]
    exact layout.size_trail
  · intro m member
    obtain ⟨alloc, off⟩ := layout.stays m (sim.mem_beside.mp member)
    rw [sim.nodes] at off
    exact stamped.others m off fun new => absurd (sim.next ▸ alloc) (Nat.not_lt_of_le new.1)
  · intro m member
    obtain ⟨alloc, source⟩ := layout.source m (List.mem_toFinset.mp member)
    rw [sim.nodes, sim.next] at source
    exact stamped.touched m (source.symm.imp_right fun new => ⟨new, sim'.next ▸ alloc⟩)

/-- The ties that an insert evicts are whole where its condition holds. -/
theorem Sim.wholeTies (sim : Sim p t) {path : NodeId → List H} (inv : Inv p path) {h : List H}
    {b : B} (nonempty : h ≠ []) (condition : t.EvictsWholeTies (.insert h b)) :
    (t.touch h b).WholeTies b := by
  obtain ⟨trail, touched⟩ := sim.touched inv h b
  have total : ∑ m ∈ trail.toFinset, ((t.touch h b).nodes m).edge.length = h.length := by
    rw [← blocks_eq_sum _ touched.nodup, blocks, touched.size_trail, RadixTree.sum_segments]
  have cap : (t.touch h b).cap = t.cap := by
    have := (sim.touch inv h b).cap
    rw [RadixTree.cap_touch, sim.cap] at this
    exact_mod_cast this.symm
  have before : ∀ m ∈ t.beside h b, (t.touch h b).stamp b m < t.clock + 1 := by
    intro m member
    rw [touched.older m member]
    exact Nat.lt_succ_of_le (sim.stamp_le b m)
  rw [RustTree.WholeTies, touched.keys, cap]
  rcases condition with ⟨fits, whole⟩ | large
  · refine Whole.add_newest touched.apart before touched.newest (total ▸ fits) ?_
    rw [total]
    exact whole.congr touched.older touched.size_beside
  · refine Whole.add_large touched.apart before touched.newest ?_ fun m member => ?_
    · rw [List.toFinset_nonempty_iff]
      rintro rfl
      exact nonempty (List.length_eq_zero_iff.mp total.symm)
    · exact large _ (touched.size_trail ▸ List.mem_map_of_mem (List.mem_toFinset.mp member))

theorem Sim.apply (sim : Sim p t) {path : NodeId → List H} (inv : Inv p path)
    {call : Op H B × Iteration} (whole : t.EvictsWholeTies call.1) :
    Sim (p.apply call.1) (t.apply call) := by
  obtain ⟨op, it⟩ := call
  cases op with
  | insert hashes b =>
      simp only [RadixTree.apply, RustTree.apply, RadixTree.insert, RustTree.insert]
      split
      · exact sim
      · rename_i nonempty
        exact (sim.touch inv hashes b).evict
          (sim.wholeTies inv (mt List.isEmpty_iff.mpr nonempty) whole) it
  | remove b => exact sim.removeBackend b

theorem sim_runOps (cap : Nat) {ops : List (Op H B × Iteration)}
    (whole : ∀ done call, done ++ [call] <+: ops →
      (RustTree.runOps cap done).EvictsWholeTies call.1) :
    Sim (RadixTree.runOps cap (ops.map Prod.fst)) (RustTree.runOps cap ops) := by
  induction ops using List.reverseRecOn with
  | nil => exact sim_init cap
  | append_singleton done call ih =>
      obtain ⟨path, inv⟩ := RadixTree.runOps_inv cap (done.map Prod.fst)
      have before := ih fun done' call' visited =>
        whole done' call' (visited.trans (List.prefix_append _ _))
      have after := before.apply inv (whole done call List.prefix_rfl)
      simpa [RadixTree.runOps, RustTree.runOps] using after

/-- **The Rust tree answers as the Python tree does**, after every call of every run
whose inserts evict whole ties, in whatever order the tables of the Rust tree iterate. -/
theorem rust_matches_python (cap : Nat) (ops : List (Op H B × Iteration))
    (whole : ∀ done call, done ++ [call] <+: ops →
      (RustTree.runOps cap done).EvictsWholeTies call.1)
    (done : List (Op H B × Iteration)) (visited : done <+: ops) :
    (∀ q b, ((RustTree.runOps cap done).matchPrefix q).get? b =
      ((RadixTree.runOps cap (done.map Prod.fst)).matchPrefix q).get? b) ∧
    ∀ b, (RustTree.runOps cap done).heldBlocks b =
      (RadixTree.runOps cap (done.map Prod.fst)).heldBlocks b := by
  have sim := sim_runOps cap fun done' call before => whole done' call (before.trans visited)
  constructor
  · intro q b
    rw [sim.matchPrefix]
  · exact fun b => sim.heldBlocks b

end Simulation

/-- A table that iterates from its newest key to its oldest. -/
def Iteration.newestFirst : Iteration where
  order := fun _ keys => keys.reverse
  perm := fun _ keys => keys.reverse_perm

/-- Two unrelated prompts, of which one fits: both trees forget the first. -/
theorem rust_matches_python_newest_kept :
    let ops : List (Op Nat Nat × Iteration) :=
      [(.insert [1, 2] 0, .newestFirst), (.insert [3] 0, .newestFirst)]
    (RustTree.runOps 2 ops).heldBlocks 0 = 1 ∧
      (RadixTree.runOps 2 (ops.map Prod.fst)).heldBlocks 0 = 1 := by
  intro ops
  have whole : ∀ done call, done ++ [call] <+: ops →
      (RustTree.runOps 2 done).EvictsWholeTies call.1 := by
    intro done call visited
    have known := List.prefix_iff_eq_take.mp visited
    match done, call with
    | [], call =>
        cases known
        decide +kernel
    | [first], call =>
        cases known
        decide +kernel
    | _ :: _ :: _, _ =>
        have at_most := visited.length_le
        simp [ops] at at_most
  have rust : (RustTree.runOps 2 ops).heldBlocks 0 = 1 := by decide +kernel
  have same := (rust_matches_python 2 ops whole ops List.prefix_rfl).2 0
  exact ⟨rust, same.symm.trans rust⟩

/-- A backend that holds `[1, 2]` is sent `[1, 2, 3]`, one block more than fits. Both nodes
get the stamp of that insert. The Python tree drops the node it touched first, so it forgets
the prompt; a Rust table that meets the new node first drops the extension. -/
theorem rust_differs_on_a_tie :
    ¬ ∀ (cap : Nat) (ops : List (Op Nat Nat × Iteration)),
      (∀ q b, ((RustTree.runOps cap ops).matchPrefix q).get? b =
        ((RadixTree.runOps cap (ops.map Prod.fst)).matchPrefix q).get? b) ∧
      ∀ b, (RustTree.runOps cap ops).heldBlocks b =
        (RadixTree.runOps cap (ops.map Prod.fst)).heldBlocks b := by
  intro same
  have rust : ((RustTree.runOps 2 [(Op.insert [1, 2] 0, .newestFirst),
      (.insert [1, 2, 3] 0, .newestFirst)] : RustTree Nat Nat).matchPrefix [1, 2, 3]).get? 0 =
      some 2 := by
    decide +kernel
  have python : ((RadixTree.runOps 2 [Op.insert [1, 2] 0, .insert [1, 2, 3] 0]
      : RadixTree Nat Nat).matchPrefix [1, 2, 3]).get? 0 = none := by
    decide +kernel
  have := (same 2 [(.insert [1, 2] 0, .newestFirst), (.insert [1, 2, 3] 0, .newestFirst)]).1
    [1, 2, 3] 0
  exact absurd (rust.symm.trans (this.trans python)) (by decide)

end Gateway
