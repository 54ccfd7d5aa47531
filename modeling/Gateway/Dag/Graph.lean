import Mathlib.Algebra.BigOperators.Group.List.Basic
import Mathlib.Algebra.Order.Ring.Rat
import Mathlib.Data.List.Sort
import Gateway.Lib.Dict
import Gateway.Lib.Layering

/-!
Request graphs and their layers (`gateway/dag/graph.py`).

A graph is a dictionary of nodes under their own ids. `_kahn` keeps, for each node, the number of
occurrences of parents that are still missing, and takes the nodes without any as the next layer.
Fuel is what bounds its loop here; it never runs out.

* `Peeled`: the invariant of the loop. After `k` rounds the layers so far are the nodes that are
  ready after `k` rounds, and the frontier is the next layer.
* `kahn_spec`: with known parents, `_kahn` returns the layers, or raises `DagError` for a cycle.
* `validate_layers`: when `validate` raises, and what `layers` returns otherwise.
-/

namespace Gateway.Dag

open Layering Relation

/-- `DagNode`. -/
structure DagNode (N : Type) where
  id : N
  prompt : String
  parents : List N := []

/-- `DagError`, by what it is about. -/
inductive DagError (N : Type) where
  | duplicate (id : N)
  | unknownParent (node parent : N)
  | cycle
  deriving DecidableEq

/-- The text of an error; `repr` is Python's. -/
def DagError.message {N : Type} (repr : N → String) : DagError N → String
  | .duplicate id => s!"duplicate node id: {repr id}"
  | .unknownParent node parent => s!"node {repr node} references unknown parent {repr parent}"
  | .cycle => "DAG contains a cycle"

/-- What the functions of a graph and of its schedule can raise. A loop that does not end is
`stuck`; `noBackend` is an index into an empty list of backends, or the key `None`; hashing divides by
the block size. -/
inductive Raised (N : Type) where
  | dagError (e : DagError N)
  | keyError (key : N)
  | noBackend
  | zeroDivision
  | stuck
  deriving DecidableEq

variable {N : Type} [LinearOrder N]

/-- `d[k]`. -/
def item {V : Type} (d : Dict N V) (k : N) : Except (Raised N) V :=
  match d.get? k with
  | some v => .ok v
  | none => .error (.keyError k)

theorem item_eq {V : Type} {d : Dict N V} {k : N} {v : V} (found : d.get? k = some v) :
    item d k = .ok v := by
  unfold item
  rw [found]

/-- `sorted(xs)`. -/
def sorted (xs : List N) : List N := xs.insertionSort (· ≤ ·)

@[simp] theorem mem_sorted {xs : List N} {v : N} : v ∈ sorted xs ↔ v ∈ xs :=
  List.mem_insertionSort _

@[simp] theorem length_sorted (xs : List N) : (sorted xs).length = xs.length :=
  List.length_insertionSort _ _

theorem nodup_sorted {xs : List N} : (sorted xs).Nodup ↔ xs.Nodup :=
  (List.perm_insertionSort _ _).nodup_iff

/-- `RequestDag`: each node is filed under its own id. -/
structure RequestDag (N : Type) [LinearOrder N] where
  nodes : Dict N (DagNode N)
  keyed : ∀ id node, nodes.get? id = some node → node.id = id

namespace RequestDag

/-- The graph without nodes. -/
def empty : RequestDag N := ⟨.empty, nofun⟩

/-- `add`. -/
def add (dag : RequestDag N) (node : DagNode N) : Except (Raised N) (RequestDag N) :=
  if dag.nodes.contains node.id then .error (.dagError (.duplicate node.id))
  else .ok ⟨dag.nodes.set node.id node, by
    intro id other found
    rw [Dict.get?_set] at found
    split at found
    · rename_i same
      rw [same, ← Option.some.inj found]
    · exact dag.keyed id other found⟩

/-- `RequestDag(nodes)`. -/
def ofNodes (nodes : List (DagNode N)) : Except (Raised N) (RequestDag N) :=
  nodes.foldlM add empty

/-- The first parent of a node that is no node, in the order of iteration. -/
def unknownParent (dag : RequestDag N) : Option (DagError N) :=
  dag.nodes.values.findSome? fun n =>
    (n.parents.find? fun p => !dag.nodes.contains p).map fun p => .unknownParent n.id p

/-- The pairs of a parent and a node that `children` goes through. -/
def edges (dag : RequestDag N) : List (N × N) :=
  dag.nodes.values.flatMap fun n => n.parents.map fun p => (p, n.id)

/-- `kids[p].append(id)`. -/
def adopt (kids : Dict N (List N)) (edge : N × N) : Except (Raised N) (Dict N (List N)) := do
  let siblings ← item kids edge.1
  .ok (kids.set edge.1 (siblings ++ [edge.2]))

/-- `children`. -/
def children (dag : RequestDag N) : Except (Raised N) (Dict N (List N)) :=
  dag.edges.foldlM adopt (dag.nodes.mapValues fun _ => [])

end RequestDag

/-- The variables of the loop of `_kahn`. -/
structure Kahn (N : Type) where
  indeg : Dict N ℤ
  frontier : List N
  layers : List (List N) := []
  seen : ℕ := 0

namespace Kahn

/-- `indeg[c] -= 1`, and `c` joins the frontier when none is left. -/
def arrive (st : Kahn N) (c : N) : Except (Raised N) (Kahn N) := do
  let degree ← item st.indeg c
  .ok
    { st with
      indeg := st.indeg.set c (degree - 1)
      frontier := if degree - 1 = 0 then st.frontier ++ [c] else st.frontier }

/-- The body of the loop over a layer. -/
def finish (kids : Dict N (List N)) (st : Kahn N) (nid : N) : Except (Raised N) (Kahn N) := do
  let cs ← item kids nid
  cs.foldlM arrive { st with seen := st.seen + 1 }

/-- One round of the `while` loop. -/
def round (kids : Dict N (List N)) (st : Kahn N) : Except (Raised N) (Kahn N) := do
  let layer := sorted st.frontier
  let st ← layer.foldlM (finish kids) { st with frontier := [] }
  .ok { st with layers := st.layers ++ [layer] }

/-- `while frontier`. -/
def loop (kids : Dict N (List N)) : ℕ → Kahn N → Except (Raised N) (Kahn N)
  | 0, _ => .error .stuck
  | fuel + 1, st =>
      if st.frontier = [] then .ok st
      else do
        let st ← st.round kids
        loop kids fuel st

end Kahn

namespace RequestDag

/-- `_kahn`. -/
def kahn (dag : RequestDag N) : Except (Raised N) (List (List N)) := do
  let indeg := dag.nodes.mapValues fun n => (n.parents.length : ℤ)
  let kids ← dag.children
  let frontier := sorted ((indeg.items.filter fun entry => entry.2 = 0).map Prod.fst)
  let st ← Kahn.loop kids (dag.nodes.items.length + 1) { indeg := indeg, frontier := frontier }
  if st.seen ≠ dag.nodes.items.length then .error (.dagError .cycle) else .ok st.layers

/-- `validate`. -/
def validate (dag : RequestDag N) : Except (Raised N) Unit :=
  match dag.unknownParent with
  | some e => .error (.dagError e)
  | none => do
      let _ ← dag.kahn
      .ok ()

/-- `layers`. -/
def layers (dag : RequestDag N) : Except (Raised N) (List (List N)) := dag.kahn

/-! ### The graph -/

/-- The parents of a node. -/
def parentsOf (dag : RequestDag N) (v : N) : List N :=
  ((dag.nodes.get? v).map DagNode.parents).getD []

/-- Every parent is a node. -/
def KnowsParents (dag : RequestDag N) : Prop :=
  ∀ v ∈ dag.nodes.keys, ∀ p ∈ dag.parentsOf v, p ∈ dag.nodes.keys

/-- Some chain of parents leads from a node back to it. -/
def Cyclic (dag : RequestDag N) : Prop := ∃ v, TransGen (Edge dag.parentsOf) v v

variable {dag : RequestDag N}

theorem get?_of_mem_keys {v : N} (node : v ∈ dag.nodes.keys) :
    ∃ n, dag.nodes.get? v = some n ∧ dag.parentsOf v = n.parents := by
  obtain ⟨n, found⟩ := Option.isSome_iff_exists.mp (Dict.mem_keys_iff.mp node)
  exact ⟨n, found, by simp [parentsOf, found]⟩

theorem mem_keys_of_parent {p v : N} (parent : p ∈ dag.parentsOf v) : v ∈ dag.nodes.keys := by
  rw [Dict.mem_keys_iff]
  cases found : dag.nodes.get? v with
  | none => simp [parentsOf, found] at parent
  | some n => rfl

theorem mem_values_iff {n : DagNode N} :
    n ∈ dag.nodes.values ↔ ∃ v, dag.nodes.get? v = some n := by
  simp only [Dict.values, List.mem_map, Prod.exists, exists_eq_right, Dict.mem_items_iff]

theorem unknownParent_eq_none_iff : dag.unknownParent = none ↔ dag.KnowsParents := by
  simp only [unknownParent, List.findSome?_eq_none_iff, Option.map_eq_none_iff,
    List.find?_eq_none, Bool.not_eq_true', Bool.not_eq_false, Dict.contains, ← Dict.mem_keys_iff,
    mem_values_iff]
  constructor
  · intro known v node p parent
    obtain ⟨n, found, parents⟩ := get?_of_mem_keys node
    exact known n ⟨v, found⟩ p (parents ▸ parent)
  · rintro known n ⟨v, found⟩ p parent
    have node : v ∈ dag.nodes.keys := Dict.mem_keys_iff.mpr (by rw [found]; rfl)
    exact known v node p (by simpa [parentsOf, found] using parent)

/-! ### The children -/

theorem count_pairs (ps : List N) (id p v : N) :
    (ps.map fun q => (q, id)).count (p, v) = if id = v then ps.count p else 0 := by
  split
  · rename_i same
    subst same
    exact List.count_map_of_injective ps (fun q => (q, id)) (fun _ _ eq => (Prod.mk.inj eq).1) p
  · rename_i different
    refine List.count_eq_zero.mpr fun member => ?_
    obtain ⟨q, -, eq⟩ := List.mem_map.mp member
    exact different (Prod.mk.inj eq).2

theorem count_flatMap_parents {items : List (N × DagNode N)} (nodup : (items.map Prod.fst).Nodup)
    (keyed : ∀ entry ∈ items, entry.2.id = entry.1) (p v : N) :
    ((items.map Prod.snd).flatMap fun n => n.parents.map fun q => (q, n.id)).count (p, v) =
      (((Dict.lookup v items).map DagNode.parents).getD []).count p := by
  induction items with
  | nil => rfl
  | cons entry rest ih =>
      obtain ⟨id, n⟩ := entry
      simp only [List.map_cons, List.nodup_cons] at nodup
      simp only [List.forall_mem_cons] at keyed
      obtain ⟨own, keyed⟩ := keyed
      have own : n.id = id := own
      simp only [List.map_cons, List.flatMap_cons, List.count_append, ih nodup.2 keyed,
        Dict.lookup, count_pairs, own]
      split
      · rename_i same
        rw [Dict.lookup_eq_none (same ▸ nodup.1)]
        simp
      · simp

/-- A node is a child of its parents as often as they are listed. -/
theorem count_edges (dag : RequestDag N) (p v : N) :
    dag.edges.count (p, v) = (dag.parentsOf v).count p :=
  count_flatMap_parents dag.nodes.nodup
    (fun entry member => dag.keyed entry.1 entry.2 (Dict.mem_items_iff.mp member)) p v

theorem mem_edges {p v : N} : (p, v) ∈ dag.edges ↔ p ∈ dag.parentsOf v := by
  rw [← List.count_pos_iff, count_edges, List.count_pos_iff]

/-- After the edges `es`, each node has as many children as there were edges to them. -/
theorem foldlM_adopt {es : List (N × N)} (known : ∀ e ∈ es, e.1 ∈ dag.nodes.keys) :
    ∃ kids, es.foldlM adopt (dag.nodes.mapValues fun _ => []) = .ok kids ∧
      ∀ p ∈ dag.nodes.keys, ∃ cs, kids.get? p = some cs ∧ ∀ v, cs.count v = es.count (p, v) := by
  induction es using List.reverseRecOn with
  | nil =>
      refine ⟨_, rfl, fun p node => ⟨[], ?_, fun v => rfl⟩⟩
      obtain ⟨n, found, -⟩ := get?_of_mem_keys node
      rw [Dict.get?_mapValues, found]
      rfl
  | append_singleton es e ih =>
      obtain ⟨kids, built, counts⟩ := ih fun e' member => known e' (List.mem_append_left _ member)
      obtain ⟨siblings, found, counted⟩ := counts e.1 (known e (by simp))
      refine ⟨kids.set e.1 (siblings ++ [e.2]), ?_, fun p node => ?_⟩
      · rw [List.foldlM_append, built]
        show (adopt kids e >>= pure) = _
        rw [adopt, item_eq found]
        rfl
      · rw [Dict.get?_set]
        split
        · rename_i same
          subst same
          refine ⟨_, rfl, fun v => ?_⟩
          rw [List.count_append, List.count_append, counted]
          congr 1
          by_cases same : e.2 = v
          · subst same
            simp
          · rw [List.count_singleton, List.count_singleton]
            simp [same, Prod.ext_iff]
        · rename_i different
          obtain ⟨cs, found, counted⟩ := counts p node
          refine ⟨cs, found, fun v => ?_⟩
          rw [counted, List.count_append]
          have other : (p, v) ∉ [e] := by
            intro member
            exact different (congrArg Prod.fst (List.mem_singleton.mp member))
          rw [List.count_eq_zero.mpr other, Nat.add_zero]

/-- The children of each node. -/
theorem children_spec (known : dag.KnowsParents) :
    ∃ kids, dag.children = .ok kids ∧
      ∀ p ∈ dag.nodes.keys, ∃ cs, kids.get? p = some cs ∧
        ∀ v, cs.count v = (dag.parentsOf v).count p := by
  have parents : ∀ e ∈ dag.edges, e.1 ∈ dag.nodes.keys := by
    rintro ⟨p, v⟩ member
    have parent := mem_edges.mp member
    exact known v (mem_keys_of_parent parent) p parent
  obtain ⟨kids, built, counts⟩ := foldlM_adopt parents
  refine ⟨kids, built, fun p node => ?_⟩
  obtain ⟨cs, found, counted⟩ := counts p node
  exact ⟨cs, found, fun v => (counted v).trans (dag.count_edges p v)⟩

end RequestDag

/-! ### A round -/

namespace Kahn

/-- What the arrivals `cs` make of a round that started with the in-degrees `indeg`. -/
structure Arrived (indeg : Dict N ℤ) (cs : List N) (st : Kahn N) : Prop where
  degree : ∀ v, st.indeg.get? v = (indeg.get? v).map (· - (cs.count v : ℤ))
  nodup : st.frontier.Nodup
  mem_frontier : ∀ v, v ∈ st.frontier ↔ ∃ d, indeg.get? v = some d ∧ 1 ≤ d ∧ d ≤ cs.count v

variable {indeg : Dict N ℤ} {cs : List N} {st : Kahn N}

theorem Arrived.arrive (arrived : Arrived indeg cs st) {c : N} {d : ℤ}
    (node : indeg.get? c = some d) :
    ∃ st', st.arrive c = .ok st' ∧ Arrived indeg (cs ++ [c]) st' ∧ st'.layers = st.layers ∧
      st'.seen = st.seen := by
  have left : st.indeg.get? c = some (d - (cs.count c : ℤ)) := by
    rw [arrived.degree, node]
    rfl
  unfold Kahn.arrive
  rw [item_eq left]
  refine ⟨_, rfl, ⟨fun v => ?_, ?_, fun v => ?_⟩, rfl, rfl⟩
  · rw [Dict.get?_set]
    split
    · rename_i same
      subst same
      simp only [node, Option.map_some, List.count_append, List.count_singleton_self,
        Option.some.injEq]
      omega
    · rename_i different
      have elsewhere : [c].count v = 0 := by simp [Ne.symm different]
      rw [arrived.degree, List.count_append, elsewhere, Nat.add_zero]
  · dsimp only
    split
    · rename_i last
      have fresh : c ∉ st.frontier := by
        intro member
        obtain ⟨d', node', -, reached⟩ := (arrived.mem_frontier c).mp member
        obtain rfl := Option.some.inj (node.symm.trans node')
        omega
      exact List.nodup_append.mpr ⟨arrived.nodup, List.nodup_singleton c, by
        rintro v member w (_ | ⟨_, ⟨⟩⟩) rfl
        exact fresh member⟩
    · exact arrived.nodup
  · have grown : v ∈ (if d - (cs.count c : ℤ) - 1 = 0 then st.frontier ++ [c] else st.frontier) ↔
        v ∈ st.frontier ∨ v = c ∧ d - (cs.count c : ℤ) - 1 = 0 := by
      split <;> simp [*]
    show v ∈ (if d - (cs.count c : ℤ) - 1 = 0 then st.frontier ++ [c] else st.frontier) ↔ _
    rw [grown, arrived.mem_frontier, List.count_append]
    by_cases same : v = c
    · subst same
      simp only [node, Option.some.injEq, exists_eq_left', List.count_singleton_self, true_and]
      omega
    · have elsewhere : [c].count v = 0 := by simp [Ne.symm same]
      simp [same, elsewhere]

theorem Arrived.foldlM_arrive (arrived : Arrived indeg cs st) (more : List N)
    (nodes : ∀ c ∈ more, ∃ d, indeg.get? c = some d) :
    ∃ st', more.foldlM Kahn.arrive st = .ok st' ∧ Arrived indeg (cs ++ more) st' ∧
      st'.layers = st.layers ∧ st'.seen = st.seen := by
  induction more generalizing cs st with
  | nil => exact ⟨st, rfl, by rwa [List.append_nil], rfl, rfl⟩
  | cons c more ih =>
      obtain ⟨⟨d, node⟩, nodes⟩ := List.forall_mem_cons.mp nodes
      obtain ⟨mid, first, arrived, layers, seen⟩ := arrived.arrive node
      obtain ⟨st', rest, arrived, layers', seen'⟩ := ih arrived nodes
      refine ⟨st', ?_, by simpa using arrived, layers'.trans layers, seen'.trans seen⟩
      rw [List.foldlM_cons, first]
      exact rest

/-- The children of a whole layer arrive. -/
theorem Arrived.foldlM_finish {kids : Dict N (List N)} {kidsOf : N → List N}
    (arrived : Arrived indeg cs st) (layer : List N)
    (family : ∀ p ∈ layer, kids.get? p = some (kidsOf p))
    (nodes : ∀ p ∈ layer, ∀ c ∈ kidsOf p, ∃ d, indeg.get? c = some d) :
    ∃ st', layer.foldlM (Kahn.finish kids) st = .ok st' ∧
      Arrived indeg (cs ++ layer.flatMap kidsOf) st' ∧ st'.layers = st.layers ∧
      st'.seen = st.seen + layer.length := by
  induction layer generalizing cs st with
  | nil => exact ⟨st, rfl, by simpa using arrived, rfl, rfl⟩
  | cons p layer ih =>
      obtain ⟨own, family⟩ := List.forall_mem_cons.mp family
      obtain ⟨near, nodes⟩ := List.forall_mem_cons.mp nodes
      have counted : Arrived indeg cs { st with seen := st.seen + 1 } :=
        ⟨arrived.degree, arrived.nodup, arrived.mem_frontier⟩
      obtain ⟨mid, first, arrived, layers, seen⟩ := counted.foldlM_arrive (kidsOf p) near
      obtain ⟨st', rest, arrived, layers', seen'⟩ := ih arrived family nodes
      refine ⟨st', ?_, by simpa using arrived, layers'.trans layers, ?_⟩
      · have here : Kahn.finish kids st p = .ok mid := by
          unfold Kahn.finish
          rw [item_eq own]
          exact first
        rw [List.foldlM_cons, here]
        exact rest
      · have seen : mid.seen = st.seen + 1 := seen
        rw [seen', seen, List.length_cons]
        omega

/-- A round: the frontier, in order, becomes a layer, and its children arrive. -/
theorem round_arrived {kids : Dict N (List N)} {kidsOf : N → List N}
    (family : ∀ p ∈ sorted st.frontier, kids.get? p = some (kidsOf p))
    (nodes : ∀ p ∈ sorted st.frontier, ∀ c ∈ kidsOf p, ∃ d, st.indeg.get? c = some d) :
    ∃ st', st.round kids = .ok st' ∧
      Arrived st.indeg ((sorted st.frontier).flatMap kidsOf) st' ∧
      st'.layers = st.layers ++ [sorted st.frontier] ∧
      st'.seen = st.seen + st.frontier.length := by
  have start : Arrived st.indeg [] { st with frontier := [] } := by
    refine ⟨fun v => by simp, List.nodup_nil, fun v => iff_of_false List.not_mem_nil ?_⟩
    rintro ⟨d, -, positive, none_left⟩
    simp only [List.count_nil] at none_left
    omega
  obtain ⟨mid, finished, arrived, layers, seen⟩ := start.foldlM_finish _ family nodes
  refine ⟨{ mid with layers := mid.layers ++ [sorted st.frontier] }, ?_, ?_, ?_, ?_⟩
  · unfold Kahn.round
    dsimp only
    rw [finished]
    rfl
  · exact ⟨arrived.degree, arrived.nodup, arrived.mem_frontier⟩
  · exact congrArg (· ++ [sorted st.frontier]) layers
  · exact seen.trans (by rw [length_sorted])

end Kahn

/-! ### The loop -/

namespace RequestDag

/-- The layer `i`, in order. -/
structure IsLayer (dag : RequestDag N) (i : ℕ) (layer : List N) : Prop where
  sorted : layer.Pairwise (· ≤ ·)
  nodup : layer.Nodup
  mem : ∀ v, v ∈ layer ↔ v ∈ dag.nodes.keys ∧ InLayer dag.parentsOf i v

/-- After `k` rounds. -/
structure Peeled (dag : RequestDag N) (k : ℕ) (st : Kahn N) : Prop where
  rounds : st.layers.length = k
  layer : ∀ i l, st.layers[i]? = some l → dag.IsLayer i l
  nodup_frontier : st.frontier.Nodup
  mem_frontier : ∀ v, v ∈ st.frontier ↔ v ∈ dag.nodes.keys ∧ InLayer dag.parentsOf k v
  keys : ∀ v d, st.indeg.get? v = some d → v ∈ dag.nodes.keys
  degree : ∀ v ∈ dag.nodes.keys, st.indeg.get? v =
    some (((dag.parentsOf v).countP fun p => ¬ Ready dag.parentsOf k p : ℕ) : ℤ)
  seen : st.seen = st.layers.flatten.length

variable {dag : RequestDag N} {k : ℕ} {st : Kahn N}

namespace Peeled

theorem mem_flatten (peeled : dag.Peeled k st) {v : N} :
    v ∈ st.layers.flatten ↔ v ∈ dag.nodes.keys ∧ Ready dag.parentsOf k v := by
  rw [List.mem_flatten, ready_iff_exists_layer]
  constructor
  · rintro ⟨l, member, inside⟩
    obtain ⟨i, at_i⟩ := List.mem_iff_getElem?.mp member
    obtain ⟨node, layer⟩ := ((peeled.layer i l at_i).mem v).mp inside
    have bound : i < st.layers.length := (List.getElem?_eq_some_iff.mp at_i).1
    exact ⟨node, i, peeled.rounds ▸ bound, layer⟩
  · rintro ⟨node, i, bound, layer⟩
    have at_i := List.getElem?_eq_getElem (peeled.rounds.symm ▸ bound)
    exact ⟨_, List.mem_of_getElem? at_i, ((peeled.layer i _ at_i).mem v).mpr ⟨node, layer⟩⟩

theorem nodup_flatten (peeled : dag.Peeled k st) : st.layers.flatten.Nodup := by
  rw [List.nodup_flatten]
  constructor
  · intro l member
    obtain ⟨i, at_i⟩ := List.mem_iff_getElem?.mp member
    exact (peeled.layer i l at_i).nodup
  · rw [List.pairwise_iff_getElem]
    intro i j hi hj before v first second
    have at_i := ((peeled.layer i _ (List.getElem?_eq_getElem hi)).mem v).mp first
    have at_j := ((peeled.layer j _ (List.getElem?_eq_getElem hj)).mem v).mp second
    exact before.ne (at_i.2.unique at_j.2)

theorem subset_keys (peeled : dag.Peeled k st) : st.layers.flatten ⊆ dag.nodes.keys :=
  fun _ member => (peeled.mem_flatten.mp member).1

theorem seen_le (peeled : dag.Peeled k st) : st.seen ≤ dag.nodes.items.length := by
  have fits := (peeled.nodup_flatten.subperm peeled.subset_keys).length_le
  rwa [← peeled.seen, Dict.keys, List.length_map] at fits

/-- The arrivals of the next round at a node: the occurrences of its parents in the layer. -/
theorem count_arrivals (peeled : dag.Peeled k st) (known : dag.KnowsParents) {kidsOf : N → List N}
    (counts : ∀ p ∈ sorted st.frontier, ∀ v, (kidsOf p).count v = (dag.parentsOf v).count p)
    {v : N} (node : v ∈ dag.nodes.keys) :
    ((sorted st.frontier).flatMap kidsOf).count v =
      (dag.parentsOf v).countP fun p => InLayer dag.parentsOf k p := by
  have sums : (sorted st.frontier).map (List.count v ∘ kidsOf) =
      (sorted st.frontier).map fun p => (dag.parentsOf v).count p :=
    List.map_congr_left fun p member => counts p member v
  rw [List.count_flatMap, sums, sum_count_eq_countP (nodup_sorted.mpr peeled.nodup_frontier)]
  refine List.countP_congr fun p parent => ?_
  have inside : p ∈ dag.nodes.keys := known v node p parent
  simp [peeled.mem_frontier, inside]

theorem isLayer_frontier (peeled : dag.Peeled k st) : dag.IsLayer k (sorted st.frontier) := by
  refine ⟨List.pairwise_insertionSort _ _, nodup_sorted.mpr peeled.nodup_frontier, fun v => ?_⟩
  rw [mem_sorted, peeled.mem_frontier]

/-- The nodes whose in-degree the arrivals of a round bring to zero are those of the next layer. -/
theorem newly_ready_iff (peeled : dag.Peeled k st) {v : N} {n : ℕ}
    (arrivals : v ∈ dag.nodes.keys → n = (dag.parentsOf v).countP fun p => InLayer dag.parentsOf k p) :
    (∃ d, st.indeg.get? v = some d ∧ 1 ≤ d ∧ d ≤ n) ↔
      v ∈ dag.nodes.keys ∧ InLayer dag.parentsOf (k + 1) v := by
  have missing := @countP_unready_succ _ dag.parentsOf k v
  constructor
  · rintro ⟨d, degree, positive, reached⟩
    have node := peeled.keys v d degree
    obtain rfl := Option.some.inj ((peeled.degree v node).symm.trans degree)
    rw [arrivals node] at reached
    refine ⟨node, (countP_unready_eq_zero_iff _ v).mp ?_, (countP_unready_pos_iff _ v).mp ?_⟩
    · omega
    · omega
  · rintro ⟨node, complete, incomplete⟩
    refine ⟨_, peeled.degree v node, ?_, ?_⟩
    · have some_missing := (countP_unready_pos_iff k v).mpr incomplete
      omega
    · have none_left := (countP_unready_eq_zero_iff (k + 1) v).mpr complete
      rw [arrivals node]
      omega

/-- **One round.** -/
theorem round (peeled : dag.Peeled k st) (known : dag.KnowsParents) {kids : Dict N (List N)}
    (family : ∀ p ∈ dag.nodes.keys, ∃ cs, kids.get? p = some cs ∧
      ∀ v, cs.count v = (dag.parentsOf v).count p) :
    ∃ st', st.round kids = .ok st' ∧ dag.Peeled (k + 1) st' ∧
      st'.seen = st.seen + st.frontier.length := by
  have nodes_of : ∀ p ∈ sorted st.frontier, p ∈ dag.nodes.keys := fun p member =>
    ((peeled.mem_frontier p).mp (mem_sorted.mp member)).1
  choose! kidsOf own counts using family
  have family : ∀ p ∈ sorted st.frontier, kids.get? p = some (kidsOf p) := fun p member =>
    own p (nodes_of p member)
  have counted : ∀ p ∈ sorted st.frontier, ∀ v, (kidsOf p).count v = (dag.parentsOf v).count p :=
    fun p member => counts p (nodes_of p member)
  have degrees : ∀ p ∈ sorted st.frontier, ∀ c ∈ kidsOf p, ∃ d, st.indeg.get? c = some d := by
    intro p member c child
    have parent : p ∈ dag.parentsOf c := by
      rwa [← List.count_pos_iff, ← counted p member, List.count_pos_iff]
    exact ⟨_, peeled.degree c (mem_keys_of_parent parent)⟩
  obtain ⟨st', rounded, arrived, layers, seen⟩ := Kahn.round_arrived family degrees
  have arrivals := fun v => peeled.count_arrivals known counted (v := v)
  refine ⟨st', rounded, ⟨?_, fun i l at_i => ?_, arrived.nodup, fun v => ?_,
    fun v d entry => ?_, fun v node => ?_, ?_⟩, seen⟩
  · rw [layers, List.length_append, peeled.rounds]
    rfl
  · rw [layers, List.getElem?_append, peeled.rounds] at at_i
    split at at_i
    · exact peeled.layer i l at_i
    · obtain ⟨last, rfl⟩ := List.getElem?_eq_some_iff.mp at_i
      obtain rfl : i = k := by
        rw [List.length_singleton] at last
        omega
      simp only [Nat.sub_self, List.getElem_cons_zero]
      exact peeled.isLayer_frontier
  · rw [arrived.mem_frontier]
    exact peeled.newly_ready_iff (arrivals v)
  · rw [arrived.degree] at entry
    obtain ⟨d', entry, -⟩ := Option.map_eq_some_iff.mp entry
    exact peeled.keys v d' entry
  · rw [arrived.degree, peeled.degree v node, Option.map_some, arrivals v node]
    have missing := @countP_unready_succ _ dag.parentsOf k v
    congr 1
    omega
  · rw [seen, layers, peeled.seen, List.flatten_append, List.length_append]
    simp

end Peeled

theorem peeled_zero (dag : RequestDag N) :
    dag.Peeled 0
      { indeg := dag.nodes.mapValues fun n => (n.parents.length : ℤ)
        frontier := sorted (((dag.nodes.mapValues fun n => (n.parents.length : ℤ)).items.filter
          fun entry => entry.2 = 0).map Prod.fst) } := by
  refine ⟨rfl, nofun, ?_, fun v => ?_, fun v d entry => ?_, fun v node => ?_, rfl⟩
  · exact nodup_sorted.mpr ((List.filter_sublist.map Prod.fst).nodup (Dict.nodup _))
  · simp only [mem_sorted, List.mem_map, List.mem_filter, Prod.exists, exists_and_right,
      exists_eq_right, Dict.mem_items_iff, Dict.get?_mapValues, decide_eq_true_eq]
    constructor
    · intro found
      obtain ⟨n, found, rootless⟩ := Option.map_eq_some_iff.mp found
      have parents : dag.parentsOf v = [] := by
        rw [parentsOf, found]
        exact List.length_eq_zero_iff.mp (by exact_mod_cast rootless)
      refine ⟨Dict.mem_keys_iff.mpr (by rw [found]; rfl), ?_, id⟩
      intro p parent
      rw [parents] at parent
      cases parent
    · rintro ⟨node, ready, -⟩
      obtain ⟨n, found, parents⟩ := get?_of_mem_keys node
      have none_above : n.parents = [] := by
        rw [← parents]
        exact List.eq_nil_iff_forall_not_mem.mpr ready
      simp [found, none_above]
  · rw [Dict.get?_mapValues] at entry
    obtain ⟨n, found, -⟩ := Option.map_eq_some_iff.mp entry
    exact Dict.mem_keys_iff.mpr (by rw [found]; rfl)
  · obtain ⟨n, found, parents⟩ := get?_of_mem_keys node
    have all : (dag.parentsOf v).countP (fun p => ¬ Ready dag.parentsOf 0 p) = n.parents.length := by
      rw [parents]
      exact List.countP_eq_length.mpr fun p _ => decide_eq_true id
    rw [Dict.get?_mapValues, found, all]
    rfl

/-- **The loop** ends with an empty frontier. -/
theorem loop_spec (known : dag.KnowsParents) {kids : Dict N (List N)}
    (family : ∀ p ∈ dag.nodes.keys, ∃ cs, kids.get? p = some cs ∧
      ∀ v, cs.count v = (dag.parentsOf v).count p) (fuel : ℕ) (peeled : dag.Peeled k st)
    (enough : dag.nodes.items.length < fuel + st.seen) :
    ∃ k' st', Kahn.loop kids fuel st = .ok st' ∧ dag.Peeled k' st' ∧ st'.frontier = [] := by
  induction fuel generalizing k st with
  | zero => exact absurd peeled.seen_le (by omega)
  | succ fuel ih =>
      unfold Kahn.loop
      split
      · rename_i done
        exact ⟨k, st, rfl, peeled, done⟩
      · rename_i more
        obtain ⟨mid, first, peeled, seen⟩ := peeled.round known family
        have advanced : 0 < st.frontier.length := List.length_pos_iff.mpr more
        obtain ⟨k', st', rest, last⟩ := ih peeled (by omega)
        refine ⟨k', st', ?_, last⟩
        rw [first]
        exact rest

/-! ### Layers and cycles -/

/-- The layers of a graph: together they hold every node once. -/
structure IsLayering (dag : RequestDag N) (layers : List (List N)) : Prop where
  perm : layers.flatten.Perm dag.nodes.keys
  layer : ∀ i l, layers[i]? = some l → dag.IsLayer i l

/-- When the frontier runs dry before every node was seen, there is a cycle. -/
theorem Peeled.cyclic_of_unseen (peeled : dag.Peeled k st) (known : dag.KnowsParents)
    (done : st.frontier = []) (unseen : st.seen ≠ dag.nodes.items.length) : dag.Cyclic := by
  -- the nodes that never become ready keep a parent among themselves
  have above : ∀ v, (v ∈ dag.nodes.keys ∧ ¬ Ready dag.parentsOf k v) →
      ∃ p ∈ dag.parentsOf v, p ∈ dag.nodes.keys ∧ ¬ Ready dag.parentsOf k p := by
    rintro v ⟨node, unready⟩
    have stays : ¬ Ready dag.parentsOf (k + 1) v := by
      intro ready
      have member := (peeled.mem_frontier v).mpr ⟨node, ready, unready⟩
      rw [done] at member
      cases member
    obtain ⟨p, missing⟩ := not_forall.mp stays
    obtain ⟨parent, missing⟩ := Classical.not_imp.mp missing
    exact ⟨p, parent, known v node p parent, missing⟩
  obtain ⟨v, node, unready⟩ : ∃ v ∈ dag.nodes.keys, ¬ Ready dag.parentsOf k v := by
    by_contra every
    have every : ∀ v ∈ dag.nodes.keys, Ready dag.parentsOf k v := by simpa using every
    have covers : dag.nodes.keys ⊆ st.layers.flatten := fun v node =>
      peeled.mem_flatten.mpr ⟨node, every v node⟩
    have fits := (dag.nodes.nodup.subperm covers).length_le
    rw [← peeled.seen, List.length_map] at fits
    exact unseen (le_antisymm peeled.seen_le fits)
  exact exists_cycle dag.nodes.keys (fun v unready => unready.1) above ⟨node, unready⟩

/-- **`_kahn`**: with known parents it ends, with the layers or with an error for a cycle. -/
theorem kahn_spec (known : dag.KnowsParents) :
    (dag.Cyclic ∧ dag.kahn = .error (.dagError .cycle)) ∨
      (¬ dag.Cyclic ∧ ∃ layers, dag.kahn = .ok layers ∧ dag.IsLayering layers) := by
  obtain ⟨kids, built, family⟩ := children_spec known
  obtain ⟨k, st, looped, peeled, done⟩ := loop_spec known family (dag.nodes.items.length + 1)
    dag.peeled_zero (by omega)
  have result : dag.kahn =
      if st.seen ≠ dag.nodes.items.length then .error (.dagError .cycle) else .ok st.layers := by
    unfold kahn
    dsimp only
    rw [built]
    show (Kahn.loop kids _ _ >>= _) = _
    rw [looped]
    rfl
  rw [result]
  by_cases all : st.seen = dag.nodes.items.length
  · right
    have same_length : dag.nodes.keys.length ≤ st.layers.flatten.length := by
      rw [← peeled.seen, all, Dict.keys, List.length_map]
    have perm : st.layers.flatten.Perm dag.nodes.keys :=
      (peeled.nodup_flatten.subperm peeled.subset_keys).perm_of_length_le same_length
    refine ⟨?_, st.layers, if_neg (not_not.mpr all), perm, peeled.layer⟩
    rintro ⟨v, cycle⟩
    obtain ⟨p, -, edge⟩ := TransGen.tail'_iff.mp cycle
    have member : v ∈ st.layers.flatten := perm.mem_iff.mpr (mem_keys_of_parent edge)
    exact (peeled.mem_flatten.mp member).2.not_cyclic cycle
  · left
    refine ⟨?_, if_pos all⟩
    exact peeled.cyclic_of_unseen known done all

/-- **`validate`** raises for an unknown parent or a cycle, or it accepts a graph with layers. -/
theorem validate_cases (dag : RequestDag N) :
    (∃ e, dag.validate = .error (.dagError e) ∧ (¬ dag.KnowsParents ∨ dag.Cyclic)) ∨
      (dag.validate = .ok () ∧ dag.KnowsParents ∧ ¬ dag.Cyclic ∧
        ∃ layers, dag.layers = .ok layers ∧ dag.IsLayering layers) := by
  unfold validate
  cases found : dag.unknownParent with
  | some e =>
      have unknown : ¬ dag.KnowsParents := by
        rw [← unknownParent_eq_none_iff, found]
        nofun
      exact .inl ⟨e, rfl, .inl unknown⟩
  | none =>
      have known := unknownParent_eq_none_iff.mp found
      rcases kahn_spec known with ⟨cyclic, raised⟩ | ⟨acyclic, layers, returned, layering⟩
      · dsimp only
        rw [raised]
        exact .inl ⟨.cycle, rfl, .inr cyclic⟩
      · dsimp only
        rw [returned]
        exact .inr ⟨rfl, known, acyclic, layers, returned, layering⟩

/-- What `validate` accepts has layers. -/
theorem layers_of_validate (valid : dag.validate = .ok ()) :
    dag.KnowsParents ∧ ∃ layers, dag.layers = .ok layers ∧ dag.IsLayering layers := by
  rcases dag.validate_cases with ⟨e, raised, -⟩ | ⟨-, known, -, layered⟩
  · rw [raised] at valid
    cases valid
  · exact ⟨known, layered⟩

/-- The layer that holds a node. -/
def layerOf (layers : List (List N)) (v : N) : ℕ := layers.findIdx fun l => v ∈ l

namespace IsLayering

variable {layers : List (List N)}

theorem getElem?_layerOf (layering : dag.IsLayering layers) {v : N} (node : v ∈ dag.nodes.keys) :
    ∃ l, layers[layerOf layers v]? = some l ∧ v ∈ l := by
  obtain ⟨l, member, inside⟩ := List.mem_flatten.mp (layering.perm.mem_iff.mpr node)
  have bound : layerOf layers v < layers.length :=
    List.findIdx_lt_length_of_exists ⟨l, member, decide_eq_true inside⟩
  refine ⟨_, List.getElem?_eq_getElem bound, ?_⟩
  exact of_decide_eq_true (List.findIdx_getElem (p := fun l => decide (v ∈ l)) (w := bound))

theorem inLayer_layerOf (layering : dag.IsLayering layers) {v : N} (node : v ∈ dag.nodes.keys) :
    InLayer dag.parentsOf (layerOf layers v) v := by
  obtain ⟨l, at_layer, inside⟩ := layering.getElem?_layerOf node
  exact ((layering.layer _ l at_layer).mem v).mp inside |>.2

/-- **Every node is one layer below its lowest parent.** -/
theorem layerOf_eq (layering : dag.IsLayering layers) (known : dag.KnowsParents) {v : N}
    (node : v ∈ dag.nodes.keys) :
    layerOf layers v = ((dag.parentsOf v).map (layerOf layers)).max?.elim 0 (1 + ·) :=
  layer_eq_max (layering.inLayer_layerOf node) (layerOf layers) fun p parent =>
    layering.inLayer_layerOf (known v node p parent)

end IsLayering

/-- **Validation and layers.** For every graph: `validate` raises `DagError` precisely when a
parent is unknown or there is a cycle. Otherwise it returns, and `layers` returns layers that
together hold every node once, each layer in order, and each node one layer below the lowest of its
parents, or in the first. -/
theorem validate_layers (dag : RequestDag N) :
    ((∃ e, dag.validate = .error (.dagError e)) ↔
      (∃ v ∈ dag.nodes.keys, ∃ p ∈ dag.parentsOf v, p ∉ dag.nodes.keys) ∨ dag.Cyclic) ∧
    ((¬ ∃ e, dag.validate = .error (.dagError e)) →
      dag.validate = .ok () ∧ ∃ layers, dag.layers = .ok layers ∧
        layers.flatten.Perm dag.nodes.keys ∧
        (∀ l ∈ layers, l.Pairwise (· ≤ ·)) ∧
        ∀ v ∈ dag.nodes.keys, layerOf layers v =
          ((dag.parentsOf v).map (layerOf layers)).max?.elim 0 (1 + ·)) := by
  have unknown_iff : (∃ v ∈ dag.nodes.keys, ∃ p ∈ dag.parentsOf v, p ∉ dag.nodes.keys) ↔
      ¬ dag.KnowsParents := by
    simp [KnowsParents]
  rw [unknown_iff]
  rcases dag.validate_cases with
    ⟨e, raised, why⟩ | ⟨accepted, known, acyclic, layers, returned, layering⟩
  · exact ⟨iff_of_true ⟨e, raised⟩ why, fun none_raised => absurd ⟨e, raised⟩ none_raised⟩
  · constructor
    · refine iff_of_false (fun ⟨e, raised⟩ => ?_) ?_
      · rw [accepted] at raised
        cases raised
      · rintro (unknown | cyclic)
        · exact unknown known
        · exact acyclic cyclic
    · intro _
      refine ⟨accepted, layers, returned, layering.perm, fun l member => ?_, fun v node =>
        layering.layerOf_eq known node⟩
      obtain ⟨i, at_i⟩ := List.mem_iff_getElem?.mp member
      exact (layering.layer i l at_i).sorted

end RequestDag

end Gateway.Dag
