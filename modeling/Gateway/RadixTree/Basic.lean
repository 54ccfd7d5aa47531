import Mathlib.Algebra.GroupWithZero.Nat
import Mathlib.Logic.Function.Basic
import Gateway.Lib.Dict

/-!
The path-compressed prefix tree of `gateway/radix_tree.py`.

The Python tree is a graph of mutable `_Node` objects, and the per-backend LRU
refers to them by `id(node)`. Here the objects live in a heap `node` indexed by
allocation order, so `id(node)` is the index; no node is ever freed, hence no id
is reused. `defaultdict` tables are total functions with their default.

A loop over `hashes[i:]` carries the remaining hashes instead of the position
`i`. The two `while i < n` loops take a fuel argument: every iteration consumes at
least one hash in a well-formed tree, and `hashes.length` iterations are always
enough there.

* `matchPrefix`: the longest contiguous prefix held by each backend.
* `insert`: walk, split, attach, hold, then evict for the inserting backend.
* `removeBackend`, `heldBlocks`: membership eviction and introspection.
-/

namespace Gateway

abbrev NodeId := Nat

/-- `_Node`: the run of hashes into the node, its children by first hash, and the
clock at which each holding backend last touched it. -/
structure Node (H B : Type) where
  edge : List H
  children : Dict H NodeId
  holders : Dict B Nat

/-- `_Node(edge)`. -/
def Node.new {H B : Type} (edge : List H) : Node H B := ⟨edge, .empty, .empty⟩

/-- The tree object: the node heap (`0` is the root), the next free id, and the
fields of the source. An LRU lists node ids from least to most recently used. -/
structure RadixTree (H B : Type) where
  node : NodeId → Node H B
  next : NodeId
  cap : Int
  clock : Nat
  lru : B → List NodeId

namespace RadixTree

variable {H B : Type}

/-- The root's id. -/
abbrev root : NodeId := 0

/-- `RadixTree(backend_cache_blocks)`. -/
def init (backendCacheBlocks : Int) : RadixTree H B where
  node := fun _ => .new []
  next := 1
  cap := backendCacheBlocks
  clock := 0
  lru := fun _ => []

/-! ### Heap primitives -/

/-- Allocate a node; its id is `t.next`. -/
def newNode (t : RadixTree H B) (nd : Node H B) : RadixTree H B :=
  { t with node := Function.update t.node t.next nd, next := t.next + 1 }

/-- Update one node in place. -/
def modify (t : RadixTree H B) (n : NodeId) (f : Node H B → Node H B) : RadixTree H B :=
  { t with node := Function.update t.node n (f (t.node n)) }

/-- `node.children[k] = c`. -/
def setChild [DecidableEq H] (t : RadixTree H B) (n : NodeId) (k : H) (c : NodeId) :
    RadixTree H B :=
  t.modify n fun nd => { nd with children := nd.children.set k c }

/-- How many leading hashes of an edge agree with the remaining hashes: the inner
`while j < le and i + j < n and e[j] == hashes[i + j]`. -/
def commonLen [DecidableEq H] : List H → List H → Nat
  | x :: xs, y :: ys => if x = y then commonLen xs ys + 1 else 0
  | _, _ => 0

variable [DecidableEq H] [DecidableEq B]

/-! ### Match -/

/-- `set(hk)` on the first edge, `alive & hk` afterwards. -/
def intersectAlive (alive : Option (List B)) (hk : List B) : List B :=
  match alive with
  | none => hk
  | some a => a.filter fun b => b ∈ hk

/-- The loop of `match`. -/
def matchLoop (t : RadixTree H B) :
    Nat → NodeId → List H → Option (List B) → Nat → Dict B Nat → Dict B Nat
  | 0, _, _, _, _, best => best
  | _ + 1, _, [], _, _, best => best
  | fuel + 1, node, first :: rest, alive, depth, best =>
      match (t.node node).children.get? first with
      | none => best
      | some child =>
          let e := (t.node child).edge
          let j := commonLen e (first :: rest)
          -- backends holding `child` hold the whole edge, hence its first `j` blocks
          let alive := intersectAlive alive (t.node child).holders.keys
          if alive.isEmpty then best
          else
            let depth := depth + j
            let best := alive.foldl (fun best b => best.set b depth) best
            if j < e.length then best
            else matchLoop t fuel child ((first :: rest).drop j) (some alive) depth best

/-- `match(hashes)`. -/
def matchPrefix (t : RadixTree H B) (hashes : List H) : Dict B Nat :=
  matchLoop t hashes.length root hashes none 0 .empty

/-! ### Holding and tracking -/

/-- `_track`: append to the backend's LRU, or move to its end. -/
def track (t : RadixTree H B) (b : B) (n : NodeId) : RadixTree H B :=
  { t with
    lru := Function.update t.lru b
      (if n ∈ t.lru b then (t.lru b).erase n ++ [n] else t.lru b ++ [n]) }

/-- `_hold`. -/
def hold (t : RadixTree H B) (b : B) (n : NodeId) : RadixTree H B :=
  (t.modify n fun nd => { nd with holders := nd.holders.set b t.clock }).track b n

/-- `for b in split.holders: self._track(b, split)`. -/
def trackAll (t : RadixTree H B) (bs : List B) (n : NodeId) : RadixTree H B :=
  bs.foldl (fun t b => t.track b n) t

/-! ### Insert -/

/-- `leaf = _Node(rest); node.children[k] = leaf`. The leaf's id is `t.next`. -/
def attachLeaf (t : RadixTree H B) (n : NodeId) (k : H) (rest : List H) : RadixTree H B :=
  (t.newNode (.new rest)).setChild n k t.next

/-- Split `child`, found under `first` in `n`, at offset `j`. The new middle node's
id is `t.next`; it takes the first `j` hashes and a copy of the holders. -/
def splitEdge (t : RadixTree H B) (n : NodeId) (first : H) (child : NodeId) (j : Nat) :
    RadixTree H B :=
  let e := (t.node child).edge
  let split := t.next
  let t := t.newNode (.new (e.take j))
  let t := t.modify child fun nd => { nd with edge := e.drop j }
  let t := match e.drop j with
    | [] => t
    | k :: _ => t.setChild split k child
  let t := t.setChild n first split
  let t := t.modify split fun nd => { nd with holders := (t.node child).holders }
  -- they hold the shorter prefix too
  t.trackAll (t.node split).holders.keys split

/-- The loop of `insert`. -/
def insertLoop (b : B) : Nat → RadixTree H B → NodeId → List H → RadixTree H B
  | 0, t, _, _ => t
  | _ + 1, t, _, [] => t
  | fuel + 1, t, node, first :: rest =>
      match (t.node node).children.get? first with
      | none => (t.attachLeaf node first (first :: rest)).hold b t.next
      | some child =>
          let e := (t.node child).edge
          let j := commonLen e (first :: rest)
          if j = e.length then
            insertLoop b fuel (t.hold b child) child ((first :: rest).drop j)
          else
            -- divergence inside the edge: the current backend holds up to the split
            let split := t.next
            let t := (t.splitEdge node first child j).hold b split
            match (first :: rest).drop j with
            | [] => t
            | k :: tail => (t.attachLeaf split k (k :: tail)).hold b t.next

/-! ### Eviction and removal -/

/-- `node.holders.pop(backend_id, None)`. -/
def dropHolder (b : B) (nodes : NodeId → Node H B) (n : NodeId) : NodeId → Node H B :=
  Function.update nodes n { nodes n with holders := (nodes n).holders.erase b }

/-- The sum of the edge lengths of some nodes. -/
def blocks (nodes : NodeId → Node H B) (l : List NodeId) : Nat :=
  (l.map fun n => (nodes n).edge.length).sum

/-- `while total > self._cap and lru`: pop the least recently used node. -/
def evictLoop (cap : Int) (b : B) :
    List NodeId → Nat → (NodeId → Node H B) → List NodeId × (NodeId → Node H B)
  | [], _, nodes => ([], nodes)
  | n :: rest, total, nodes =>
      if cap < total then
        evictLoop cap b rest (total - (nodes n).edge.length) (dropHolder b nodes n)
      else (n :: rest, nodes)

/-- `_evict`. -/
def evict (t : RadixTree H B) (b : B) : RadixTree H B :=
  let (lru, nodes) := evictLoop t.cap b (t.lru b) (blocks t.node (t.lru b)) t.node
  { t with node := nodes, lru := Function.update t.lru b lru }

/-- Everything `insert` does before its final `_evict`. -/
def touch (t : RadixTree H B) (hashes : List H) (b : B) : RadixTree H B :=
  insertLoop b hashes.length { t with clock := t.clock + 1 } root hashes

/-- `insert(hashes, backend_id)`. -/
def insert (t : RadixTree H B) (hashes : List H) (b : B) : RadixTree H B :=
  if hashes.isEmpty then t else (t.touch hashes b).evict b

/-- `remove_backend(backend_id)`. -/
def removeBackend (t : RadixTree H B) (b : B) : RadixTree H B :=
  { t with
    node := (t.lru b).foldl (dropHolder b) t.node
    lru := Function.update t.lru b [] }

/-- `held_blocks(backend_id)`. -/
def heldBlocks (t : RadixTree H B) (b : B) : Nat := blocks t.node (t.lru b)

/-! ### Runs -/

/-- The mutating calls of the tree. -/
inductive Op (H B : Type) where
  | insert (hashes : List H) (b : B)
  | remove (b : B)
  deriving DecidableEq, Repr

/-- One call. -/
def apply (t : RadixTree H B) : Op H B → RadixTree H B
  | .insert hashes b => t.insert hashes b
  | .remove b => t.removeBackend b

/-- A sequence of calls on a fresh tree. -/
def runOps (cap : Int) (ops : List (Op H B)) : RadixTree H B :=
  ops.foldl apply (init cap)

end RadixTree

end Gateway
