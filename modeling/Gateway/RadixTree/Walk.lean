import Gateway.RadixTree.Survival

/-!
The way of an insert, read off the tree before it.

`way` lists the nodes that some hashes run along, with the number of hashes on the edge of
each; only the last edge may be left inside. It changes nothing, and its `segments` are
the lengths of the nodes on which the hashes lie afterwards: the last edge is cut where they
leave it, and what no edge shares becomes a leaf. `beyond` is what is left of the edge of
any other node.

* `Inv.laid_touch`: `insert(h, b)` before its eviction leaves in the LRU of `b` the nodes
  beside the way of `h`, in their order and without what they share, and behind them one
  node for each segment of `h`, from the root down.
-/

namespace Gateway.RadixTree

open Gateway.Trie

variable {H B : Type} [DecidableEq H]

/-- The nodes that the hashes run along below `node`, and how many of them lie on each. -/
def walk (nodes : NodeId → Node H B) : Nat → NodeId → List H → List (NodeId × Nat)
  | 0, _, _ => []
  | _ + 1, _, [] => []
  | fuel + 1, node, first :: rest =>
      match (nodes node).children.get? first with
      | none => []
      | some child =>
          let e := (nodes child).edge
          let j := commonLen e (first :: rest)
          (child, j) ::
            if j = e.length then walk nodes fuel child ((first :: rest).drop j) else []

/-- The nodes that the hashes run along. -/
def way (nodes : NodeId → Node H B) (hashes : List H) : List (NodeId × Nat) :=
  walk nodes hashes.length root hashes

/-- How many blocks of the edge of a node lie on a way. -/
def sharedOn (passed : List (NodeId × Nat)) (n : NodeId) : Nat := (passed.lookup n).getD 0

/-- The lengths of the pieces into which a way divides some hashes, in order. -/
def segmentsOn (passed : List (NodeId × Nat)) (count : Nat) : List Nat :=
  let shared := (passed.map Prod.snd).sum
  passed.map Prod.snd ++ if shared < count then [count - shared] else []

/-- The pieces into which the nodes of the tree divide the hashes; the last may be new. -/
def segments (nodes : NodeId → Node H B) (hashes : List H) : List Nat :=
  segmentsOn (way nodes hashes) hashes.length

/-- How many blocks of the edge of a node the hashes do not run along. -/
def beyond (nodes : NodeId → Node H B) (hashes : List H) (n : NodeId) : Nat :=
  (nodes n).edge.length - sharedOn (way nodes hashes) n

/-- Those of some nodes that have blocks beside the way of the hashes. -/
def beside (nodes : NodeId → Node H B) (hashes : List H) (l : List NodeId) : List NodeId :=
  l.filter fun n => 0 < beyond nodes hashes n

/-! ### The nodes of a way -/

section Way

variable {nodes : NodeId → Node H B} {fuel : Nat} {n child : NodeId} {first : H} {rest more : List H}

@[simp] theorem walk_nil : walk nodes fuel n [] = [] := by
  cases fuel <;> rfl

theorem walk_free (free : ∀ k ∈ rest.head?, (nodes n).children.get? k = none) :
    walk nodes fuel n rest = [] := by
  cases rest with
  | nil => exact walk_nil
  | cons k tail =>
      cases fuel with
      | zero => rfl
      | succ fuel =>
          have missing := free k rfl
          simp only [walk, missing]

theorem walk_enter (kid : (nodes n).children.get? first = some child)
    (whole : first :: rest = (nodes child).edge ++ more) :
    walk nodes (fuel + 1) n (first :: rest) =
      (child, (nodes child).edge.length) :: walk nodes fuel child more := by
  have all : commonLen (nodes child).edge (first :: rest) = (nodes child).edge.length := by
    rw [whole, commonLen_append]
  simp only [walk, kid]
  rw [all, if_pos rfl, whole, List.drop_left]

theorem walk_split {j : Nat} (kid : (nodes n).children.get? first = some child)
    (short : j < (nodes child).edge.length)
    (stops : commonLen (nodes child).edge (first :: rest) = j) :
    walk nodes (fuel + 1) n (first :: rest) = [(child, j)] := by
  simp only [walk, kid]
  rw [stops, if_neg (Nat.ne_of_lt short)]

end Way

/-- A way depends on edges and children only. -/
theorem walk_congr {nodes nodes' : NodeId → Node H B} {fuel : Nat} {n : NodeId} {rest : List H}
    (children : ∀ m k, (nodes m).children.get? k = (nodes' m).children.get? k)
    (edge : ∀ m, (nodes m).edge = (nodes' m).edge) :
    walk nodes fuel n rest = walk nodes' fuel n rest := by
  induction fuel generalizing n rest with
  | zero => rfl
  | succ fuel ih =>
      cases rest with
      | nil => rfl
      | cons first rest =>
          simp only [walk, children, edge, ih]

/-- The nodes of a way lie ever deeper, and a way runs along at most the whole of an edge. -/
theorem Inv.walk_below {t : RadixTree H B} {path : NodeId → List H} (inv : Inv t path) {fuel : Nat}
    {n m : NodeId} {rest : List H} {j : Nat} (hn : n < t.next)
    (member : (m, j) ∈ walk t.node fuel n rest) :
    (path n).length < (path m).length ∧ m < t.next ∧ j ≤ (t.node m).edge.length := by
  induction fuel generalizing n rest with
  | zero => cases member
  | succ fuel ih =>
      cases rest with
      | nil => cases member
      | cons first rest =>
          simp only [walk] at member
          cases kid : (t.node n).children.get? first with
          | none =>
              rw [kid] at member
              cases member
          | some child =>
              rw [kid] at member
              have alloc := (inv.labelled.child (T := t.shape) hn kid).2.1
              have deeper := inv.labelled.parent_shorter (T := t.shape) hn kid
              rcases List.mem_cons.mp member with same | later
              · cases same
                exact ⟨deeper, alloc, commonLen_le_left _ _⟩
              · split at later
                · obtain ⟨below, within⟩ := ih alloc later
                  exact ⟨deeper.trans below, within⟩
                · cases later

theorem Inv.not_mem_walk_self {t : RadixTree H B} {path : NodeId → List H} (inv : Inv t path)
    {fuel : Nat} {n : NodeId} {rest : List H} (hn : n < t.next) (j : Nat) :
    (n, j) ∉ walk t.node fuel n rest := fun member =>
  Nat.lt_irrefl _ (inv.walk_below hn member).1

/-- A way runs along the whole edge of every node whose label the hashes spell. -/
theorem Inv.mem_walk {t : RadixTree H B} {path : NodeId → List H} (inv : Inv t path) {fuel : Nat}
    {n m : NodeId} {rest : List H} (hn : n < t.next) (hm : m < t.next)
    (enough : rest.length ≤ fuel) (below : path n <+: path m) (proper : path n ≠ path m)
    (on : path m <+: path n ++ rest) : (m, (t.node m).edge.length) ∈ walk t.node fuel n rest := by
  induction fuel generalizing n rest with
  | zero =>
      rw [List.length_eq_zero_iff.mp (Nat.le_zero.mp enough), List.append_nil] at on
      exact absurd (below.eq_of_length_le on.length_le) proper
  | succ fuel ih =>
      obtain ⟨k, child, kid, toward⟩ := inv.labelled.branch (T := t.shape) hn hm below proper
      obtain ⟨-, alloc, label, tail, edge⟩ := inv.labelled.child (T := t.shape) hn kid
      change path child = path n ++ (t.node child).edge at label
      change (t.node child).edge = k :: tail at edge
      have whole : (t.node child).edge <+: rest := by
        rw [← List.prefix_append_right_inj (path n), ← label]
        exact toward.trans on
      obtain ⟨more, rfl⟩ := whole
      have first_edge : (t.node child).edge ++ more = k :: (tail ++ more) := by
        rw [edge, List.cons_append]
      have passed : walk t.node (fuel + 1) n ((t.node child).edge ++ more) =
          (child, (t.node child).edge.length) :: walk t.node fuel child more := by
        rw [first_edge]
        exact walk_enter kid first_edge.symm
      rw [passed]
      by_cases here : path child = path m
      · rw [inv.labelled.inj alloc hm here]
        exact List.mem_cons_self
      · refine List.mem_cons_of_mem _ (ih alloc ?_ toward here ?_)
        · rw [edge, List.length_append, List.length_cons] at enough
          omega
        · rwa [label, List.append_assoc]

theorem sharedOn_of_absent {passed : List (NodeId × Nat)} {n : NodeId}
    (absent : ∀ j, (n, j) ∉ passed) : sharedOn passed n = 0 := by
  have none_found : passed.lookup n = none := by
    rw [List.lookup_eq_none_iff]
    intro entry member
    rw [bne_iff_ne]
    rintro rfl
    exact absent _ member
  rw [sharedOn, none_found, Option.getD_none]

theorem sharedOn_cons (passed : List (NodeId × Nat)) (n m j : Nat) :
    sharedOn ((n, j) :: passed) m = if m = n then j else sharedOn passed m := by
  by_cases same : m = n
  · simp [sharedOn, same]
  · have differ : (m == n) = false := beq_eq_false_iff_ne.mpr same
    simp [sharedOn, List.lookup_cons, differ, same]

theorem mem_of_sharedOn {passed : List (NodeId × Nat)} {n : NodeId}
    (some_shared : 0 < sharedOn passed n) : (n, sharedOn passed n) ∈ passed := by
  induction passed with
  | nil => cases some_shared
  | cons entry passed ih =>
      obtain ⟨m, j⟩ := entry
      rw [sharedOn_cons] at some_shared ⊢
      split
      · rename_i same
        exact same ▸ List.mem_cons_self
      · rename_i other
        rw [if_neg other] at some_shared
        exact List.mem_cons_of_mem _ (ih some_shared)

/-- No node comes twice on a way. -/
theorem Inv.sharedOn_walk {t : RadixTree H B} {path : NodeId → List H} (inv : Inv t path) {fuel : Nat}
    {n m : NodeId} {rest : List H} {j : Nat} (hn : n < t.next)
    (member : (m, j) ∈ walk t.node fuel n rest) : sharedOn (walk t.node fuel n rest) m = j := by
  induction fuel generalizing n rest with
  | zero => cases member
  | succ fuel ih =>
      cases rest with
      | nil => cases member
      | cons first rest =>
          cases kid : (t.node n).children.get? first with
          | none =>
              simp only [walk, kid] at member
              cases member
          | some child =>
              have alloc := (inv.labelled.child (T := t.shape) hn kid).2.1
              simp only [walk, kid] at member ⊢
              rw [sharedOn_cons]
              rcases List.mem_cons.mp member with same | later
              · cases same
                rw [if_pos rfl]
              · split at later
                · have other : m ≠ child := fun same =>
                    inv.not_mem_walk_self alloc j (same ▸ later)
                  rename_i whole
                  rw [if_neg other, if_pos whole]
                  exact ih alloc later
                · cases later

theorem segmentsOn_nil {count : Nat} (pos : 0 < count) : segmentsOn [] count = [count] := by
  simp [segmentsOn, pos]

theorem segmentsOn_cons (passed : List (NodeId × Nat)) (n j count : Nat) :
    segmentsOn ((n, j) :: passed) (j + count) = j :: segmentsOn passed count := by
  simp [segmentsOn, Nat.add_sub_add_left]

theorem sum_walk_le (nodes : NodeId → Node H B) (fuel : Nat) (n : NodeId) (rest : List H) :
    ((walk nodes fuel n rest).map Prod.snd).sum ≤ rest.length := by
  induction fuel generalizing n rest with
  | zero => exact Nat.zero_le _
  | succ fuel ih =>
      cases rest with
      | nil => exact Nat.zero_le _
      | cons first rest =>
          simp only [walk]
          cases (nodes n).children.get? first with
          | none => exact Nat.zero_le _
          | some child =>
              have le := commonLen_le_right (nodes child).edge (first :: rest)
              have later := ih child
                ((first :: rest).drop (commonLen (nodes child).edge (first :: rest)))
              rw [List.length_drop] at later
              simp only [List.map_cons, List.sum_cons]
              split
              · omega
              · simpa using le

theorem sum_segmentsOn {passed : List (NodeId × Nat)} {count : Nat}
    (le : (passed.map Prod.snd).sum ≤ count) : (segmentsOn passed count).sum = count := by
  rw [segmentsOn, List.sum_append]
  rcases Nat.lt_or_eq_of_le le with more | all
  · rw [if_pos more, List.sum_singleton]
    omega
  · rw [if_neg (Nat.not_lt_of_le (Nat.le_of_eq all.symm)), all, List.sum_nil, Nat.add_zero]

/-- The segments make up the hashes. -/
theorem sum_segments (nodes : NodeId → Node H B) (h : List H) : (segments nodes h).sum = h.length :=
  sum_segmentsOn (sum_walk_le nodes h.length root h)

/-! ### What the walk of an insert leaves behind -/

variable [DecidableEq B]

/-- What the walk of an insert for `b` from `n` along `rest` makes of a tree, told by the way
it takes. The nodes on whose whole edge it runs, and the new ones, are the trail: they
go to the end of the LRU. A node it leaves inside keeps its place and what lies beyond. -/
structure Laid (b : B) (passed : List (NodeId × Nat)) (t : RadixTree H B) (path : NodeId → List H)
    (n : NodeId) (rest : List H) (t' : RadixTree H B) (path' : NodeId → List H) : Prop where
  label : ∀ m < t.next, path' m = path m
  size : ∀ m < t.next, (m, (t.node m).edge.length) ∉ passed →
    (t'.node m).edge.length = (t.node m).edge.length - sharedOn passed m
  trail : ∃ trail : List NodeId,
    t'.lru b = (t.lru b).filter (fun m => (m, (t.node m).edge.length) ∉ passed) ++ trail ∧
      trail.map (fun m => (t'.node m).edge.length) = segmentsOn passed rest.length ∧
      (∀ m ∈ trail, (t.next ≤ m ∨ (m, (t.node m).edge.length) ∈ passed) ∧
        path n <+: path' m ∧ path' m <+: path n ++ rest) ∧
      trail.Pairwise fun x y => path' x <+: path' y

section Laid

variable {t : RadixTree H B} {path : NodeId → List H} {b : B} {n : NodeId}

theorem lru_attachHold (inv : Inv t path) (b : B) (k : H) (rest : List H) :
    ((t.attachLeaf n k rest).hold b t.next).lru b = t.lru b ++ [t.next] := by
  have fresh : t.next ∉ t.lru b := fun member => absurd (inv.tracked.alloc member).2 (Nat.lt_irrefl _)
  rw [lru_hold, attachLeaf_lru, List.erase_of_not_mem fresh]

theorem lru_splitHold (inv : Inv t path) (b : B) (first : H) (child j : NodeId) :
    ((t.splitEdge n first child j).hold b t.next).lru b = t.lru b ++ [t.next] := by
  have fresh : t.next ∉ t.lru b := fun member => absurd (inv.tracked.alloc member).2 (Nat.lt_irrefl _)
  rw [lru_hold, lru_splitEdge_erase inv.tracked, List.erase_of_not_mem fresh]

theorem edge_hold (t : RadixTree H B) (b : B) (n m : NodeId) :
    ((t.hold b n).node m).edge = (t.node m).edge :=
  congrFun (congrArg Shape.edge (shape_hold t b n)) m

omit [DecidableEq H] [DecidableEq B] in
theorem laid_done (t : RadixTree H B) (path : NodeId → List H) (b : B) (n : NodeId) :
    Laid b [] t path n [] t path where
  label := fun _ _ => rfl
  size := fun _ _ _ => rfl
  trail := ⟨[], by simp, rfl, by simp, List.Pairwise.nil⟩

theorem Inv.laid_attach (inv : Inv t path) (b : B) (hn : n < t.next) {k : H} (tail : List H) :
    Laid b [] t path n (k :: tail) ((t.attachLeaf n k (k :: tail)).hold b t.next)
      (Function.update path t.next (path n ++ k :: tail)) where
  label := fun m alloc => Function.update_of_ne (Nat.ne_of_lt alloc) ..
  size := by
    intro m alloc _
    have old : ((t.shape.addLeaf n k (k :: tail)).edge m) = t.shape.edge m := edge_addLeaf_old alloc
    rw [← shape_attachLeaf hn] at old
    rw [edge_hold]
    exact congrArg List.length old
  trail := by
    have new : (t.shape.addLeaf n k (k :: tail)).edge t.next = k :: tail := edge_addLeaf_new
    rw [← shape_attachLeaf hn] at new
    refine ⟨[t.next], ?_, ?_, ?_, List.pairwise_singleton _ _⟩
    · simp [lru_attachHold inv]
    · rw [segmentsOn_nil (List.length_pos_of_ne_nil (List.cons_ne_nil k tail)), List.map_singleton,
        edge_hold]
      exact congrArg (fun e => [List.length e]) new
    · intro m member
      rw [List.mem_singleton.mp member, Function.update_self]
      exact ⟨.inl (Nat.le_refl _), List.prefix_append _ _, List.prefix_rfl⟩

/-- Entering a child. -/
theorem Inv.laid_enter (inv : Inv t path) (hn : n < t.next) {first : H} {child : NodeId}
    {rest : List H} {passed : List (NodeId × Nat)} {t' : RadixTree H B} {path' : NodeId → List H}
    (kid : (t.node n).children.get? first = some child) (absent : ∀ j, (child, j) ∉ passed)
    (below : Laid b passed (t.hold b child) path child rest t' path') :
    Laid b ((child, (t.node child).edge.length) :: passed) t path n
      ((t.node child).edge ++ rest) t' path' := by
  obtain ⟨-, alloc, label, -⟩ := inv.labelled.child (T := t.shape) hn kid
  change path child = path n ++ (t.node child).edge at label
  have size_child : (t'.node child).edge.length = (t.node child).edge.length := by
    have := below.size child alloc (absent _)
    rwa [sharedOn_of_absent absent, edge_hold, Nat.sub_zero] at this
  refine ⟨below.label, ?_, ?_⟩
  · intro m old off
    rw [List.mem_cons, not_or] at off
    have other : m ≠ child := fun same => off.1 (by rw [same])
    rw [sharedOn_cons, if_neg other]
    have := below.size m old (by rw [edge_hold]; exact off.2)
    rwa [edge_hold] at this
  · obtain ⟨trail, lru, sizes, within, ordered⟩ := below.trail
    refine ⟨child :: trail, ?_, ?_, ?_, ?_⟩
    · rw [lru, lru_hold, List.filter_append, List.append_assoc]
      have stays : ([child] : List NodeId).filter (fun m =>
          (m, ((t.hold b child).node m).edge.length) ∉ passed) = [child] := by
        simp [absent]
      rw [stays, (inv.tracked.nodup b).erase_eq_filter, List.filter_filter]
      refine congrArg (· ++ child :: trail) (List.filter_congr fun m _ => ?_)
      rw [edge_hold]
      by_cases same : m = child
      · simp [same]
      · simp [same]
    · rw [List.map_cons, sizes, size_child, List.length_append, segmentsOn_cons]
    · intro m member
      rcases List.mem_cons.mp member with rfl | member
      · rw [below.label m alloc, label]
        exact ⟨.inr List.mem_cons_self, List.prefix_append _ _, by simp⟩
      · obtain ⟨source, above, on⟩ := within m member
        rw [label, List.append_assoc] at on
        rw [edge_hold] at source
        exact ⟨source.imp_right (List.mem_cons_of_mem _),
          (label ▸ List.prefix_append _ _).trans above, on⟩
    · refine List.pairwise_cons.mpr ⟨fun m member => ?_, ordered⟩
      rw [below.label child alloc]
      exact (within m member).2.1

/-- Cutting an edge. -/
theorem Inv.laid_split (inv : Inv t path) (hn : n < t.next) {first : H} {child j : NodeId}
    {rest : List H} {t' : RadixTree H B} {path' : NodeId → List H}
    (kid : (t.node n).children.get? first = some child) 
    (short : j < (t.node child).edge.length)
    (below : Laid b [] ((t.splitEdge n first child j).hold b t.next)
      (Function.update path t.next (path n ++ (t.node child).edge.take j)) t.next rest t' path') :
    Laid b [(child, j)] t path n ((t.node child).edge.take j ++ rest) t' path' := by
  obtain ⟨-, alloc, label, -⟩ := inv.labelled.child (T := t.shape) hn kid
  have grown : ((t.splitEdge n first child j).hold b t.next).next = t.next + 1 := by
    rw [hold_next, splitEdge_next]
  have length_take : ((t.node child).edge.take j).length = j :=
    List.length_take_of_le (Nat.le_of_lt short)
  have edges : ∀ m, (((t.splitEdge n first child j).hold b t.next).node m).edge =
      if m = child then (t.node child).edge.drop j
      else if m = t.next then (t.node child).edge.take j else (t.node m).edge := fun m =>
    (edge_hold ..).trans (splitEdge_node first hn alloc short m).1
  have sizes : ∀ m < t.next + 1, (t'.node m).edge.length =
      (if m = child then (t.node child).edge.drop j
      else if m = t.next then (t.node child).edge.take j else (t.node m).edge).length := by
    intro m old
    rw [← edges]
    exact below.size m (by rw [grown]; exact old) (by simp)
  refine ⟨fun m old => ?_, fun m old off => ?_, ?_⟩
  · rw [below.label m (by rw [grown]; exact Nat.lt_succ_of_lt old),
      Function.update_of_ne (Nat.ne_of_lt old)]
  · rw [sizes m (Nat.lt_succ_of_lt old), sharedOn_cons]
    by_cases same : m = child
    · simp [same]
    · simp [same, Nat.ne_of_lt old, sharedOn]
  · obtain ⟨trail, lru, pieces, within, ordered⟩ := below.trail
    have start : path' t.next = path n ++ (t.node child).edge.take j := by
      rw [below.label t.next (by rw [grown]; exact Nat.lt_succ_self _), Function.update_self]
    rw [Function.update_self] at within
    refine ⟨t.next :: trail, ?_, ?_, ?_, ?_⟩
    · have all : (t.lru b).filter (fun m => (m, (t.node m).edge.length) ∉ [(child, j)]) = t.lru b := by
        refine List.filter_eq_self.mpr fun m _ => ?_
        simp only [List.mem_singleton, Prod.mk.injEq, decide_eq_true_eq, not_and]
        rintro rfl
        exact Nat.ne_of_gt short
      rw [lru, lru_splitHold inv, all]
      simp
    · have ne : t.next ≠ child := Nat.ne_of_gt alloc
      have := sizes t.next (Nat.lt_succ_self _)
      rw [if_neg ne, if_pos rfl, length_take] at this
      rw [List.map_cons, pieces, this, List.length_append, length_take, segmentsOn_cons]
    · intro m member
      rcases List.mem_cons.mp member with rfl | member
      · rw [start]
        exact ⟨.inl (Nat.le_refl _), List.prefix_append _ _, by simp⟩
      · obtain ⟨source, above, on⟩ := within m member
        rw [List.append_assoc] at on
        have later : t.next + 1 ≤ m := grown ▸ source.resolve_right List.not_mem_nil
        exact ⟨.inl (Nat.le_of_succ_le later), (List.prefix_append _ _).trans above, on⟩
    · refine List.pairwise_cons.mpr ⟨fun m member => ?_, ordered⟩
      rw [start]
      exact (within m member).2.1

theorem walk_hold (t : RadixTree H B) (b : B) (c : NodeId) (fuel : Nat) (n : NodeId)
    (rest : List H) : walk (t.hold b c).node fuel n rest = walk t.node fuel n rest :=
  walk_congr (fun _ _ => get?_children_hold ..) (fun _ => edge_hold ..)

/-- The walk of an insert, told by the way that the tree before it gives to the hashes. -/
theorem Inv.laid_insertLoop (b : B) (fuel : Nat) (inv : Inv t path) (hn : n < t.next)
    {rest : List H} (enough : rest.length ≤ fuel) :
    ∃ path', Inv (RadixTree.insertLoop b fuel t n rest) path' ∧
      Laid b (walk t.node fuel n rest) t path n rest (RadixTree.insertLoop b fuel t n rest)
        path' := by
  have rule := Inv.insertLoop_rule (b := b)
    (P := fun t path n rest t' path' => ∀ fuel, rest.length ≤ fuel →
      Laid b (walk t.node fuel n rest) t path n rest t' path')
    ⟨?done, ?attach, ?enter, ?split⟩ fuel inv hn enough
  · obtain ⟨path', inv', laid⟩ := rule
    exact ⟨path', inv', laid fuel enough⟩
  case done =>
    intro t path n _ _ fuel _
    rw [walk_nil]
    exact laid_done t path b n
  case attach =>
    intro t path n k tail inv hn free fuel _
    rw [walk_free fun l first => by cases first; exact free]
    exact inv.laid_attach b hn tail
  case enter =>
    intro t path n first child rest t' path' inv hn kid below fuel enough
    obtain ⟨pos, alloc, -, tail, edge⟩ := inv.labelled.child (T := t.shape) hn kid
    change (t.node child).edge = first :: tail at edge
    cases fuel with
    | zero => simp [edge] at enough
    | succ fuel =>
        have shrink : rest.length ≤ fuel := by
          rw [edge, List.length_append, List.length_cons] at enough
          omega
        have entered := inv.laid_enter hn kid (fun j => inv.not_mem_walk_self alloc j)
          (walk_hold t b child .. ▸ below fuel shrink)
        have first_edge : (t.node child).edge ++ rest = first :: (tail ++ rest) := by
          rw [edge, List.cons_append]
        have passed : walk t.node (fuel + 1) n ((t.node child).edge ++ rest) =
            (child, (t.node child).edge.length) :: walk t.node fuel child rest := by
          rw [first_edge]
          exact walk_enter kid first_edge.symm
        rwa [passed]
  case split =>
    intro t path n first child j rest t' path' inv hn kid pos short stops below fuel enough
    obtain ⟨-, alloc, -, -⟩ := inv.labelled.child (T := t.shape) hn kid
    have cut := below rest.length (Nat.le_refl _)
    rw [walk_free (free_at_cut b first hn alloc short stops)] at cut
    obtain ⟨upper, part⟩ := inv.labelled.split_first (T := t.shape) hn kid pos
    change [first] ++ upper = (t.node child).edge.take j at part
    cases fuel with
    | zero => simp [← part] at enough
    | succ fuel =>
        have first_edge : (t.node child).edge.take j ++ rest = first :: (upper ++ rest) := by
          rw [← part, List.append_assoc, List.singleton_append]
        have passed : walk t.node (fuel + 1) n ((t.node child).edge.take j ++ rest) =
            [(child, j)] := by
          rw [first_edge] at stops ⊢
          exact walk_split kid short stops
        rw [passed]
        exact inv.laid_split hn kid short cut

theorem Inv.laid_touch (inv : Inv t path) (h : List H) (b : B) :
    ∃ path', Inv (t.touch h b) path' ∧
      Laid b (way t.node h) t path root h (t.touch h b) path' := by
  have ticked : Inv { t with clock := t.clock + 1 } path :=
    ⟨inv.labelled, inv.tracked.nodup, inv.tracked.alloc, inv.tracked.holders⟩
  obtain ⟨path', inv', laid⟩ :=
    ticked.laid_insertLoop b h.length (n := root) inv.labelled.pos (Nat.le_refl _)
  exact ⟨path', inv', laid.label, laid.size, laid.trail⟩

/-- What `insert(h, b)` leaves before its eviction, in the words of the tree before it. -/
structure Layout (t : RadixTree H B) (h : List H) (b : B) (trail : List NodeId)
    (t' : RadixTree H B) : Prop where
  lru : t'.lru b = beside t.node h (t.lru b) ++ trail
  size_beside : ∀ m ∈ beside t.node h (t.lru b),
    (t'.node m).edge.length = beyond t.node h m
  size_trail : trail.map (fun m => (t'.node m).edge.length) = segments t.node h
  above : ∀ a ∈ beside t.node h (t.lru b), ∀ n ∈ beside t.node h (t.lru b),
    (Ancestor t'.shape a n ↔ Ancestor t.shape a n)
  apart : ∀ a ∈ beside t.node h (t.lru b), ∀ n ∈ trail, ¬ Ancestor t'.shape a n
  chain : trail.Pairwise (Ancestor t'.shape)
  stays : ∀ m ∈ beside t.node h (t.lru b),
    m < t.next ∧ (m, (t.node m).edge.length) ∉ way t.node h
  source : ∀ m ∈ trail, m < t'.next ∧ (t.next ≤ m ∨ (m, (t.node m).edge.length) ∈ way t.node h)

omit [DecidableEq B] in
/-- A node has blocks beside a way unless the way runs along its whole edge. -/
theorem Inv.beyond_pos_iff (inv : Inv t path) (h : List H) {m : NodeId} (pos : 0 < m)
    (alloc : m < t.next) :
    0 < beyond t.node h m ↔ (m, (t.node m).edge.length) ∉ way t.node h := by
  have edge : 0 < (t.node m).edge.length := by
    obtain ⟨n, k, hn, kid⟩ := inv.labelled.parent (T := t.shape) pos alloc
    obtain ⟨-, -, -, tail, edge⟩ := inv.labelled.child (T := t.shape) hn kid
    change (t.node m).edge = k :: tail at edge
    simp [edge]
  rw [← not_iff_not, not_not, beyond]
  constructor
  · intro none_left
    have member : (m, sharedOn (way t.node h) m) ∈ way t.node h := mem_of_sharedOn (by omega)
    have within := (inv.walk_below inv.labelled.pos member).2.2
    rwa [show sharedOn (way t.node h) m = (t.node m).edge.length by omega] at member
  · intro member
    have shared : sharedOn (way t.node h) m = (t.node m).edge.length :=
      inv.sharedOn_walk inv.labelled.pos member
    omega

theorem Inv.layout_touch (inv : Inv t path) (h : List H) (b : B) :
    ∃ path' trail, Inv (t.touch h b) path' ∧ Layout t h b trail (t.touch h b) := by
  obtain ⟨path', inv', laid⟩ := inv.laid_touch h b
  obtain ⟨trail, lru, sizes, within, ordered⟩ := laid.trail
  have same : (t.lru b).filter (fun m => (m, (t.node m).edge.length) ∉ way t.node h) =
      beside t.node h (t.lru b) := by
    refine List.filter_congr fun m member => ?_
    obtain ⟨pos, alloc⟩ := inv.tracked.alloc member
    rw [decide_eq_decide, inv.beyond_pos_iff h pos alloc]
  rw [same] at lru
  have old : ∀ m ∈ beside t.node h (t.lru b), m < t.next ∧ m < (t.touch h b).next ∧
      (m, (t.node m).edge.length) ∉ way t.node h ∧ path' m = path m := by
    intro m member
    obtain ⟨held, left⟩ := List.mem_filter.mp member
    obtain ⟨pos, alloc⟩ := inv.tracked.alloc held
    have alloc' := (inv'.tracked.alloc (b := b) (lru ▸ List.mem_append_left trail member)).2
    exact ⟨alloc, alloc', (inv.beyond_pos_iff h pos alloc).mp (by simpa using left),
      laid.label m alloc⟩
  have new : ∀ m ∈ trail, m < (t.touch h b).next := fun m member =>
    (inv'.tracked.alloc (b := b) (lru ▸ List.mem_append_right _ member)).2
  refine ⟨path', trail, inv', lru, ?_, sizes, ?_, ?_, ?_, ?_, ?_⟩
  · intro m member
    obtain ⟨alloc, -, off, -⟩ := old m member
    exact laid.size m alloc off
  · intro a first n second
    obtain ⟨alloc_a, alloc_a', -, label_a⟩ := old a first
    obtain ⟨alloc_n, alloc_n', -, label_n⟩ := old n second
    rw [inv'.labelled.ancestor_iff alloc_a' alloc_n', label_a, label_n,
      inv.labelled.ancestor_iff alloc_a alloc_n]
  · intro a first n second anc
    obtain ⟨alloc, alloc', off, label⟩ := old a first
    have pos := (inv.tracked.alloc (List.mem_filter.mp first).1).1
    have on := ((inv'.labelled.ancestor_iff alloc' (new n second)).mp anc).1.trans (within n second).2.2
    rw [label] at on
    refine off (inv.mem_walk inv.labelled.pos alloc (Nat.le_refl _) ?_ ?_ on)
    · rw [inv.labelled.root]
      exact List.nil_prefix
    · intro here
      exact Nat.ne_of_gt pos (inv.labelled.inj inv.labelled.pos alloc here).symm
  · have nodup := inv'.tracked.nodup b
    rw [lru] at nodup
    refine (ordered.and nodup.of_append_right).imp_of_mem fun {x y} hx hy both => ?_
    refine inv'.labelled.ancestor_of_prefix (new x hx) (new y hy) both.1 fun here => ?_
    exact both.2 (inv'.labelled.inj (new x hx) (new y hy) here)
  · intro m member
    obtain ⟨alloc, -, off, -⟩ := old m member
    exact ⟨alloc, off⟩
  · exact fun m member => ⟨new m member, (within m member).1⟩

end Laid

end Gateway.RadixTree
