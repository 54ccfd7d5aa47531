import Gateway.Lib.Trie
import Gateway.RadixTree.Basic

/-!
The invariant of the prefix tree, and what each primitive of `insert` does to it.

`shape` forgets everything but edges and children, so the general trie library
applies. `Tracked` says that the two redundant views of who holds what, the
`holders` of a node and the LRU of a backend, agree. `Inv` is both.

`Held path b p` says that backend `b` holds the block that ends at position `p`:
`p` lies on the edge of a node in the LRU of `b`. It is the abstract content of
the tree. Attaching a leaf and splitting an edge keep it (`Inv.attachLeaf`,
`Inv.splitEdge`), `_hold` adds the positions of one node (`Inv.hold`), and
`insert` before its eviction adds exactly the non-empty prefixes of the inserted
sequence for the inserting backend (`Inv.touch`), whatever edges it splits.
-/

namespace Gateway.RadixTree

open Gateway.Trie

variable {H B : Type}

/-- The trie graph of a tree. -/
def shape (t : RadixTree H B) [DecidableEq H] : Shape H where
  edge := fun n => (t.node n).edge
  kid := fun n k => (t.node n).children.get? k
  next := t.next

variable [DecidableEq H] [DecidableEq B]

/-- Holders and LRUs agree, and refer to allocated nodes below the root. -/
structure Tracked (t : RadixTree H B) : Prop where
  nodup : ∀ b, (t.lru b).Nodup
  alloc : ∀ {b n}, n ∈ t.lru b → 0 < n ∧ n < t.next
  holders : ∀ {b n}, b ∈ (t.node n).holders.keys ↔ n ∈ t.lru b

/-- The tree invariant, with the label of every node. -/
structure Inv (t : RadixTree H B) (path : NodeId → List H) : Prop where
  labelled : Labelled t.shape path
  tracked : Tracked t

/-- Backend `b` holds the block that ends at position `p`. -/
def Held (t : RadixTree H B) (path : NodeId → List H) (b : B) (p : List H) : Prop :=
  ∃ c, c ∈ t.lru b ∧ Covers t.shape path c p

/-! ### Tracking -/

omit [DecidableEq H] in
@[simp] theorem track_node (t : RadixTree H B) (b : B) (n : NodeId) :
    (t.track b n).node = t.node := rfl

omit [DecidableEq H] in
@[simp] theorem track_next (t : RadixTree H B) (b : B) (n : NodeId) :
    (t.track b n).next = t.next := rfl

omit [DecidableEq H] in
theorem mem_lru_track {t : RadixTree H B} {b b' : B} {n m : NodeId} :
    m ∈ (t.track b n).lru b' ↔ m ∈ t.lru b' ∨ (b' = b ∧ m = n) := by
  simp only [track, Function.update_apply]
  by_cases same : b' = b
  · subst same
    simp only [if_true, true_and]
    split
    · rename_i member
      by_cases here : m = n
      · simp [here]
      · simp [here, List.mem_erase_of_ne here]
    · simp
  · simp [same]

omit [DecidableEq H] in
theorem nodup_lru_track {t : RadixTree H B} {b b' : B} {n : NodeId}
    (nodup : (t.lru b').Nodup) : ((t.track b n).lru b').Nodup := by
  simp only [track, Function.update_apply]
  by_cases same : b' = b
  · subst same
    simp only [if_true]
    split
    · refine List.Nodup.append (nodup.erase n) (List.nodup_singleton n) ?_
      simp [List.disjoint_singleton, nodup.mem_erase_iff]
    · rename_i fresh
      exact List.Nodup.append nodup (List.nodup_singleton n) (by simpa using fresh)
  · simpa [same] using nodup

omit [DecidableEq H] in
@[simp] theorem trackAll_node (t : RadixTree H B) (bs : List B) (n : NodeId) :
    (t.trackAll bs n).node = t.node := by
  induction bs generalizing t with
  | nil => rfl
  | cons b bs ih => exact ih (t.track b n)

omit [DecidableEq H] in
@[simp] theorem trackAll_next (t : RadixTree H B) (bs : List B) (n : NodeId) :
    (t.trackAll bs n).next = t.next := by
  induction bs generalizing t with
  | nil => rfl
  | cons b bs ih => exact ih (t.track b n)

omit [DecidableEq H] in
theorem mem_lru_trackAll {t : RadixTree H B} {bs : List B} {b' : B} {n m : NodeId} :
    m ∈ (t.trackAll bs n).lru b' ↔ m ∈ t.lru b' ∨ (b' ∈ bs ∧ m = n) := by
  induction bs generalizing t with
  | nil => simp [trackAll]
  | cons b bs ih =>
      have := ih (t := t.track b n)
      simp only [trackAll, List.foldl_cons] at this ⊢
      rw [this, mem_lru_track, List.mem_cons]
      tauto

omit [DecidableEq H] in
theorem nodup_lru_trackAll {t : RadixTree H B} {bs : List B} {b' : B} {n : NodeId}
    (nodup : (t.lru b').Nodup) : ((t.trackAll bs n).lru b').Nodup := by
  induction bs generalizing t with
  | nil => exact nodup
  | cons b bs ih => exact ih (nodup_lru_track nodup)

/-! ### Holding -/

omit [DecidableEq H] in
@[simp] theorem hold_next (t : RadixTree H B) (b : B) (n : NodeId) :
    (t.hold b n).next = t.next := rfl

@[simp] theorem shape_hold (t : RadixTree H B) (b : B) (n : NodeId) :
    (t.hold b n).shape = t.shape := by
  have same : ∀ m, ((t.hold b n).node m).edge = (t.node m).edge ∧
      ((t.hold b n).node m).children = (t.node m).children := by
    intro m
    by_cases here : m = n
    · subst here
      simp [hold, modify]
    · simp [hold, modify, here]
  simp only [shape, hold_next, Shape.mk.injEq, and_true]
  exact ⟨funext fun m => (same m).1, funext fun m => funext fun k => by rw [(same m).2]⟩

theorem get?_children_hold (t : RadixTree H B) (b : B) (n m : NodeId) (k : H) :
    ((t.hold b n).node m).children.get? k = (t.node m).children.get? k :=
  congrFun (congrFun (congrArg Shape.kid (shape_hold t b n)) m) k

omit [DecidableEq H] in
theorem mem_lru_hold {t : RadixTree H B} {b b' : B} {n m : NodeId} :
    m ∈ (t.hold b n).lru b' ↔ m ∈ t.lru b' ∨ (b' = b ∧ m = n) := by
  rw [hold, mem_lru_track]
  rfl

omit [DecidableEq H] in
theorem mem_holders_hold {t : RadixTree H B} {b b' : B} {n m : NodeId} :
    b' ∈ ((t.hold b n).node m).holders.keys ↔
      b' ∈ (t.node m).holders.keys ∨ (b' = b ∧ m = n) := by
  simp only [hold, track_node, modify, Function.update_apply]
  by_cases here : m = n
  · subst here
    simp only [if_true, Dict.mem_keys_iff, Dict.get?_set]
    by_cases same : b' = b <;> simp [same]
  · simp [here]

/-- `_hold` adds the positions of one node for one backend. -/
theorem Inv.hold {t : RadixTree H B} {path : NodeId → List H} (inv : Inv t path) (b : B)
    {n : NodeId} (pos : 0 < n) (alloc : n < t.next) : Inv (t.hold b n) path where
  labelled := by
    rw [shape_hold]
    exact inv.labelled
  tracked :=
    { nodup := fun _ => nodup_lru_track (inv.tracked.nodup _)
      alloc := by
        intro b' m member
        rcases mem_lru_hold.mp member with member | ⟨_, rfl⟩
        · exact inv.tracked.alloc member
        · exact ⟨pos, alloc⟩
      holders := by
        intro b' m
        rw [mem_holders_hold, mem_lru_hold, inv.tracked.holders] }

theorem held_hold {t : RadixTree H B} {path : NodeId → List H} {b b' : B} {n : NodeId}
    {p : List H} :
    Held (t.hold b n) path b' p ↔ Held t path b' p ∨ (b' = b ∧ Covers t.shape path n p) := by
  simp only [Held, shape_hold, mem_lru_hold]
  constructor
  · rintro ⟨c, member | ⟨rfl, rfl⟩, covers⟩
    · exact .inl ⟨c, member, covers⟩
    · exact .inr ⟨rfl, covers⟩
  · rintro (⟨c, member, covers⟩ | ⟨rfl, covers⟩)
    · exact ⟨c, .inl member, covers⟩
    · exact ⟨n, .inr ⟨rfl, rfl⟩, covers⟩

/-! ### Attaching a leaf -/

omit [DecidableEq B] in
@[simp] theorem attachLeaf_next (t : RadixTree H B) (n : NodeId) (k : H) (rest : List H) :
    (t.attachLeaf n k rest).next = t.next + 1 := rfl

omit [DecidableEq B] in
@[simp] theorem attachLeaf_lru (t : RadixTree H B) (n : NodeId) (k : H) (rest : List H) :
    (t.attachLeaf n k rest).lru = t.lru := rfl

omit [DecidableEq B] in
theorem attachLeaf_holders {t : RadixTree H B} {n : NodeId} (h : n < t.next) (k : H)
    (rest : List H) (m : NodeId) : ((t.attachLeaf n k rest).node m).holders =
      if m = t.next then .empty else (t.node m).holders := by
  simp only [attachLeaf, setChild, modify, newNode]
  by_cases new : m = t.next
  · subst new
    simp [Function.update_of_ne (Nat.ne_of_gt h), Node.new]
  · by_cases here : m = n
    · subst here
      simp [new]
    · simp [here, new]

omit [DecidableEq B] in
theorem shape_attachLeaf {t : RadixTree H B} {n : NodeId} (h : n < t.next) (k : H)
    (rest : List H) : (t.attachLeaf n k rest).shape = t.shape.addLeaf n k rest := by
  have ne : n ≠ t.next := Nat.ne_of_lt h
  simp only [shape, Shape.addLeaf, attachLeaf_next, Shape.mk.injEq, and_true]
  constructor
  · funext m
    by_cases new : m = t.next
    · subst new
      simp [attachLeaf, setChild, modify, newNode, Ne.symm ne, Node.new]
    · by_cases here : m = n
      · subst here
        simp [attachLeaf, setChild, modify, newNode, new]
      · simp [attachLeaf, setChild, modify, newNode, new, here]
  · funext m l
    by_cases new : m = t.next
    · subst new
      simp [attachLeaf, setChild, modify, newNode, Ne.symm ne, Node.new]
    · by_cases here : m = n
      · subst here
        simp [attachLeaf, setChild, modify, newNode, new]
      · simp [attachLeaf, setChild, modify, newNode, new, here]

omit [DecidableEq B] in
/-- Attaching a leaf under a free symbol keeps the invariant. -/
theorem Inv.attachLeaf {t : RadixTree H B} {path : NodeId → List H} (inv : Inv t path)
    {n : NodeId} {k : H} (tail : List H) (h : n < t.next)
    (free : (t.node n).children.get? k = none) :
    Inv (t.attachLeaf n k (k :: tail)) (Function.update path t.next (path n ++ k :: tail)) where
  labelled := by
    rw [shape_attachLeaf h]
    exact inv.labelled.addLeaf h free
  tracked :=
    { nodup := inv.tracked.nodup
      alloc := fun member =>
        ⟨(inv.tracked.alloc member).1, Nat.lt_succ_of_lt (inv.tracked.alloc member).2⟩
      holders := by
        intro b m
        rw [attachLeaf_holders h, attachLeaf_lru]
        split
        · rename_i new
          subst new
          refine iff_of_false (by simp [Dict.empty, Dict.keys]) fun member => ?_
          exact absurd (inv.tracked.alloc member).2 (Nat.lt_irrefl _)
        · exact inv.tracked.holders }

omit [DecidableEq B] in
/-- Attaching a leaf changes nobody's blocks. -/
theorem Inv.held_attachLeaf {t : RadixTree H B} {path : NodeId → List H} (inv : Inv t path)
    {n : NodeId} {k : H} {rest : List H} (h : n < t.next) {b : B} {p : List H} :
    Held (t.attachLeaf n k rest) (Function.update path t.next (path n ++ rest)) b p ↔
      Held t path b p := by
  simp only [Held, shape_attachLeaf h, attachLeaf_lru]
  exact exists_congr fun c => and_congr_right fun member =>
    covers_addLeaf_old (T := t.shape) (inv.tracked.alloc member).2

/-! ### Splitting an edge -/

section Split

variable {t : RadixTree H B} {path : NodeId → List H} {n child j : NodeId} {first : H}

theorem splitEdge_next : (t.splitEdge n first child j).next = t.next + 1 := by
  simp only [splitEdge]
  cases (t.node child).edge.drop j <;> simp [setChild, modify, newNode]

/-- The node heap after a split, field by field. -/
theorem splitEdge_node (first : H) (hn : n < t.next) (hc : child < t.next)
    (short : j < (t.node child).edge.length) (m : NodeId) :
    ((t.splitEdge n first child j).node m).edge =
        (if m = child then (t.node child).edge.drop j
         else if m = t.next then (t.node child).edge.take j else (t.node m).edge) ∧
      (∀ l, ((t.splitEdge n first child j).node m).children.get? l =
        if m = t.next then
          (if (t.node child).edge[j]? = some l then some child else none)
        else if m = n ∧ l = first then some t.next else (t.node m).children.get? l) ∧
      ((t.splitEdge n first child j).node m).holders =
        (if m = t.next then (t.node child).holders else (t.node m).holders) := by
  have ne_n : n ≠ t.next := Nat.ne_of_lt hn
  have ne_c : child ≠ t.next := Nat.ne_of_lt hc
  have drop_j := List.drop_eq_getElem_cons short
  simp only [splitEdge, trackAll_node, drop_j, setChild, modify, newNode,
    List.getElem?_eq_getElem short]
  by_cases new : m = t.next
  · subst new
    refine ⟨?_, fun l => ?_, ?_⟩
    · simp [Ne.symm ne_c, Ne.symm ne_n, Node.new]
    · simp [Ne.symm ne_c, Ne.symm ne_n, Node.new, @eq_comm H l]
    · by_cases nc : child = n
      · subst nc
        simp [ne_c]
      · simp [ne_c, nc]
  · by_cases hmc : m = child
    · subst hmc
      by_cases nc : m = n
      · subst nc
        simp [new]
      · simp [new, nc]
    · by_cases hmn : m = n
      · subst hmn
        simp [new, hmc]
      · simp [new, hmc, hmn]

theorem shape_splitEdge (hn : n < t.next) (hc : child < t.next)
    (short : j < (t.node child).edge.length) :
    (t.splitEdge n first child j).shape = t.shape.split n first child j := by
  simp only [shape, Shape.split, splitEdge_next, Shape.mk.injEq, and_true]
  refine ⟨funext fun m => ?_, funext fun m => funext fun l => ?_⟩
  · rw [(splitEdge_node _ hn hc short m).1]
    simp only [Function.update_apply]
  · rw [(splitEdge_node _ hn hc short m).2.1 l]
    exact if_congr Iff.rfl (if_congr Iff.rfl rfl rfl) rfl

theorem mem_lru_splitEdge (hn : n < t.next) (hc : child < t.next)
    (short : j < (t.node child).edge.length) {b : B} {m : NodeId} :
    m ∈ (t.splitEdge n first child j).lru b ↔
      m ∈ t.lru b ∨ (b ∈ (t.node child).holders.keys ∧ m = t.next) := by
  have keys := (splitEdge_node first hn hc short t.next).2.2
  rw [if_pos rfl] at keys
  simp only [splitEdge, trackAll_node] at keys ⊢
  rw [mem_lru_trackAll, keys]
  cases (t.node child).edge.drop j <;> rfl

theorem nodup_lru_splitEdge (tracked : Tracked t) (b : B) :
    ((t.splitEdge n first child j).lru b).Nodup := by
  simp only [splitEdge]
  refine nodup_lru_trackAll ?_
  cases (t.node child).edge.drop j <;> exact tracked.nodup b

/-- Splitting an edge keeps the invariant. -/
theorem Inv.splitEdge (inv : Inv t path) (hn : n < t.next)
    (kid : (t.node n).children.get? first = some child) (pos : 0 < j)
    (short : j < (t.node child).edge.length) :
    Inv (t.splitEdge n first child j)
      (Function.update path t.next (path n ++ (t.node child).edge.take j)) := by
  obtain ⟨-, hc, -, -⟩ := inv.labelled.child (T := t.shape) hn kid
  refine ⟨?_, ?_⟩
  · rw [shape_splitEdge hn hc short]
    exact inv.labelled.split hn kid pos short
  · refine
      { nodup := fun b => nodup_lru_splitEdge inv.tracked b
        alloc := ?_
        holders := ?_ }
    · intro b m member
      rw [splitEdge_next]
      rcases (mem_lru_splitEdge hn hc short).mp member with member | ⟨_, rfl⟩
      · exact ⟨(inv.tracked.alloc member).1, Nat.lt_succ_of_lt (inv.tracked.alloc member).2⟩
      · exact ⟨inv.labelled.pos, Nat.lt_succ_self _⟩
    · intro b m
      rw [(splitEdge_node _ hn hc short m).2.2, mem_lru_splitEdge hn hc short]
      split
      · rename_i new
        subst new
        have fresh : t.next ∉ t.lru b := fun member =>
          absurd (inv.tracked.alloc member).2 (Nat.lt_irrefl _)
        simp [fresh]
      · rename_i old
        simp [old, inv.tracked.holders]

/-- Splitting an edge changes nobody's blocks: the holders of the split node hold
both halves. -/
theorem Inv.held_splitEdge (inv : Inv t path) (hn : n < t.next)
    (kid : (t.node n).children.get? first = some child)
    (short : j < (t.node child).edge.length) {b : B} {p : List H} :
    Held (t.splitEdge n first child j)
        (Function.update path t.next (path n ++ (t.node child).edge.take j)) b p ↔
      Held t path b p := by
  obtain ⟨-, hc, -, -⟩ := inv.labelled.child (T := t.shape) hn kid
  have upper := inv.labelled.covers_split_upper (p := p) hn kid (Nat.le_of_lt short)
  have lower := inv.labelled.covers_split_lower (p := p) hn kid (Nat.le_of_lt short)
    (w := path n ++ (t.node child).edge.take j)
  simp only [Held, shape_splitEdge hn hc short, mem_lru_splitEdge hn hc short]
  constructor
  · rintro ⟨c, member | ⟨holds, rfl⟩, covers⟩
    · by_cases here : c = child
      · subst here
        exact ⟨c, member, (lower.mp covers).1⟩
      · exact ⟨c, member, (covers_split_old (inv.tracked.alloc member).2 here).mp covers⟩
    · exact ⟨child, inv.tracked.holders.mp holds, (upper.mp covers).1⟩
  · rintro ⟨c, member, covers⟩
    by_cases here : c = child
    · subst here
      by_cases low : (path n).length + j < p.length
      · exact ⟨c, .inl member, lower.mpr ⟨covers, low⟩⟩
      · exact ⟨t.next, .inr ⟨inv.tracked.holders.mpr member, rfl⟩,
          upper.mpr ⟨covers, Nat.le_of_not_lt low⟩⟩
    · exact ⟨c, .inl member, (covers_split_old (inv.tracked.alloc member).2 here).mpr covers⟩

end Split

end Gateway.RadixTree
