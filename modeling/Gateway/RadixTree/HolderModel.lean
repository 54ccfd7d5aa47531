import Gateway.Lib.Machine
import Gateway.RadixTree.Walk

/-!
The holder model of the prefix tree: when it survives eviction.

The module docstring of `gateway/radix_tree.py` promises that a backend recorded on
a node holds the entire prefix that ends there. `HolderClosed` states it on the
nodes, `Matchable` is its use: every block counted for a backend is reached by a
query. The two are equivalent in every reachable tree (`Inv.matchable_iff`).

Walking, splitting and attaching keep the promise, and so does `remove_backend`.
Eviction need not: `insert` touches a node before its descendants, so the node
is the older of the two in the LRU and goes first.

* `Inv.holderClosed_evict`: one eviction keeps the promise precisely when it is
  `EvictsClosed`, no ancestor goes while its descendant stays.
* `Layout.evictsClosed_iff`: whether it is can be told from the tree before the insert: by the
  length of the inserted sequence, the nodes it runs along, and the room it leaves to
  the nodes beside its way (`KeepsHolderModel`).
* `runOps_holderModel_iff`: every tree of a run keeps the promise precisely when
  every call of the run meets that condition.
* `not_holderModel_two_inserts`: two inserts, of a prompt and of its continuation,
  break it.
-/

namespace Gateway.RadixTree

open Gateway.Trie

variable {H B : Type} [DecidableEq H] [DecidableEq B]

/-- A holder of a node is a holder of every ancestor below the root. -/
def HolderClosed (t : RadixTree H B) : Prop :=
  ∀ b n a, b ∈ (t.node n).holders.keys → a < t.next → Ancestor t.shape a n → a ≠ root →
    b ∈ (t.node a).holders.keys

/-- Every node counted for a backend is reached by a query: the one that spells the
node, on which all blocks of its edge lie. -/
def Matchable (t : RadixTree H B) : Prop :=
  ∀ b n, n ∈ t.lru b → ∃ q, Spells t.shape q n ∧ (t.matchPrefix q).get? b = some q.length

/-- What the module docstring promises of a tree, and what follows from it. -/
def HolderModel (t : RadixTree H B) : Prop := HolderClosed t ∧ Matchable t

/-! ### The promise in terms of held blocks -/

section Closed

variable {t : RadixTree H B} {path : NodeId → List H}

/-- The blocks held by a backend are closed under shortening. -/
def HeldClosed (t : RadixTree H B) (path : NodeId → List H) (b : B) : Prop :=
  ∀ p q, Held t path b p → q ≠ [] → q <+: p → Held t path b q

omit [DecidableEq B] in
/-- The node that covers a held block is in the LRU. -/
theorem Inv.mem_lru_of_held (inv : Inv t path) {b : B} {n : NodeId} {p : List H}
    (held : Held t path b p) (covers : Covers t.shape path n p) : n ∈ t.lru b := by
  obtain ⟨c, member, covers'⟩ := held
  rwa [inv.labelled.covers_unique covers covers']

omit [DecidableEq B] in
theorem Inv.held_path (inv : Inv t path) {b : B} {n : NodeId} (member : n ∈ t.lru b) :
    Held t path b (path n) := by
  have alloc := inv.tracked.alloc member
  exact ⟨n, member, inv.labelled.covers_self alloc.1 alloc.2⟩

omit [DecidableEq B] in
/-- If all blocks up to the end of a node are held, so are its ancestors. -/
theorem Inv.ancestor_held (inv : Inv t path) {b : B} {a n : NodeId} (ha : a < t.next)
    (anc : Ancestor t.shape a n) (below : a ≠ root)
    (whole : ∀ q, q ≠ [] → q <+: path n → Held t path b q) : a ∈ t.lru b := by
  have covers := inv.labelled.covers_self (T := t.shape) (Nat.pos_of_ne_zero below) ha
  refine inv.mem_lru_of_held (whole (path a) ?_ ?_) covers
  · intro empty
    rw [empty] at covers
    exact inv.labelled.not_covers_nil covers
  · exact (inv.labelled.of_ancestor (T := t.shape) ha anc).2.1

omit [DecidableEq B] in
theorem Inv.holderClosed_iff (inv : Inv t path) :
    HolderClosed t ↔ ∀ b, HeldClosed t path b := by
  constructor
  · rintro closed b p q ⟨n, member, covers⟩ nonempty short
    have alloc := inv.tracked.alloc member
    obtain ⟨c, position, covers'⟩ :=
      inv.labelled.covered (T := t.shape) alloc.2 nonempty (short.trans covers.2.2.1)
    refine ⟨c, ?_, covers'⟩
    rcases position with rfl | anc
    · exact member
    · have below : c ≠ root := Nat.ne_of_gt covers'.1
      exact inv.tracked.holders.mp
        (closed b n c (inv.tracked.holders.mpr member) covers'.2.1 anc below)
  · intro closed b n a holds ha anc below
    have member := inv.tracked.holders.mp holds
    refine inv.tracked.holders.mpr (inv.ancestor_held ha anc below ?_)
    intro q nonempty short
    exact closed b _ q (inv.held_path member) nonempty short

/-- The promise on the nodes and its use by queries are the same. -/
theorem Inv.matchable_iff (inv : Inv t path) : Matchable t ↔ HolderClosed t := by
  constructor
  · intro matchable b n a holds ha anc below
    have member := inv.tracked.holders.mp holds
    obtain ⟨q, spells, reaches⟩ := matchable b n member
    obtain ⟨_, rfl⟩ := inv.labelled.of_spells spells
    obtain ⟨m, longest, result⟩ := inv.matchPrefix (path n) b
    have whole : m = (path n).length := by
      rw [reaches] at result
      split at result
      · exact (Option.some.inj result).symm
      · cases result
    refine inv.tracked.holders.mpr (inv.ancestor_held ha anc below ?_)
    intro q nonempty short
    have held := longest.held q.length (List.length_pos_of_ne_nil nonempty)
      (whole ▸ short.length_le)
    rwa [List.nil_append, ← List.prefix_iff_eq_take.mp short] at held
  · intro closed b n member
    have alloc := inv.tracked.alloc member
    refine ⟨path n, inv.labelled.spells alloc.2, ?_⟩
    obtain ⟨m, longest, result⟩ := inv.matchPrefix (path n) b
    have nonempty : 0 < (path n).length := by
      have covers := inv.labelled.covers_self (T := t.shape) alloc.1 alloc.2
      refine List.length_pos_of_ne_nil fun empty => ?_
      rw [empty] at covers
      exact inv.labelled.not_covers_nil covers
    have whole : m = (path n).length := by
      rcases Nat.lt_or_ge m (path n).length with short | long
      · refine absurd ?_ (longest.stop short)
        refine inv.holderClosed_iff.mp closed b _ _ (inv.held_path member) ?_ ?_
        · rw [List.nil_append]
          intro empty
          have := congrArg List.length empty
          rw [List.length_take, List.length_nil] at this
          omega
        · exact List.take_prefix _ _
      · exact Nat.le_antisymm longest.le long
    rw [result, whole, if_pos nonempty]

theorem Inv.holderModel_iff (inv : Inv t path) : HolderModel t ↔ HolderClosed t :=
  and_iff_left_of_imp inv.matchable_iff.mpr

end Closed

/-! ### The calls -/

section Calls

variable {t : RadixTree H B} {path : NodeId → List H}

/-- Everything in `insert` before the eviction keeps the promise: it adds the
prefixes of one sequence. -/
theorem Inv.holderClosed_touch (inv : Inv t path) (closed : HolderClosed t) (h : List H) (b : B) :
    HolderClosed (t.touch h b) := by
  obtain ⟨path', inv', held⟩ := inv.touch h b
  refine inv'.holderClosed_iff.mpr fun b' p q held_p nonempty short => ?_
  rw [held] at held_p ⊢
  rcases held_p with before | ⟨same, _, on⟩
  · exact .inl (inv.holderClosed_iff.mp closed b' p q before nonempty short)
  · exact .inr ⟨same, nonempty, short.trans on⟩

theorem Inv.holderClosed_removeBackend (inv : Inv t path) (closed : HolderClosed t) (b : B) :
    HolderClosed (t.removeBackend b) := by
  refine (inv.removeBackend b).holderClosed_iff.mpr fun b' p q held nonempty short => ?_
  rw [held_removeBackend] at held ⊢
  exact ⟨inv.holderClosed_iff.mp closed b' p q held.1 nonempty short, held.2⟩

/-- Dropping part of an LRU keeps the promise precisely when no dropped node is an
ancestor of a kept one. -/
theorem Inv.holderClosed_dropFrom (inv : Inv t path) (closed : HolderClosed t) {b : B}
    {popped kept : List NodeId} (parts : t.lru b = popped ++ kept) :
    HolderClosed (t.dropFrom b popped kept) ↔
      ∀ a ∈ popped, ∀ n ∈ kept, ¬ Ancestor t.shape a n := by
  have inv' := inv.dropFrom parts
  have nodup := inv.tracked.nodup b
  rw [parts] at nodup
  have disjoint := List.disjoint_of_nodup_append nodup
  have lru : (t.dropFrom b popped kept).lru b = kept := Function.update_self ..
  constructor
  · intro closed' a gone n stays anc
    have alloc := inv.tracked.alloc (b := b) (parts ▸ List.mem_append_left _ gone)
    have holds : b ∈ ((t.dropFrom b popped kept).node n).holders.keys :=
      inv'.tracked.holders.mpr (by rwa [lru])
    have := closed' b n a holds alloc.2 (by rwa [shape_dropFrom]) (Nat.ne_of_gt alloc.1)
    rw [inv'.tracked.holders, lru] at this
    exact disjoint gone this
  · intro safe b' n a holds ha anc below
    rw [shape_dropFrom] at anc
    have stays := inv'.tracked.holders.mp holds
    refine inv'.tracked.holders.mpr ?_
    by_cases same : b' = b
    · subst same
      rw [lru] at stays ⊢
      have member : n ∈ t.lru b' := parts ▸ List.mem_append_right _ stays
      have := inv.tracked.holders.mp
        (closed b' n a (inv.tracked.holders.mpr member) ha anc below)
      rw [parts] at this
      rcases List.mem_append.mp this with gone | kept
      · exact absurd anc (safe a gone n stays)
      · exact kept
    · have other : (t.dropFrom b popped kept).lru b' = t.lru b' := Function.update_of_ne same ..
      rw [other] at stays ⊢
      exact inv.tracked.holders.mp
        (closed b' n a (inv.tracked.holders.mpr stays) ha anc below)

end Calls

/-! ### Eviction -/

section Evict

/-- What `_evict(b)` needs to find: whenever a node stands before one of its
descendants in the LRU of `b` and has to go, because the blocks from it on exceed
the cap, the blocks from the descendant on exceed the cap too. -/
def EvictsClosed (t : RadixTree H B) (b : B) : Prop :=
  ∀ i j a n, i < j → (t.lru b)[i]? = some a → (t.lru b)[j]? = some n → Ancestor t.shape a n →
    t.cap < blocks t.node ((t.lru b).drop i) → t.cap < blocks t.node ((t.lru b).drop j)

omit [DecidableEq H] [DecidableEq B] in
theorem blocks_drop_le (nodes : NodeId → Node H B) (l : List NodeId) (i : Nat) :
    blocks nodes (l.drop i) ≤ blocks nodes l := by
  have := congrArg (blocks nodes) (List.take_append_drop i l)
  simp only [blocks, List.map_append, List.sum_append] at this ⊢
  omega

omit [DecidableEq H] [DecidableEq B] in
/-- A node goes precisely when the blocks from it on exceed the cap. -/
theorem lt_overflow_length (cap : Int) (nodes : NodeId → Node H B) {l : List NodeId} {i : Nat}
    (bound : i < l.length) :
    i < (overflow cap nodes l).length ↔ cap < blocks nodes (l.drop i) := by
  induction l generalizing i with
  | nil => cases bound
  | cons n rest ih =>
      simp only [overflow]
      split
      · rename_i exceeds
        cases i with
        | zero => simpa using exceeds
        | succ i =>
            rw [List.length_cons, Nat.succ_lt_succ_iff, List.drop_succ_cons]
            exact ih (Nat.lt_of_succ_lt_succ bound)
      · rename_i fits
        have := blocks_drop_le nodes (n :: rest) i
        simp only [List.length_nil, Nat.not_lt_zero, false_iff, not_lt]
        omega

omit [DecidableEq B] in
theorem evictsClosed_iff (t : RadixTree H B) (b : B) :
    EvictsClosed t b ↔
      ∀ a ∈ overflow t.cap t.node (t.lru b), ∀ n ∈ survivors t.cap t.node (t.lru b),
        ¬ Ancestor t.shape a n := by
  have parts := overflow_append_survivors t.cap t.node (t.lru b)
  set popped := overflow t.cap t.node (t.lru b) with popped_eq
  set kept := survivors t.cap t.node (t.lru b)
  have goes : ∀ i x, (t.lru b)[i]? = some x →
      (i < popped.length ↔ t.cap < blocks t.node ((t.lru b).drop i)) := by
    intro i x here
    exact lt_overflow_length _ _ (List.getElem?_eq_some_iff.mp here).1
  constructor
  · intro closed a gone n stays anc
    obtain ⟨i, bound, at_i⟩ := List.mem_iff_getElem.mp gone
    obtain ⟨j, bound', at_j⟩ := List.mem_iff_getElem.mp stays
    have here : (t.lru b)[i]? = some a := by
      rw [← parts, List.getElem?_append_left bound, List.getElem?_eq_getElem bound, at_i]
    have there : (t.lru b)[popped.length + j]? = some n := by
      rw [← parts, List.getElem?_append_right (Nat.le_add_right _ _), Nat.add_sub_cancel_left,
        List.getElem?_eq_getElem bound', at_j]
    have exceeds := closed i (popped.length + j) a n (by omega) here there anc
      ((goes i a here).mp bound)
    have := (goes _ n there).mpr exceeds
    omega
  · intro safe i j a n _ here there anc exceeds
    have bound := (goes i a here).mpr exceeds
    by_contra fits
    have beyond : popped.length ≤ j := Nat.le_of_not_lt fun h => fits ((goes j n there).mp h)
    refine safe a ?_ n ?_ anc
    · rw [← parts, List.getElem?_append_left bound] at here
      exact List.mem_of_getElem? here
    · rw [← parts, List.getElem?_append_right beyond] at there
      exact List.mem_of_getElem? there

variable {t : RadixTree H B} {path : NodeId → List H}

/-- **One eviction keeps the promise precisely when it is closed.** -/
theorem Inv.holderClosed_evict (inv : Inv t path) (closed : HolderClosed t) (b : B) :
    HolderClosed (t.evict b) ↔ EvictsClosed t b := by
  rw [evict_eq, evictsClosed_iff,
    inv.holderClosed_dropFrom closed (overflow_append_survivors _ _ _).symm]

end Evict

/-! ### The condition, on the tree before the insert -/

/-- The blocks beside the way of `h` that `b` holds, from the node at index `i` of them on. -/
def blocksBeside (t : RadixTree H B) (h : List H) (b : B) (i : Nat) : Nat :=
  (((beside t.node h (t.lru b)).drop i).map (beyond t.node h)).sum

/-- Where a node beside the way of `h` stands in the LRU before one of its descendants, the cap
has room beside `h` for everything from the node on, or not even from the descendant on. -/
def RoomNotBetween (t : RadixTree H B) (h : List H) (b : B) : Prop :=
  ∀ i j a n, i < j → (beside t.node h (t.lru b))[i]? = some a →
    (beside t.node h (t.lru b))[j]? = some n → Ancestor t.shape a n →
    ((h.length + t.blocksBeside h b i : Nat) : Int) ≤ t.cap ∨
      t.cap < ((h.length + t.blocksBeside h b j : Nat) : Int)

/-- The condition on a call: an inserted sequence fits the cap, and the room beside it does not
end between a node and its descendant; or not even its last segment fits, and all goes. -/
def KeepsHolderModel (t : RadixTree H B) : Op H B → Prop
  | .insert h b => ((h.length : Int) ≤ t.cap ∧ RoomNotBetween t h b) ∨
      ∀ l, (segments t.node h).getLast? = some l → t.cap < (l : Int)
  | .remove _ => True

section Condition

variable {t t' : RadixTree H B} {h : List H} {b : B} {trail : List NodeId}

omit [DecidableEq B] in
theorem Layout.length_trail (layout : Layout t h b trail t') :
    trail.length = (segments t.node h).length := by
  rw [← layout.size_trail, List.length_map]

omit [DecidableEq B] in
theorem Layout.blocks_trail (layout : Layout t h b trail t') (k : Nat) :
    blocks t'.node ((t'.lru b).drop ((beside t.node h (t.lru b)).length + k)) =
      ((segments t.node h).drop k).sum := by
  rw [layout.lru, List.drop_length_add_append, blocks, List.map_drop, layout.size_trail]

omit [DecidableEq B] in
theorem Layout.blocks_beside (layout : Layout t h b trail t') {i : Nat}
    (before : i < (beside t.node h (t.lru b)).length) :
    blocks t'.node ((t'.lru b).drop i) = h.length + t.blocksBeside h b i := by
  have behind : blocks t'.node trail = h.length := by
    rw [blocks, layout.size_trail, sum_segments]
  have front : blocks t'.node ((beside t.node h (t.lru b)).drop i) = t.blocksBeside h b i :=
    congrArg List.sum (List.map_congr_left fun m member =>
      layout.size_beside m (List.mem_of_mem_drop member))
  rw [layout.lru, List.drop_append_of_le_length (Nat.le_of_lt before)]
  simp only [blocks, List.map_append, List.sum_append] at behind front ⊢
  omega

omit [DecidableEq B] in
/-- Where not even the last segment fits, no part of the LRU does. -/
theorem Layout.exceeds (layout : Layout t h b trail t') (nonempty : h ≠ [])
    (large : ∀ l, (segments t.node h).getLast? = some l → t.cap < (l : Int)) {j : Nat}
    (bound : j < (t'.lru b).length) : t.cap < blocks t'.node ((t'.lru b).drop j) := by
  have some_segment : segments t.node h ≠ [] := by
    intro none
    have total := sum_segments t.node h
    rw [none, List.sum_nil] at total
    exact nonempty (List.length_eq_zero_iff.mp total.symm)
  have count := List.length_pos_of_ne_nil some_segment
  have last := layout.blocks_trail ((segments t.node h).length - 1)
  rw [List.drop_length_sub_one some_segment, List.sum_singleton] at last
  have behind := blocks_drop_le t'.node ((t'.lru b).drop j)
    ((beside t.node h (t.lru b)).length + ((segments t.node h).length - 1) - j)
  rw [layout.lru, List.length_append, layout.length_trail] at bound
  rw [List.drop_drop, Nat.add_sub_of_le (by omega), last] at behind
  have := large _ (List.getLast?_eq_some_getLast some_segment)
  omega

omit [DecidableEq B] in
/-- A node that has to go while the hashes fit is beside their way. -/
theorem Layout.index_lt (layout : Layout t h b trail t') (cap : t'.cap = t.cap)
    (fits : (h.length : Int) ≤ t.cap) {i : Nat}
    (exceeds : t'.cap < blocks t'.node ((t'.lru b).drop i)) :
    i < (beside t.node h (t.lru b)).length := by
  by_contra beyond_i
  obtain ⟨k, rfl⟩ := Nat.exists_eq_add_of_le (Nat.le_of_not_lt beyond_i)
  have total := congrArg List.sum (List.take_append_drop k (segments t.node h))
  rw [List.sum_append, sum_segments] at total
  rw [layout.blocks_trail, cap] at exceeds
  omega

omit [DecidableEq B] in
/-- If the hashes do not fit, the first node of the trail goes, and with it has to go the last. -/
theorem Layout.last_exceeds (layout : Layout t h b trail t') (cap : t'.cap = t.cap)
    (closed : EvictsClosed t' b) (large : t.cap < (h.length : Int)) (l : Nat)
    (last : (segments t.node h).getLast? = some l) : t.cap < (l : Int) := by
  obtain ⟨front, divided⟩ := List.getLast?_eq_some_iff.mp last
  have total := sum_segments t.node h
  rw [divided, List.sum_append, List.sum_singleton] at total
  have count := layout.length_trail
  rw [divided, List.length_append, List.length_singleton] at count
  have all := layout.blocks_trail 0
  have end_ := layout.blocks_trail front.length
  rw [divided, List.drop_zero, List.sum_append, List.sum_singleton] at all
  rw [divided, List.drop_left, List.sum_singleton] at end_
  have at_trail : ∀ k (bound : k < trail.length),
      (t'.lru b)[(beside t.node h (t.lru b)).length + k]? = some trail[k] := by
    intro k bound
    rw [layout.lru, List.getElem?_append_right (Nat.le_add_right _ _), Nat.add_sub_cancel_left,
      List.getElem?_eq_getElem bound]
  rcases Nat.eq_zero_or_pos front.length with alone | more
  · rw [List.length_eq_zero_iff.mp alone, List.sum_nil] at total
    omega
  · have anc := List.pairwise_iff_getElem.mp layout.chain 0 front.length (by omega) (by omega) more
    have goes := closed _ _ _ _ (Nat.add_lt_add_left more _) (at_trail 0 (by omega))
      (at_trail front.length (by omega)) anc
    rw [all, end_, cap, total] at goes
    exact goes large

omit [DecidableEq B] in
/-- Whether the eviction at the end of an insert is closed can be told before it. -/
theorem Layout.evictsClosed_iff (layout : Layout t h b trail t') (cap : t'.cap = t.cap)
    (nonempty : h ≠ []) : EvictsClosed t' b ↔ KeepsHolderModel t (.insert h b) := by
  have at_beside : ∀ {i : Nat} {a : NodeId}, (beside t.node h (t.lru b))[i]? = some a →
      (t'.lru b)[i]? = some a := by
    intro i a here
    rw [layout.lru, List.getElem?_append_left (List.getElem?_eq_some_iff.mp here).1, here]
  constructor
  · intro closed
    by_cases fits : (h.length : Int) ≤ t.cap
    · refine .inl ⟨fits, fun i j a n less here there anc => ?_⟩
      rw [← layout.blocks_beside (List.getElem?_eq_some_iff.mp here).1,
        ← layout.blocks_beside (List.getElem?_eq_some_iff.mp there).1, ← cap]
      refine (le_or_gt _ _).imp_right ?_
      exact closed i j a n less (at_beside here) (at_beside there)
        ((layout.above a (List.mem_of_getElem? here) n (List.mem_of_getElem? there)).mpr anc)
    · exact .inr (layout.last_exceeds cap closed (not_le.mp fits))
  · rintro (⟨fits, room⟩ | large) i j a n less here there anc exceeds
    · have before : i < (beside t.node h (t.lru b)).length :=
        layout.index_lt cap fits exceeds
      have here' : (beside t.node h (t.lru b))[i]? = some a := by
        rwa [layout.lru, List.getElem?_append_left before] at here
      rw [layout.lru] at there
      by_cases beyond_j : j < (beside t.node h (t.lru b)).length
      · rw [List.getElem?_append_left beyond_j] at there
        have anc' := (layout.above a (List.mem_of_getElem? here') n
          (List.mem_of_getElem? there)).mp anc
        rw [cap, layout.blocks_beside before] at exceeds
        rw [cap, layout.blocks_beside beyond_j]
        exact (room i j a n less here' there anc').resolve_left (not_le.mpr exceeds)
      · rw [List.getElem?_append_right (Nat.le_of_not_lt beyond_j)] at there
        exact absurd anc
          (layout.apart a (List.mem_of_getElem? here') n (List.mem_of_getElem? there))
    · rw [cap]
      exact layout.exceeds nonempty large (List.getElem?_eq_some_iff.mp there).1

end Condition

/-! ### Runs -/

theorem Inv.holderModel_apply {t : RadixTree H B} {path : NodeId → List H} (inv : Inv t path)
    (good : HolderModel t) (op : Op H B) : HolderModel (t.apply op) ↔ KeepsHolderModel t op := by
  obtain ⟨path', inv'⟩ := inv.apply op
  rw [inv'.holderModel_iff]
  cases op with
  | insert h b =>
      simp only [RadixTree.apply, RadixTree.insert]
      by_cases empty : h = []
      · subst empty
        have stays : KeepsHolderModel t (.insert [] b) := .inr fun l last => by
          simp [segments, segmentsOn, way] at last
        simp [good.1, stays]
      · obtain ⟨walked, trail, inv_walked, layout⟩ := inv.layout_touch h b
        rw [← layout.evictsClosed_iff (cap_touch t h b) empty]
        simp only [List.isEmpty_iff, empty, if_false]
        exact inv_walked.holderClosed_evict (inv.holderClosed_touch good.1 h b) b
  | remove b =>
      simp only [KeepsHolderModel, iff_true]
      exact inv.holderClosed_removeBackend good.1 b

theorem holderModel_init (cap : Int) : HolderModel (init cap : RadixTree H B) := by
  refine (init_inv cap).holderModel_iff.mpr fun b n a holds => ?_
  simp [init, Node.new, Dict.empty, Dict.keys] at holds

/-- **The holder model over all runs.** Every tree that a run visits keeps the
promise precisely when every call of the run meets its condition. -/
theorem runOps_holderModel_iff (cap : Int) (ops : List (Op H B)) :
    (∀ done, done <+: ops → HolderModel (runOps cap done)) ↔
      ∀ done op, done ++ [op] <+: ops → KeepsHolderModel (runOps cap done) op := by
  refine Machine.foldl_good_iff (I := fun t => ∃ path, Inv t path) ?_ ?_ ⟨_, init_inv cap⟩
    (holderModel_init cap) ops
  · rintro t op ⟨path, inv⟩
    exact inv.apply op
  · rintro t op ⟨path, inv⟩ good
    exact inv.holderModel_apply good op

/-- A prompt of two blocks, then its continuation by one more, within a cap of two:
the segment of the prompt goes, the continuation stays, and no query reaches it. -/
theorem not_holderModel_two_inserts :
    let t : RadixTree Nat String := runOps 2 [.insert [1, 2] "b1", .insert [1, 2, 3] "b1"]
    t.heldBlocks "b1" = 1 ∧ t.matchPrefix [1, 2, 3] = .empty ∧
      ¬ HolderClosed t ∧ ¬ Matchable t := by
  intro t
  have broken : ¬ HolderClosed t := by
    intro closed
    have anc : Ancestor t.shape 1 2 := .kid (k := 3) (by decide)
    exact absurd (closed "b1" 2 1 (by decide) (by decide) anc (by decide)) (by decide)
  obtain ⟨path, inv⟩ := runOps_inv (H := Nat) (B := String) 2
    [.insert [1, 2] "b1", .insert [1, 2, 3] "b1"]
  exact ⟨by decide, by decide, broken, fun matchable => broken (inv.matchable_iff.mp matchable)⟩

end Gateway.RadixTree
