import Gateway.RadixTree.Match

/-!
An insert survives the eviction it causes.

The walk of `insert(h, b)` touches the nodes on the way of `h`, so they end up behind all
others in the LRU of `b` (`Recent`, kept by every hold of a node on the way:
`Recent.hold`). Together they have as many blocks as `h` has hashes, so if `h` fits the
cap, eviction stops before the first of them (`Recent.mem_survivors`).

* **`insert_survives`.** Right after `insert(h, b)` with `len(h) <= cap` all of `h` is
  matched for `b`, and nothing that another backend is asked for has changed.
* **`longestPrefix_inserts`.** After inserts whose blocks for `b` fit the cap, `match(q)[b]` is
  the longest prefix of `q` that some insert for `b` has in common with it.
-/

namespace Gateway.RadixTree

open Gateway.Trie

variable {H B : Type} [DecidableEq H] [DecidableEq B]

/-! ### Recently used nodes -/

/-- Behind a node on the way of `w`, an LRU has only nodes on the way of `w`. -/
def Recent (path : NodeId → List H) (w : List H) (lru : List NodeId) : Prop :=
  lru.Pairwise fun x y => path x <+: w → path y <+: w

omit [DecidableEq H] in
/-- Touching `c`, which becomes the one more node on the way. -/
theorem Recent.touch {path path' : NodeId → List H} {w w' : List H} {lru : List NodeId} {c : NodeId}
    (recent : Recent path w lru) (nodup : lru.Nodup) (last : path' c <+: w')
    (same : ∀ x ∈ lru, x ≠ c → (path' x <+: w' ↔ path x <+: w)) :
    Recent path' w' (lru.erase c ++ [c]) := by
  refine List.pairwise_append.mpr ⟨?_, List.pairwise_singleton _ _, ?_⟩
  · refine (List.Pairwise.sublist List.erase_sublist recent).imp_of_mem ?_
    intro x y x_in y_in ordered on
    obtain ⟨x_ne, x_in⟩ := (nodup.mem_erase_iff).mp x_in
    obtain ⟨y_ne, y_in⟩ := (nodup.mem_erase_iff).mp y_in
    exact (same y y_in y_ne).mpr (ordered ((same x x_in x_ne).mp on))
  · intro x _ y y_in _
    rw [List.mem_singleton.mp y_in]
    exact last

omit [DecidableEq B] in
/-- The nodes on the way survive an eviction that they fit. -/
theorem Recent.mem_survivors {path : NodeId → List H} {w : List H} {lru : List NodeId}
    (recent : Recent path w lru) {cap : Int} {nodes : NodeId → Node H B}
    (fits : (blocks nodes (lru.filter fun x => decide (path x <+: w)) : Int) ≤ cap) {c : NodeId}
    (member : c ∈ lru) (on : path c <+: w) : c ∈ survivors cap nodes lru := by
  induction lru with
  | nil => cases member
  | cons n rest ih =>
      obtain ⟨behind, recent⟩ := List.pairwise_cons.mp recent
      simp only [survivors]
      split
      · rename_i exceeds
        by_cases first : path n <+: w
        · -- then everything from here on is on the way, and fits
          have all : (n :: rest).filter (fun x => decide (path x <+: w)) = n :: rest := by
            rw [List.filter_eq_self]
            intro x x_in
            rcases List.mem_cons.mp x_in with rfl | x_in
            · simpa using first
            · simpa using behind x x_in first
          rw [all] at fits
          exact absurd fits (not_le.mpr exceeds)
        · rw [List.filter_cons_of_neg (by simpa using first)] at fits
          rcases List.mem_cons.mp member with rfl | member
          · exact absurd on first
          · exact ih recent fits member
      · exact member

section Walk

variable {t : RadixTree H B} {path : NodeId → List H} {b : B} {n : NodeId}

omit [DecidableEq H] in
theorem lru_hold (t : RadixTree H B) (b : B) (n : NodeId) :
    (t.hold b n).lru b = (t.lru b).erase n ++ [n] := by
  by_cases member : n ∈ t.lru b
  · simp [RadixTree.hold, track, modify, member]
  · simp [RadixTree.hold, track, modify, member, List.erase_of_not_mem]

omit [DecidableEq H] in
theorem lru_track_erase (nodup : (t.lru b).Nodup) (b' : B) (m : NodeId) :
    ((t.track b' m).lru b).erase m = (t.lru b).erase m := by
  by_cases same : b = b'
  · subst same
    by_cases member : m ∈ t.lru b
    · have gone : m ∉ (t.lru b).erase m := fun still => (nodup.mem_erase_iff.mp still).1 rfl
      simp [track, member, List.erase_append_right _ gone]
    · simp [track, member, List.erase_append_right _ member, List.erase_of_not_mem]
  · simp [track, same]

omit [DecidableEq H] in
theorem lru_trackAll_erase (nodup : (t.lru b).Nodup) (bs : List B) (m : NodeId) :
    ((t.trackAll bs m).lru b).erase m = (t.lru b).erase m := by
  induction bs generalizing t with
  | nil => rfl
  | cons b' bs ih => exact (ih (nodup_lru_track nodup)).trans (lru_track_erase nodup b' m)

/-- A split puts at most the new node into an LRU. -/
theorem lru_splitEdge_erase (tracked : Tracked t) (n : NodeId) (first : H) (child j : NodeId) :
    ((t.splitEdge n first child j).lru b).erase t.next = (t.lru b).erase t.next := by
  simp only [splitEdge]
  rw [lru_trackAll_erase]
  · cases (t.node child).edge.drop j <;> rfl
  · cases (t.node child).edge.drop j <;> exact tracked.nodup b

/-- Holding the next node on the way of an insert: no other lies between it and the node
before. -/
theorem Inv.recent_hold (inv : Inv t path) (recent : Recent path (path n) (t.lru b))
    (t' : RadixTree H B) (path' : NodeId → List H) {c : NodeId}
    (lru : (t'.lru b).erase c = (t.lru b).erase c)
    (old : ∀ x ∈ t.lru b, x ≠ c → path' x = path x) (below : path n <+: path' c)
    (between : ∀ x ∈ t.lru b, x ≠ c → path x <+: path' c → path x <+: path n) :
    Recent path' (path' c) ((t'.hold b c).lru b) := by
  rw [lru_hold, lru]
  refine recent.touch (inv.tracked.nodup b) List.prefix_rfl ?_
  intro x member ne
  rw [old x member ne]
  exact ⟨between x member ne, fun on => on.trans below⟩

/-- Holding a new node on a way that was clear. -/
theorem Inv.recent_new (inv : Inv t path) (recent : Recent path (path n) (t.lru b))
    (t' : RadixTree H B) {k : H} {w : List H} (clear : Clear t.shape path n k w) (first : [k] <+: w)
    (lru : (t'.lru b).erase t.next = (t.lru b).erase t.next) :
    Recent (Function.update path t.next (path n ++ w)) (path n ++ w) ((t'.hold b t.next).lru b) := by
  have new : Function.update path t.next (path n ++ w) t.next = path n ++ w := Function.update_self ..
  have recent' := inv.recent_hold recent t' (Function.update path t.next (path n ++ w)) lru
    (fun x _ ne => Function.update_of_ne ne ..)
  rw [new] at recent'
  apply recent'
  · exact List.prefix_append _ _
  · intro x member _ on
    exact clear.above first (inv.tracked.alloc member).2 on

theorem Inv.recent_attachHold (inv : Inv t path) (recent : Recent path (path n) (t.lru b))
    (hn : n < t.next) {k : H} (tail : List H) (free : (t.node n).children.get? k = none) :
    Recent (Function.update path t.next (path n ++ k :: tail)) (path n ++ k :: tail)
      (((t.attachLeaf n k (k :: tail)).hold b t.next).lru b) :=
  inv.recent_new recent (t.attachLeaf n k (k :: tail))
    (inv.labelled.clear_free (T := t.shape) hn free) (by simp) rfl

/-- The walk of `insert`: it ends in a node labelled with all that was inserted, and the
nodes on the way to it are the most recently used ones of the backend. -/
theorem Inv.recent_insertLoop (b : B) (fuel : Nat) (inv : Inv t path) (hn : n < t.next)
    (recent : Recent path (path n) (t.lru b)) {rest : List H} (enough : rest.length ≤ fuel) :
    ∃ path', Inv (RadixTree.insertLoop b fuel t n rest) path' ∧
      (∃ m < (RadixTree.insertLoop b fuel t n rest).next, path' m = path n ++ rest) ∧
      Recent path' (path n ++ rest) ((RadixTree.insertLoop b fuel t n rest).lru b) := by
  have walk := Inv.insertLoop_rule (b := b)
    (P := fun t path n rest t' path' => Recent path (path n) (t.lru b) →
      (∃ m < t'.next, path' m = path n ++ rest) ∧ Recent path' (path n ++ rest) (t'.lru b))
    ⟨?done, ?attach, ?enter, ?split⟩ fuel inv hn enough
  · obtain ⟨path', inv', keeps⟩ := walk
    exact ⟨path', inv', keeps recent⟩
  case done =>
    intro t path n _ hn recent
    rw [List.append_nil]
    exact ⟨⟨n, hn, rfl⟩, recent⟩
  case attach =>
    intro t path n k tail inv hn free recent
    refine ⟨⟨t.next, ?_, Function.update_self ..⟩, inv.recent_attachHold recent hn tail free⟩
    exact Nat.lt_succ_self _
  case enter =>
    intro t path n first child rest t' path' inv hn kid keeps recent
    have label : path child = path n ++ (t.node child).edge :=
      (inv.labelled.child (T := t.shape) hn kid).2.2.1
    rw [← List.append_assoc, ← label]
    apply keeps
    refine inv.recent_hold recent t path rfl (fun _ _ _ => rfl) ?_ ?_
    · rw [label]
      exact List.prefix_append _ _
    · intro x member ne on
      exact inv.labelled.above_kid (T := t.shape) hn kid (inv.tracked.alloc member).2 ne on
  case split =>
    intro t path n first child j rest t' path' inv hn kid pos short _ keeps recent
    rw [Function.update_self, List.append_assoc] at keeps
    apply keeps
    exact inv.recent_new recent (t.splitEdge n first child j)
      (inv.labelled.clear_split (T := t.shape) hn kid short)
      (inv.labelled.split_first (T := t.shape) hn kid pos)
      (lru_splitEdge_erase inv.tracked n first child _)

theorem Inv.recent_touch (inv : Inv t path) (h : List H) (b : B) :
    ∃ path', Inv (t.touch h b) path' ∧ (∃ m < (t.touch h b).next, path' m = h) ∧
      Recent path' h ((t.touch h b).lru b) := by
  have ticked : Inv { t with clock := t.clock + 1 } path :=
    ⟨inv.labelled, inv.tracked.nodup, inv.tracked.alloc, inv.tracked.holders⟩
  have start : Recent path (path root) (t.lru b) := by
    -- the root is in no LRU
    refine List.Pairwise.imp_of_mem (R := fun _ _ => True) ?_
      (List.pairwise_of_forall fun _ _ => trivial)
    intro x y x_in _ _ on
    obtain ⟨pos, alloc⟩ := inv.tracked.alloc x_in
    rw [inv.labelled.root, List.prefix_nil, ← inv.labelled.root] at on
    exact absurd (inv.labelled.inj alloc inv.labelled.pos on) (Nat.ne_of_gt pos)
  obtain ⟨path', inv', ends, recent⟩ :=
    ticked.recent_insertLoop b h.length (n := root) inv.labelled.pos start (Nat.le_refl _)
  rw [inv.labelled.root, List.nil_append] at ends recent
  exact ⟨path', inv', ends, recent⟩

omit [DecidableEq B] in
/-- The nodes on the way of `h` have at most as many blocks as `h` has hashes. -/
theorem Inv.blocks_on_le (inv : Inv t path) (b : B) (h : List H) :
    blocks t.node ((t.lru b).filter fun x => decide (path x <+: h)) ≤ h.length := by
  have alloc : ∀ c ∈ (t.lru b).filter (fun x => decide (path x <+: h)), 0 < c ∧ c < t.next :=
    fun c member => inv.tracked.alloc (List.mem_filter.mp member).1
  have card := inv.labelled.card_biUnion_positions ((inv.tracked.nodup b).filter _) alloc
  change _ = blocks t.node _ at card
  rw [← card]
  calc (((t.lru b).filter fun x => decide (path x <+: h)).toFinset.biUnion
        (positions t.shape path)).card
      ≤ ((Finset.range h.length).image fun i => h.take (i + 1)).card := by
        refine Finset.card_le_card fun p member => ?_
        obtain ⟨c, c_in, on⟩ := Finset.mem_biUnion.mp member
        rw [List.mem_toFinset] at c_in
        obtain ⟨pos, below⟩ := alloc c c_in
        have covers := (inv.labelled.mem_positions (T := t.shape) pos below).mp on
        have part : p <+: h := covers.2.2.1.trans (by simpa using (List.mem_filter.mp c_in).2)
        have nonempty : p ≠ [] := by
          rintro rfl
          exact inv.labelled.not_covers_nil covers
        have long : 0 < p.length := List.length_pos_iff.mpr nonempty
        have short := part.length_le
        refine Finset.mem_image.mpr ⟨p.length - 1, Finset.mem_range.mpr (by omega), ?_⟩
        rw [Nat.sub_add_cancel long]
        exact (List.prefix_iff_eq_take.mp part).symm
    _ ≤ (Finset.range h.length).card := Finset.card_image_le
    _ = h.length := Finset.card_range _

/-- What `insert(h, b)` leaves of `h` to `b`: all of it, if it fits the cap. -/
theorem Inv.held_insert (inv : Inv t path) {h : List H} (fits : (h.length : Int) ≤ t.cap) (b : B) :
    ∃ path', Inv ((t.touch h b).evict b) path' ∧
      ∀ p, p ≠ [] → p <+: h → Held ((t.touch h b).evict b) path' b p := by
  obtain ⟨path', inv', ⟨m, alloc, label⟩, recent⟩ := inv.recent_touch h b
  obtain ⟨path'', inv'', held⟩ := inv.touch h b
  refine ⟨path', inv'.evict b, fun p nonempty part => ?_⟩
  obtain ⟨c, member, covers⟩ := (held b p).mpr (.inr ⟨rfl, nonempty, part⟩)
  have same := inv''.labelled.unique inv'.labelled covers.2.1
  have covers' : Covers (t.touch h b).shape path' c p := by
    rw [Covers, ← same]
    exact covers
  have on : path' c <+: h := by
    rw [← label] at part ⊢
    exact inv'.labelled.covers_below covers' alloc part
  have fits' : (blocks (t.touch h b).node
      (((t.touch h b).lru b).filter fun x => decide (path' x <+: h)) : Int) ≤ (t.touch h b).cap := by
    rw [cap_touch]
    exact le_trans (Int.ofNat_le.mpr (inv'.blocks_on_le b h)) fits
  rw [evict_eq, held_dropFrom_self]
  exact ⟨c, recent.mem_survivors fits' member on, covers'⟩

end Walk

/-- `match` depends only on which blocks are held. -/
theorem Inv.get?_matchPrefix_congr {t t' : RadixTree H B} {path path' : NodeId → List H}
    (inv : Inv t path) (inv' : Inv t' path') {b : B}
    (same : ∀ p, Held t' path' b p ↔ Held t path b p) (q : List H) :
    (t'.matchPrefix q).get? b = (t.matchPrefix q).get? b := by
  obtain ⟨m, longest, entry⟩ := inv.matchPrefix q b
  obtain ⟨m', longest', entry'⟩ := inv'.matchPrefix q b
  have longest'' : LongestHeld t path b [] q m' :=
    ⟨longest'.le, fun i pos le => (same _).mp (longest'.held i pos le),
      fun more held => longest'.stop more ((same _).mpr held)⟩
  rw [entry, entry', longest.unique longest'']

/-- **An insert survives its own eviction, and touches nobody else.** In every reachable
tree, right after `insert(h, b)` of a non-empty `h` no longer than the cap, `match(h)` has
the length of `h` for `b`; and for every other backend every match and `held_blocks` are
as before. -/
theorem insert_survives (cap : Int) (ops : List (Op H B)) (h : List H) (b : B) (nonempty : h ≠ [])
    (fits : (h.length : Int) ≤ cap) :
    let t := runOps cap ops
    ((t.insert h b).matchPrefix h).get? b = some h.length ∧
      ∀ b', b' ≠ b →
        (∀ q, ((t.insert h b).matchPrefix q).get? b' = (t.matchPrefix q).get? b') ∧
        (t.insert h b).heldBlocks b' = t.heldBlocks b' := by
  intro t
  obtain ⟨path, inv⟩ := runOps_inv cap ops
  change Inv t path at inv
  have fits' : (h.length : Int) ≤ t.cap := by rwa [cap_runOps]
  have evicted : t.insert h b = (t.touch h b).evict b := by
    simp [RadixTree.insert, nonempty]
  rw [evicted]
  constructor
  · obtain ⟨path', inv', held⟩ := inv.held_insert fits' b
    obtain ⟨m, longest, entry⟩ := inv'.matchPrefix h b
    have all : LongestHeld ((t.touch h b).evict b) path' b [] h h.length := by
      refine ⟨Nat.le_refl _, fun i pos le => held _ ?_ <| List.take_prefix _ _, ?_⟩
      · intro empty
        have length := congrArg List.length empty
        rw [List.nil_append, List.length_take, List.length_nil] at length
        omega
      · intro more
        omega
    rw [entry, longest.unique all, if_pos (List.length_pos_iff.mpr nonempty)]
  · intro b' other
    obtain ⟨path', inv', held⟩ := inv.touch h b
    have same : ∀ p, Held ((t.touch h b).evict b) path' b' p ↔ Held t path b' p := by
      intro p
      rw [evict_eq, held_dropFrom_of_ne other, held]
      simp [other]
    exact ⟨inv.get?_matchPrefix_congr (inv'.evict b) same,
      (inv'.evict b).heldBlocks_congr inv b' b' same⟩

/-- An insert at the cap, on a tree that another backend has split: the end of the first
prefix is evicted, but none of the nodes of the new one, old or new. -/
theorem insert_survives_split :
    let t : RadixTree Nat String := runOps 5
      [.insert [1, 2, 3, 4] "b1", .insert [7] "b1", .insert [1, 2, 9] "b2"]
    ((t.insert [1, 2, 3, 8] "b1").matchPrefix [1, 2, 3, 8]).get? "b1" = some 4 ∧
      ((t.insert [1, 2, 3, 8] "b1").matchPrefix [1, 2, 3, 4]).get? "b1" = some 3 ∧
      (t.insert [1, 2, 3, 8] "b1").heldBlocks "b2" = t.heldBlocks "b2" := by
  intro t
  have both := insert_survives 5 [.insert [1, 2, 3, 4] "b1", .insert [7] "b1", .insert [1, 2, 9] "b2"]
    [1, 2, 3, 8] "b1" (by decide) (by decide)
  exact ⟨both.1, by decide, (both.2 "b2" (by decide)).2⟩

/-! ### Inserts that fit -/

/-- The blocks of some lists of hashes: their non-empty prefixes. -/
def blocksOf (hs : List (List H)) : Finset (List H) :=
  (hs.flatMap fun h => (List.range h.length).map fun i => h.take (i + 1)).toFinset

theorem mem_blocksOf {hs : List (List H)} {p : List H} :
    p ∈ blocksOf hs ↔ p ≠ [] ∧ ∃ h ∈ hs, p <+: h := by
  simp only [blocksOf, List.mem_toFinset, List.mem_flatMap, List.mem_map, List.mem_range]
  constructor
  · rintro ⟨h, member, i, bound, rfl⟩
    refine ⟨?_, h, member, List.take_prefix _ _⟩
    rw [← List.length_pos_iff, List.length_take]
    omega
  · rintro ⟨nonempty, h, member, part⟩
    have long := List.length_pos_iff.mpr nonempty
    have short := part.length_le
    refine ⟨h, member, p.length - 1, by omega, ?_⟩
    rw [Nat.sub_add_cancel long]
    exact (List.prefix_iff_eq_take.mp part).symm

theorem blocksOf_mono {hs hs' : List (List H)} (sub : hs ⊆ hs') : blocksOf hs ⊆ blocksOf hs' := by
  intro p member
  obtain ⟨nonempty, h, inside, part⟩ := mem_blocksOf.mp member
  exact mem_blocksOf.mpr ⟨nonempty, h, sub inside, part⟩

/-- The hashes inserted for a backend. -/
def insertedFor (ins : List (List H × B)) (b : B) : List (List H) :=
  (ins.filter fun i => i.2 = b).map Prod.fst

/-- The calls of some inserts. -/
def inserts (ins : List (List H × B)) : List (Op H B) := ins.map fun i => .insert i.1 i.2

theorem mem_blocksOf_append {ins : List (List H × B)} {h p : List H} {b b' : B} :
    p ∈ blocksOf (insertedFor (ins ++ [(h, b')]) b) ↔
      p ∈ blocksOf (insertedFor ins b) ∨ (b = b' ∧ p ≠ [] ∧ p <+: h) := by
  simp only [mem_blocksOf, insertedFor, List.filter_append, List.map_append, List.mem_append,
    List.filter_singleton]
  by_cases same : b' = b
  · simp [same, or_and_right, exists_or, and_or_left]
  · simp [same, Ne.symm same]

/-- **Inserts that fit** are all held. -/
theorem held_inserts (cap : Int) (ins : List (List H × B)) (b : B)
    (fits : ((blocksOf (insertedFor ins b)).card : Int) ≤ cap) :
    ∃ path, Inv (runOps cap (inserts ins)) path ∧
      ∀ p, Held (runOps cap (inserts ins)) path b p ↔ p ∈ blocksOf (insertedFor ins b) := by
  induction ins using List.reverseRecOn with
  | nil =>
      refine ⟨_, init_inv cap, fun p => iff_of_false ?_ ?_⟩
      · rintro ⟨c, member, -⟩
        cases member
      · intro member
        obtain ⟨-, h, inside, -⟩ := mem_blocksOf.mp member
        cases inside
  | append_singleton ins i ih =>
      obtain ⟨h, b'⟩ := i
      have sub : insertedFor ins b ⊆ insertedFor (ins ++ [(h, b')]) b := by
        rw [insertedFor, insertedFor, List.filter_append, List.map_append]
        exact List.subset_append_left _ _
      have before := Finset.card_le_card (blocksOf_mono sub)
      obtain ⟨path, inv, held⟩ := ih (le_trans (Int.ofNat_le.mpr before) fits)
      have runs : runOps cap (inserts (ins ++ [(h, b')])) =
          (runOps cap (inserts ins)).insert h b' := by
        rw [inserts, List.map_append, List.map_singleton, runOps_snoc]
        rfl
      have grown : ∀ p, p ∈ blocksOf (insertedFor (ins ++ [(h, b')]) b) ↔
          Held (runOps cap (inserts ins)) path b p ∨ (b = b' ∧ p ≠ [] ∧ p <+: h) := by
        intro p
        rw [held]
        exact mem_blocksOf_append
      rw [runs, RadixTree.insert]
      split
      · rename_i empty
        obtain rfl := List.isEmpty_iff.mp empty
        refine ⟨path, inv, fun p => ?_⟩
        rw [grown]
        simp
      · obtain ⟨path', inv', touched⟩ := inv.touch h b'
        refine ⟨path', inv'.evict b', fun p => ?_⟩
        rw [grown, ← touched]
        by_cases same : b = b'
        · subst same
          -- nothing overflows
          have count : ((runOps cap (inserts ins)).touch h b).heldBlocks b =
              (blocksOf (insertedFor (ins ++ [(h, b)]) b)).card := by
            rw [inv'.heldBlocks_eq]
            congr 1
            ext p
            rw [inv'.mem_heldSet, touched, grown]
          rw [evict_eq_self]
          rw [count, cap_touch, cap_runOps]
          exact fits
        · rw [evict_eq, held_dropFrom_of_ne same]

/-- `m` is the length of the longest prefix of `q` that it has in common with one of `hs`. -/
structure LongestPrefix (hs : List (List H)) (q : List H) (m : Nat) : Prop where
  le : m ≤ q.length
  held : m = 0 ∨ ∃ h ∈ hs, q.take m <+: h
  longest : ∀ k ≤ q.length, (∃ h ∈ hs, q.take k <+: h) → k ≤ m

/-- **`match` after inserts that fit.** -/
theorem longestPrefix_inserts (cap : Int) (ins : List (List H × B)) (b : B)
    (fits : ((blocksOf (insertedFor ins b)).card : Int) ≤ cap) (q : List H) :
    LongestPrefix (insertedFor ins b) q
      (((runOps cap (inserts ins)).matchPrefix q).getD b 0) := by
  obtain ⟨path, inv, held⟩ := held_inserts cap ins b fits
  obtain ⟨m, longest, entry⟩ := inv.matchPrefix q b
  rw [getD_matchPrefix entry]
  refine ⟨longest.le, ?_, fun k le common => ?_⟩
  · rcases Nat.eq_zero_or_pos m with zero | pos
    · exact .inl zero
    · have last := (held _).mp (longest.held m pos (Nat.le_refl m))
      exact .inr (mem_blocksOf.mp last).2
  · obtain ⟨h, member, part⟩ := common
    by_contra longer
    have shorter : q.take (m + 1) <+: q.take k := List.take_prefix_take_left (by omega)
    have nonempty : q.take (m + 1) ≠ [] := by
      rw [← List.length_pos_iff, List.length_take]
      omega
    exact longest.stop (by omega)
      ((held _).mpr (mem_blocksOf.mpr ⟨nonempty, h, member, shorter.trans part⟩))

end Gateway.RadixTree
