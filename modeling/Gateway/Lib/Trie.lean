import Mathlib.Algebra.BigOperators.Group.Finset.Basic
import Mathlib.Algebra.GroupWithZero.Nat
import Mathlib.Data.List.Infix
import Mathlib.Logic.Function.Basic

/-!
Path-compressed tries as labelled graphs.

A `Shape` is the graph of a path-compressed trie: each allocated node below
`next` has an edge (the run of symbols leading into it) and children indexed by
symbol; node `0` is the root. Nothing is said here about what the nodes carry.

`Labelled path` says that `path n` is the word spelled from the root to the end
of node `n`. Labels never change: adding a leaf (`Shape.addLeaf`) and splitting an
edge (`Shape.split`) keep the labels of all old nodes, although a split shortens
an edge (`Labelled.addLeaf`, `Labelled.split`).

A node *covers* the positions on its edge: the prefixes of its label that are
longer than its parent's label. Every position is covered by at most one node
(`Labelled.covers_unique`); a leaf adds exactly its own positions, and a split
divides the positions of one node between two (`covers_addLeaf_new`,
`Labelled.covers_split_upper`, `Labelled.covers_split_lower`).
-/

namespace Gateway.Trie

variable {H : Type}

/-- The graph of a path-compressed trie. -/
structure Shape (H : Type) where
  edge : Nat → List H
  kid : Nat → H → Option Nat
  next : Nat

/-- `path n` is the word spelled from the root to the end of node `n`. -/
structure Labelled (T : Shape H) (path : Nat → List H) : Prop where
  pos : 0 < T.next
  root : path 0 = []
  child : ∀ {n k c}, n < T.next → T.kid n k = some c →
    0 < c ∧ c < T.next ∧ path c = path n ++ T.edge c ∧ ∃ tail, T.edge c = k :: tail
  parent : ∀ {c}, 0 < c → c < T.next → ∃ n k, n < T.next ∧ T.kid n k = some c
  branch : ∀ {n m}, n < T.next → m < T.next → path n <+: path m → path n ≠ path m →
    ∃ k c, T.kid n k = some c ∧ path c <+: path m
  inj : ∀ {n m}, n < T.next → m < T.next → path n = path m → n = m

/-- Node `c` covers position `p`: `p` ends on the edge into `c`. -/
def Covers (T : Shape H) (path : Nat → List H) (c : Nat) (p : List H) : Prop :=
  0 < c ∧ c < T.next ∧ p <+: path c ∧ (path c).length < p.length + (T.edge c).length

/-- Position `p` ends on the edge of some node. -/
def Stored (T : Shape H) (path : Nat → List H) (p : List H) : Prop := ∃ c, Covers T path c p

/-- Position `p` continues the word `w` along the word `r`, by at least one symbol. -/
def Extends (w r p : List H) : Prop := p <+: w ++ r ∧ w.length < p.length

theorem not_extends_nil {w p : List H} : ¬ Extends w [] p := by
  rintro ⟨on, long⟩
  have := on.length_le
  rw [List.append_nil] at this
  omega

/-- Continuing along `r ++ s` is continuing along `r`, or beyond it along `s`. -/
theorem extends_append {w r s p : List H} :
    Extends w (r ++ s) p ↔ Extends w r p ∨ Extends (w ++ r) s p := by
  constructor
  · rintro ⟨on, long⟩
    rw [← List.append_assoc] at on
    by_cases short : p.length ≤ (w ++ r).length
    · exact .inl ⟨List.prefix_of_prefix_length_le on (List.prefix_append _ _) short, long⟩
    · exact .inr ⟨on, Nat.lt_of_not_le short⟩
  · rintro (⟨on, long⟩ | ⟨on, long⟩)
    · refine ⟨?_, long⟩
      rw [← List.append_assoc]
      exact on.trans (List.prefix_append _ _)
    · rw [List.append_assoc] at on
      refine ⟨on, ?_⟩
      rw [List.length_append] at long
      omega

/-- Whatever continues along an initial part of `r` continues along `r`. -/
theorem Extends.mono {w r s p : List H} (along : Extends w r p) (part : r <+: s) :
    Extends w s p := by
  obtain ⟨rest, rfl⟩ := part
  exact extends_append.mpr (.inl along)

theorem extends_root {r p : List H} : Extends [] r p ↔ p ≠ [] ∧ p <+: r := by
  simp only [Extends, List.nil_append, List.length_nil, List.length_pos_iff]
  exact and_comm

variable {T : Shape H} {path : Nat → List H}

/-! ### Following a label from a node -/

/-- If the label of `m` continues the label of `n` with `k`, then `n` has a child
under `k`, and the label of `m` continues the label of that child. -/
theorem Labelled.kid_toward (L : Labelled T path) {n m : Nat} {k : H} (hn : n < T.next)
    (hm : m < T.next) (toward : path n ++ [k] <+: path m) :
    ∃ c, T.kid n k = some c ∧ path c <+: path m := by
  have below : path n <+: path m := (List.prefix_append _ _).trans toward
  have proper : path n ≠ path m := by
    intro same
    have := toward.length_le
    rw [same, List.length_append, List.length_singleton] at this
    omega
  obtain ⟨k', c, kid, toward'⟩ := L.branch hn hm below proper
  obtain ⟨_, _, label, tail, edge⟩ := L.child hn kid
  have first : path n ++ [k'] <+: path m := by
    refine List.IsPrefix.trans ?_ toward'
    rw [label, edge]
    exact ⟨tail, by simp⟩
  have same : path n ++ [k] = path n ++ [k'] :=
    (List.prefix_of_prefix_length_le toward first (by simp)).eq_of_length (by simp)
  have : k = k' := by simpa using same
  subst this
  exact ⟨c, kid, toward'⟩

/-- No label continues the label of `n` with a symbol under which `n` has no child. -/
theorem Labelled.no_toward (L : Labelled T path) {n m : Nat} {k : H} (hn : n < T.next)
    (free : T.kid n k = none) (hm : m < T.next) : ¬ path n ++ [k] <+: path m := by
  intro toward
  obtain ⟨c, kid, _⟩ := L.kid_toward hn hm toward
  rw [free] at kid
  cases kid

/-- A label that continues the label of `n` with `k` continues the label of the
child under `k`. -/
theorem Labelled.through_kid (L : Labelled T path) {n m c : Nat} {k : H} (hn : n < T.next)
    (kid : T.kid n k = some c) (hm : m < T.next) (toward : path n ++ [k] <+: path m) :
    path c <+: path m := by
  obtain ⟨c', kid', toward'⟩ := L.kid_toward hn hm toward
  rw [kid] at kid'
  cases kid'
  exact toward'

theorem Labelled.kid_first (L : Labelled T path) {n c : Nat} {k : H} (hn : n < T.next)
    (kid : T.kid n k = some c) : path n ++ [k] <+: path c := by
  obtain ⟨_, _, label, tail, edge⟩ := L.child hn kid
  rw [label, edge]
  exact ⟨tail, by simp⟩

/-- A node has one parent, and one place there. -/
theorem Labelled.parent_unique (L : Labelled T path) {n m c : Nat} {k l : H} (hn : n < T.next)
    (hm : m < T.next) (kid : T.kid n k = some c) (kid' : T.kid m l = some c) :
    n = m ∧ k = l := by
  obtain ⟨_, _, label, tail, edge⟩ := L.child hn kid
  obtain ⟨_, _, label', tail', edge'⟩ := L.child hm kid'
  refine ⟨L.inj hn hm (List.append_cancel_right (label.symm.trans label')), ?_⟩
  rw [edge] at edge'
  exact (List.cons.inj edge').1

/-! ### Words and ancestors -/

/-- The word `w` spells the way from the root to the end of a node. -/
inductive Spells (T : Shape H) : List H → Nat → Prop where
  | root : Spells T [] 0
  | child {w : List H} {n c : Nat} {k : H} :
      Spells T w n → T.kid n k = some c → Spells T (w ++ T.edge c) c

/-- `Ancestor T a n`: following children from `a` leads to `n` in at least one step. -/
inductive Ancestor (T : Shape H) (a : Nat) : Nat → Prop where
  | kid {k : H} {c : Nat} : T.kid a k = some c → Ancestor T a c
  | step {n : Nat} {k : H} {c : Nat} : Ancestor T a n → T.kid n k = some c → Ancestor T a c

theorem Labelled.of_spells (L : Labelled T path) {w : List H} {n : Nat} (spells : Spells T w n) :
    n < T.next ∧ w = path n := by
  induction spells with
  | root => exact ⟨L.pos, L.root.symm⟩
  | child _ kid ih =>
      obtain ⟨_, alloc, label, _⟩ := L.child ih.1 kid
      exact ⟨alloc, by rw [label, ih.2]⟩

theorem Labelled.parent_shorter (L : Labelled T path) {n c : Nat} {k : H} (hn : n < T.next)
    (kid : T.kid n k = some c) : (path n).length < (path c).length := by
  have := (L.kid_first hn kid).length_le
  rw [List.length_append, List.length_singleton] at this
  omega

/-- Every allocated node is reached from the root, and its label spells the way. -/
theorem Labelled.spells (L : Labelled T path) {n : Nat} (hn : n < T.next) :
    Spells T (path n) n := by
  induction h : (path n).length using Nat.strong_induction_on generalizing n with
  | _ len ih =>
      by_cases pos : n = 0
      · subst pos
        rw [L.root]
        exact .root
      · obtain ⟨m, k, hm, kid⟩ := L.parent (Nat.pos_of_ne_zero pos) hn
        have shorter := L.parent_shorter hm kid
        rw [(L.child hm kid).2.2.1]
        exact .child (ih _ (h ▸ shorter) hm rfl) kid

theorem Labelled.of_ancestor (L : Labelled T path) {a n : Nat} (ha : a < T.next)
    (anc : Ancestor T a n) :
    n < T.next ∧ path a <+: path n ∧ (path a).length < (path n).length := by
  induction anc with
  | kid kid =>
      obtain ⟨_, alloc, label, _⟩ := L.child ha kid
      exact ⟨alloc, label ▸ List.prefix_append _ _, L.parent_shorter ha kid⟩
  | step _ kid ih =>
      obtain ⟨hn, below, shorter⟩ := ih
      obtain ⟨_, alloc, label, _⟩ := L.child hn kid
      exact ⟨alloc, below.trans (label ▸ List.prefix_append _ _),
        shorter.trans (L.parent_shorter hn kid)⟩

theorem Ancestor.trans {a m n : Nat} (above : Ancestor T a m) (below : Ancestor T m n) :
    Ancestor T a n := by
  induction below with
  | kid kid => exact .step above kid
  | step _ kid ih => exact .step ih kid

/-- Whoever's label continues a label lies below its node. -/
theorem Labelled.ancestor_of_prefix (L : Labelled T path) {a n : Nat} (ha : a < T.next)
    (hn : n < T.next) (below : path a <+: path n) (proper : path a ≠ path n) : Ancestor T a n := by
  induction h : (path n).length - (path a).length using Nat.strong_induction_on generalizing a with
  | _ gap ih =>
      obtain ⟨k, c, kid, toward⟩ := L.branch ha hn below proper
      have alloc := (L.child ha kid).2.1
      by_cases here : path c = path n
      · rw [← L.inj alloc hn here]
        exact .kid kid
      · have deeper := L.parent_shorter ha kid
        have within := toward.length_le
        exact (Ancestor.kid kid).trans (ih _ (by omega) alloc toward here rfl)

/-- The ancestors of a node are the nodes whose labels its label continues. -/
theorem Labelled.ancestor_iff (L : Labelled T path) {a n : Nat} (ha : a < T.next)
    (hn : n < T.next) : Ancestor T a n ↔ path a <+: path n ∧ path a ≠ path n := by
  constructor
  · intro anc
    obtain ⟨-, below, shorter⟩ := L.of_ancestor ha anc
    exact ⟨below, fun same => Nat.ne_of_lt shorter (congrArg List.length same)⟩
  · rintro ⟨below, proper⟩
    exact L.ancestor_of_prefix ha hn below proper

/-! ### Covered positions -/

/-- The parent of a node that covers `p`, and the symbol that leads from it
towards `p`. -/
theorem Labelled.covers_parent (L : Labelled T path) {c : Nat} {p : List H}
    (covers : Covers T path c p) :
    ∃ n k, n < T.next ∧ T.kid n k = some c ∧ path n ++ [k] <+: p := by
  obtain ⟨pos, alloc, on, long⟩ := covers
  obtain ⟨n, k, hn, kid⟩ := L.parent pos alloc
  obtain ⟨_, _, label, _⟩ := L.child hn kid
  refine ⟨n, k, hn, kid, List.prefix_of_prefix_length_le (L.kid_first hn kid) on ?_⟩
  rw [label, List.length_append] at long
  simp only [List.length_append, List.length_singleton]
  omega

/-- Whoever's label continues a position continues the label of the node that
covers it. -/
theorem Labelled.covers_below (L : Labelled T path) {c m : Nat} {p : List H}
    (covers : Covers T path c p) (hm : m < T.next) (below : p <+: path m) :
    path c <+: path m := by
  obtain ⟨n, k, hn, kid, toward⟩ := L.covers_parent covers
  exact L.through_kid hn kid hm (toward.trans below)

/-- **Every position is covered by at most one node.** -/
theorem Labelled.covers_unique (L : Labelled T path) {c d : Nat} {p : List H}
    (hc : Covers T path c p) (hd : Covers T path d p) : c = d := by
  have cd := L.covers_below hc hd.2.1 hd.2.2.1
  have dc := L.covers_below hd hc.2.1 hc.2.2.1
  exact L.inj hc.2.1 hd.2.1 (cd.eq_of_length_le dc.length_le)

theorem Labelled.not_covers_nil (L : Labelled T path) {c : Nat} : ¬ Covers T path c [] := by
  intro covers
  obtain ⟨n, k, _, _, toward⟩ := L.covers_parent covers
  simp at toward

/-- A child covers the positions that continue its parent's label along its edge. -/
theorem Labelled.covers_kid (L : Labelled T path) {n c : Nat} {k : H} (hn : n < T.next)
    (kid : T.kid n k = some c) {p : List H} :
    Covers T path c p ↔ Extends (path n) (T.edge c) p := by
  obtain ⟨pos, alloc, label, _⟩ := L.child hn kid
  simp only [Covers, Extends, pos, alloc, label, List.length_append, true_and]
  refine and_congr_right fun _ => ?_
  omega

/-- Every non-empty prefix of a label is covered, by the node or an ancestor of it. -/
theorem Labelled.covered (L : Labelled T path) {n : Nat} (hn : n < T.next) {p : List H}
    (nonempty : p ≠ []) (below : p <+: path n) :
    ∃ c, (c = n ∨ Ancestor T c n) ∧ Covers T path c p := by
  induction h : (path n).length using Nat.strong_induction_on generalizing n with
  | _ len ih =>
      have pos : 0 < n := by
        rcases Nat.eq_zero_or_pos n with rfl | pos
        · rw [L.root, List.prefix_nil] at below
          exact absurd below nonempty
        · exact pos
      obtain ⟨m, k, hm, kid⟩ := L.parent pos hn
      have label := (L.child hm kid).2.2.1
      by_cases long : (path m).length < p.length
      · exact ⟨n, .inl rfl, (L.covers_kid hm kid).mpr ⟨label ▸ below, long⟩⟩
      · have below' : p <+: path m := List.prefix_of_prefix_length_le below
          (label ▸ List.prefix_append _ _) (Nat.le_of_not_lt long)
        obtain ⟨c, anc, covers⟩ := ih _ (h ▸ L.parent_shorter hm kid) hm below' rfl
        refine ⟨c, .inr ?_, covers⟩
        rcases anc with rfl | anc
        · exact .kid kid
        · exact .step anc kid

/-- A node below the root covers its own label. -/
theorem Labelled.covers_self (L : Labelled T path) {n : Nat} (pos : 0 < n) (hn : n < T.next) :
    Covers T path n (path n) := by
  obtain ⟨m, k, hm, kid⟩ := L.parent pos hn
  refine (L.covers_kid hm kid).mpr ⟨?_, L.parent_shorter hm kid⟩
  rw [(L.child hm kid).2.2.1]

/-! ### Counting positions -/

theorem Labelled.edge_le (L : Labelled T path) {c : Nat} (pos : 0 < c) (alloc : c < T.next) :
    (T.edge c).length ≤ (path c).length := by
  obtain ⟨n, k, hn, kid⟩ := L.parent pos alloc
  obtain ⟨_, _, label, _⟩ := L.child hn kid
  rw [label, List.length_append]
  omega

/-- The allocated nodes other than the root. -/
def Shape.below (T : Shape H) : List Nat := List.range' 1 (T.next - 1)

theorem Shape.mem_below {c : Nat} : c ∈ T.below ↔ 0 < c ∧ c < T.next := by
  rw [Shape.below, List.mem_range'_1]
  omega

/-- The positions that a node covers, as a finite set. -/
def positions [DecidableEq H] (T : Shape H) (path : Nat → List H) (c : Nat) : Finset (List H) :=
  (Finset.range (T.edge c).length).image fun i => (path c).take ((path c).length - i)

section Positions

variable [DecidableEq H]

theorem Labelled.mem_positions (L : Labelled T path) {c : Nat} (pos : 0 < c)
    (alloc : c < T.next) {p : List H} : p ∈ positions T path c ↔ Covers T path c p := by
  have le := L.edge_le pos alloc
  simp only [positions, Finset.mem_image, Finset.mem_range, Covers, pos, alloc, true_and]
  constructor
  · rintro ⟨i, short, rfl⟩
    refine ⟨?_, ?_⟩
    · exact List.take_prefix _ _
    · rw [List.length_take]
      omega
  · rintro ⟨on, long⟩
    have := on.length_le
    refine ⟨(path c).length - p.length, by omega, ?_⟩
    rw [Nat.sub_sub_self this]
    exact (List.prefix_iff_eq_take.mp on).symm

theorem Labelled.card_positions (L : Labelled T path) {c : Nat} (pos : 0 < c)
    (alloc : c < T.next) : (positions T path c).card = (T.edge c).length := by
  have le := L.edge_le pos alloc
  rw [positions, Finset.card_image_of_injOn, Finset.card_range]
  intro i hi i' hi' same
  simp only [Finset.coe_range, Set.mem_Iio] at hi hi'
  have := congrArg List.length same
  simp only [List.length_take] at this
  omega

/-- Distinct nodes cover as many positions as their edges are long together. -/
theorem Labelled.card_biUnion_positions (L : Labelled T path) {l : List Nat} (nodup : l.Nodup)
    (alloc : ∀ c ∈ l, 0 < c ∧ c < T.next) :
    (l.toFinset.biUnion (positions T path)).card = (l.map fun c => (T.edge c).length).sum := by
  rw [Finset.card_biUnion]
  · rw [← List.sum_toFinset _ nodup]
    refine Finset.sum_congr rfl fun c member => ?_
    have := alloc c (List.mem_toFinset.mp member)
    exact L.card_positions this.1 this.2
  · intro c hc d hd different
    refine Finset.disjoint_left.mpr fun p pc pd => ?_
    have ac := alloc c (List.mem_toFinset.mp hc)
    have ad := alloc d (List.mem_toFinset.mp hd)
    exact different (L.covers_unique ((L.mem_positions ac.1 ac.2).mp pc)
      ((L.mem_positions ad.1 ad.2).mp pd))

/-- The edges of a trie are together as long as the trie stores positions. -/
theorem Labelled.sum_edge (L : Labelled T path) {stored : Finset (List H)}
    (mem_stored : ∀ p, p ∈ stored ↔ Stored T path p) :
    (T.below.map fun c => (T.edge c).length).sum = stored.card := by
  have nodup : T.below.Nodup := List.nodup_range' 1
  rw [← L.card_biUnion_positions nodup fun c member => Shape.mem_below.mp member]
  congr 1
  ext p
  rw [mem_stored, Finset.mem_biUnion]
  constructor
  · rintro ⟨c, member, on⟩
    have alloc := Shape.mem_below.mp (List.mem_toFinset.mp member)
    exact ⟨c, (L.mem_positions alloc.1 alloc.2).mp on⟩
  · rintro ⟨c, covers⟩
    have member := List.mem_toFinset.mpr (Shape.mem_below.mpr ⟨covers.1, covers.2.1⟩)
    exact ⟨c, member, (L.mem_positions covers.1 covers.2.1).mpr covers⟩

end Positions

/-! ### Room for a node -/

/-- No label lies on the way from `n` along `w`, beyond its first symbol `k`. -/
def Clear (T : Shape H) (path : Nat → List H) (n : Nat) (k : H) (w : List H) : Prop :=
  ∀ m < T.next, path n ++ [k] <+: path m → ¬ path m <+: path n ++ w

section Room

variable {n m c j : Nat} {k : H} {w : List H}

/-- What `n` has no child toward is clear. -/
theorem Labelled.clear_free (L : Labelled T path) (hn : n < T.next) (free : T.kid n k = none) :
    Clear T path n k w := fun _ hm toward => absurd toward (L.no_toward hn free hm)

/-- The inside of an edge is clear. -/
theorem Labelled.clear_edge (L : Labelled T path) (hn : n < T.next)
    (kid : T.kid n k = some c) (shorter : (path n ++ w).length < (path c).length) :
    Clear T path n k w := by
  intro m hm toward below
  have through := (L.through_kid hn kid hm toward).length_le
  have := below.length_le
  omega

/-- A new label on a clear way differs from all others. -/
theorem Clear.ne (clear : Clear T path n k w) (first : [k] <+: w) (hm : m < T.next) :
    path m ≠ path n ++ w := by
  intro same
  refine clear m hm ?_ (same ▸ List.prefix_refl _)
  rw [same]
  exact (List.prefix_append_right_inj _).mpr first

/-- With a new label on a clear way, labels stay distinct. -/
theorem Labelled.inj_update (L : Labelled T path) (clear : Clear T path n k w) (first : [k] <+: w)
    {m m' : Nat} (bound : m < T.next + 1) (bound' : m' < T.next + 1)
    (same : Function.update path T.next (path n ++ w) m =
      Function.update path T.next (path n ++ w) m') : m = m' := by
  rcases Nat.lt_succ_iff_lt_or_eq.mp bound with hm | rfl
  · rw [Function.update_of_ne (Nat.ne_of_lt hm)] at same
    rcases Nat.lt_succ_iff_lt_or_eq.mp bound' with hm' | rfl
    · rw [Function.update_of_ne (Nat.ne_of_lt hm')] at same
      exact L.inj hm hm' same
    · rw [Function.update_self] at same
      exact absurd same (clear.ne first hm)
  · rw [Function.update_self] at same
    rcases Nat.lt_succ_iff_lt_or_eq.mp bound' with hm' | rfl
    · rw [Function.update_of_ne (Nat.ne_of_lt hm')] at same
      exact absurd same.symm (clear.ne first hm')
    · rfl

/-- What lies on a clear way lies on the way to its start. -/
theorem Clear.above (clear : Clear T path n k w) (first : [k] <+: w) (hm : m < T.next)
    (below : path m <+: path n ++ w) : path m <+: path n := by
  by_cases short : (path m).length ≤ (path n).length
  · exact List.prefix_of_prefix_length_le below (List.prefix_append _ _) short
  · have symbol : path n ++ [k] <+: path n ++ w := (List.prefix_append_right_inj _).mpr first
    refine absurd below (clear m hm (List.prefix_of_prefix_length_le symbol below ?_))
    rw [List.length_append, List.length_singleton]
    omega

/-- What lies on the way to a child, and is not the child, lies on the way to its parent. -/
theorem Labelled.above_kid (L : Labelled T path) (hn : n < T.next) (kid : T.kid n k = some c)
    (hm : m < T.next) (ne : m ≠ c) (below : path m <+: path c) : path m <+: path n := by
  obtain ⟨-, alloc, label, -⟩ := L.child hn kid
  by_cases short : (path m).length ≤ (path n).length
  · rw [label] at below
    exact List.prefix_of_prefix_length_le below (List.prefix_append _ _) short
  · have toward : path n ++ [k] <+: path m := by
      refine List.prefix_of_prefix_length_le (L.kid_first hn kid) below ?_
      rw [List.length_append, List.length_singleton]
      omega
    have through := L.through_kid hn kid hm toward
    exact absurd (L.inj hm alloc (below.eq_of_length_le through.length_le)) ne

/-- A node on the way to a new one is its parent `n`, or has a child on that way. -/
theorem Labelled.branch_new (L : Labelled T path) (hn : n < T.next) (clear : Clear T path n k w)
    (first : [k] <+: w) (hm : m < T.next) (below : path m <+: path n ++ w) :
    m = n ∨ m ≠ n ∧ ∃ l c, T.kid m l = some c ∧ path c <+: path n ++ w := by
  have above := clear.above first hm below
  by_cases here : path m = path n
  · exact .inl (L.inj hm hn here)
  · obtain ⟨l, c, kid, toward⟩ := L.branch hm hn above here
    refine .inr ⟨?_, l, c, kid, toward.trans (List.prefix_append _ _)⟩
    rintro rfl
    exact here rfl

/-- A node's labels are the same in every labelling. -/
theorem Labelled.unique (L : Labelled T path) {path' : Nat → List H} (L' : Labelled T path')
    {n : Nat} (hn : n < T.next) : path n = path' n :=
  (L'.of_spells (L.spells hn)).2

/-- Cutting an edge leaves the upper part on the way to its end. -/
theorem Labelled.split_prefix (L : Labelled T path) (hn : n < T.next) (kid : T.kid n k = some c) :
    path n ++ (T.edge c).take j <+: path c := by
  rw [(L.child hn kid).2.2.1]
  exact (List.prefix_append_right_inj _).mpr <| List.take_prefix _ _

theorem Labelled.split_first (L : Labelled T path) (hn : n < T.next) (kid : T.kid n k = some c)
    (pos_j : 0 < j) : [k] <+: (T.edge c).take j := by
  obtain ⟨_, _, _, tail, edge⟩ := L.child hn kid
  obtain ⟨i, rfl⟩ := Nat.exists_eq_succ_of_ne_zero (Nat.ne_of_gt pos_j)
  rw [edge, List.take_succ_cons]
  exact ⟨tail.take i, rfl⟩

theorem Labelled.clear_split (L : Labelled T path) (hn : n < T.next) (kid : T.kid n k = some c)
    (short_j : j < (T.edge c).length) : Clear T path n k ((T.edge c).take j) := by
  refine L.clear_edge hn kid ?_
  rw [(L.child hn kid).2.2.1, List.length_append, List.length_append, List.length_take]
  omega

end Room

/-! ### Adding a leaf -/

/-- Allocate a leaf with edge `rest` and make it the child of `n` under `k`. -/
def Shape.addLeaf [DecidableEq H] (T : Shape H) (n : Nat) (k : H) (rest : List H) : Shape H where
  edge := Function.update T.edge T.next rest
  kid := fun m l =>
    if m = T.next then none else if m = n ∧ l = k then some T.next else T.kid m l
  next := T.next + 1

section AddLeaf

variable [DecidableEq H] {n : Nat} {k : H} {tail : List H}

theorem edge_addLeaf_old {m : Nat} {rest : List H} (hm : m < T.next) :
    (T.addLeaf n k rest).edge m = T.edge m :=
  Function.update_of_ne (Nat.ne_of_lt hm) _ _

theorem edge_addLeaf_new {rest : List H} : (T.addLeaf n k rest).edge T.next = rest :=
  Function.update_self _ _ _

theorem kid_addLeaf_old {m : Nat} {l : H} {rest : List H} (hm : m < T.next)
    (other : ¬ (m = n ∧ l = k)) : (T.addLeaf n k rest).kid m l = T.kid m l := by
  simp [Shape.addLeaf, Nat.ne_of_lt hm, other]

/-- Old children keep their places. -/
theorem kid_addLeaf_of_kid {m c : Nat} {l : H} {rest : List H} (free : T.kid n k = none)
    (hm : m < T.next) (kid : T.kid m l = some c) : (T.addLeaf n k rest).kid m l = some c := by
  rw [kid_addLeaf_old hm, kid]
  rintro ⟨rfl, rfl⟩
  rw [free] at kid
  cases kid

theorem kid_addLeaf_parent {rest : List H} (hn : n < T.next) :
    (T.addLeaf n k rest).kid n k = some T.next := by
  simp [Shape.addLeaf, Nat.ne_of_lt hn]

theorem Labelled.child_addLeaf (L : Labelled T path) (hn : n < T.next) {m c : Nat} {l : H}
    (bound : m < T.next + 1) (kid : (T.addLeaf n k (k :: tail)).kid m l = some c) :
    0 < c ∧ c < T.next + 1 ∧
      Function.update path T.next (path n ++ k :: tail) c =
        Function.update path T.next (path n ++ k :: tail) m ++
          (T.addLeaf n k (k :: tail)).edge c ∧
      ∃ rest, (T.addLeaf n k (k :: tail)).edge c = l :: rest := by
  rcases Nat.lt_succ_iff_lt_or_eq.mp bound with hm | rfl
  · rw [Function.update_of_ne (Nat.ne_of_lt hm)]
    by_cases here : m = n ∧ l = k
    · obtain ⟨rfl, rfl⟩ := here
      rw [kid_addLeaf_parent hn] at kid
      cases kid
      rw [Function.update_self, edge_addLeaf_new]
      exact ⟨L.pos, Nat.lt_succ_self _, rfl, tail, rfl⟩
    · rw [kid_addLeaf_old hm here] at kid
      obtain ⟨pos, alloc, label, first⟩ := L.child hm kid
      rw [Function.update_of_ne (Nat.ne_of_lt alloc), edge_addLeaf_old alloc]
      exact ⟨pos, Nat.lt_succ_of_lt alloc, label, first⟩
  · simp [Shape.addLeaf] at kid

theorem Labelled.branch_addLeaf (L : Labelled T path) (hn : n < T.next) (free : T.kid n k = none)
    {m m' : Nat} (bound : m < T.next + 1) (bound' : m' < T.next + 1)
    (below : Function.update path T.next (path n ++ k :: tail) m <+:
      Function.update path T.next (path n ++ k :: tail) m')
    (proper : Function.update path T.next (path n ++ k :: tail) m ≠
      Function.update path T.next (path n ++ k :: tail) m') :
    ∃ l c, (T.addLeaf n k (k :: tail)).kid m l = some c ∧
      Function.update path T.next (path n ++ k :: tail) c <+:
        Function.update path T.next (path n ++ k :: tail) m' := by
  have first : [k] <+: k :: tail := ⟨tail, rfl⟩
  rcases Nat.lt_succ_iff_lt_or_eq.mp bound with hm | rfl
  · rw [Function.update_of_ne (Nat.ne_of_lt hm)] at below proper
    rcases Nat.lt_succ_iff_lt_or_eq.mp bound' with hm' | rfl
    · rw [Function.update_of_ne (Nat.ne_of_lt hm')] at below proper ⊢
      obtain ⟨l, c, kid, toward⟩ := L.branch hm hm' below proper
      refine ⟨l, c, kid_addLeaf_of_kid free hm kid, ?_⟩
      rwa [Function.update_of_ne (Nat.ne_of_lt (L.child hm kid).2.1)]
    · rw [Function.update_self] at below ⊢
      rcases L.branch_new hn (L.clear_free hn free) first hm below with rfl | ⟨_, l, c, kid, toward⟩
      · exact ⟨k, T.next, kid_addLeaf_parent hn, by rw [Function.update_self]⟩
      · refine ⟨l, c, kid_addLeaf_of_kid free hm kid, ?_⟩
        rwa [Function.update_of_ne (Nat.ne_of_lt (L.child hm kid).2.1)]
  · -- nothing lies below a leaf
    rw [Function.update_self] at below proper
    rcases Nat.lt_succ_iff_lt_or_eq.mp bound' with hm' | rfl
    · rw [Function.update_of_ne (Nat.ne_of_lt hm')] at below
      have toward : path n ++ [k] <+: path n ++ k :: tail := ⟨tail, by simp⟩
      exact absurd (toward.trans below) (L.no_toward hn free hm')
    · rw [Function.update_self] at proper
      exact absurd rfl proper

theorem Labelled.addLeaf (L : Labelled T path) (hn : n < T.next) (free : T.kid n k = none) :
    Labelled (T.addLeaf n k (k :: tail))
      (Function.update path T.next (path n ++ k :: tail)) where
  pos := Nat.succ_pos _
  root := by rw [Function.update_of_ne (Nat.ne_of_lt L.pos), L.root]
  child := L.child_addLeaf hn
  parent := by
    intro c pos alloc
    rcases Nat.lt_succ_iff_lt_or_eq.mp alloc with alloc | rfl
    · obtain ⟨m, l, hm, kid⟩ := L.parent pos alloc
      exact ⟨m, l, Nat.lt_succ_of_lt hm, kid_addLeaf_of_kid free hm kid⟩
    · exact ⟨n, k, Nat.lt_succ_of_lt hn, kid_addLeaf_parent hn⟩
  branch := L.branch_addLeaf hn free
  inj := L.inj_update (L.clear_free hn free) ⟨tail, rfl⟩

/-- Adding a leaf leaves the positions of every old node alone. -/
theorem covers_addLeaf_old {c : Nat} {rest p : List H} (h : c < T.next) :
    Covers (T.addLeaf n k rest) (Function.update path T.next (path n ++ rest)) c p ↔
      Covers T path c p := by
  simp only [Covers, Shape.addLeaf, Function.update_of_ne (Nat.ne_of_lt h), h,
    Nat.lt_succ_of_lt h]

/-- A new leaf covers exactly the positions of its own edge. -/
theorem covers_addLeaf_new {rest p : List H} (pos : 0 < T.next) :
    Covers (T.addLeaf n k rest) (Function.update path T.next (path n ++ rest)) T.next p ↔
      Extends (path n) rest p := by
  simp only [Covers, Extends, Shape.addLeaf, Function.update_self, Nat.lt_succ_self, pos,
    List.length_append, true_and]
  refine and_congr_right fun _ => ?_
  omega

/-- A new leaf stores the positions of its own edge, beside the old ones. -/
theorem Labelled.stored_addLeaf (L : Labelled T path) {rest p : List H} :
    Stored (T.addLeaf n k rest) (Function.update path T.next (path n ++ rest)) p ↔
      Stored T path p ∨ Extends (path n) rest p := by
  constructor
  · rintro ⟨c, covers⟩
    rcases Nat.lt_succ_iff_lt_or_eq.mp covers.2.1 with old | rfl
    · exact .inl ⟨c, (covers_addLeaf_old old).mp covers⟩
    · exact .inr ((covers_addLeaf_new L.pos).mp covers)
  · rintro (⟨c, covers⟩ | on)
    · exact ⟨c, (covers_addLeaf_old covers.2.1).mpr covers⟩
    · exact ⟨T.next, (covers_addLeaf_new L.pos).mpr on⟩

end AddLeaf

/-! ### Splitting an edge -/

/-- Allocate a node between `n` and its child `c` under `k`: it takes the first `j`
symbols of the edge of `c`, and `c` keeps the others. -/
def Shape.split [DecidableEq H] (T : Shape H) (n : Nat) (k : H) (c j : Nat) : Shape H where
  edge := Function.update (Function.update T.edge T.next ((T.edge c).take j)) c ((T.edge c).drop j)
  kid := fun m l =>
    if m = T.next then (if (T.edge c)[j]? = some l then some c else none)
    else if m = n ∧ l = k then some T.next else T.kid m l
  next := T.next + 1

section Split

variable [DecidableEq H] {n c j : Nat} {k : H}

theorem edge_split_old {m : Nat} (hm : m < T.next) (other : m ≠ c) :
    (T.split n k c j).edge m = T.edge m := by
  simp [Shape.split, other, Nat.ne_of_lt hm]

theorem edge_split_lower : (T.split n k c j).edge c = (T.edge c).drop j := by
  simp [Shape.split]

theorem edge_split_upper (alloc : c < T.next) :
    (T.split n k c j).edge T.next = (T.edge c).take j := by
  simp [Shape.split, Ne.symm (Nat.ne_of_lt alloc)]

theorem kid_split_old {m : Nat} {l : H} (hm : m < T.next) (other : ¬ (m = n ∧ l = k)) :
    (T.split n k c j).kid m l = T.kid m l := by
  simp [Shape.split, Nat.ne_of_lt hm, other]

theorem kid_split_parent (hn : n < T.next) : (T.split n k c j).kid n k = some T.next := by
  simp [Shape.split, Nat.ne_of_lt hn]

/-- The only child of the middle node is `c`. -/
theorem kid_split_upper {l : H} {d : Nat} :
    (T.split n k c j).kid T.next l = some d ↔ (T.edge c)[j]? = some l ∧ c = d := by
  simp only [Shape.split, if_true]
  split
  · rename_i symbol
    rw [symbol, Option.some.injEq, eq_self, true_and]
  · rename_i symbol
    simp only [symbol, false_and, reduceCtorEq]

theorem Labelled.child_split (L : Labelled T path) (hn : n < T.next) (kid : T.kid n k = some c)
    (pos_j : 0 < j) {m d : Nat} {l : H} (bound : m < T.next + 1)
    (kid' : (T.split n k c j).kid m l = some d) :
    0 < d ∧ d < T.next + 1 ∧
      Function.update path T.next (path n ++ (T.edge c).take j) d =
        Function.update path T.next (path n ++ (T.edge c).take j) m ++ (T.split n k c j).edge d ∧
      ∃ rest, (T.split n k c j).edge d = l :: rest := by
  obtain ⟨pos_c, alloc_c, label_c, _⟩ := L.child hn kid
  rcases Nat.lt_succ_iff_lt_or_eq.mp bound with hm | rfl
  · rw [Function.update_of_ne (Nat.ne_of_lt hm)]
    by_cases here : m = n ∧ l = k
    · obtain ⟨rfl, rfl⟩ := here
      rw [kid_split_parent hn] at kid'
      cases kid'
      rw [Function.update_self, edge_split_upper alloc_c]
      obtain ⟨rest, edge⟩ := L.split_first hn kid pos_j
      exact ⟨L.pos, Nat.lt_succ_self _, rfl, rest, edge.symm⟩
    · rw [kid_split_old hm here] at kid'
      obtain ⟨pos, alloc, label, first⟩ := L.child hm kid'
      have other : d ≠ c := by
        rintro rfl
        obtain ⟨rfl, rfl⟩ := L.parent_unique hm hn kid' kid
        exact here ⟨rfl, rfl⟩
      rw [Function.update_of_ne (Nat.ne_of_lt alloc), edge_split_old alloc other]
      exact ⟨pos, Nat.lt_succ_of_lt alloc, label, first⟩
  · obtain ⟨symbol, rfl⟩ := kid_split_upper.mp kid'
    obtain ⟨short_j, symbol⟩ := List.getElem?_eq_some_iff.mp symbol
    rw [Function.update_of_ne (Nat.ne_of_lt alloc_c), Function.update_self, edge_split_lower]
    refine ⟨pos_c, Nat.lt_succ_of_lt alloc_c, ?_, (T.edge c).drop (j + 1), ?_⟩
    · rw [List.append_assoc, List.take_append_drop, label_c]
    · rw [List.drop_eq_getElem_cons short_j, symbol]

theorem Labelled.parent_split (L : Labelled T path) (hn : n < T.next) (kid : T.kid n k = some c)
    (short_j : j < (T.edge c).length) {d : Nat} (pos : 0 < d) (alloc : d < T.next + 1) :
    ∃ m l, m < T.next + 1 ∧ (T.split n k c j).kid m l = some d := by
  rcases Nat.lt_succ_iff_lt_or_eq.mp alloc with alloc | rfl
  · by_cases this : d = c
    · refine ⟨T.next, (T.edge c)[j], Nat.lt_succ_self _, kid_split_upper.mpr ⟨?_, this.symm⟩⟩
      exact List.getElem?_eq_getElem short_j
    · obtain ⟨m, l, hm, kid'⟩ := L.parent pos alloc
      refine ⟨m, l, Nat.lt_succ_of_lt hm, ?_⟩
      rw [kid_split_old hm, kid']
      rintro ⟨rfl, rfl⟩
      rw [kid] at kid'
      cases kid'
      exact this rfl
  · exact ⟨n, k, Nat.lt_succ_of_lt hn, kid_split_parent hn⟩

theorem Labelled.branch_split (L : Labelled T path) (hn : n < T.next) (kid : T.kid n k = some c)
    (pos_j : 0 < j) (short_j : j < (T.edge c).length) {m m' : Nat} (bound : m < T.next + 1)
    (bound' : m' < T.next + 1)
    (below : Function.update path T.next (path n ++ (T.edge c).take j) m <+:
      Function.update path T.next (path n ++ (T.edge c).take j) m')
    (proper : Function.update path T.next (path n ++ (T.edge c).take j) m ≠
      Function.update path T.next (path n ++ (T.edge c).take j) m') :
    ∃ l d, (T.split n k c j).kid m l = some d ∧
      Function.update path T.next (path n ++ (T.edge c).take j) d <+:
        Function.update path T.next (path n ++ (T.edge c).take j) m' := by
  have first := L.split_first hn kid pos_j
  have clear := L.clear_split hn kid short_j
  rcases Nat.lt_succ_iff_lt_or_eq.mp bound with hm | rfl
  · rw [Function.update_of_ne (Nat.ne_of_lt hm)] at below proper
    rcases Nat.lt_succ_iff_lt_or_eq.mp bound' with hm' | rfl
    · rw [Function.update_of_ne (Nat.ne_of_lt hm')] at below proper ⊢
      obtain ⟨l, d, kid', toward⟩ := L.branch hm hm' below proper
      by_cases here : m = n ∧ l = k
      · -- the way to `c` now leads through the middle node
        obtain ⟨rfl, rfl⟩ := here
        rw [kid] at kid'
        cases kid'
        refine ⟨l, T.next, kid_split_parent hn, ?_⟩
        rw [Function.update_self]
        exact (L.split_prefix hn kid).trans toward
      · refine ⟨l, d, by rw [kid_split_old hm here, kid'], ?_⟩
        rwa [Function.update_of_ne (Nat.ne_of_lt (L.child hm kid').2.1)]
    · rw [Function.update_self] at below ⊢
      rcases L.branch_new hn clear first hm below with rfl | ⟨other, l, d, kid', toward⟩
      · exact ⟨k, T.next, kid_split_parent hn, by rw [Function.update_self]⟩
      · refine ⟨l, d, by rw [kid_split_old hm fun here => other here.1, kid'], ?_⟩
        rwa [Function.update_of_ne (Nat.ne_of_lt (L.child hm kid').2.1)]
  · rw [Function.update_self] at below proper
    rcases Nat.lt_succ_iff_lt_or_eq.mp bound' with hm' | rfl
    · rw [Function.update_of_ne (Nat.ne_of_lt hm')] at below ⊢
      have toward : path n ++ [k] <+: path m' :=
        ((List.prefix_append_right_inj _).mpr first).trans below
      refine ⟨(T.edge c)[j], c, kid_split_upper.mpr ⟨List.getElem?_eq_getElem short_j, rfl⟩, ?_⟩
      rw [Function.update_of_ne (Nat.ne_of_lt (L.child hn kid).2.1)]
      exact L.through_kid hn kid hm' toward
    · rw [Function.update_self] at proper
      exact absurd rfl proper

theorem Labelled.split (L : Labelled T path) (hn : n < T.next) (kid : T.kid n k = some c)
    (pos_j : 0 < j) (short_j : j < (T.edge c).length) :
    Labelled (T.split n k c j)
      (Function.update path T.next (path n ++ (T.edge c).take j)) where
  pos := Nat.succ_pos _
  root := by rw [Function.update_of_ne (Nat.ne_of_lt L.pos), L.root]
  child := L.child_split hn kid pos_j
  parent := L.parent_split hn kid short_j
  branch := L.branch_split hn kid pos_j short_j
  inj := L.inj_update (L.clear_split hn kid short_j) (L.split_first hn kid pos_j)

/-- Splitting the edge of `c` leaves the positions of every other old node alone. -/
theorem covers_split_old {d : Nat} {w p : List H} (h : d < T.next) (other : d ≠ c) :
    Covers (T.split n k c j) (Function.update path T.next w) d p ↔ Covers T path d p := by
  simp only [Covers, Shape.split, Function.update_of_ne (Nat.ne_of_lt h),
    Function.update_of_ne other, h, Nat.lt_succ_of_lt h]

/-- After a split the lower node covers the positions beyond the cut. -/
theorem Labelled.covers_split_lower (L : Labelled T path) (hn : n < T.next)
    (kid : T.kid n k = some c) (short_j : j ≤ (T.edge c).length) {w p : List H} :
    Covers (T.split n k c j) (Function.update path T.next w) c p ↔
      Covers T path c p ∧ (path n).length + j < p.length := by
  obtain ⟨pos, alloc, label, _⟩ := L.child hn kid
  have next : (T.split n k c j).next = T.next + 1 := rfl
  simp only [Covers, edge_split_lower, next, Function.update_of_ne (Nat.ne_of_lt alloc), pos, alloc,
    Nat.lt_succ_of_lt alloc, true_and, label, List.length_append, List.length_drop]
  constructor
  · rintro ⟨on, long⟩
    exact ⟨⟨on, by omega⟩, by omega⟩
  · rintro ⟨⟨on, _⟩, long⟩
    exact ⟨on, by omega⟩

/-- After a split the middle node covers the positions up to the cut. -/
theorem Labelled.covers_split_upper (L : Labelled T path) (hn : n < T.next)
    (kid : T.kid n k = some c) (short_j : j ≤ (T.edge c).length) {p : List H} :
    Covers (T.split n k c j) (Function.update path T.next (path n ++ (T.edge c).take j))
        T.next p ↔
      Covers T path c p ∧ p.length ≤ (path n).length + j := by
  obtain ⟨pos, alloc, label, _⟩ := L.child hn kid
  have next : (T.split n k c j).next = T.next + 1 := rfl
  have length_take : ((T.edge c).take j).length = j := by
    rw [List.length_take]
    omega
  have above : path n ++ (T.edge c).take j <+: path c := L.split_prefix hn kid
  simp only [Covers, edge_split_upper alloc, next, Function.update_self, L.pos, Nat.lt_succ_self,
    true_and, pos, alloc, List.length_append, length_take]
  constructor
  · rintro ⟨on, long⟩
    have := on.length_le
    rw [List.length_append, length_take] at this
    refine ⟨⟨on.trans above, ?_⟩, this⟩
    rw [label, List.length_append]
    omega
  · rintro ⟨⟨on, long⟩, short⟩
    rw [label, List.length_append] at long
    refine ⟨List.prefix_of_prefix_length_le on above ?_, by omega⟩
    rwa [List.length_append, length_take]

/-- A split stores no new position and loses none. -/
theorem Labelled.stored_split (L : Labelled T path) (hn : n < T.next) (kid : T.kid n k = some c)
    (short_j : j ≤ (T.edge c).length) {p : List H} :
    Stored (T.split n k c j) (Function.update path T.next (path n ++ (T.edge c).take j)) p ↔
      Stored T path p := by
  have upper := L.covers_split_upper (p := p) hn kid short_j
  have lower := L.covers_split_lower (p := p) hn kid short_j (w := path n ++ (T.edge c).take j)
  constructor
  · rintro ⟨d, covers⟩
    rcases Nat.lt_succ_iff_lt_or_eq.mp covers.2.1 with old | rfl
    · by_cases here : d = c
      · subst here
        exact ⟨d, (lower.mp covers).1⟩
      · exact ⟨d, (covers_split_old old here).mp covers⟩
    · exact ⟨c, (upper.mp covers).1⟩
  · rintro ⟨d, covers⟩
    by_cases here : d = c
    · subst here
      by_cases low : (path n).length + j < p.length
      · exact ⟨d, lower.mpr ⟨covers, low⟩⟩
      · exact ⟨T.next, upper.mpr ⟨covers, Nat.le_of_not_lt low⟩⟩
    · exact ⟨d, (covers_split_old covers.2.1 here).mpr covers⟩

end Split

end Gateway.Trie
