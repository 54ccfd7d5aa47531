import Mathlib.Data.Int.Order.Basic
import Gateway.RadixTree.Invariant

/-!
What the calls of the prefix tree do, in terms of held blocks.

* `Inv.touch`: `insert(h, b)` before its eviction adds the non-empty prefixes of
  `h` to the blocks of `b` and changes no other backend's blocks.
* `Inv.evict`: eviction pops an initial part of one LRU and ends with at most
  `cap` blocks, or with none.
* `Inv.removeBackend`: the backend holds nothing afterwards.
* `Inv.heldBlocks_eq`: `held_blocks(b)` counts the blocks held by `b`.
* `Inv.matchPrefix`: `match(q)[b]` is the length of the longest prefix of `q` all
  of whose blocks are held by `b`.
-/

namespace Gateway.RadixTree

open Gateway.Trie

variable {H B : Type} [DecidableEq H] [DecidableEq B]

/-! ### The common prefix of an edge and a query -/

section CommonLen

theorem take_commonLen (e h : List H) : e.take (commonLen e h) <+: h := by
  induction e generalizing h with
  | nil => simp
  | cons x xs ih =>
      cases h with
      | nil => simp [commonLen]
      | cons y ys =>
          simp only [commonLen]
          split
          · rename_i same
            subst same
            simpa using ih ys
          · simp

theorem commonLen_le_left (e h : List H) : commonLen e h ≤ e.length := by
  induction e generalizing h with
  | nil => simp [commonLen]
  | cons x xs ih =>
      cases h with
      | nil => simp [commonLen]
      | cons y ys =>
          simp only [commonLen]
          split
          · simpa using ih ys
          · simp

theorem commonLen_le_right (e h : List H) : commonLen e h ≤ h.length := by
  have := (take_commonLen e h).length_le
  rw [List.length_take, Nat.min_eq_left (commonLen_le_left e h)] at this
  exact this

/-- `commonLen` bounds every common prefix. -/
theorem le_commonLen {p e h : List H} (pe : p <+: e) (ph : p <+: h) :
    p.length ≤ commonLen e h := by
  induction p generalizing e h with
  | nil => simp
  | cons x p ih =>
      obtain ⟨e', rfl⟩ := pe
      obtain ⟨h', rfl⟩ := ph
      simp only [List.cons_append, commonLen, if_true, List.length_cons]
      exact Nat.succ_le_succ (ih (List.prefix_append _ _) (List.prefix_append _ _))

theorem take_commonLen_eq (e h : List H) : h.take (commonLen e h) = e.take (commonLen e h) := by
  have := List.prefix_iff_eq_take.mp (take_commonLen e h)
  rw [List.length_take, Nat.min_eq_left (commonLen_le_left e h)] at this
  exact this.symm

theorem commonLen_append (e r : List H) : commonLen e (e ++ r) = e.length :=
  Nat.le_antisymm (commonLen_le_left _ _)
    (le_commonLen List.prefix_rfl (List.prefix_append _ _))

/-- Some hashes run through a whole edge, or leave it inside. -/
theorem whole_or_part (e h : List H) :
    (∃ more, h = e ++ more) ∨
      ∃ j more, j < e.length ∧ h = e.take j ++ more ∧ commonLen e h = j := by
  have divide := List.take_append_drop (commonLen e h) h
  rw [take_commonLen_eq] at divide
  by_cases whole : commonLen e h = e.length
  · refine .inl ⟨h.drop (commonLen e h), ?_⟩
    rw [whole, List.take_length] at divide
    rw [whole, divide]
  · exact .inr ⟨_, _, lt_of_le_of_ne (commonLen_le_left e h) whole, divide.symm, rfl⟩

end CommonLen

/-- The first hashes beyond the common part differ. -/
theorem getElem?_commonLen_ne {e h : List H} {k : H} {tail : List H}
    (rest : h.drop (commonLen e h) = k :: tail) : e[commonLen e h]? ≠ some k := by
  intro same
  obtain ⟨short, value⟩ := List.getElem?_eq_some_iff.mp same
  have longer : e.take (commonLen e h + 1) <+: h := by
    rw [← List.take_append_getElem short, value]
    conv_rhs => rw [← List.take_append_drop (commonLen e h) h, rest, take_commonLen_eq]
    exact ⟨tail, by simp⟩
  have taken := List.take_prefix (commonLen e h + 1) e
  have := le_commonLen taken longer
  rw [List.length_take] at this
  omega

/-! ### Insert, before eviction -/

section Walk

variable {t : RadixTree H B} {path : NodeId → List H} {n : NodeId}

/-- A new leaf adds its own positions for the inserting backend. -/
theorem Inv.attachHold (inv : Inv t path) (b : B) (hn : n < t.next) {k : H} (tail : List H)
    (free : (t.node n).children.get? k = none) :
    Inv ((t.attachLeaf n k (k :: tail)).hold b t.next)
        (Function.update path t.next (path n ++ k :: tail)) ∧
      ∀ b' p, Held ((t.attachLeaf n k (k :: tail)).hold b t.next)
          (Function.update path t.next (path n ++ k :: tail)) b' p ↔
        Held t path b' p ∨ (b' = b ∧ Extends (path n) (k :: tail) p) := by
  have inv' := inv.attachLeaf tail hn free
  refine ⟨inv'.hold b inv.labelled.pos (Nat.lt_succ_self _), fun b' p => ?_⟩
  rw [held_hold, inv.held_attachLeaf hn, shape_attachLeaf hn]
  exact or_congr_right (and_congr_right fun _ =>
    covers_addLeaf_new (T := t.shape) inv.labelled.pos)

theorem Inv.stored_attachHold (inv : Inv t path) (b : B) (hn : n < t.next) {k : H}
    {rest p : List H} :
    Stored ((t.attachLeaf n k rest).hold b t.next).shape
        (Function.update path t.next (path n ++ rest)) p ↔
      Stored t.shape path p ∨ Extends (path n) rest p := by
  rw [shape_hold, shape_attachLeaf hn]
  exact inv.labelled.stored_addLeaf

/-- A split adds the positions up to the cut for the inserting backend. -/
theorem Inv.splitHold (inv : Inv t path) (b : B) (hn : n < t.next) {first : H} {child j : NodeId}
    (kid : (t.node n).children.get? first = some child) (pos : 0 < j)
    (short : j < (t.node child).edge.length) :
    Inv ((t.splitEdge n first child j).hold b t.next)
        (Function.update path t.next (path n ++ (t.node child).edge.take j)) ∧
      ∀ b' p, Held ((t.splitEdge n first child j).hold b t.next)
          (Function.update path t.next (path n ++ (t.node child).edge.take j)) b' p ↔
        Held t path b' p ∨ (b' = b ∧ Extends (path n) ((t.node child).edge.take j) p) := by
  have inv' := inv.splitEdge hn kid pos short
  have hc : child < t.next := (inv.labelled.child (T := t.shape) hn kid).2.1
  have fields := splitEdge_node first hn hc short
  have hn' : n < (t.splitEdge n first child j).shape.next := by
    show n < (t.splitEdge n first child j).next
    rw [splitEdge_next]
    exact Nat.lt_succ_of_lt hn
  have kid' : (t.splitEdge n first child j).shape.kid n first = some t.next := by
    show ((t.splitEdge n first child j).node n).children.get? first = some t.next
    rw [(fields n).2.1 first]
    simp [Nat.ne_of_lt hn]
  have edge' : (t.splitEdge n first child j).shape.edge t.next = (t.node child).edge.take j := by
    show ((t.splitEdge n first child j).node t.next).edge = _
    rw [(fields t.next).1]
    simp [Nat.ne_of_gt hc]
  refine ⟨inv'.hold b inv.labelled.pos (by simp [splitEdge_next]), fun b' p => ?_⟩
  rw [held_hold, inv.held_splitEdge hn kid short, inv'.labelled.covers_kid hn' kid', edge',
    Function.update_of_ne (Nat.ne_of_lt hn)]

/-- A split stores no new position. -/
theorem Inv.stored_splitHold (inv : Inv t path) (b : B) (hn : n < t.next) {first : H}
    {child j : NodeId} (kid : (t.node n).children.get? first = some child)
    (short : j < (t.node child).edge.length) {p : List H} :
    Stored ((t.splitEdge n first child j).hold b t.next).shape
        (Function.update path t.next (path n ++ (t.node child).edge.take j)) p ↔
      Stored t.shape path p := by
  obtain ⟨-, hc, -, -⟩ := inv.labelled.child (T := t.shape) hn kid
  rw [shape_hold, shape_splitEdge hn hc short]
  exact inv.labelled.stored_split hn kid (Nat.le_of_lt short)

omit [DecidableEq B] in
/-- The blocks of an edge are stored. -/
theorem Inv.stored_kid (inv : Inv t path) (hn : n < t.next) {first : H} {child : NodeId}
    (kid : (t.node n).children.get? first = some child) {p : List H}
    (on : Extends (path n) (t.node child).edge p) : Stored t.shape path p :=
  ⟨child, (inv.labelled.covers_kid (T := t.shape) hn kid).mpr on⟩

/-- After a split the diverging hash has no child in the middle node. -/
theorem splitEdge_free (b : B) (first : H) {child : NodeId} (hn : n < t.next)
    (hc : child < t.next) {h tail : List H} {k : H}
    (short : commonLen (t.node child).edge h < (t.node child).edge.length)
    (beyond : h.drop (commonLen (t.node child).edge h) = k :: tail) :
    (((t.splitEdge n first child (commonLen (t.node child).edge h)).hold b t.next).node
      t.next).children.get? k = none := by
  rw [get?_children_hold, (splitEdge_node _ hn hc short t.next).2.1 k, if_pos rfl,
    if_neg (getElem?_commonLen_ne beyond)]

/-- What a relation between two ends of `insert`'s walk has to satisfy. The walk ends, hangs
a new leaf under the node it has come to, enters a child whose edge it has matched, or cuts
an edge where the hashes leave it and goes on from the cut. -/
structure InsertRule (b : B)
    (P : RadixTree H B → (NodeId → List H) → NodeId → List H → RadixTree H B →
      (NodeId → List H) → Prop) : Prop where
  done : ∀ {t path n}, Inv t path → n < t.next → P t path n [] t path
  attach : ∀ {t path n k} (tail : List H), Inv t path → n < t.next →
    (t.node n).children.get? k = none →
    P t path n (k :: tail) ((t.attachLeaf n k (k :: tail)).hold b t.next)
      (Function.update path t.next (path n ++ k :: tail))
  enter : ∀ {t path n first child rest t' path'}, Inv t path → n < t.next →
    (t.node n).children.get? first = some child → P (t.hold b child) path child rest t' path' →
    P t path n ((t.node child).edge ++ rest) t' path'
  split : ∀ {t path n first child j rest t' path'}, Inv t path → n < t.next →
    (t.node n).children.get? first = some child → 0 < j → j < (t.node child).edge.length →
    commonLen (t.node child).edge ((t.node child).edge.take j ++ rest) = j →
    P ((t.splitEdge n first child j).hold b t.next)
      (Function.update path t.next (path n ++ (t.node child).edge.take j)) t.next rest t' path' →
    P t path n ((t.node child).edge.take j ++ rest) t' path'

/-- A matched edge is entered. -/
theorem insertLoop_enter (b : B) (fuel : Nat) {first : H} {rest more : List H} {child : NodeId}
    (kid : (t.node n).children.get? first = some child)
    (whole : first :: rest = (t.node child).edge ++ more) :
    RadixTree.insertLoop b (fuel + 1) t n (first :: rest) =
      RadixTree.insertLoop b fuel (t.hold b child) child more := by
  have all : commonLen (t.node child).edge (first :: rest) = (t.node child).edge.length := by
    rw [whole, commonLen_append]
  simp only [RadixTree.insertLoop, kid]
  rw [if_pos all, all, whole, List.drop_left]

/-- Where the hashes leave an edge, the cut has no child toward what remains of them. -/
theorem free_at_cut (b : B) (first : H) (hn : n < t.next) {more : List H} {child j : NodeId}
    (alloc : child < t.next) (short : j < (t.node child).edge.length)
    (stops : commonLen (t.node child).edge ((t.node child).edge.take j ++ more) = j) :
    ∀ k ∈ more.head?,
      (((t.splitEdge n first child j).hold b t.next).node t.next).children.get? k = none := by
  intro k first_k
  obtain ⟨tail, rfl⟩ := List.head?_eq_some_iff.mp first_k
  have beyond : ((t.node child).edge.take j ++ k :: tail).drop
      (commonLen (t.node child).edge ((t.node child).edge.take j ++ k :: tail)) = k :: tail := by
    rw [stops]
    exact List.drop_left' (List.length_take_of_le (Nat.le_of_lt short))
  have free := splitEdge_free b first hn alloc (by rwa [stops]) beyond
  rwa [stops] at free

/-- Where the hashes leave an edge, the walk takes one more step from the cut. -/
theorem insertLoop_split (b : B) (fuel : Nat) (hn : n < t.next) {first : H} {rest more : List H}
    {child j : NodeId} (kid : (t.node n).children.get? first = some child)
    (alloc : child < t.next) (short : j < (t.node child).edge.length)
    (part : first :: rest = (t.node child).edge.take j ++ more)
    (stops : commonLen (t.node child).edge (first :: rest) = j) :
    RadixTree.insertLoop b (fuel + 1) t n (first :: rest) =
      RadixTree.insertLoop b 1 ((t.splitEdge n first child j).hold b t.next) t.next more := by
  have remains : (first :: rest).drop j = more := by
    rw [part, List.drop_left' (List.length_take_of_le (Nat.le_of_lt short))]
  have free := free_at_cut b first hn alloc short (part ▸ stops)
  simp only [RadixTree.insertLoop, kid]
  rw [stops, if_neg (Nat.ne_of_lt short), remains]
  cases more with
  | nil => rfl
  | cons k tail =>
      have missing := free k rfl
      simp only [RadixTree.insertLoop, missing]

section Rule

variable {P : RadixTree H B → (NodeId → List H) → NodeId → List H → RadixTree H B →
  (NodeId → List H) → Prop} {b : B}

/-- The walk from a node that has no child toward the remaining hashes. -/
theorem Inv.insertLoop_free (rule : InsertRule b P) (fuel : Nat) (inv : Inv t path)
    (hn : n < t.next) {rest : List H}
    (free : ∀ k ∈ rest.head?, (t.node n).children.get? k = none) :
    ∃ path', Inv (RadixTree.insertLoop b (fuel + 1) t n rest) path' ∧
      P t path n rest (RadixTree.insertLoop b (fuel + 1) t n rest) path' := by
  cases rest with
  | nil => exact ⟨path, inv, rule.done inv hn⟩
  | cons k tail =>
      have missing := free k rfl
      simp only [RadixTree.insertLoop, missing]
      exact ⟨_, (inv.attachHold b hn tail missing).1, rule.attach tail inv hn missing⟩

/-- The walk from a node whose child toward the remaining hashes has to be cut. -/
theorem Inv.insertLoop_cut (rule : InsertRule b P) (fuel : Nat) (inv : Inv t path)
    (hn : n < t.next) {first : H} {rest more : List H} {child j : NodeId}
    (kid : (t.node n).children.get? first = some child) (pos : 0 < j)
    (short : j < (t.node child).edge.length)
    (part : first :: rest = (t.node child).edge.take j ++ more)
    (stops : commonLen (t.node child).edge (first :: rest) = j) :
    ∃ path', Inv (RadixTree.insertLoop b (fuel + 1) t n (first :: rest)) path' ∧
      P t path n (first :: rest) (RadixTree.insertLoop b (fuel + 1) t n (first :: rest)) path' := by
  have alloc : child < t.next := (inv.labelled.child (T := t.shape) hn kid).2.1
  have here : t.next < ((t.splitEdge n first child j).hold b t.next).next := by
    simp [splitEdge_next]
  rw [insertLoop_split b fuel hn kid alloc short part stops]
  rw [part] at stops ⊢
  obtain ⟨path', inv', beyond⟩ := (inv.splitHold b hn kid pos short).1.insertLoop_free rule 0 here
    (free_at_cut b first hn alloc short stops)
  exact ⟨path', inv', rule.split inv hn kid pos short stops beyond⟩

/-- **The induction rule of `insert`'s walk.** -/
theorem Inv.insertLoop_rule (rule : InsertRule b P) (fuel : Nat) {t : RadixTree H B}
    {path : NodeId → List H} {n : NodeId} (inv : Inv t path) (hn : n < t.next) {rest : List H}
    (enough : rest.length ≤ fuel) :
    ∃ path', Inv (RadixTree.insertLoop b fuel t n rest) path' ∧
      P t path n rest (RadixTree.insertLoop b fuel t n rest) path' := by
  induction fuel generalizing t path n rest with
  | zero =>
      have empty : rest = [] := List.length_eq_zero_iff.mp (Nat.le_zero.mp enough)
      subst empty
      exact ⟨path, inv, rule.done inv hn⟩
  | succ fuel ih =>
      cases rest with
      | nil => exact ⟨path, inv, rule.done inv hn⟩
      | cons first rest =>
          cases kid : (t.node n).children.get? first with
          | none =>
              refine inv.insertLoop_free rule fuel hn fun k same => ?_
              cases same
              exact kid
          | some child =>
              obtain ⟨pos, alloc, -, tail, edge⟩ := inv.labelled.child (T := t.shape) hn kid
              change (t.node child).edge = first :: tail at edge
              rcases whole_or_part (t.node child).edge (first :: rest) with
                ⟨more, whole⟩ | ⟨j, more, short, part, stops⟩
              · have shrink : more.length ≤ fuel := by
                  have := congrArg List.length whole
                  rw [edge] at this
                  simp only [List.length_append, List.length_cons] at this enough
                  omega
                obtain ⟨path', inv', below⟩ := ih (inv.hold b pos alloc) alloc shrink
                rw [insertLoop_enter b fuel kid whole, whole]
                exact ⟨path', inv', rule.enter inv hn kid below⟩
              · have pos_j : 0 < j := by
                  rw [← stops, edge]
                  simp [commonLen]
                exact inv.insertLoop_cut rule fuel hn kid pos_j short part stops

end Rule

/-- The walk of `insert` from node `n`: it stores the positions that continue the
label of `n` along the remaining hashes, holds them for `b`, and changes nothing
else. -/
theorem Inv.insertLoop (b : B) (fuel : Nat) (inv : Inv t path) (hn : n < t.next)
    {rest : List H} (enough : rest.length ≤ fuel) :
    ∃ path', Inv (insertLoop b fuel t n rest) path' ∧
      (∀ b' p, Held (RadixTree.insertLoop b fuel t n rest) path' b' p ↔
        Held t path b' p ∨ (b' = b ∧ Extends (path n) rest p)) ∧
      ∀ p, Stored (RadixTree.insertLoop b fuel t n rest).shape path' p ↔
        Stored t.shape path p ∨ Extends (path n) rest p := by
  refine Inv.insertLoop_rule (b := b)
    (P := fun t path n rest t' path' =>
      (∀ b' p, Held t' path' b' p ↔ Held t path b' p ∨ (b' = b ∧ Extends (path n) rest p)) ∧
        ∀ p, Stored t'.shape path' p ↔ Stored t.shape path p ∨ Extends (path n) rest p)
    ⟨?done, ?attach, ?enter, ?split⟩ fuel inv hn enough
  case done =>
    intro t path n _ _
    simp [not_extends_nil]
  case attach =>
    intro t path n k tail inv hn free
    exact ⟨(inv.attachHold b hn tail free).2, fun p => inv.stored_attachHold b hn⟩
  case enter =>
    intro t path n first child rest t' path' inv hn kid ⟨held, stored⟩
    have label : path child = path n ++ (t.node child).edge :=
      (inv.labelled.child (T := t.shape) hn kid).2.2.1
    refine ⟨fun b' p => ?_, fun p => ?_⟩
    · rw [held, held_hold, inv.labelled.covers_kid (T := t.shape) hn kid, label, extends_append]
      show (_ ∨ _ ∧ Extends (path n) (t.node child).edge p) ∨ _ ↔ _
      tauto
    · have already := inv.stored_kid (p := p) hn kid
      rw [stored, shape_hold, label, extends_append]
      tauto
  case split =>
    intro t path n first child j rest t' path' inv hn kid pos short _ ⟨held, stored⟩
    refine ⟨fun b' p => ?_, fun p => ?_⟩
    · rw [held, (inv.splitHold b hn kid pos short).2, Function.update_self, extends_append]
      tauto
    · have already : Extends (path n) ((t.node child).edge.take j) p → Stored t.shape path p :=
        fun on => inv.stored_kid hn kid <| on.mono <| List.take_prefix _ _
      rw [stored, inv.stored_splitHold b hn kid short, Function.update_self, extends_append]
      tauto

/-- `insert(h, b)` before its eviction, for the blocks held and the blocks stored. -/
theorem Inv.touch_stored (inv : Inv t path) (h : List H) (b : B) :
    ∃ path', Inv (t.touch h b) path' ∧
      (∀ b' p, Held (t.touch h b) path' b' p ↔
        Held t path b' p ∨ (b' = b ∧ p ≠ [] ∧ p <+: h)) ∧
      ∀ p, Stored (t.touch h b).shape path' p ↔
        Stored t.shape path p ∨ (p ≠ [] ∧ p <+: h) := by
  have ticked : Inv { t with clock := t.clock + 1 } path :=
    ⟨inv.labelled, inv.tracked.nodup, inv.tracked.alloc, inv.tracked.holders⟩
  obtain ⟨path', inv', held, stored⟩ :=
    ticked.insertLoop b h.length (n := root) inv.labelled.pos (Nat.le_refl _)
  refine ⟨path', inv', fun b' p => ?_, fun p => ?_⟩
  · rw [RadixTree.touch, held, inv.labelled.root, extends_root]
    rfl
  · rw [RadixTree.touch, stored, inv.labelled.root, extends_root]
    rfl

/-- **`insert(h, b)` before its eviction** adds the non-empty prefixes of `h` to the
blocks of `b`, and changes no other backend's blocks. -/
theorem Inv.touch (inv : Inv t path) (h : List H) (b : B) :
    ∃ path', Inv (t.touch h b) path' ∧
      ∀ b' p, Held (t.touch h b) path' b' p ↔
        Held t path b' p ∨ (b' = b ∧ p ≠ [] ∧ p <+: h) := by
  obtain ⟨path', inv', held, -⟩ := inv.touch_stored h b
  exact ⟨path', inv', held⟩

theorem cap_insertLoop (b : B) (fuel : Nat) (t : RadixTree H B) (n : NodeId) (rest : List H) :
    (insertLoop b fuel t n rest).cap = t.cap := by
  have cap_track : ∀ (t : RadixTree H B) bs m, (t.trackAll bs m).cap = t.cap := by
    intro t bs m
    induction bs generalizing t with
    | nil => rfl
    | cons b' bs ih => exact ih (t.track b' m)
  have cap_split : ∀ (t : RadixTree H B) n first child j,
      (t.splitEdge n first child j).cap = t.cap := by
    intro t n first child j
    simp only [splitEdge, cap_track]
    cases (t.node child).edge.drop j <;> rfl
  induction fuel generalizing t n rest with
  | zero => rfl
  | succ fuel ih =>
      cases rest with
      | nil => rfl
      | cons first rest =>
          simp only [insertLoop]
          cases (t.node n).children.get? first with
          | none => rfl
          | some child =>
              dsimp only
              split
              · exact ih _ _ _
              · split
                · exact cap_split _ _ _ _ _
                · exact cap_split _ _ _ _ _

@[simp] theorem cap_touch (t : RadixTree H B) (h : List H) (b : B) :
    (t.touch h b).cap = t.cap := cap_insertLoop _ _ _ _ _

end Walk

/-! ### Dropping holders: eviction and removal -/

section Drop

omit [DecidableEq H] in
@[simp] theorem dropHolder_edge (b : B) (nodes : NodeId → Node H B) (n m : NodeId) :
    (dropHolder b nodes n m).edge = (nodes m).edge := by
  by_cases here : m = n
  · subst here
    simp [dropHolder]
  · simp [dropHolder, here]

omit [DecidableEq H] in
@[simp] theorem dropHolder_children (b : B) (nodes : NodeId → Node H B) (n m : NodeId) :
    (dropHolder b nodes n m).children = (nodes m).children := by
  by_cases here : m = n
  · subst here
    simp [dropHolder]
  · simp [dropHolder, here]

omit [DecidableEq H] in
theorem mem_holders_dropHolder {b b' : B} {nodes : NodeId → Node H B} {n m : NodeId} :
    b' ∈ (dropHolder b nodes n m).holders.keys ↔
      b' ∈ (nodes m).holders.keys ∧ ¬ (b' = b ∧ m = n) := by
  by_cases here : m = n
  · subst here
    simp only [dropHolder, Function.update_self, Dict.mem_keys_iff, Dict.get?_erase]
    by_cases same : b' = b <;> simp [same]
  · simp [dropHolder, here]

omit [DecidableEq H] in
theorem foldl_dropHolder (b : B) (l : List NodeId) (nodes : NodeId → Node H B) (m : NodeId) :
    (l.foldl (dropHolder b) nodes m).edge = (nodes m).edge ∧
      (l.foldl (dropHolder b) nodes m).children = (nodes m).children ∧
      ∀ b', b' ∈ (l.foldl (dropHolder b) nodes m).holders.keys ↔
        b' ∈ (nodes m).holders.keys ∧ ¬ (b' = b ∧ m ∈ l) := by
  induction l generalizing nodes with
  | nil => simp
  | cons n l ih =>
      obtain ⟨edge, children, holders⟩ := ih (dropHolder b nodes n)
      simp only [List.foldl_cons]
      refine ⟨edge.trans (dropHolder_edge ..), children.trans (dropHolder_children ..),
        fun b' => ?_⟩
      rw [holders, mem_holders_dropHolder, List.mem_cons]
      tauto

/-- Some nodes lose the holder `b`, and the LRU of `b` becomes `kept`. -/
def dropFrom (t : RadixTree H B) (b : B) (popped kept : List NodeId) : RadixTree H B :=
  { t with node := popped.foldl (dropHolder b) t.node, lru := Function.update t.lru b kept }

variable {t : RadixTree H B} {path : NodeId → List H} {b : B} {popped kept : List NodeId}

@[simp] theorem shape_dropFrom : (t.dropFrom b popped kept).shape = t.shape := by
  simp only [shape, dropFrom, Shape.mk.injEq, and_true]
  exact ⟨funext fun m => (foldl_dropHolder b popped t.node m).1,
    funext fun m => funext fun k => by rw [(foldl_dropHolder b popped t.node m).2.1]⟩

/-- Dropping an initial part of an LRU, on both sides at once, keeps the invariant. -/
theorem Inv.dropFrom (inv : Inv t path) (parts : t.lru b = popped ++ kept) :
    Inv (t.dropFrom b popped kept) path := by
  have nodup := inv.tracked.nodup b
  rw [parts] at nodup
  refine ⟨by rw [shape_dropFrom]; exact inv.labelled, ?_, ?_, ?_⟩
  · intro b'
    by_cases same : b' = b
    · subst same
      simpa [RadixTree.dropFrom] using nodup.of_append_right
    · simpa [RadixTree.dropFrom, same] using inv.tracked.nodup b'
  · intro b' m member
    by_cases same : b' = b
    · subst same
      refine inv.tracked.alloc (b := b') ?_
      rw [parts]
      exact List.mem_append_right _ (by simpa [RadixTree.dropFrom] using member)
    · exact inv.tracked.alloc (b := b') (by simpa [RadixTree.dropFrom, same] using member)
  · intro b' m
    rw [show ((t.dropFrom b popped kept).node m) = popped.foldl (dropHolder b) t.node m from rfl,
      (foldl_dropHolder b popped t.node m).2.2, inv.tracked.holders]
    by_cases same : b' = b
    · subst same
      have disjoint := List.disjoint_of_nodup_append nodup
      simp only [RadixTree.dropFrom, Function.update_self, parts, List.mem_append, true_and]
      constructor
      · rintro ⟨member | member, gone⟩
        · exact absurd member gone
        · exact member
      · intro member
        exact ⟨.inr member, fun gone => disjoint gone member⟩
    · simp [RadixTree.dropFrom, same]

theorem held_dropFrom_of_ne {b' : B} (other : b' ≠ b) {p : List H} :
    Held (t.dropFrom b popped kept) path b' p ↔ Held t path b' p := by
  rw [Held, Held, shape_dropFrom]
  simp [RadixTree.dropFrom, other]

theorem held_dropFrom_self {p : List H} :
    Held (t.dropFrom b popped kept) path b p ↔ ∃ c ∈ kept, Covers t.shape path c p := by
  rw [Held, shape_dropFrom]
  simp [RadixTree.dropFrom]

/-- The least recently used nodes that have to go: the shortest initial part of a
list of nodes whose removal brings the blocks within the cap. -/
def overflow (cap : Int) (nodes : NodeId → Node H B) : List NodeId → List NodeId
  | [] => []
  | n :: rest => if cap < blocks nodes (n :: rest) then n :: overflow cap nodes rest else []

/-- The nodes that survive. -/
def survivors (cap : Int) (nodes : NodeId → Node H B) : List NodeId → List NodeId
  | [] => []
  | n :: rest => if cap < blocks nodes (n :: rest) then survivors cap nodes rest else n :: rest

omit [DecidableEq H] [DecidableEq B] in
theorem overflow_append_survivors (cap : Int) (nodes : NodeId → Node H B) (l : List NodeId) :
    overflow cap nodes l ++ survivors cap nodes l = l := by
  induction l with
  | nil => rfl
  | cons n rest ih =>
      simp only [overflow, survivors]
      split
      · rw [List.cons_append, ih]
      · rfl

omit [DecidableEq H] [DecidableEq B] in
theorem blocks_survivors (cap : Int) (nodes : NodeId → Node H B) (l : List NodeId) :
    survivors cap nodes l = [] ∨ (blocks nodes (survivors cap nodes l) : Int) ≤ cap := by
  induction l with
  | nil => exact .inl rfl
  | cons n rest ih =>
      simp only [survivors]
      split
      · exact ih
      · rename_i fits
        exact .inr (not_lt.mp fits)

omit [DecidableEq H] [DecidableEq B] in
theorem overflow_eq_nil {cap : Int} {nodes : NodeId → Node H B} {l : List NodeId}
    (fits : (blocks nodes l : Int) ≤ cap) : overflow cap nodes l = [] := by
  cases l with
  | nil => rfl
  | cons n rest => exact if_neg (not_lt.mpr fits)

omit [DecidableEq H] [DecidableEq B] in
theorem survivors_eq_self {cap : Int} {nodes : NodeId → Node H B} {l : List NodeId}
    (fits : (blocks nodes l : Int) ≤ cap) : survivors cap nodes l = l := by
  cases l with
  | nil => rfl
  | cons n rest => exact if_neg (not_lt.mpr fits)

omit [DecidableEq H] in
theorem evictLoop_eq (cap : Int) (b : B) (l : List NodeId) (nodes nodes' : NodeId → Node H B)
    (edges : ∀ m, (nodes' m).edge = (nodes m).edge) :
    evictLoop cap b l (blocks nodes l) nodes' =
      (survivors cap nodes l, (overflow cap nodes l).foldl (dropHolder b) nodes') := by
  induction l generalizing nodes' with
  | nil => rfl
  | cons n rest ih =>
      simp only [evictLoop, survivors, overflow]
      split
      · have total : blocks nodes (n :: rest) - (nodes' n).edge.length = blocks nodes rest := by
          simp [blocks, edges]
        rw [total, ih, List.foldl_cons]
        exact fun m => (dropHolder_edge ..).trans (edges m)
      · rfl

omit [DecidableEq H] in
/-- `_evict` drops the overflow of the backend's LRU. -/
theorem evict_eq (t : RadixTree H B) (b : B) :
    t.evict b = t.dropFrom b (overflow t.cap t.node (t.lru b))
      (survivors t.cap t.node (t.lru b)) := by
  rw [RadixTree.evict, evictLoop_eq t.cap b (t.lru b) t.node t.node fun _ => rfl]
  rfl

theorem Inv.evict (inv : Inv t path) (b : B) : Inv (t.evict b) path := by
  rw [evict_eq]
  exact inv.dropFrom (overflow_append_survivors _ _ _).symm

omit [DecidableEq H] in
/-- Nothing is evicted while the backend's blocks fit. -/
theorem evict_eq_self (fits : (t.heldBlocks b : Int) ≤ t.cap) : t.evict b = t := by
  rw [evict_eq, overflow_eq_nil fits, survivors_eq_self fits]
  simp [RadixTree.dropFrom]

omit [DecidableEq H] in
theorem removeBackend_eq (t : RadixTree H B) (b : B) :
    t.removeBackend b = t.dropFrom b (t.lru b) [] := rfl

theorem Inv.removeBackend (inv : Inv t path) (b : B) : Inv (t.removeBackend b) path := by
  rw [removeBackend_eq]
  exact inv.dropFrom (List.append_nil _).symm

theorem held_removeBackend {b' : B} {p : List H} :
    Held (t.removeBackend b) path b' p ↔ Held t path b' p ∧ b' ≠ b := by
  rw [removeBackend_eq]
  by_cases same : b' = b
  · subst same
    simp [held_dropFrom_self]
  · simp [held_dropFrom_of_ne same, same]

end Drop

/-! ### Counting held blocks -/

section Count

variable {t : RadixTree H B} {path : NodeId → List H}

/-- The positions held by a backend, as a finite set. -/
def heldSet (t : RadixTree H B) (path : NodeId → List H) (b : B) : Finset (List H) :=
  (t.lru b).toFinset.biUnion (positions t.shape path)

omit [DecidableEq B] in
theorem Inv.mem_heldSet (inv : Inv t path) {b : B} {p : List H} :
    p ∈ t.heldSet path b ↔ Held t path b p := by
  simp only [heldSet, Finset.mem_biUnion, List.mem_toFinset, Held]
  refine exists_congr fun c => and_congr_right fun member => ?_
  have := inv.tracked.alloc member
  exact inv.labelled.mem_positions this.1 this.2

omit [DecidableEq B] in
/-- **`held_blocks(b)` counts the blocks held by `b`.** -/
theorem Inv.heldBlocks_eq (inv : Inv t path) (b : B) : t.heldBlocks b = (t.heldSet path b).card :=
  (inv.labelled.card_biUnion_positions (inv.tracked.nodup b)
    fun _ member => inv.tracked.alloc member).symm

omit [DecidableEq B] in
/-- `held_blocks` depends only on which blocks are held. -/
theorem Inv.heldBlocks_congr {t' : RadixTree H B} {path' : NodeId → List H}
    (inv : Inv t path) (inv' : Inv t' path') (b b' : B)
    (same : ∀ p, Held t path b p ↔ Held t' path' b' p) : t.heldBlocks b = t'.heldBlocks b' := by
  rw [inv.heldBlocks_eq, inv'.heldBlocks_eq]
  congr 1
  ext p
  rw [inv.mem_heldSet, inv'.mem_heldSet, same]

end Count

/-! ### Match -/

section Match

variable {t : RadixTree H B} {path : NodeId → List H}

/-- `m` is the length of the longest initial part of `rest` all of whose blocks,
read from position `w`, are held by `b`. -/
structure LongestHeld (t : RadixTree H B) (path : NodeId → List H) (b : B) (w rest : List H)
    (m : Nat) : Prop where
  le : m ≤ rest.length
  held : ∀ i, 0 < i → i ≤ m → Held t path b (w ++ rest.take i)
  stop : m < rest.length → ¬ Held t path b (w ++ rest.take (m + 1))

omit [DecidableEq B] in
theorem LongestHeld.unique {b : B} {w rest : List H} {m m' : Nat}
    (h : LongestHeld t path b w rest m) (h' : LongestHeld t path b w rest m') : m = m' := by
  rcases Nat.lt_trichotomy m m' with less | same | less
  · exact absurd (h'.held (m + 1) (Nat.succ_pos _) less) (h.stop (by have := h'.le; omega))
  · exact same
  · exact absurd (h.held (m' + 1) (Nat.succ_pos _) less) (h'.stop (by have := h.le; omega))

theorem get?_foldl_set (l : List B) (best : Dict B Nat) (d : Nat) (b : B) :
    (l.foldl (fun best b => best.set b d) best).get? b = if b ∈ l then some d else best.get? b := by
  induction l generalizing best with
  | nil => simp
  | cons a l ih =>
      rw [List.foldl_cons, ih, Dict.get?_set]
      by_cases later : b ∈ l
      · simp [later]
      · by_cases here : b = a <;> simp [later, here]

/-- `b` is still alive: it holds every node entered so far. -/
def Alive (alive : Option (List B)) (b : B) : Prop := ∀ a, alive = some a → b ∈ a

theorem mem_intersectAlive {alive : Option (List B)} {hk : List B} {b : B} :
    b ∈ intersectAlive alive hk ↔ Alive alive b ∧ b ∈ hk := by
  cases alive with
  | none => simp [intersectAlive, Alive]
  | some a => simp [intersectAlive, Alive]

omit [DecidableEq B] in
/-- Before the first node everybody is alive. -/
theorem alive_none {b : B} : Alive none b := fun _ same => by cases same

omit [DecidableEq B] in
theorem alive_after {a : List B} {b : B} (member : b ∈ a) : Alive (some a) b := by
  intro _ same
  cases same
  exact member

omit [DecidableEq B] in
/-- The node under `first` decides who holds the next block. -/
theorem Inv.held_next (inv : Inv t path) {n child : NodeId} {first : H} (hn : n < t.next)
    (kid : (t.node n).children.get? first = some child) {b : B} {q : List H}
    (on : Extends (path n) (t.node child).edge q) :
    Held t path b q ↔ b ∈ (t.node child).holders.keys := by
  have covers := (inv.labelled.covers_kid (T := t.shape) hn kid).mpr on
  rw [inv.tracked.holders]
  constructor
  · rintro ⟨c, member, covers'⟩
    rwa [inv.labelled.covers_unique covers covers']
  · intro member
    exact ⟨child, member, covers⟩

omit [DecidableEq B] in
/-- Nobody holds a block that continues the label of `n` with a missing symbol. -/
theorem Inv.not_held_missing (inv : Inv t path) {n : NodeId} {first : H} (hn : n < t.next)
    (kid : (t.node n).children.get? first = none) (b : B) {q : List H}
    (on : path n ++ [first] <+: q) : ¬ Held t path b q := by
  rintro ⟨c, _, covers⟩
  exact inv.labelled.no_toward (T := t.shape) hn kid covers.2.1 (on.trans covers.2.2.1)

omit [DecidableEq B] in
/-- Nobody holds a block beyond the point where the hashes leave an edge. -/
theorem Inv.not_held_diverged (inv : Inv t path) {n child : NodeId} {first : H} {rest : List H}
    (hn : n < t.next) (kid : (t.node n).children.get? first = some child)
    (short : commonLen (t.node child).edge (first :: rest) < (t.node child).edge.length)
    (more : commonLen (t.node child).edge (first :: rest) < (first :: rest).length) (b : B) :
    ¬ Held t path b (path n ++
      (first :: rest).take (commonLen (t.node child).edge (first :: rest) + 1)) := by
  rintro ⟨c, _, covers⟩
  set e := (t.node child).edge
  set j := commonLen e (first :: rest)
  have toward : path n ++ [first] <+: path c := by
    refine List.IsPrefix.trans ?_ covers.2.2.1
    rw [List.take_succ_cons]
    exact ⟨rest.take j, by simp⟩
  have through := inv.labelled.through_kid (T := t.shape) hn kid covers.2.1 toward
  rw [(inv.labelled.child (T := t.shape) hn kid).2.2.1] at through
  have on : (first :: rest).take (j + 1) <+: e := by
    refine (List.prefix_append_right_inj (path n)).mp
      (List.prefix_of_prefix_length_le covers.2.2.1 through ?_)
    show (path n ++ (first :: rest).take (j + 1)).length ≤ (path n ++ e).length
    rw [List.length_append, List.length_append, List.length_take]
    omega
  have := le_commonLen on <| List.take_prefix _ _
  rw [List.length_take] at this
  omega

/-- A whole edge matched: the hashes split at the child's label. -/
theorem take_append_edge {w e h : List H} (whole : commonLen e h = e.length) (i : Nat) :
    w ++ h.take (e.length + i) = (w ++ e) ++ (h.drop e.length).take i := by
  have front : h.take e.length = e := by
    have := take_commonLen_eq e h
    rwa [whole, List.take_length] at this
  rw [List.take_add, front, List.append_assoc]

theorem depth_edge {w e h l : List H} (label : l = w ++ e) (whole : ¬ commonLen e h < e.length) :
    w.length + commonLen e h = l.length := by
  have := commonLen_le_left e h
  rw [label, List.length_append]
  omega

omit [DecidableEq B] in
/-- One iteration of `match`: the blocks of one edge, then the rest from the child. -/
theorem Inv.longestHeld_step (inv : Inv t path) {b : B} {n child : NodeId} {first : H}
    {rest : List H} (hn : n < t.next) (kid : (t.node n).children.get? first = some child)
    (holds : b ∈ (t.node child).holders.keys) {m : Nat}
    (m_eq : (commonLen (t.node child).edge (first :: rest) < (t.node child).edge.length ∧
        m = commonLen (t.node child).edge (first :: rest)) ∨
      (commonLen (t.node child).edge (first :: rest) = (t.node child).edge.length ∧
        ∃ m', LongestHeld t path b (path child)
            ((first :: rest).drop (t.node child).edge.length) m' ∧
          m = (t.node child).edge.length + m')) :
    LongestHeld t path b (path n) (first :: rest) m := by
  have label : path child = path n ++ (t.node child).edge :=
    (inv.labelled.child (T := t.shape) hn kid).2.2.1
  have on_edge : ∀ i, 0 < i → i ≤ commonLen (t.node child).edge (first :: rest) →
      Held t path b (path n ++ (first :: rest).take i) := by
    intro i pos le
    refine (inv.held_next hn kid ⟨(List.prefix_append_right_inj _).mpr ?_, ?_⟩).mpr holds
    · have := take_commonLen_eq (t.node child).edge (first :: rest)
      rw [← Nat.min_eq_left le, ← List.take_take, this]
      have shared := List.take_prefix (commonLen (t.node child).edge (first :: rest)) (t.node child).edge
      refine List.IsPrefix.trans ?_ shared
      exact List.take_prefix _ _
    · have := commonLen_le_right (t.node child).edge (first :: rest)
      rw [List.length_append, List.length_take]
      omega
  rcases m_eq with ⟨part, rfl⟩ | ⟨whole, m', longest, rfl⟩
  · exact ⟨commonLen_le_right _ _, on_edge, fun more => inv.not_held_diverged hn kid part more b⟩
  · have le := commonLen_le_right (t.node child).edge (first :: rest)
    rw [whole] at le on_edge
    refine ⟨?_, ?_, ?_⟩
    · have := longest.le
      rw [List.length_drop] at this
      omega
    · intro i pos bound
      by_cases near : i ≤ (t.node child).edge.length
      · exact on_edge i pos near
      · obtain ⟨i', rfl⟩ := Nat.exists_eq_add_of_lt (Nat.lt_of_not_le near)
        rw [Nat.add_assoc, take_append_edge whole, ← label]
        exact longest.held _ (Nat.succ_pos _) (by omega)
    · intro more
      rw [Nat.add_assoc, take_append_edge whole, ← label]
      refine longest.stop ?_
      rw [List.length_drop]
      omega

/-- A backend that does not hold the next node keeps its entry. -/
theorem get?_matchLoop_of_gone (b : B) (fuel : Nat) {n : NodeId} {rest : List H}
    {alive : Option (List B)} {depth : Nat} {best : Dict B Nat}
    (gone : ∀ first tail child, rest = first :: tail →
      (t.node n).children.get? first = some child →
      b ∉ intersectAlive alive (t.node child).holders.keys) :
    (matchLoop t fuel n rest alive depth best).get? b = best.get? b := by
  induction fuel generalizing n rest alive depth best with
  | zero => rfl
  | succ fuel ih =>
      cases rest with
      | nil => rfl
      | cons first rest =>
          simp only [RadixTree.matchLoop]
          cases kid : (t.node n).children.get? first with
          | none => rfl
          | some child =>
              have out := gone first rest child rfl kid
              dsimp only
              split
              · rfl
              split
              · rw [get?_foldl_set, if_neg out]
              · rw [ih, get?_foldl_set, if_neg out]
                intro _ _ _ _ _ member
                exact out ((mem_intersectAlive.mp member).1 _ rfl)

/-- One iteration of `match` while somebody holds every node entered so far. -/
theorem matchLoop_succ {b : B} (fuel : Nat) {n child : NodeId} {first : H} (rest : List H)
    {alive : Option (List B)} (depth : Nat) (best : Dict B Nat)
    (kid : (t.node n).children.get? first = some child)
    (member : b ∈ intersectAlive alive (t.node child).holders.keys) :
    matchLoop t (fuel + 1) n (first :: rest) alive depth best =
      let alive := intersectAlive alive (t.node child).holders.keys
      let j := commonLen (t.node child).edge (first :: rest)
      let best := alive.foldl (fun best b => best.set b (depth + j)) best
      if j < (t.node child).edge.length then best
      else matchLoop t fuel child ((first :: rest).drop j) (some alive) (depth + j) best := by
  have nonempty : (intersectAlive alive (t.node child).holders.keys).isEmpty = false := by
    rw [List.isEmpty_eq_false_iff_exists_mem]
    exact ⟨b, member⟩
  simp only [RadixTree.matchLoop, kid, nonempty, Bool.false_eq_true, if_false]

/-- The walk of `match` from node `n`, for a backend that holds every node entered so
far. -/
theorem Inv.matchLoop (inv : Inv t path) {b : B} (fuel : Nat) {n : NodeId} (hn : n < t.next)
    {rest : List H} (enough : rest.length ≤ fuel) {alive : Option (List B)} (live : Alive alive b)
    (best : Dict B Nat) :
    ∃ m, LongestHeld t path b (path n) rest m ∧
      (matchLoop t fuel n rest alive (path n).length best).get? b =
        if 0 < m then some ((path n).length + m) else best.get? b := by
  induction fuel generalizing n rest alive best with
  | zero =>
      have empty : rest = [] := List.length_eq_zero_iff.mp (Nat.le_zero.mp enough)
      subst empty
      exact ⟨0, ⟨by simp, by omega, by simp⟩, rfl⟩
  | succ fuel ih =>
      cases rest with
      | nil => exact ⟨0, ⟨by simp, by omega, by simp⟩, rfl⟩
      | cons first rest =>
          cases kid : (t.node n).children.get? first with
          | none =>
              refine ⟨0, ⟨by simp, by omega, fun _ => ?_⟩, by simp [RadixTree.matchLoop, kid]⟩
              exact inv.not_held_missing hn kid b (by simp)
          | some child =>
              obtain ⟨_, alloc, label, tail, edge⟩ := inv.labelled.child (T := t.shape) hn kid
              change path child = path n ++ (t.node child).edge at label
              change (t.node child).edge = first :: tail at edge
              by_cases holds : b ∈ (t.node child).holders.keys
              · have member := mem_intersectAlive.mpr ⟨live, holds⟩
                have pos_j : 0 < commonLen (t.node child).edge (first :: rest) := by
                  simp [edge, commonLen]
                rw [matchLoop_succ fuel rest _ best kid member]
                dsimp only
                split
                · rename_i part
                  refine ⟨_, inv.longestHeld_step hn kid holds (.inl ⟨part, rfl⟩), ?_⟩
                  rw [get?_foldl_set, if_pos member, if_pos pos_j]
                · rename_i part
                  have whole := Nat.le_antisymm (commonLen_le_left _ _) (Nat.le_of_not_lt part)
                  have shrink : ((first :: rest).drop
                      (commonLen (t.node child).edge (first :: rest))).length ≤ fuel := by
                    rw [List.length_drop]
                    omega
                  rw [depth_edge label part]
                  obtain ⟨m', longest, value⟩ := ih alloc shrink
                    (alive_after member) _
                  rw [value, get?_foldl_set, if_pos member]
                  rw [whole] at longest pos_j
                  refine ⟨_, inv.longestHeld_step hn kid holds (.inr ⟨whole, m', longest, rfl⟩), ?_⟩
                  rw [label, List.length_append, if_pos (Nat.add_pos_left pos_j m')]
                  split
                  · rw [Nat.add_assoc]
                  · rename_i stops
                    rw [Nat.eq_zero_of_not_pos stops, Nat.add_zero]
              · refine ⟨0, ⟨by simp, by omega, fun _ held => ?_⟩, ?_⟩
                · refine holds ((inv.held_next hn kid ?_).mp held)
                  refine ⟨(List.prefix_append_right_inj _).mpr ?_, by simp⟩
                  simp [edge]
                · refine get?_matchLoop_of_gone b (fuel + 1) ?_
                  intro _ _ child' same kid' member
                  cases same
                  rw [kid] at kid'
                  cases kid'
                  exact holds (mem_intersectAlive.mp member).2

/-- **`match(q)[b]` is the length of the longest prefix of `q` all of whose blocks
are held by `b`**, and `b` has no entry when that length is `0`. -/
theorem Inv.matchPrefix (inv : Inv t path) (q : List H) (b : B) :
    ∃ m, LongestHeld t path b [] q m ∧
      (t.matchPrefix q).get? b = if 0 < m then some m else none := by
  obtain ⟨m, longest, value⟩ := inv.matchLoop (b := b) q.length (n := root) inv.labelled.pos
    (Nat.le_refl _) alive_none .empty
  rw [inv.labelled.root] at longest value
  refine ⟨m, longest, ?_⟩
  rw [RadixTree.matchPrefix]
  simpa using value

end Match

end Gateway.RadixTree
