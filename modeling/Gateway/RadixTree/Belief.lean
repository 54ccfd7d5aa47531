import Gateway.MockBackend
import Gateway.RadixTree.Naive
import Gateway.RadixTree.Survival

/-!
What the tree believes of a backend against what the backend has.

The gateway inserts the hashes of a prompt for the backend it sends the prompt to, and the
backend processes the same hashes (`exchange`). The tree drops whole segments and the backend
single blocks, but both drop what was used longest ago. `spelled t (t.lru b)`, the hashes on the
segments that `b` holds in the order of their last use, therefore trails the hashes sent to `b`
(`Trails`): an insert for `b` puts the inserted hashes behind all others (`Inv.spelled_touch`), and
an insert for another backend leaves them alone (`spelled_unsplit`).

The one exception is an insert for another backend that splits a segment of `b`: it moves the
upper half to the end of the LRU of `b`, though `b` has not used it (`Disturbs`).

* **`match_le_hits`.** A tree that is not larger than the backend's cache never credits `b` with
  a block that `b` has dropped, unless a segment of `b` was split for another backend.
* **`match_eq_hits`.** While nothing was dropped on either side, the two agree on every
  prompt, whatever was split.
-/

namespace Gateway.RadixTree

open Gateway.Trie

variable {H B : Type}

/-! ### The hashes on some nodes -/

/-- The edges of some nodes, one after the other. -/
def spelled (t : RadixTree H B) (l : List NodeId) : List H := l.flatMap fun n => (t.node n).edge

theorem length_spelled (t : RadixTree H B) (l : List NodeId) :
    (t.spelled l).length = blocks t.node l := by
  rw [spelled, blocks, List.length_flatMap]

theorem spelled_append (t : RadixTree H B) (l l' : List NodeId) :
    t.spelled (l ++ l') = t.spelled l ++ t.spelled l' := List.flatMap_append

theorem spelled_singleton (t : RadixTree H B) (n : NodeId) : t.spelled [n] = (t.node n).edge :=
  List.flatMap_singleton ..

theorem spelled_congr {t t' : RadixTree H B} {l : List NodeId}
    (edges : ∀ n ∈ l, (t'.node n).edge = (t.node n).edge) : t'.spelled l = t.spelled l :=
  List.flatMap_congr edges

/-- Leaving out a node whose hashes are filtered anyway. -/
theorem filter_spelled_erase (t : RadixTree H B) {l : List NodeId} {c : NodeId} {p : H → Bool}
    (out : ∀ x ∈ (t.node c).edge, ¬ p x = true) :
    (t.spelled (l.erase c)).filter p = (t.spelled l).filter p := by
  have none_left : (t.node c).edge.filter p = [] := List.filter_eq_nil_iff.mpr out
  induction l with
  | nil => rfl
  | cons n l ih =>
      by_cases same : n = c
      · subst same
        rw [List.erase_cons_head, spelled, spelled, List.flatMap_cons, List.filter_append, none_left,
          List.nil_append]
      · rw [List.erase_cons_tail (by simpa using same), spelled, spelled, List.flatMap_cons,
          List.flatMap_cons, List.filter_append, List.filter_append]
        exact congrArg _ ih

/-- Cutting off hashes that are filtered anyway. -/
theorem filter_spelled_cut {t t' : RadixTree H B} {l : List NodeId} {p : H → Bool}
    (cut : ∀ n ∈ l, (t'.node n).edge.filter p = (t.node n).edge.filter p) :
    (t'.spelled l).filter p = (t.spelled l).filter p := by
  rw [spelled, spelled, List.filter_flatMap, List.filter_flatMap]
  exact List.flatMap_congr cut

variable [DecidableEq H]

/-- A held block is one of the hashes of the backend. -/
theorem Inv.mem_spelled {t : RadixTree H B} {path : NodeId → List H} (inv : Inv t path) {b : B}
    {p : List H} {h : H} (held : Held t path b (p ++ [h])) : h ∈ t.spelled (t.lru b) := by
  obtain ⟨c, member, pos, alloc, on, long⟩ := held
  obtain ⟨n, k, hn, kid⟩ := inv.labelled.parent (T := t.shape) pos alloc
  have label : path c = path n ++ (t.node c).edge := (inv.labelled.child (T := t.shape) hn kid).2.2.1
  refine List.mem_flatMap.mpr ⟨c, member, ?_⟩
  change (path c).length < (p ++ [h]).length + (t.node c).edge.length at long
  -- the position ends beyond the label of the parent
  have beyond : path n <+: p := by
    have above : path n <+: path c := by
      rw [label]
      exact List.prefix_append _ _
    refine List.prefix_of_prefix_length_le above ((List.prefix_append _ _).trans on) ?_
    rw [label, List.length_append, List.length_append, List.length_singleton] at long
    omega
  obtain ⟨middle, rfl⟩ := beyond
  rw [label, List.append_assoc, List.prefix_append_right_inj] at on
  exact on.subset (List.mem_append_right _ (List.mem_singleton_self h))

variable [DecidableEq B]

/-! ### An insert for the backend -/

section Walk

variable {t : RadixTree H B} {path : NodeId → List H} {b : B}

/-- The edges of the old nodes after a split of `child`, apart from what is cut off. -/
theorem filter_edge_splitEdge (inv : Inv t path) {n child j : NodeId} {first : H} (hn : n < t.next)
    (kid : (t.node n).children.get? first = some child) (short : j < (t.node child).edge.length)
    {p : H → Bool} (out : ∀ x ∈ (t.node child).edge.take j, ¬ p x = true) {m : NodeId}
    (old : m < t.next) :
    (((t.splitEdge n first child j).hold b t.next).node m).edge.filter p =
      (t.node m).edge.filter p := by
  obtain ⟨-, hc, -, -⟩ := inv.labelled.child (T := t.shape) hn kid
  have same : (((t.splitEdge n first child j).hold b t.next).node m).edge =
      ((t.splitEdge n first child j).node m).edge :=
    congrFun (congrArg Shape.edge (shape_hold (t.splitEdge n first child j) b t.next)) m
  rw [same, (splitEdge_node first hn hc short m).1]
  split
  · rename_i here
    subst here
    conv_rhs => rw [← List.take_append_drop j (t.node m).edge, List.filter_append,
      List.filter_eq_nil_iff.mpr out, List.nil_append]
  · rw [if_neg (Nat.ne_of_lt old)]

/-- Going from `t` to `t'`, the nodes at the end of the LRU have come to spell `rest` more, and the
nodes before them have lost no hash that `p` keeps. -/
def Grows (b : B) (p : H → Bool) (t : RadixTree H B) (front back : List NodeId) (rest : List H)
    (t' : RadixTree H B) : Prop :=
  ∃ front' back', t'.lru b = front' ++ back' ∧ t'.spelled back' = t.spelled back ++ rest ∧
    (t'.spelled front').filter p = (t.spelled front).filter p

variable {p : H → Bool} {n child : NodeId} {front back : List NodeId}

omit [DecidableEq B] in
theorem Inv.lt_next (inv : Inv t path) (lru : t.lru b = front ++ back) {m : NodeId}
    (member : m ∈ front ++ back) : m < t.next := (inv.tracked.alloc (lru ▸ member)).2

omit [DecidableEq B] in
/-- A child of `n` is not among nodes above `n`. -/
theorem Inv.notMem_above (inv : Inv t path) (hn : n < t.next) {first : H}
    (kid : (t.node n).children.get? first = some child) (above : ∀ x ∈ back, path x <+: path n) :
    child ∉ back := by
  obtain ⟨-, -, label, tail, edge⟩ := inv.labelled.child (T := t.shape) hn kid
  intro member
  have short := (above child member).length_le
  rw [label, edge, List.length_append, List.length_cons] at short
  omega

/-- A new leaf comes last. -/
theorem Inv.grows_attach (inv : Inv t path) (hn : n < t.next) (k : H) (tail : List H)
    (lru : t.lru b = front ++ back) :
    Grows b p t front back (k :: tail) ((t.attachLeaf n k (k :: tail)).hold b t.next) := by
  have fresh : t.next ∉ front ++ back := fun member =>
    absurd (inv.lt_next lru member) (Nat.lt_irrefl _)
  have shape := fun m => congrFun (congrArg Shape.edge
    ((shape_hold (t.attachLeaf n k (k :: tail)) b t.next).trans (shape_attachLeaf hn k _))) m
  have same : ∀ l : List NodeId, l ⊆ front ++ back →
      ((t.attachLeaf n k (k :: tail)).hold b t.next).spelled l = t.spelled l := by
    intro l inside
    exact spelled_congr fun m member =>
      (shape m).trans (edge_addLeaf_old (T := t.shape) (inv.lt_next lru (inside member)))
  have new : (((t.attachLeaf n k (k :: tail)).hold b t.next).node t.next).edge = k :: tail :=
    (shape t.next).trans (edge_addLeaf_new (T := t.shape) ..)
  refine ⟨front, back ++ [t.next], ?_, ?_, ?_⟩
  · rw [lru_hold, attachLeaf_lru, lru, List.erase_of_not_mem fresh, List.append_assoc]
  · rw [spelled_append, same back (List.subset_append_right _ _), spelled_singleton, new]
  · rw [same front (List.subset_append_left _ _)]

/-- Entering a child takes it from wherever it was to the end. -/
theorem Inv.grows_enter (inv : Inv t path) (hn : n < t.next) {first : H}
    (kid : (t.node n).children.get? first = some child) (out : ∀ x ∈ (t.node child).edge, ¬ p x = true)
    (lru : t.lru b = front ++ back) (above : ∀ x ∈ back, path x <+: path n) {rest : List H}
    {t' : RadixTree H B}
    (keeps : ∀ front back, (t.hold b child).lru b = front ++ back →
      (∀ x ∈ back, path x <+: path child) → Grows b p (t.hold b child) front back rest t') :
    Grows b p t front back ((t.node child).edge ++ rest) t' := by
  have label : path child = path n ++ (t.node child).edge :=
    (inv.labelled.child (T := t.shape) hn kid).2.2.1
  have apart := inv.notMem_above hn kid above
  have edges : ∀ l, (t.hold b child).spelled l = t.spelled l := fun l =>
    spelled_congr fun m _ => congrFun (congrArg Shape.edge (shape_hold t b child)) m
  have moved : (t.hold b child).lru b = front.erase child ++ (back ++ [child]) := by
    rw [lru_hold, lru]
    by_cases member : child ∈ front
    · rw [List.erase_append_left _ member, List.append_assoc]
    · rw [List.erase_of_not_mem (by simp [member, apart]), List.erase_of_not_mem member,
        List.append_assoc]
  have above' : ∀ x ∈ back ++ [child], path x <+: path child := by
    intro x member
    rcases List.mem_append.mp member with member | member
    · rw [label]
      exact (above x member).trans (List.prefix_append _ _)
    · rw [List.mem_singleton.mp member]
  obtain ⟨front', back', lru', behind, before⟩ := keeps _ _ moved above'
  refine ⟨front', back', lru', ?_, ?_⟩
  · rw [behind, edges, spelled_append, spelled_singleton, List.append_assoc]
  · rw [before, edges]
    exact filter_spelled_erase t out

/-- A split leaves the lower half where it was and puts the upper half last. -/
theorem Inv.grows_split (inv : Inv t path) (hn : n < t.next) {first : H} {j : Nat}
    (kid : (t.node n).children.get? first = some child) (short : j < (t.node child).edge.length)
    (out : ∀ x ∈ (t.node child).edge.take j, ¬ p x = true) (lru : t.lru b = front ++ back)
    (above : ∀ x ∈ back, path x <+: path n) {w rest : List H} (down : path n <+: w)
    {t' : RadixTree H B}
    (keeps : ∀ front back, ((t.splitEdge n first child j).hold b t.next).lru b = front ++ back →
      (∀ x ∈ back, Function.update path t.next w x <+: Function.update path t.next w t.next) →
      Grows b p ((t.splitEdge n first child j).hold b t.next) front back rest t') :
    Grows b p t front back ((t.node child).edge.take j ++ rest) t' := by
  have alloc : child < t.next := (inv.labelled.child (T := t.shape) hn kid).2.1
  have apart := inv.notMem_above hn kid above
  have fresh : t.next ∉ t.lru b := fun member =>
    absurd (inv.tracked.alloc member).2 (Nat.lt_irrefl _)
  have shape := fun m => congrFun (congrArg Shape.edge
    (shape_hold (t.splitEdge n first child j) b t.next)) m
  have fields := splitEdge_node first hn alloc short
  have kept : ∀ m ∈ back, (((t.splitEdge n first child j).hold b t.next).node m).edge =
      (t.node m).edge := by
    intro m member
    refine (shape m).trans ((fields m).1.trans ?_)
    have other : m ≠ child := by
      rintro rfl
      exact apart member
    rw [if_neg other,
      if_neg (Nat.ne_of_lt (inv.lt_next lru (List.mem_append_right _ member)))]
  have upper : (((t.splitEdge n first child j).hold b t.next).node t.next).edge =
      (t.node child).edge.take j := by
    refine (shape t.next).trans ((fields t.next).1.trans ?_)
    rw [if_neg (Nat.ne_of_gt alloc), if_pos rfl]
  have moved : ((t.splitEdge n first child j).hold b t.next).lru b =
      front ++ (back ++ [t.next]) := by
    rw [lru_hold, lru_splitEdge_erase inv.tracked, List.erase_of_not_mem fresh, lru,
      List.append_assoc]
  have above' : ∀ x ∈ back ++ [t.next],
      Function.update path t.next w x <+: Function.update path t.next w t.next := by
    intro x member
    rw [Function.update_self]
    rcases List.mem_append.mp member with member | member
    · rw [Function.update_of_ne
        (Nat.ne_of_lt (inv.lt_next lru (List.mem_append_right _ member)))]
      exact (above x member).trans down
    · rw [List.mem_singleton.mp member, Function.update_self]
  obtain ⟨front', back', lru', behind, before⟩ := keeps _ _ moved above'
  refine ⟨front', back', lru', ?_, ?_⟩
  · rw [behind, spelled_append, spelled_congr kept, spelled_singleton, upper, List.append_assoc]
  · rw [before]
    refine filter_spelled_cut fun m member => ?_
    exact filter_edge_splitEdge inv hn kid short out
      (inv.lt_next lru (List.mem_append_left _ member))

/-- **The walk of an insert** puts the hashes it has walked behind all others. -/
theorem Inv.grows_insertLoop (fuel : Nat) (inv : Inv t path) (hn : n < t.next) {rest : List H}
    (enough : rest.length ≤ fuel) (out : ∀ x ∈ rest, ¬ p x = true) (lru : t.lru b = front ++ back)
    (above : ∀ x ∈ back, path x <+: path n) :
    Grows b p t front back rest (RadixTree.insertLoop b fuel t n rest) := by
  have walk := Inv.insertLoop_rule (b := b)
    (P := fun t path n rest t' _ => (∀ x ∈ rest, ¬ p x = true) → ∀ front back,
      t.lru b = front ++ back → (∀ x ∈ back, path x <+: path n) → Grows b p t front back rest t')
    ⟨?done, ?attach, ?enter, ?split⟩ fuel inv hn enough
  · obtain ⟨path', inv', keeps⟩ := walk
    exact keeps out front back lru above
  case done =>
    intro t path n _ _ _ front back lru _
    exact ⟨front, back, lru, (List.append_nil _).symm, rfl⟩
  case attach =>
    intro t path n k tail inv hn _ _ front back lru _
    exact inv.grows_attach hn k tail lru
  case enter =>
    intro t path n first child rest t' path' inv hn kid keeps out front back lru above
    rw [List.forall_mem_append] at out
    exact inv.grows_enter hn kid out.1 lru above (keeps out.2)
  case split =>
    intro t path n first child j rest t' path' inv hn kid _ short _ keeps out front back lru above
    rw [List.forall_mem_append] at out
    exact inv.grows_split hn kid short out.1 lru above (List.prefix_append _ _) (keeps out.2)

/-- **An insert for `b`, before its eviction.** -/
theorem Inv.spelled_touch (inv : Inv t path) (h : List H) (b : B) :
    ∃ older, (t.touch h b).spelled ((t.touch h b).lru b) = older ++ h ∧
      older.filter (fun x => decide (x ∉ h)) =
        (t.spelled (t.lru b)).filter fun x => decide (x ∉ h) := by
  have ticked : Inv { t with clock := t.clock + 1 } path :=
    ⟨inv.labelled, inv.tracked.nodup, inv.tracked.alloc, inv.tracked.holders⟩
  have walked : Grows b (fun x => decide (x ∉ h)) { t with clock := t.clock + 1 } (t.lru b) [] h
      (t.touch h b) :=
    ticked.grows_insertLoop h.length (n := root) inv.labelled.pos (Nat.le_refl _) (by simp)
      (List.append_nil _).symm (by simp)
  obtain ⟨front, back, lru, behind, before⟩ := walked
  refine ⟨(t.touch h b).spelled front, ?_, before⟩
  rw [lru, spelled_append, behind]
  rfl

end Walk

/-! ### An insert for another backend -/

/-- The node whose edge the walk of an insert leaves half-way. -/
def dividedFrom (t : RadixTree H B) : Nat → NodeId → List H → Option NodeId
  | 0, _, _ => none
  | _ + 1, _, [] => none
  | fuel + 1, node, first :: rest =>
      match (t.node node).children.get? first with
      | none => none
      | some child =>
          let j := commonLen (t.node child).edge (first :: rest)
          if j = (t.node child).edge.length then dividedFrom t fuel child ((first :: rest).drop j)
          else some child

/-- The node that `insert(hashes, ·)` splits. -/
def divided (t : RadixTree H B) (hashes : List H) : Option NodeId :=
  dividedFrom t hashes.length root hashes

/-- The call splits a segment of `b` for another backend. -/
def disturbs (t : RadixTree H B) (b : B) : Op H B → Bool
  | .insert hashes b' =>
      decide (b' ≠ b) && (t.divided hashes).any fun c => (t.node c).holders.contains b
  | .remove _ => false

omit [DecidableEq B] in
/-- Where a walk ends depends on edges and children alone. -/
theorem dividedFrom_congr {t t' : RadixTree H B} (same : t'.shape = t.shape) (fuel : Nat) (n : NodeId)
    (rest : List H) : dividedFrom t' fuel n rest = dividedFrom t fuel n rest := by
  induction fuel generalizing n rest with
  | zero => rfl
  | succ fuel ih =>
      cases rest with
      | nil => rfl
      | cons first rest =>
          have kid : (t'.node n).children.get? first = (t.node n).children.get? first :=
            congrFun (congrFun (congrArg Shape.kid same) n) first
          rw [dividedFrom, dividedFrom, kid]
          cases (t.node n).children.get? first with
          | none => rfl
          | some child =>
              have edge : (t'.node child).edge = (t.node child).edge :=
                congrFun (congrArg Shape.edge same) child
              dsimp only
              rw [edge, ih]

section Others

variable {t : RadixTree H B} {path : NodeId → List H} {b b' : B}

/-- What `b` holds, hash by hash in the order of last use, is the same in both trees. -/
def Undisturbed (b : B) (t t' : RadixTree H B) : Prop :=
  t'.lru b = t.lru b ∧ ∀ n ∈ t.lru b, (t'.node n).edge = (t.node n).edge

omit [DecidableEq H] [DecidableEq B] in
theorem Undisturbed.trans {t t' t'' : RadixTree H B} (first : Undisturbed b t t')
    (second : Undisturbed b t' t'') : Undisturbed b t t'' := by
  obtain ⟨lru, edges⟩ := first
  obtain ⟨lru', edges'⟩ := second
  rw [lru] at lru' edges'
  exact ⟨lru', fun n member => (edges' n member).trans (edges n member)⟩

omit [DecidableEq H] [DecidableEq B] in
theorem Undisturbed.spelled {t t' : RadixTree H B} (same : Undisturbed b t t') :
    t'.spelled (t'.lru b) = t.spelled (t.lru b) := by
  rw [same.1]
  exact spelled_congr same.2

theorem undisturbed_hold (other : b' ≠ b) (t : RadixTree H B) (n : NodeId) :
    Undisturbed b t (t.hold b' n) := by
  refine ⟨?_, fun m _ => congrFun (congrArg Shape.edge (shape_hold t b' n)) m⟩
  simp [RadixTree.hold, track, modify, Ne.symm other]

omit [DecidableEq B] in
theorem Inv.undisturbed_attach (inv : Inv t path) {n : NodeId} (hn : n < t.next) (k : H)
    (rest : List H) : Undisturbed b t (t.attachLeaf n k rest) := by
  refine ⟨rfl, fun m member => ?_⟩
  exact (congrFun (congrArg Shape.edge (shape_attachLeaf hn k rest)) m).trans
    (edge_addLeaf_old (T := t.shape) (inv.tracked.alloc member).2)

omit [DecidableEq H] in
theorem lru_trackAll_of_notMem {bs : List B} (absent : b ∉ bs) (t : RadixTree H B) (n : NodeId) :
    (t.trackAll bs n).lru b = t.lru b := by
  induction bs generalizing t with
  | nil => rfl
  | cons b' bs ih =>
      rw [List.mem_cons, not_or] at absent
      refine (ih absent.2 (t.track b' n)).trans ?_
      simp [track, absent.1]

/-- Splitting a segment that `b` does not hold. -/
theorem Inv.undisturbed_split (inv : Inv t path) {n child j : NodeId} {first : H} (hn : n < t.next)
    (kid : (t.node n).children.get? first = some child) (short : j < (t.node child).edge.length)
    (absent : b ∉ (t.node child).holders.keys) :
    Undisturbed b t (t.splitEdge n first child j) := by
  have alloc : child < t.next := (inv.labelled.child (T := t.shape) hn kid).2.1
  have fields := splitEdge_node first hn alloc short
  have keys := (fields t.next).2.2
  rw [if_pos rfl] at keys
  constructor
  · simp only [RadixTree.splitEdge, trackAll_node] at keys ⊢
    rw [lru_trackAll_of_notMem (by rw [keys]; exact absent)]
    cases (t.node child).edge.drop j <;> rfl
  · intro m member
    have other : m ≠ child := by
      rintro rfl
      exact absent (inv.tracked.holders.mpr member)
    rw [(fields m).1, if_neg other, if_neg (Nat.ne_of_lt (inv.tracked.alloc member).2)]

/-- The walk of an insert for another backend that splits no segment of `b`. -/
theorem Inv.undisturbed_insertLoop (other : b' ≠ b) (fuel : Nat) (inv : Inv t path) {n : NodeId}
    (hn : n < t.next) {rest : List H}
    (calm : ∀ c, dividedFrom t fuel n rest = some c → b ∉ (t.node c).holders.keys) :
    Undisturbed b t (RadixTree.insertLoop b' fuel t n rest) := by
  induction fuel generalizing t n rest with
  | zero => exact ⟨rfl, fun _ _ => rfl⟩
  | succ fuel ih =>
      cases rest with
      | nil => exact ⟨rfl, fun _ _ => rfl⟩
      | cons first rest =>
          rw [dividedFrom] at calm
          rw [RadixTree.insertLoop]
          cases kid : (t.node n).children.get? first with
          | none => exact (inv.undisturbed_attach hn first _).trans (undisturbed_hold other _ _)
          | some child =>
              obtain ⟨pos, alloc, -, tail, edge⟩ := inv.labelled.child (T := t.shape) hn kid
              change (t.node child).edge = first :: tail at edge
              rw [kid] at calm
              dsimp only at calm ⊢
              split
              · rename_i whole
                rw [if_pos whole] at calm
                refine (undisturbed_hold other t child).trans (ih (inv.hold b' pos alloc) alloc ?_)
                intro c found
                rw [dividedFrom_congr (shape_hold t b' child)] at found
                rw [mem_holders_hold]
                rintro (holds | ⟨same, -⟩)
                · exact calm c found holds
                · exact other same.symm
              · rename_i part
                rw [if_neg part] at calm
                have short := lt_of_le_of_ne (commonLen_le_left _ _) part
                have pos_j : 0 < commonLen (t.node child).edge (first :: rest) := by
                  simp [edge, commonLen]
                have cut := (inv.undisturbed_split hn kid short (calm child rfl)).trans
                  (undisturbed_hold other _ t.next)
                split
                · exact cut
                · have inv' := (inv.splitHold b' hn kid pos_j short).1
                  refine cut.trans ((inv'.undisturbed_attach ?_ _ _).trans (undisturbed_hold other _ _))
                  simp [splitEdge_next]

theorem undisturbed_dropFrom (other : b' ≠ b) (t : RadixTree H B) (popped kept : List NodeId) :
    Undisturbed b t (t.dropFrom b' popped kept) := by
  refine ⟨by simp [RadixTree.dropFrom, Ne.symm other], fun m _ => ?_⟩
  exact congrFun (congrArg Shape.edge (shape_dropFrom (t := t))) m

/-- **A call that does not disturb `b`**, for another backend. -/
theorem Inv.undisturbed_apply (inv : Inv t path) {op : Op H B}
    (elsewhere : ∀ hashes, op ≠ .insert hashes b) (still : op ≠ .remove b)
    (calm : t.disturbs b op = false) : Undisturbed b t (t.apply op) := by
  cases op with
  | insert hashes b' =>
      have other : b' ≠ b := by
        rintro rfl
        exact elsewhere hashes rfl
      rw [RadixTree.apply, RadixTree.insert]
      split
      · exact ⟨rfl, fun _ _ => rfl⟩
      · have ticked : Inv { t with clock := t.clock + 1 } path :=
          ⟨inv.labelled, inv.tracked.nodup, inv.tracked.alloc, inv.tracked.holders⟩
        have unsplit : ∀ c, dividedFrom { t with clock := t.clock + 1 } hashes.length root hashes =
            some c → b ∉ (t.node c).holders.keys := by
          intro c found holds
          have same : t.shape = ({ t with clock := t.clock + 1 } : RadixTree H B).shape := rfl
          have found : t.divided hashes = some c := (dividedFrom_congr same _ _ _).trans found
          simp [disturbs, other, found, Dict.contains, Dict.mem_keys_iff.mp holds] at calm
        have walked : Undisturbed b t (t.touch hashes b') :=
          ticked.undisturbed_insertLoop other hashes.length inv.labelled.pos unsplit
        rw [evict_eq]
        exact walked.trans (undisturbed_dropFrom other _ _ _)
  | remove b' =>
      have other : b' ≠ b := by
        rintro rfl
        exact still rfl
      exact undisturbed_dropFrom other t (t.lru b') []

end Others

/-! ### The gateway and its backends -/

/-- The tree of the gateway, and the caches of the backends. -/
structure Exchange (H B : Type) where
  tree : RadixTree H B
  backend : B → MockBackend H

/-- A prompt sent to a backend is inserted into the tree and processed by the backend; a backend
is removed from the tree alone. -/
def Exchange.apply (s : Exchange H B) : Op H B → Exchange H B
  | .insert hashes b =>
      { tree := s.tree.insert hashes b
        backend := Function.update s.backend b ((s.backend b).process hashes).2 }
  | .remove b => { s with tree := s.tree.removeBackend b }

/-- The calls of a gateway that has just started, with backends that have served nothing. -/
def exchange (cap : Int) (capBlocks : B → Int) (ops : List (Op H B)) : Exchange H B :=
  ops.foldl Exchange.apply ⟨init cap, fun b => .init (capBlocks b)⟩

/-- The prompts sent to a backend. -/
def sentTo (b : B) (ops : List (Op H B)) : List (List H) :=
  ops.filterMap fun op =>
    match op with
    | .insert hashes b' => if b' = b then some hashes else none
    | .remove _ => none

omit [DecidableEq H] in
theorem sentTo_append (b : B) (ops ops' : List (Op H B)) :
    sentTo b (ops ++ ops') = sentTo b ops ++ sentTo b ops' := List.filterMap_append

omit [DecidableEq H] in
theorem sentTo_insert (b b' : B) (hashes : List H) :
    sentTo b [.insert hashes b'] = if b' = b then [hashes] else [] := by
  by_cases same : b' = b <;> simp [sentTo, same]

theorem exchange_snoc (cap : Int) (capBlocks : B → Int) (ops : List (Op H B)) (op : Op H B) :
    exchange cap capBlocks (ops ++ [op]) = (exchange cap capBlocks ops).apply op := by
  simp [exchange]

theorem tree_exchange (cap : Int) (capBlocks : B → Int) (ops : List (Op H B)) :
    (exchange cap capBlocks ops).tree = runOps cap ops := by
  induction ops using List.reverseRecOn with
  | nil => rfl
  | append_singleton ops op ih =>
      rw [exchange_snoc, runOps_snoc, ← ih]
      cases op <;> rfl

theorem backend_exchange (cap : Int) (capBlocks : B → Int) (ops : List (Op H B)) (b : B) :
    (exchange cap capBlocks ops).backend b =
      (MockBackend.init (capBlocks b)).processAll (sentTo b ops) := by
  induction ops using List.reverseRecOn with
  | nil => rfl
  | append_singleton ops op ih =>
      rw [exchange_snoc, sentTo_append]
      cases op with
      | insert hashes b' =>
          rw [sentTo_insert]
          by_cases same : b' = b
          · subst same
            simp [Exchange.apply, ih, MockBackend.processAll]
          · simp [Exchange.apply, ih, same, Ne.symm same]
      | remove b' => simpa [Exchange.apply, sentTo] using ih

/-! ### Never more than the backend has -/

/-- The tree's segments of `b` trail the hashes sent to `b`. -/
theorem trails_runOps (cap : Int) (ops : List (Op H B)) (b : B)
    (calm : ∀ i (bound : i < ops.length), (runOps cap (ops.take i)).disturbs b ops[i] = false) :
    Trails ((runOps cap ops).spelled ((runOps cap ops).lru b)) (sentTo b ops).flatten := by
  induction ops using List.reverseRecOn with
  | nil => exact Trails.nil _
  | append_singleton ops op ih =>
      have before := ih fun i bound => by
        have early := calm i (by rw [List.length_append]; omega)
        rwa [List.take_append_of_le_length bound.le, List.getElem_append_left bound] at early
      have now := calm ops.length (by simp)
      rw [List.take_left, List.getElem_concat_length rfl] at now
      obtain ⟨path, inv⟩ := runOps_inv cap ops
      rw [runOps_snoc, sentTo_append, List.flatten_append]
      generalize runOps cap ops = t at before now inv ⊢
      by_cases own : ∃ hashes, op = .insert hashes b
      · obtain ⟨hashes, rfl⟩ := own
        rw [sentTo_insert, if_pos rfl, List.flatten_singleton, RadixTree.apply, RadixTree.insert]
        split
        · rename_i empty
          rw [List.isEmpty_iff.mp empty, List.append_nil]
          exact before
        · -- the inserted hashes come last, then the oldest segments go
          obtain ⟨older, whole, others⟩ := inv.spelled_touch hashes b
          have touched := before.touch others
          rw [← whole] at touched
          refine touched.drop ?_
          have edges : ∀ l, ((t.touch hashes b).evict b).spelled l = (t.touch hashes b).spelled l := by
            intro l
            refine spelled_congr fun m _ => ?_
            rw [evict_eq]
            exact congrFun (congrArg Shape.edge (shape_dropFrom (t := t.touch hashes b))) m
          have lru : ((t.touch hashes b).evict b).lru b =
              survivors (t.touch hashes b).cap (t.touch hashes b).node ((t.touch hashes b).lru b) := by
            rw [evict_eq]
            exact Function.update_self ..
          rw [edges, lru]
          conv_rhs => rw [← overflow_append_survivors (t.touch hashes b).cap
            (t.touch hashes b).node ((t.touch hashes b).lru b), spelled_append]
          exact List.suffix_append _ _
      · have nothing : sentTo b [op] = [] := by
          cases op with
          | insert hashes b' =>
              have other : b' ≠ b := fun same => own ⟨hashes, same ▸ rfl⟩
              rw [sentTo_insert, if_neg other]
          | remove b' => rfl
        rw [nothing, List.flatten_nil, List.append_nil]
        by_cases removed : op = .remove b
        · subst removed
          have empty : (t.apply (.remove b)).lru b = [] := Function.update_self ..
          rw [empty]
          exact Trails.nil _
        · have same := inv.undisturbed_apply (fun hashes is => own ⟨hashes, is⟩) removed now
          rw [same.spelled]
          exact before

/-- **The tree never credits a backend with a block it has dropped**, if its cap is at most the
size of the backend's cache and no segment of the backend was split for another one: for every
prompt, `match` is at most the number of blocks the backend finds warm. -/
theorem match_le_hits (cap : Nat) (capBlocks : B → Int) (ops : List (Op H B)) (b : B)
    (large : (cap : Int) ≤ capBlocks b)
    (calm : ∀ i (bound : i < ops.length),
      (exchange cap capBlocks (ops.take i)).tree.disturbs b ops[i] = false) (q : List H) :
    let s := exchange cap capBlocks ops
    (s.tree.matchPrefix q).getD b 0 ≤ (s.backend b).hits q := by
  intro s
  simp only [tree_exchange] at calm
  have trails := trails_runOps cap ops b calm
  have cached := MockBackend.cached_processAll (capBlocks b) (sentTo b ops)
  have small : ((runOps (cap : Int) ops).spelled ((runOps (cap : Int) ops).lru b)).length ≤
      (capBlocks b).toNat := by
    have within : ((runOps (cap : Int) ops).heldBlocks b : Int) ≤ cap :=
      runOps_heldBlocks (Int.natCast_nonneg cap) ops b
    rw [heldBlocks, ← length_spelled] at within
    omega
  obtain ⟨path, inv⟩ := runOps_inv (cap : Int) ops
  obtain ⟨m, longest, entry⟩ := inv.matchPrefix q b
  have tree : s.tree = runOps cap ops := tree_exchange cap capBlocks ops
  have backend : s.backend b = (MockBackend.init (capBlocks b)).processAll (sentTo b ops) :=
    backend_exchange cap capBlocks ops b
  rw [tree, backend, getD_matchPrefix entry]
  refine MockBackend.le_hits longest.le fun h member => ?_
  rw [cached]
  refine trails.mem_recent small ?_
  -- the block that ends in `h` is held
  obtain ⟨i, below, rfl⟩ := List.mem_iff_getElem.mp member
  rw [List.length_take] at below
  have held := longest.held (i + 1) (Nat.succ_pos i) (by omega)
  rw [List.nil_append, List.take_add_one, List.getElem?_eq_getElem (by omega)] at held
  rw [List.getElem_take]
  exact inv.mem_spelled held

/-- A node whose older prompt the tree has dropped in part and the backend not at all. -/
theorem match_le_hits_evicted :
    let ops : List (Op Nat String) :=
      [.insert [1, 2, 3] "b1", .insert [7, 8] "b2", .insert [1, 2, 9] "b1", .insert [5] "b1"]
    let s := exchange 4 (fun _ => 5) ops
    (s.tree.matchPrefix [1, 2, 3]).getD "b1" 0 ≤ (s.backend "b1").hits [1, 2, 3] ∧
      (s.tree.matchPrefix [1, 2, 3]).getD "b1" 0 = 2 ∧ (s.backend "b1").hits [1, 2, 3] = 3 := by
  intro ops s
  exact ⟨match_le_hits 4 (fun _ => 5) ops "b1" (by decide) (by decide) [1, 2, 3], by decide, by decide⟩

/-- A segment that was split for another backend is believed to be fresher than it is. -/
example :
    let s := exchange 4 (fun _ => 4)
      [.insert [1, 2] "b1", .insert [5, 6] "b1", .insert [1, 9] "b2", .insert [7, 8] "b1"]
    (s.backend "b1").hits [1] < (s.tree.matchPrefix [1]).getD "b1" 0 := by
  decide

/-! ### Exactly what the backend has, while nothing is dropped -/

/-- Equal hashes end equal prefixes: the chained hashes of these prompts do not collide. -/
def Chained (prompts : List (List H)) : Prop :=
  ∀ s ∈ prompts, ∀ s' ∈ prompts, ∀ i (hi : i < s.length), ∀ j (hj : j < s'.length),
    s[i] = s'[j] → s.take (i + 1) = s'.take (j + 1)

instance (prompts : List (List H)) : Decidable (Chained prompts) :=
  inferInstanceAs (Decidable (∀ s ∈ prompts, ∀ s' ∈ prompts, ∀ i (hi : i < s.length),
    ∀ j (hj : j < s'.length), s[i] = s'[j] → s.take (i + 1) = s'.take (j + 1)))

omit [DecidableEq H] in
theorem sentTo_inserts (ins : List (List H × B)) (b : B) :
    sentTo b (inserts ins) = insertedFor ins b := by
  induction ins with
  | nil => rfl
  | cons i ins ih =>
      have rest : sentTo b (inserts (i :: ins)) = sentTo b [.insert i.1 i.2] ++ insertedFor ins b := by
        rw [← ih, ← sentTo_append]
        rfl
      rw [rest, sentTo_insert]
      by_cases same : i.2 = b <;> simp [same, insertedFor]

/-- Prompts have no more hashes than blocks. -/
theorem card_hashes_le (prompts : List (List H)) :
    prompts.flatten.toFinset.card ≤ (blocksOf prompts).card := by
  rw [← Finset.card_image_of_injective _ (Option.some_injective H)]
  calc (prompts.flatten.toFinset.image some).card
      ≤ ((blocksOf prompts).image List.getLast?).card := by
        refine Finset.card_le_card fun last member => ?_
        obtain ⟨h, inside, rfl⟩ := Finset.mem_image.mp member
        obtain ⟨s, listed, on⟩ := List.mem_flatten.mp (List.mem_toFinset.mp inside)
        obtain ⟨before, after, rfl⟩ := List.append_of_mem on
        refine Finset.mem_image.mpr ⟨before ++ [h], mem_blocksOf.mpr ⟨by simp, _, listed, ?_⟩, by simp⟩
        exact ⟨after, by simp⟩
    _ ≤ (blocksOf prompts).card := Finset.card_image_le

/-- A cache that is large enough has all hashes. -/
theorem mem_cached {prompts : List (List H)} {capBlocks : Int}
    (fits : ((blocksOf prompts).card : Int) ≤ capBlocks) {h : H} :
    h ∈ ((MockBackend.init capBlocks).processAll prompts).cache.keys ↔ h ∈ prompts.flatten := by
  have distinct : prompts.flatten.dedup.length ≤ capBlocks.toNat := by
    have hashes := card_hashes_le prompts
    rw [List.card_toFinset] at hashes
    omega
  rw [MockBackend.cached_processAll, recent, List.rtake, Nat.sub_eq_zero_of_le distinct,
    List.drop_zero, List.mem_dedup]

/-- **The tree believes what the backend has**, on every prompt, as long as the blocks sent to the
backend fit both the tree and the cache, and the hashes do not collide. -/
theorem match_eq_hits (cap : Int) (capBlocks : B → Int) (ins : List (List H × B)) (b : B)
    (fits : ((blocksOf (insertedFor ins b)).card : Int) ≤ cap)
    (cached : ((blocksOf (insertedFor ins b)).card : Int) ≤ capBlocks b) (q : List H)
    (chained : Chained (q :: insertedFor ins b)) :
    let s := exchange cap capBlocks (inserts ins)
    (s.tree.matchPrefix q).getD b 0 = (s.backend b).hits q := by
  intro s
  have tree : s.tree = runOps cap (inserts ins) := tree_exchange cap capBlocks _
  have backend : s.backend b = (MockBackend.init (capBlocks b)).processAll (insertedFor ins b) := by
    rw [← sentTo_inserts]
    exact backend_exchange cap capBlocks _ b
  rw [tree, backend]
  have longest := longestPrefix_inserts cap ins b fits q
  have cached := fun h => mem_cached (h := h) cached
  generalize (MockBackend.init (capBlocks b)).processAll (insertedFor ins b) = m at cached
  generalize ((runOps cap (inserts ins)).matchPrefix q).getD b 0 = k at longest
  apply Nat.le_antisymm
  · -- the matched prefix was sent as a whole
    refine MockBackend.le_hits longest.le fun h member => (cached h).mpr ?_
    rcases longest.held with zero | ⟨sent, listed, part⟩
    · rw [zero, List.take_zero] at member
      cases member
    · exact List.mem_flatten.mpr ⟨sent, listed, part.subset member⟩
  · -- the last warm block was sent, and with it all before
    rcases Nat.eq_zero_or_pos (m.hits q) with zero | pos
    · rw [zero]
      exact Nat.zero_le _
    · have short := m.hits_le_length q
      have last : m.hits q - 1 < q.length := by omega
      have warm : q[m.hits q - 1] ∈ m.cache.keys := by
        have counted : q[m.hits q - 1] ∈ q.take (m.hits q) := by
          refine List.mem_iff_getElem.mpr ⟨m.hits q - 1, ?_, List.getElem_take⟩
          rw [List.length_take]
          omega
        exact MockBackend.mem_of_hits counted
      obtain ⟨sent, listed, on⟩ := List.mem_flatten.mp ((cached _).mp warm)
      obtain ⟨j, below, same⟩ := List.mem_iff_getElem.mp on
      have equal := chained q List.mem_cons_self sent (List.mem_cons_of_mem _ listed) _ last j below
        same.symm
      rw [Nat.sub_add_cancel pos] at equal
      refine longest.longest _ short ⟨sent, listed, ?_⟩
      rw [equal]
      exact List.take_prefix _ _

/-- Two backends with a common prefix; the first one's segment is split twice. -/
theorem match_eq_hits_split :
    let ins : List (List Nat × String) := [([1, 2, 3, 4], "b1"), ([1, 2, 9], "b2"), ([1, 8], "b1")]
    let s := exchange 8 (fun _ => 6) (inserts ins)
    (s.tree.matchPrefix [1, 2, 3, 7]).getD "b1" 0 = (s.backend "b1").hits [1, 2, 3, 7] ∧
      (s.backend "b1").hits [1, 2, 3, 7] = 3 :=
  ⟨match_eq_hits 8 (fun _ => 6) [([1, 2, 3, 4], "b1"), ([1, 2, 9], "b2"), ([1, 8], "b1")] "b1"
    (by decide) (by decide) [1, 2, 3, 7] (by decide), by decide⟩

end Gateway.RadixTree
