import Gateway.RadixTree.Runs

/-!
`match` against the tree it walks.

`Walk t b n w` is what a reader of the tree means by a match: following children from
`n` spells `w`, backend `b` holds every node that is entered, and the last of them may
be entered only partly. It mentions neither the loop nor the labels of the invariant.
`Inv.walk_iff` compares it with the blocks held.

* **`matchPrefix_walk`.** In every reachable tree the entry of a backend in `match(q)`
  is the greatest length of a prefix of `q` with such a walk from the root, and there is
  no entry if that is `0`; the loop ends within `len(q)` iterations; and a prefix of the
  query cuts the entry down to its length.
-/

namespace Gateway.RadixTree

open Gateway.Trie

variable {H B : Type} [DecidableEq H] [DecidableEq B]

/-- `w` is spelled from node `n` through nodes that `b` holds, the last one possibly
only in part. -/
inductive Walk (t : RadixTree H B) (b : B) : NodeId → List H → Prop where
  | done (n : NodeId) : Walk t b n []
  | part {n child : NodeId} {k : H} {w : List H} :
      (t.node n).children.get? k = some child → b ∈ (t.node child).holders.keys →
      w <+: (t.node child).edge → Walk t b n w
  | whole {n child : NodeId} {k : H} {w : List H} :
      (t.node n).children.get? k = some child → b ∈ (t.node child).holders.keys →
      Walk t b child w → Walk t b n ((t.node child).edge ++ w)

section Walk

variable {t : RadixTree H B} {path : NodeId → List H} {b : B}

omit [DecidableEq B] in
/-- What a walk spells is held. -/
theorem Inv.held_of_walk (inv : Inv t path) {n : NodeId} {w : List H} (walk : Walk t b n w)
    (hn : n < t.next) {i : Nat} (pos : 0 < i) (le : i ≤ w.length) :
    Held t path b (path n ++ w.take i) := by
  induction walk generalizing i with
  | done n =>
      rw [List.length_nil] at le
      omega
  | @part n child k w kid holds within =>
      refine (inv.held_next hn kid ⟨?_, ?_⟩).mpr holds
      · have taken := List.take_prefix i w
        exact (List.prefix_append_right_inj _).mpr (taken.trans within)
      · rw [List.length_append, List.length_take]
        omega
  | @whole n child k w kid holds rest ih =>
      obtain ⟨-, alloc, label, -⟩ := inv.labelled.child (T := t.shape) hn kid
      change path child = path n ++ (t.node child).edge at label
      by_cases near : i ≤ (t.node child).edge.length
      · refine (inv.held_next hn kid ⟨?_, ?_⟩).mpr holds
        · rw [List.take_append_of_le_length near]
          exact (List.prefix_append_right_inj _).mpr <| List.take_prefix _ _
        · rw [List.length_append, List.length_take]
          omega
      · obtain ⟨i', rfl⟩ := Nat.exists_eq_add_of_lt (Nat.lt_of_not_le near)
        have below := ih alloc (Nat.succ_pos i') (by rw [List.length_append] at le; omega)
        rwa [Nat.add_assoc, List.take_length_add_append, ← List.append_assoc, ← label]

omit [DecidableEq B] in
/-- What is held is spelled by a walk. -/
theorem Inv.walk_of_held (inv : Inv t path) {n : NodeId} {w : List H} (hn : n < t.next)
    (held : ∀ i, 0 < i → i ≤ w.length → Held t path b (path n ++ w.take i)) : Walk t b n w := by
  -- on the length of `w`: the edge of the child towards `w` is not empty
  induction len : w.length using Nat.strong_induction_on generalizing n w with
  | _ len' ih =>
      cases w with
      | nil => exact .done n
      | cons first rest =>
          have next := held 1 Nat.one_pos (by simp)
          cases kid : (t.node n).children.get? first with
          | none =>
              refine absurd next (inv.not_held_missing hn kid b ?_)
              simp
          | some child =>
              obtain ⟨-, alloc, label, tail, edge⟩ := inv.labelled.child (T := t.shape) hn kid
              change path child = path n ++ (t.node child).edge at label
              change (t.node child).edge = first :: tail at edge
              have holds : b ∈ (t.node child).holders.keys := by
                refine (inv.held_next hn kid ⟨?_, by simp⟩).mp next
                rw [edge]
                exact (List.prefix_append_right_inj _).mpr (by simp)
              by_cases whole : commonLen (t.node child).edge (first :: rest) = (t.node child).edge.length
              · have divide := List.take_append_drop (t.node child).edge.length (first :: rest)
                have front := take_commonLen_eq (t.node child).edge (first :: rest)
                rw [whole, List.take_length] at front
                rw [front] at divide
                rw [← divide]
                refine .whole kid holds (ih _ ?_ alloc ?_ rfl)
                · rw [← len, List.length_drop, edge, List.length_cons, List.length_cons]
                  omega
                · intro i pos le
                  rw [label, ← take_append_edge whole]
                  rw [List.length_drop] at le
                  exact held _ (by omega) (by omega)
              · have short := lt_of_le_of_ne (commonLen_le_left _ _) whole
                by_cases more : commonLen (t.node child).edge (first :: rest) < (first :: rest).length
                · exact absurd (held _ (Nat.succ_pos _) more) (inv.not_held_diverged hn kid short more b)
                · refine .part kid holds ?_
                  have front := take_commonLen_eq (t.node child).edge (first :: rest)
                  rw [List.take_of_length_le (Nat.le_of_not_lt more)] at front
                  rw [front]
                  exact List.take_prefix _ _

omit [DecidableEq B] in
theorem Inv.walk_iff (inv : Inv t path) {w : List H} :
    Walk t b root w ↔ ∀ i, 0 < i → i ≤ w.length → Held t path b (w.take i) := by
  have hn : root < t.next := inv.labelled.pos
  constructor
  · intro walk i pos le
    have := inv.held_of_walk walk hn pos le
    rwa [inv.labelled.root] at this
  · intro held
    refine inv.walk_of_held hn ?_
    rw [inv.labelled.root]
    exact held

/-- Every iteration of `match` consumes a hash, so the iterations that `len(hashes)`
allows are all there are. -/
theorem Inv.matchLoop_fuel (inv : Inv t path) {n : NodeId} (hn : n < t.next) {fuel fuel' : Nat}
    {rest : List H} (enough : rest.length ≤ fuel) (enough' : rest.length ≤ fuel')
    (alive : Option (List B)) (depth : Nat) (best : Dict B Nat) :
    RadixTree.matchLoop t fuel n rest alive depth best =
      RadixTree.matchLoop t fuel' n rest alive depth best := by
  induction fuel generalizing fuel' n rest alive depth best with
  | zero =>
      have empty : rest = [] := List.length_eq_zero_iff.mp (Nat.le_zero.mp enough)
      subst empty
      cases fuel' <;> rfl
  | succ fuel ih =>
      cases rest with
      | nil => cases fuel' <;> rfl
      | cons first rest =>
          obtain ⟨fuel'', rfl⟩ : ∃ fuel'', fuel' = fuel'' + 1 :=
            Nat.exists_eq_succ_of_ne_zero (by rw [List.length_cons] at enough'; omega)
          simp only [RadixTree.matchLoop]
          cases kid : (t.node n).children.get? first with
          | none => rfl
          | some child =>
              obtain ⟨-, alloc, -, tail, edge⟩ := inv.labelled.child (T := t.shape) hn kid
              change (t.node child).edge = first :: tail at edge
              have pos_j : 0 < commonLen (t.node child).edge (first :: rest) := by
                simp [edge, commonLen]
              have shrink : ∀ fuel, (first :: rest).length ≤ fuel + 1 → ((first :: rest).drop
                  (commonLen (t.node child).edge (first :: rest))).length ≤ fuel := by
                intro fuel enough
                rw [List.length_drop]
                omega
              simp only [ih alloc (shrink fuel enough) (shrink fuel'' enough')]

omit [DecidableEq B] in
/-- A prefix of the query is held as far as the query is. -/
theorem LongestHeld.take {q : List H} {k : Nat} (longest : LongestHeld t path b [] q k) (m : Nat) :
    LongestHeld t path b [] (q.take m) (min m k) where
  le := by
    have := longest.le
    rw [List.length_take]
    omega
  held := by
    intro i pos le
    rw [List.take_take, Nat.min_eq_left (by omega)]
    exact longest.held i pos (by omega)
  stop := by
    intro more
    rw [List.length_take] at more
    have less : k < m := by
      have := longest.le
      omega
    rw [Nat.min_eq_right less.le, List.take_take, Nat.min_eq_left less]
    exact longest.stop (by omega)

/-- No entry of `match` exceeds the hashes walked, in any tree. -/
theorem matchLoop_le (t : RadixTree H B) (fuel : Nat) {n : NodeId} {rest : List H}
    {alive : Option (List B)} {depth : Nat} {best : Dict B Nat} {b : B}
    (le : best.getD b 0 ≤ depth) :
    (RadixTree.matchLoop t fuel n rest alive depth best).getD b 0 ≤ depth + rest.length := by
  induction fuel generalizing n rest alive depth best with
  | zero => exact Nat.le_add_right_of_le le
  | succ fuel ih =>
      cases rest with
      | nil => exact Nat.le_add_right_of_le le
      | cons first rest =>
          simp only [RadixTree.matchLoop]
          cases (t.node n).children.get? first with
          | none => exact Nat.le_add_right_of_le le
          | some child =>
              have walked := commonLen_le_right (t.node child).edge (first :: rest)
              dsimp only
              split
              · exact Nat.le_add_right_of_le le
              · generalize intersectAlive alive (t.node child).holders.keys = alive'
                generalize commonLen (t.node child).edge (first :: rest) = j at walked ⊢
                have reached : (alive'.foldl (fun best b => best.set b (depth + j)) best).getD b 0 ≤
                    depth + j := by
                  rw [Dict.getD, get?_foldl_set]
                  split
                  · exact Nat.le_refl _
                  · exact Nat.le_add_right_of_le le
                split
                · exact reached.trans (Nat.add_le_add_left walked depth)
                · refine (ih reached).trans ?_
                  rw [List.length_drop]
                  omega

theorem matchPrefix_le (t : RadixTree H B) (q : List H) (b : B) :
    (t.matchPrefix q).getD b 0 ≤ q.length := by
  have start : (Dict.empty : Dict B Nat).getD b 0 ≤ 0 := Nat.le_refl 0
  rw [← Nat.zero_add q.length]
  exact t.matchLoop_le q.length start

theorem getD_matchPrefix {q : List H} {k : Nat}
    (entry : (t.matchPrefix q).get? b = if 0 < k then some k else none) :
    (t.matchPrefix q).getD b 0 = k := by
  rw [Dict.getD, entry]
  split
  · rfl
  · simp only [Option.getD_none]
    omega

end Walk

/-- **`match(q)` in every reachable tree.** For every backend there is a greatest `k` such
that the first `k` hashes of `q` are spelled by a walk from the root through nodes the
backend holds; its entry is `k`, or missing if `k` is `0`. The loop gives the same table
for any number of iterations from `len(q)` on, so it ends by itself. The entry for the
first `m` hashes of `q` is the smaller of `m` and the entry for `q`. -/
theorem matchPrefix_walk (cap : Int) (ops : List (Op H B)) (q : List H) (b : B) :
    let t := runOps cap ops
    (∃ k, (k ≤ q.length ∧ Walk t b root (q.take k)) ∧
        (∀ k', k' ≤ q.length → Walk t b root (q.take k') → k' ≤ k) ∧
        (t.matchPrefix q).get? b = if 0 < k then some k else none) ∧
      (∀ fuel, q.length ≤ fuel → matchLoop t fuel root q none 0 .empty = t.matchPrefix q) ∧
      ∀ m, m ≤ q.length →
        (t.matchPrefix (q.take m)).getD b 0 = min m ((t.matchPrefix q).getD b 0) := by
  intro t
  obtain ⟨path, inv⟩ := runOps_inv cap ops
  change Inv t path at inv
  obtain ⟨k, longest, entry⟩ := inv.matchPrefix q b
  refine ⟨⟨k, ⟨longest.le, ?_⟩, ?_, entry⟩, ?_, ?_⟩
  · rw [inv.walk_iff]
    intro i pos le
    rw [List.length_take] at le
    rw [List.take_take, Nat.min_eq_left (by omega)]
    exact longest.held i pos (by omega)
  · intro k' le walk
    by_contra longer
    have held := inv.walk_iff.mp walk (k + 1) (Nat.succ_pos k) (by rw [List.length_take]; omega)
    rw [List.take_take, Nat.min_eq_left (by omega)] at held
    exact longest.stop (by omega) held
  · intro fuel enough
    exact inv.matchLoop_fuel inv.labelled.pos enough (Nat.le_refl _) none 0 .empty
  · intro m le
    obtain ⟨k', longest', entry'⟩ := inv.matchPrefix (q.take m) b
    rw [getD_matchPrefix entry, getD_matchPrefix entry', longest'.unique (longest.take m)]

end Gateway.RadixTree
