import Gateway.RadixTree.Spec

/-!
What holds of every run of the prefix tree.

A run is a sequence of `insert` and `remove_backend` calls on a fresh tree.

Every reachable tree has the tree invariant (`runOps_inv`), agrees with its LRUs,
and keeps every backend within the cap, also the backends whose segments another
backend's insert splits (`runOps_wellFormed`).
-/

namespace Gateway.RadixTree

open Gateway.Trie

variable {H B : Type} [DecidableEq H] [DecidableEq B]

/-! ### The invariant of all reachable trees -/

omit [DecidableEq B] in
theorem init_inv (cap : Int) : Inv (init cap : RadixTree H B) fun _ => [] where
  labelled :=
    { pos := Nat.one_pos
      root := rfl
      child := fun _ kid => by simp [shape, init, Node.new] at kid
      parent := fun pos alloc => by
        change _ < 1 at alloc
        omega
      branch := fun _ _ _ proper => absurd rfl proper
      inj := fun hn hm _ => by
        change _ < 1 at hn hm
        omega }
  tracked :=
    { nodup := fun _ => List.nodup_nil
      alloc := fun member => by cases member
      holders := by simp [init, Node.new, Dict.empty, Dict.keys] }

theorem Inv.insert {t : RadixTree H B} {path : NodeId → List H} (inv : Inv t path)
    (h : List H) (b : B) : ∃ path', Inv (t.insert h b) path' := by
  rw [RadixTree.insert]
  split
  · exact ⟨path, inv⟩
  · obtain ⟨path', inv', _⟩ := inv.touch h b
    exact ⟨path', inv'.evict b⟩

theorem Inv.apply {t : RadixTree H B} {path : NodeId → List H} (inv : Inv t path)
    (op : Op H B) : ∃ path', Inv (t.apply op) path' := by
  cases op with
  | insert h b => exact inv.insert h b
  | remove b => exact ⟨path, inv.removeBackend b⟩

@[simp] theorem cap_apply (t : RadixTree H B) (op : Op H B) : (t.apply op).cap = t.cap := by
  cases op with
  | insert h b =>
      simp only [RadixTree.apply, RadixTree.insert]
      split
      · rfl
      · rw [evict_eq]
        exact cap_touch t h b
  | remove b => rfl

/-- Every backend is within the cap after every call. -/
theorem Inv.heldBlocks_apply {t : RadixTree H B} {path : NodeId → List H} (inv : Inv t path)
    (nonneg : 0 ≤ t.cap) (fits : ∀ b, (t.heldBlocks b : Int) ≤ t.cap) (op : Op H B) (b' : B) :
    ((t.apply op).heldBlocks b' : Int) ≤ t.cap := by
  cases op with
  | insert h b =>
      simp only [RadixTree.apply, RadixTree.insert]
      split
      · exact fits b'
      · obtain ⟨path', inv', held⟩ := inv.touch h b
        by_cases same : b' = b
        · subst same
          have edges : ∀ m, (((t.touch h b').evict b').node m).edge = ((t.touch h b').node m).edge :=
            fun m => congrFun (congrArg Shape.edge (by rw [evict_eq, shape_dropFrom] :
              ((t.touch h b').evict b').shape = (t.touch h b').shape)) m
          have lru : ((t.touch h b').evict b').lru b' =
              survivors (t.touch h b').cap (t.touch h b').node ((t.touch h b').lru b') := by
            rw [evict_eq]
            exact Function.update_self ..
          have := blocks_survivors (t.touch h b').cap (t.touch h b').node ((t.touch h b').lru b')
          rw [← lru, cap_touch] at this
          simp only [heldBlocks, blocks, edges]
          rcases this with empty | fits'
          · simpa [empty] using nonneg
          · exact fits'
        · rw [(inv'.evict b).heldBlocks_congr inv b' b']
          · exact fits b'
          · intro p
            rw [evict_eq, held_dropFrom_of_ne same, held]
            simp [same]
  | remove b =>
      by_cases same : b' = b
      · subst same
        simpa [RadixTree.apply, RadixTree.removeBackend, heldBlocks, blocks] using nonneg
      · rw [show t.apply (.remove b) = t.removeBackend b from rfl,
          (inv.removeBackend b).heldBlocks_congr inv b' b']
        · exact fits b'
        · intro p
          rw [held_removeBackend]
          simp [same]

@[simp] theorem runOps_snoc (cap : Int) (ops : List (Op H B)) (op : Op H B) :
    runOps cap (ops ++ [op]) = (runOps cap ops).apply op := by
  simp [runOps]

@[simp] theorem cap_runOps (cap : Int) (ops : List (Op H B)) : (runOps cap ops).cap = cap := by
  induction ops using List.reverseRecOn with
  | nil => rfl
  | append_singleton ops op ih => rw [runOps_snoc, cap_apply, ih]

/-- Every reachable tree has the tree invariant. -/
theorem runOps_inv (cap : Int) (ops : List (Op H B)) : ∃ path, Inv (runOps cap ops) path := by
  induction ops using List.reverseRecOn with
  | nil => exact ⟨_, init_inv cap⟩
  | append_singleton ops op ih =>
      obtain ⟨path, inv⟩ := ih
      rw [runOps_snoc]
      exact inv.apply op

theorem runOps_heldBlocks {cap : Int} (nonneg : 0 ≤ cap) (ops : List (Op H B)) (b : B) :
    ((runOps cap ops).heldBlocks b : Int) ≤ cap := by
  induction ops using List.reverseRecOn generalizing b with
  | nil => simpa [runOps, init, heldBlocks, blocks] using nonneg
  | append_singleton ops op ih =>
      obtain ⟨path, inv⟩ := runOps_inv cap ops
      rw [runOps_snoc]
      have := inv.heldBlocks_apply (by simpa using nonneg) (by simpa using ih) op b
      simpa using this

/-- **The tree invariant over all runs.** In every tree reached by `insert` and
`remove_backend` calls, evictions included: every node below the root has a
non-empty edge and is stored under the first hash of its edge, in a reachable
node; every node in an LRU is reachable from the root; `holders` and LRUs agree;
and every backend holds at most `cap` blocks. -/
theorem runOps_wellFormed (cap : Int) (nonneg : 0 ≤ cap) (ops : List (Op H B)) :
    let t := runOps cap ops
    (∀ c, c ≠ root → c < t.next → (t.node c).edge ≠ [] ∧
        ∃ w n k, Spells t.shape w n ∧ (t.node n).children.get? k = some c) ∧
      (∀ w n k c, Spells t.shape w n → (t.node n).children.get? k = some c →
        c ≠ root ∧ (t.node c).edge.head? = some k) ∧
      (∀ b n, n ∈ t.lru b → n ≠ root ∧ ∃ w, Spells t.shape w n) ∧
      (∀ b n, b ∈ (t.node n).holders.keys ↔ n ∈ t.lru b) ∧
      (∀ b, (t.heldBlocks b : Int) ≤ cap) := by
  intro t
  obtain ⟨path, inv⟩ := runOps_inv cap ops
  have L := inv.labelled
  refine ⟨?_, ?_, ?_, ?_, ?_⟩
  · intro c below alloc
    obtain ⟨n, k, hn, kid⟩ := L.parent (Nat.pos_of_ne_zero below) alloc
    obtain ⟨_, _, _, tail, edge⟩ := L.child hn kid
    refine ⟨?_, path n, n, k, L.spells hn, kid⟩
    change (t.node c).edge = k :: tail at edge
    simp [edge]
  · intro w n k c spells kid
    obtain ⟨pos, _, _, tail, edge⟩ := L.child (L.of_spells spells).1 kid
    change (t.node c).edge = k :: tail at edge
    exact ⟨Nat.ne_of_gt pos, by simp [edge]⟩
  · intro b n member
    have := inv.tracked.alloc member
    exact ⟨Nat.ne_of_gt this.1, path n, L.spells this.2⟩
  · exact fun b n => inv.tracked.holders
  · exact fun b => runOps_heldBlocks nonneg ops b

/-- Splitting a segment of `b1` by an insert of `b2`, with both at the cap. -/
theorem runOps_wellFormed_split :
    let t : RadixTree Nat String := runOps 4 [.insert [1, 2, 3, 4] "b1", .insert [1, 2, 9] "b2"]
    (t.heldBlocks "b1" : Int) ≤ 4 ∧ t.heldBlocks "b1" = 4 ∧ t.heldBlocks "b2" = 3 :=
  ⟨(runOps_wellFormed 4 (by decide) [.insert [1, 2, 3, 4] "b1", .insert [1, 2, 9] "b2"]).2.2.2.2 "b1",
    by decide, by decide⟩

end Gateway.RadixTree
