import Mathlib.Data.Fintype.Card
import Gateway.RadixTree.Naive

/-!
How many blocks the prefix tree stores.

`_evict` and `remove_backend` take a backend out of the holders of a node, but the
node stays linked under its parent: no call ever frees one. So the tree stores
every block that was ever inserted. In every reachable tree the blocks on the edges
are exactly the non-empty prefixes of all sequences ever inserted
(`runOps_stored`), whoever inserted them and whatever was evicted or removed since,
and their number is the number of those prefixes (`runOps_storedBlocks`).

The caps bound what each backend *holds* (`runOps_wellFormed`); they bound the
memory of the tree only while the distinct prefixes ever inserted happen to be that
few (`memory_bounded_iff`).
-/

namespace Gateway.RadixTree

open Gateway.Trie

variable {H B : Type} [DecidableEq H] [DecidableEq B]

/-- The blocks on all edges of the tree. The root has no edge; every other allocated
node is reachable from it (`runOps_wellFormed`). -/
def storedBlocks (t : RadixTree H B) : Nat := blocks t.node (List.range' 1 (t.next - 1))

/-- The sequences inserted by some calls, by whichever backend. -/
def inserted : List (Op H B) → List (List H)
  | [] => []
  | .insert h _ :: ops => h :: inserted ops
  | .remove _ :: ops => inserted ops

/-- The sequence of the last `insert`, empty when there was none. -/
def lastInserted (ops : List (Op H B)) : List H := (inserted ops).getLast?.getD []

omit [DecidableEq H] [DecidableEq B] in
theorem inserted_append (ops more : List (Op H B)) :
    inserted (ops ++ more) = inserted ops ++ inserted more := by
  induction ops with
  | nil => rfl
  | cons op ops ih =>
      cases op with
      | insert h b => exact congrArg (h :: ·) ih
      | remove b => exact ih

/-! ### Eviction and removal free nothing -/

@[simp] theorem shape_evict (t : RadixTree H B) (b : B) : (t.evict b).shape = t.shape := by
  rw [evict_eq, shape_dropFrom]

@[simp] theorem shape_removeBackend (t : RadixTree H B) (b : B) :
    (t.removeBackend b).shape = t.shape := by
  rw [removeBackend_eq, shape_dropFrom]

/-- One call stores the prefixes of the sequence it inserts, and frees nothing. -/
theorem Inv.stored_apply {t : RadixTree H B} {path : NodeId → List H} (inv : Inv t path)
    (op : Op H B) :
    ∃ path', Inv (t.apply op) path' ∧
      ∀ p, Stored (t.apply op).shape path' p ↔
        Stored t.shape path p ∨ (p ≠ [] ∧ ∃ s ∈ inserted [op], p <+: s) := by
  cases op with
  | insert h b =>
      simp only [RadixTree.apply, RadixTree.insert, inserted, List.mem_singleton, exists_eq_left]
      split
      · rename_i empty
        rw [List.isEmpty_iff] at empty
        subst empty
        refine ⟨path, inv, fun p => ?_⟩
        rw [List.prefix_nil]
        tauto
      · obtain ⟨path', inv', -, stored⟩ := inv.touch_stored h b
        refine ⟨path', inv'.evict b, fun p => ?_⟩
        rw [shape_evict, stored]
  | remove b =>
      refine ⟨path, inv.removeBackend b, fun p => ?_⟩
      simp [RadixTree.apply, inserted]

/-- **Nothing is ever freed.** After any calls the tree stores exactly the non-empty
prefixes of all the sequences inserted so far. -/
theorem runOps_stored (cap : Int) (ops : List (Op H B)) :
    ∃ path, Inv (runOps cap ops) path ∧
      ∀ p, Stored (runOps cap ops).shape path p ↔ p ≠ [] ∧ ∃ s ∈ inserted ops, p <+: s := by
  induction ops using List.reverseRecOn with
  | nil =>
      refine ⟨_, init_inv cap, fun p => ?_⟩
      simp only [inserted, List.not_mem_nil, false_and, exists_false, and_false, iff_false]
      rintro ⟨c, pos, alloc, -⟩
      change c < 1 at alloc
      omega
  | append_singleton ops op ih =>
      obtain ⟨path, inv, stored⟩ := ih
      obtain ⟨path', inv', stored'⟩ := inv.stored_apply op
      rw [runOps_snoc]
      refine ⟨path', inv', fun p => ?_⟩
      rw [stored', stored, inserted_append, ← and_or_left]
      simp only [List.mem_append, or_and_right, exists_or]

theorem runOps_storedBlocks (cap : Int) (ops : List (Op H B)) :
    (runOps cap ops).storedBlocks = (prefixesOf (inserted ops)).card := by
  obtain ⟨path, inv, stored⟩ := runOps_stored cap ops
  refine inv.labelled.sum_edge fun p => ?_
  rw [mem_prefixesOf, stored]

/-! ### The bound of the caps -/

/-- The blocks that `k` full backends and the last inserted sequence can account for. -/
def memoryBound (B : Type) [Fintype B] (cap : Int) (ops : List (Op H B)) : Int :=
  Fintype.card B * cap + (lastInserted ops).length

/-- **When the caps bound the memory.** For a set `B` of backends, every state of a run
stores at most `k * cap` blocks and the last inserted sequence precisely when, at every
point of the run, the sequences inserted so far, held or not, have at most that many
distinct non-empty prefixes. -/
theorem memory_bounded_iff [Fintype B] (cap : Int) (ops : List (Op H B)) :
    (∀ done, done <+: ops → ((runOps cap done).storedBlocks : Int) ≤ memoryBound B cap done) ↔
      ∀ done, done <+: ops →
        ((prefixesOf (inserted done)).card : Int) ≤ memoryBound B cap done := by
  simp only [runOps_storedBlocks]

/-- One backend with room for one block inserts three prompts of two blocks each. It
ends up holding one node at most, and the tree stores all six blocks. -/
theorem memory_not_bounded :
    ¬ ∀ (cap : Int) (ops : List (Op Nat Unit)),
      ((runOps cap ops).storedBlocks : Int) ≤ memoryBound Unit cap ops := by
  intro bounded
  exact absurd
    (bounded 1 [.insert [1, 2] (), .insert [3, 4] (), .insert [5, 6] ()]) (by decide +kernel)

end Gateway.RadixTree
