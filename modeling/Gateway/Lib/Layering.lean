import Mathlib.Algebra.GroupWithZero.Nat
import Mathlib.Data.Fintype.Card
import Mathlib.Data.List.Count
import Mathlib.Data.List.MinMax
import Mathlib.Data.Set.Finite.Basic
import Mathlib.Logic.Relation
import Mathlib.Order.WellFounded

/-!
Layers of a directed graph.

A graph is given by the parents of each node. A node is `Ready` after `k` rounds if all its
parents are ready after `k - 1`; it is `InLayer k` if it becomes ready in round `k + 1`.

* `layer_eq_max`: the layer of a node is one more than the last layer of its parents.
* `Ready.not_cyclic`: a node that becomes ready is on no cycle.
* `exists_cycle`: a finite non-empty set of nodes, each with a parent in the set, has a cycle.
* `countP_unready_succ`: how many parents of a node are still missing, from one round to the
  next. This is the in-degree that Kahn's algorithm keeps.
-/

namespace Gateway.Layering

open Relation

variable {N : Type} (parents : N → List N)

/-- The parent relation. -/
def Edge (p v : N) : Prop := p ∈ parents v

/-- All chains of parents above the node are shorter than `k`. -/
def Ready : ℕ → N → Prop
  | 0, _ => False
  | k + 1, v => ∀ p ∈ parents v, Ready k p

instance decidableReady : ∀ k v, Decidable (Ready parents k v)
  | 0, _ => inferInstanceAs (Decidable False)
  | k + 1, v =>
      have : ∀ p, Decidable (Ready parents k p) := decidableReady k
      inferInstanceAs (Decidable (∀ p ∈ parents v, Ready parents k p))

/-- The node becomes ready in round `k + 1`. -/
def InLayer (k : ℕ) (v : N) : Prop := Ready parents (k + 1) v ∧ ¬ Ready parents k v

instance decidableInLayer (k : ℕ) (v : N) : Decidable (InLayer parents k v) :=
  inferInstanceAs (Decidable (_ ∧ _))

variable {parents}

/-! ### Rounds -/

theorem Ready.succ {k : ℕ} {v : N} (ready : Ready parents k v) : Ready parents (k + 1) v := by
  induction k generalizing v with
  | zero => exact ready.elim
  | succ k ih => exact fun p parent => ih (ready p parent)

theorem Ready.mono {k l : ℕ} (le : k ≤ l) {v : N} (ready : Ready parents k v) :
    Ready parents l v := by
  induction le with
  | refl => exact ready
  | step _ ih => exact ih.succ

/-- A node in layer `k` is ready exactly after the rounds beyond `k`. -/
theorem InLayer.ready_iff {k l : ℕ} {v : N} (layer : InLayer parents k v) :
    Ready parents l v ↔ k < l := by
  constructor
  · intro ready
    by_contra late
    exact layer.2 (ready.mono (not_lt.mp late))
  · exact fun late => layer.1.mono late

theorem InLayer.unique {k l : ℕ} {v : N} (first : InLayer parents k v)
    (second : InLayer parents l v) : k = l := by
  have before : l < k + 1 := second.ready_iff.mp first.1
  have after : k < l + 1 := first.ready_iff.mp second.1
  omega

theorem ready_iff_exists_layer {k : ℕ} {v : N} :
    Ready parents k v ↔ ∃ i < k, InLayer parents i v := by
  constructor
  · intro ready
    induction k with
    | zero => exact ready.elim
    | succ k ih =>
        by_cases before : Ready parents k v
        · obtain ⟨i, late, layer⟩ := ih before
          exact ⟨i, Nat.lt_succ_of_lt late, layer⟩
        · exact ⟨k, Nat.lt_succ_self k, ready, before⟩
  · rintro ⟨i, late, layer⟩
    exact layer.ready_iff.mpr late

/-- **The layer of a node**: one more than the last layer of its parents, or the first. -/
theorem layer_eq_max {k : ℕ} {v : N} (layer : InLayer parents k v) (layerOf : N → ℕ)
    (above : ∀ p ∈ parents v, InLayer parents (layerOf p) p) :
    k = ((parents v).map layerOf).max?.elim 0 (1 + ·) := by
  cases last : ((parents v).map layerOf).max? with
  | none =>
      have root : parents v = [] := by simpa using last
      have first : Ready parents 1 v := by
        intro p parent
        rw [root] at parent
        cases parent
      exact Nat.lt_one_iff.mp (layer.ready_iff.mp first)
  | some m =>
      obtain ⟨attained, largest⟩ := List.max?_eq_some_iff.mp last
      obtain ⟨p, parent, rfl⟩ := List.mem_map.mp attained
      have below : layerOf p < k := (above p parent).ready_iff.mp (layer.1 p parent)
      -- had all parents been ready one round earlier, so had the node
      have near : ¬ 1 + layerOf p < k := by
        intro early
        apply layer.2
        obtain ⟨k, rfl⟩ : ∃ j, k = j + 1 := ⟨k - 1, by omega⟩
        intro q other
        have least := largest _ (List.mem_map.mpr ⟨q, other, rfl⟩)
        exact (above q other).ready_iff.mpr (by omega)
      show k = 1 + layerOf p
      omega

/-! ### Cycles -/

/-- **A node that becomes ready is on no cycle.** -/
theorem Ready.not_cyclic {k : ℕ} {v : N} (ready : Ready parents k v) :
    ¬ TransGen (Edge parents) v v := by
  induction k generalizing v with
  | zero => exact ready.elim
  | succ k ih =>
      intro cycle
      obtain ⟨p, path, edge⟩ := TransGen.tail'_iff.mp cycle
      exact ih (ready p edge) (TransGen.head' edge path)

/-- **A cycle in a finite set** whose every node has a parent in it. -/
theorem exists_cycle (nodes : List N) {S : N → Prop} (inside : ∀ v, S v → v ∈ nodes)
    (above : ∀ v, S v → ∃ p ∈ parents v, S p) {v : N} (start : S v) :
    ∃ u, TransGen (Edge parents) u u := by
  by_contra acyclic
  have acyclic := not_exists.mp acyclic
  let path (a b : { v // S v }) : Prop := TransGen (Edge parents) a.1 b.1
  have : Finite { v // S v } :=
    (nodes.finite_toSet.subset fun u member => inside u member).to_subtype
  have : IsTrans { v // S v } path := ⟨fun _ _ _ first second => first.trans second⟩
  have : Std.Irrefl path := ⟨fun a cycle => acyclic a.1 cycle⟩
  have founded : WellFounded path := Finite.wellFounded_of_trans_of_irrefl path
  -- a node of the set without a node of the set above it
  obtain ⟨top, -, highest⟩ := founded.has_min Set.univ ⟨⟨v, start⟩, trivial⟩
  obtain ⟨p, edge, member⟩ := above top.1 top.2
  exact highest ⟨p, member⟩ trivial (.single edge)

/-! ### In-degrees -/

section Degrees

variable (k : ℕ) (v : N)

/-- The parents that are still missing after `k` rounds: those that become ready in the next
round, and the others. -/
theorem countP_unready_succ :
    (parents v).countP (fun p => ¬ Ready parents k p) =
      (parents v).countP (fun p => InLayer parents k p) +
        (parents v).countP (fun p => ¬ Ready parents (k + 1) p) := by
  induction parents v with
  | nil => rfl
  | cons p ps ih =>
      have grows : Ready parents k p → Ready parents (k + 1) p := Ready.succ
      simp only [List.countP_cons, ih, InLayer]
      by_cases before : Ready parents k p
      · simp [before, grows before]
      · by_cases after : Ready parents (k + 1) p
        · simp [before, after]
          omega
        · simp [before, after]
          omega

theorem countP_unready_pos_iff :
    0 < (parents v).countP (fun p => ¬ Ready parents k p) ↔ ¬ Ready parents (k + 1) v := by
  simp [List.countP_pos_iff, Ready]

theorem countP_unready_eq_zero_iff :
    (parents v).countP (fun p => ¬ Ready parents k p) = 0 ↔ Ready parents (k + 1) v := by
  simp [List.countP_eq_zero, Ready]

end Degrees

theorem countP_mem_cons [DecidableEq N] {a : N} {layer : List N} (fresh : a ∉ layer)
    (xs : List N) : xs.countP (· ∈ a :: layer) = xs.count a + xs.countP (· ∈ layer) := by
  induction xs with
  | nil => rfl
  | cons x xs ih =>
      rw [List.countP_cons, List.countP_cons, List.count_cons, ih]
      by_cases first : x = a
      · subst first
        simp [fresh]
        omega
      · simp [first]
        omega

/-- The occurrences of the members of a layer. -/
theorem sum_count_eq_countP [DecidableEq N] {layer : List N} (nodup : layer.Nodup) (xs : List N) :
    (layer.map fun p => xs.count p).sum = xs.countP (· ∈ layer) := by
  induction layer with
  | nil => simp
  | cons a layer ih =>
      obtain ⟨fresh, nodup⟩ := List.nodup_cons.mp nodup
      rw [List.map_cons, List.sum_cons, ih nodup, countP_mem_cons fresh]

end Gateway.Layering
