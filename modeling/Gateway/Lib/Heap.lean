import Mathlib.Data.List.Sort
import Mathlib.Order.Basic

/-!
Priority queues with pairwise distinct keys.

A heap is represented by the list of its items in the order in which they would be
popped: `push` inserts before the first item with a greater key, popping takes the
head. What a binary heap does to its array is not visible through push and pop
when no two items have the same key.

* `ordered_push`: pushing a new key keeps the list strictly ordered.
* `filter_push`: pushing commutes with taking the items of one kind, so a heap is
  a merge of the sub-heaps of its kinds.
* `push_eq_append`: an item with the greatest key is pushed to the end.
* `push_map`: relabelling the items commutes with pushing.
-/

namespace Gateway.Heap

variable {α K : Type} [LinearOrder K] (key : α → K)

/-- The items are in strictly increasing order of their keys. -/
def Ordered (l : List α) : Prop := l.Pairwise fun a b => key a < key b

/-- Insert an item before the first one with a greater key. -/
def push (x : α) : List α → List α
  | [] => [x]
  | y :: rest => if key x < key y then x :: y :: rest else y :: push x rest

variable {key}

theorem perm_push (x : α) (l : List α) : (push key x l).Perm (x :: l) := by
  induction l with
  | nil => exact .refl _
  | cons y rest ih =>
      simp only [push]
      split
      · exact .refl _
      · exact (ih.cons y).trans (.swap x y rest)

@[simp] theorem mem_push {x y : α} {l : List α} : y ∈ push key x l ↔ y = x ∨ y ∈ l := by
  rw [(perm_push x l).mem_iff, List.mem_cons]

theorem Ordered.of_cons {x : α} {l : List α} (ordered : Ordered key (x :: l)) : Ordered key l :=
  (List.pairwise_cons.mp ordered).2

theorem Ordered.head_lt {x y : α} {l : List α} (ordered : Ordered key (x :: l)) (member : y ∈ l) :
    key x < key y :=
  (List.pairwise_cons.mp ordered).1 y member

theorem ordered_push {x : α} {l : List α} (ordered : Ordered key l)
    (fresh : ∀ y ∈ l, key y ≠ key x) : Ordered key (push key x l) := by
  induction l with
  | nil => exact List.pairwise_singleton _ _
  | cons y rest ih =>
      have below := List.pairwise_cons.mp ordered
      simp only [push]
      split
      · rename_i less
        refine List.pairwise_cons.mpr ⟨fun z member => ?_, ordered⟩
        rcases List.mem_cons.mp member with rfl | later
        · exact less
        · exact less.trans (below.1 z later)
      · rename_i not_less
        have less : key y < key x :=
          lt_of_le_of_ne (not_lt.mp not_less) (fresh y List.mem_cons_self)
        refine List.pairwise_cons.mpr ⟨fun z member => ?_, ?_⟩
        · rcases mem_push.mp member with rfl | later
          · exact less
          · exact below.1 z later
        · exact ih below.2 fun z member => fresh z (List.mem_cons_of_mem _ member)

/-- An item with a greater key than all others goes to the end. -/
theorem push_eq_append {x : α} {l : List α} (last : ∀ y ∈ l, key y < key x) :
    push key x l = l ++ [x] := by
  induction l with
  | nil => rfl
  | cons y rest ih =>
      have less := last y List.mem_cons_self
      simp only [push, if_neg (lt_asymm less), List.cons_append, List.cons.injEq, true_and]
      exact ih fun z member => last z (List.mem_cons_of_mem _ member)

/-- Pushing an item does not mix with items of another kind. -/
theorem filter_push (p : α → Bool) {x : α} {l : List α} (ordered : Ordered key l) :
    (push key x l).filter p = if p x then push key x (l.filter p) else l.filter p := by
  induction l with
  | nil => by_cases kind : p x = true <;> simp [push, kind]
  | cons y rest ih =>
      have below := List.pairwise_cons.mp ordered
      simp only [push]
      split
      · rename_i less
        by_cases kind : p x = true
        · rw [if_pos kind, List.filter_cons_of_pos kind]
          cases rest_kind : (y :: rest).filter p with
          | nil => rfl
          | cons z zs =>
              have member : z ∈ y :: rest :=
                List.mem_of_mem_filter (rest_kind ▸ List.mem_cons_self : z ∈ (y :: rest).filter p)
              have less' : key x < key z := by
                rcases List.mem_cons.mp member with rfl | later
                · exact less
                · exact less.trans (below.1 z later)
              simp [push, less']
        · simp [kind]
      · rename_i not_less
        by_cases kind_y : p y = true
        · rw [List.filter_cons_of_pos kind_y, List.filter_cons_of_pos kind_y, ih below.2]
          by_cases kind : p x = true
          · simp [kind, push, not_less]
          · simp [kind]
        · rw [List.filter_cons_of_neg kind_y, List.filter_cons_of_neg kind_y, ih below.2]

/-- Pushing does not look at more of an item than its key. -/
theorem push_map {β : Type} {key' : β → K} (f : α → β) (same : ∀ a, key' (f a) = key a) (x : α)
    (l : List α) : push key' (f x) (l.map f) = (push key x l).map f := by
  induction l with
  | nil => rfl
  | cons y rest ih =>
      simp only [List.map_cons, push, same]
      split
      · rfl
      · rw [List.map_cons, ih]

end Gateway.Heap
