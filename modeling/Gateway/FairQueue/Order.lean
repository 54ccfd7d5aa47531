import Mathlib.Tactic.Linarith
import Gateway.FairQueue.Basic

/-!
The order of the fair queue, for all weights and all costs that are not negative.

`waiting c` is what is queued of class `c`, in order. Enqueuing appends to the
waiting list of one class (`Tidy.waiting_enqueue`) and dequeuing takes the head of
one (`waiting_dequeue`): the queue is a merge of first-in first-out queues.
-/

namespace Gateway.WeightedFairQueue

variable {C α : Type} [DecidableEq C] (clsOf : α → C)

/-- The queued entries of a class, in the order in which they will be served. -/
def waiting (q : WeightedFairQueue C α) (c : C) : List (Tagged α) :=
  q.heap.filter fun e => clsOf e.item = c

/-! ### Order -/

/-- The order invariant of the queue: the virtual time is behind every queued tag, and
the last tag given to a class belongs to its last entry, or is in the past. -/
structure Tidy (q : WeightedFairQueue C α) : Prop where
  sorted : Heap.Ordered Tagged.key q.heap
  arrived : ∀ {e}, e ∈ q.heap → e.seq < q.seq
  ahead : ∀ {e}, e ∈ q.heap → q.vt ≤ e.finish
  newest : ∀ {c e}, (q.waiting clsOf c).getLast? = some e → e.finish = q.lastFinish.getD c 0
  idle : ∀ {c}, q.waiting clsOf c = [] → q.lastFinish.getD c 0 ≤ q.vt

variable {clsOf} {q : WeightedFairQueue C α}

theorem mem_waiting {c : C} {e : Tagged α} :
    e ∈ q.waiting clsOf c ↔ e ∈ q.heap ∧ clsOf e.item = c := by
  simp [waiting]

theorem Tidy.sorted_waiting (tidy : q.Tidy clsOf) (c : C) :
    Heap.Ordered Tagged.key (q.waiting clsOf c) :=
  List.Pairwise.filter _ tidy.sorted

theorem finish_le_of_key_lt {e e' : Tagged α} (less : e.key < e'.key) : e.finish ≤ e'.finish := by
  rcases key_lt_iff.mp less with less | ⟨same, _⟩
  · exact less.le
  · exact same.le

/-- Every tag of a class is at most the last one given. -/
theorem Tidy.finish_le_last (tidy : q.Tidy clsOf) {c : C} {e : Tagged α}
    (member : e ∈ q.waiting clsOf c) : e.finish ≤ q.lastFinish.getD c 0 := by
  obtain ⟨front, last, split⟩ :=
    (List.eq_nil_or_concat' (q.waiting clsOf c)).resolve_left (List.ne_nil_of_mem member)
  have newest : last.finish = q.lastFinish.getD c 0 := tidy.newest (by simp [split])
  rw [← newest]
  have sorted := tidy.sorted_waiting c
  rw [split] at sorted member
  rcases List.mem_append.mp member with older | same
  · have less := (List.pairwise_append.mp sorted).2.2 e older last (List.mem_singleton_self _)
    exact finish_le_of_key_lt less
  · rw [List.mem_singleton.mp same]

/-- A queued class was given its last tag in the future. -/
theorem Tidy.vt_le_last (tidy : q.Tidy clsOf) {c : C} (queued : q.waiting clsOf c ≠ []) :
    q.vt ≤ q.lastFinish.getD c 0 := by
  obtain ⟨e, member⟩ := List.exists_mem_of_ne_nil _ queued
  exact (tidy.ahead (mem_waiting.mp member).1).trans (tidy.finish_le_last member)

theorem tidy_empty : (empty : WeightedFairQueue C α).Tidy clsOf where
  sorted := List.Pairwise.nil
  arrived := fun h => by cases h
  ahead := fun h => by cases h
  newest := fun h => by cases h
  idle := fun _ => le_refl _

section Enqueue

variable {x : α} {weight cost : ℚ}

theorem last_le_finishTag (nonneg : 0 ≤ cost) (c : C) :
    max q.vt (q.lastFinish.getD c 0) ≤ q.finishTag c weight cost := by
  have := div_nonneg nonneg (effectiveWeight_pos weight).le
  rw [finishTag]
  linarith

theorem lastFinish_enqueue (cls c : C) :
    (q.enqueue x cls weight cost).1.lastFinish.getD c 0 =
      if c = cls then q.finishTag cls weight cost else q.lastFinish.getD c 0 := by
  simp only [WeightedFairQueue.enqueue, Dict.getD, Dict.get?_set]
  split <;> rfl

/-- Enqueuing appends to the waiting list of the item's class. -/
theorem Tidy.waiting_enqueue (tidy : q.Tidy clsOf) (nonneg : 0 ≤ cost) (c : C) :
    (q.enqueue x (clsOf x) weight cost).1.waiting clsOf c =
      if c = clsOf x then
        q.waiting clsOf c ++ [⟨q.finishTag (clsOf x) weight cost, q.seq, x⟩]
      else q.waiting clsOf c := by
  simp only [waiting, enqueue, Heap.filter_push _ tidy.sorted, decide_eq_true_eq]
  by_cases same : clsOf x = c
  · rw [if_pos same, if_pos same.symm]
    refine Heap.push_eq_append fun e member => key_lt_iff.mpr ?_
    have older : e.seq < q.seq := tidy.arrived (List.mem_filter.mp member).1
    have le : e.finish ≤ q.finishTag (clsOf x) weight cost := by
      refine (tidy.finish_le_last member).trans ?_
      rw [same]
      exact (le_max_right _ _).trans (last_le_finishTag nonneg c)
    rcases le.lt_or_eq with less | equal
    · exact .inl less
    · exact .inr ⟨equal, older⟩
  · rw [if_neg same, if_neg (Ne.symm same)]

theorem Tidy.enqueue (tidy : q.Tidy clsOf) (nonneg : 0 ≤ cost) :
    (q.enqueue x (clsOf x) weight cost).1.Tidy clsOf where
  sorted := by
    refine Heap.ordered_push tidy.sorted fun e member same => ?_
    have := tidy.arrived member
    rw [(Prod.mk.inj (toLex.injective same)).2] at this
    exact absurd this (lt_irrefl _)
  arrived := by
    intro e member
    rcases Heap.mem_push.mp member with rfl | before
    · exact Nat.lt_succ_self _
    · exact Nat.lt_succ_of_lt (tidy.arrived before)
  ahead := by
    intro e member
    rcases Heap.mem_push.mp member with rfl | before
    · exact (le_max_left _ _).trans (last_le_finishTag nonneg (clsOf x))
    · exact tidy.ahead before
  newest := by
    intro c e last
    rw [tidy.waiting_enqueue nonneg] at last
    rw [lastFinish_enqueue]
    split at last
    · rename_i same
      rw [if_pos same]
      rw [List.getLast?_append_of_ne_nil _ (by simp)] at last
      cases last
      rfl
    · rename_i other
      rw [if_neg other]
      exact tidy.newest last
  idle := by
    intro c empty
    rw [tidy.waiting_enqueue nonneg] at empty
    split at empty
    · simp at empty
    · rename_i other
      rw [lastFinish_enqueue, if_neg other]
      exact tidy.idle empty

end Enqueue

section Dequeue

variable {q' : WeightedFairQueue C α} {x : α}

omit [DecidableEq C] in
/-- What a successful `dequeue` does. -/
theorem dequeue_eq_some (taken : q.dequeue = some (x, q')) :
    ∃ e, q.heap = e :: q'.heap ∧ e.item = x ∧ q'.lastFinish = q.lastFinish ∧ q'.seq = q.seq ∧
      q'.vt = max q.vt e.finish := by
  simp only [dequeue] at taken
  split at taken
  · cases taken
  · rename_i e rest heap
    cases taken
    refine ⟨e, heap, rfl, rfl, rfl, ?_⟩
    show (if q.vt < e.finish then e.finish else q.vt) = max q.vt e.finish
    split
    · rename_i less
      rw [max_eq_right less.le]
    · rename_i less
      rw [max_eq_left (not_lt.mp less)]

/-- Dequeuing takes the head of the waiting list of one class. -/
theorem waiting_dequeue {e : Tagged α} (heap : q.heap = e :: q'.heap) (c : C) :
    q.waiting clsOf c =
      if clsOf e.item = c then e :: q'.waiting clsOf c else q'.waiting clsOf c := by
  simp only [waiting, heap, List.filter_cons, decide_eq_true_eq]

theorem Tidy.dequeue (tidy : q.Tidy clsOf) (taken : q.dequeue = some (x, q')) :
    q'.Tidy clsOf := by
  obtain ⟨e, heap, _, lastFinish, seq, vt⟩ := dequeue_eq_some taken
  have sorted := tidy.sorted
  have at_head : q.vt ≤ e.finish := tidy.ahead (heap ▸ List.mem_cons_self)
  rw [max_eq_right at_head] at vt
  rw [heap] at sorted
  refine ⟨sorted.of_cons, ?_, ?_, ?_, ?_⟩
  · intro e' member
    rw [seq]
    exact tidy.arrived (heap ▸ List.mem_cons_of_mem _ member)
  · intro e' member
    rw [vt]
    exact finish_le_of_key_lt (sorted.head_lt member)
  · intro c e' last
    rw [lastFinish]
    refine tidy.newest ?_
    rw [waiting_dequeue heap]
    split
    · rw [List.getLast?_cons, last]
      rfl
    · exact last
  · intro c none_left
    rw [lastFinish, vt]
    by_cases same : clsOf e.item = c
    · have only : (q.waiting clsOf c).getLast? = some e := by
        rw [waiting_dequeue heap, if_pos same, none_left]
        rfl
      rw [tidy.newest only]
    · have still_none : q.waiting clsOf c = [] := by
        rw [waiting_dequeue heap, if_neg same, none_left]
      exact (tidy.idle still_none).trans at_head

end Dequeue

end Gateway.WeightedFairQueue
