import Mathlib.Data.Prod.Lex
import Mathlib.Algebra.Order.Ring.Rat
import Gateway.Lib.Dict
import Gateway.Lib.Heap

/-!
The weighted fair queue of `gateway/fairqueue.py`, in exact arithmetic.

Virtual times, weights and costs are rationals. The `heapq` of
`(finish, seq, item)` tuples is a `Heap` keyed by `(finish, seq)`: no two entries
have the same sequence number, so items are never compared.
-/

namespace Gateway

/-- An entry `(finish, seq, item)` of the heap. -/
structure Tagged (α : Type) where
  finish : ℚ
  seq : Nat
  item : α
  deriving DecidableEq

/-- What tuple comparison looks at: the finish tag, then the arrival number. -/
def Tagged.key {α : Type} (e : Tagged α) : ℚ ×ₗ Nat := toLex (e.finish, e.seq)

/-- `WeightedFairQueue`. -/
structure WeightedFairQueue (C α : Type) where
  heap : List (Tagged α)
  lastFinish : Dict C ℚ
  vt : ℚ
  seq : Nat

namespace WeightedFairQueue

variable {C α : Type}

/-- `WeightedFairQueue()`. -/
def empty : WeightedFairQueue C α := ⟨[], .empty, 0, 0⟩

/-- `len(self)`. -/
def len (q : WeightedFairQueue C α) : Nat := q.heap.length

/-- `weight if weight > 0 else 1e-9`. -/
def effectiveWeight (weight : ℚ) : ℚ := if 0 < weight then weight else 1 / 1000000000

variable [DecidableEq C]

/-- The finish tag that `enqueue` gives to the next item of a class. -/
def finishTag (q : WeightedFairQueue C α) (cls : C) (weight cost : ℚ) : ℚ :=
  max q.vt (q.lastFinish.getD cls 0) + cost / effectiveWeight weight

/-- `enqueue(item, cls, weight, cost)`. -/
def enqueue (q : WeightedFairQueue C α) (item : α) (cls : C) (weight cost : ℚ) :
    WeightedFairQueue C α × ℚ :=
  let finish := q.finishTag cls weight cost
  ({ heap := Heap.push Tagged.key ⟨finish, q.seq, item⟩ q.heap
     lastFinish := q.lastFinish.set cls finish
     vt := q.vt
     seq := q.seq + 1 },
    finish)

/-- `dequeue()`; `none` is the `IndexError` on an empty queue. -/
def dequeue (q : WeightedFairQueue C α) : Option (α × WeightedFairQueue C α) :=
  match q.heap with
  | [] => none
  | e :: rest =>
      some (e.item, { q with heap := rest, vt := if q.vt < e.finish then e.finish else q.vt })

theorem effectiveWeight_pos (weight : ℚ) : 0 < effectiveWeight weight := by
  rw [effectiveWeight]
  split
  · assumption
  · decide +kernel

theorem effectiveWeight_of_pos {weight : ℚ} (pos : 0 < weight) : effectiveWeight weight = weight :=
  if_pos pos

omit [DecidableEq C] in
theorem key_lt_iff {e e' : Tagged α} :
    e.key < e'.key ↔ e.finish < e'.finish ∨ (e.finish = e'.finish ∧ e.seq < e'.seq) :=
  Prod.Lex.toLex_lt_toLex

end WeightedFairQueue

end Gateway
