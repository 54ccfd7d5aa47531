import Mathlib.Order.Interval.Set.UnorderedInterval
import Mathlib.Order.Monotone.Basic

/-!
Sequences that a controller steers for a number of ticks.

* `Approaches target ticks x`: each value of `x` lies between the one before and the target. Such
  a sequence never turns round (`Approaches.le_or_ge`) and stays in every interval that holds its
  start and its target (`Approaches.mem_Icc`).
* `Paced apart time ticks fires last`: events that look at a register of the time of the last
  event before they happen. Two consecutive ones are far enough `apart`
  (`Paced.apart_of_consecutive`).
-/

namespace Gateway.Control

section Approach

variable {α : Type*} [LinearOrder α] {x : ℕ → α} {target lo hi : α} {ticks : ℕ}

/-- Each value lies between the one before and the target. -/
def Approaches (target : α) (ticks : ℕ) (x : ℕ → α) : Prop :=
  ∀ n < ticks, x (n + 1) ∈ Set.uIcc (x n) target

theorem Approaches.le_target (approach : Approaches target ticks x) (below : x 0 ≤ target) {n : ℕ}
    (reached : n ≤ ticks) : x n ≤ target := by
  induction n with
  | zero => exact below
  | succ n ih =>
      have between := approach n reached
      rw [Set.uIcc_of_le (ih (Nat.le_of_succ_le reached))] at between
      exact between.2

theorem Approaches.le_of_le (approach : Approaches target ticks x) (below : x 0 ≤ target) {n m : ℕ}
    (before : n ≤ m) (reached : m ≤ ticks) : x n ≤ x m := by
  induction m, before using Nat.le_induction with
  | base => exact le_rfl
  | succ m _ ih =>
      have between := approach m reached
      rw [Set.uIcc_of_le (approach.le_target below (Nat.le_of_succ_le reached))] at between
      exact (ih (Nat.le_of_succ_le reached)).trans between.1

/-- The same sequence in the reverse order. -/
theorem Approaches.dual (approach : Approaches target ticks x) :
    Approaches (OrderDual.toDual target) ticks (OrderDual.toDual ∘ x) := by
  intro n reached
  rw [Function.comp_apply, Function.comp_apply, Set.uIcc_toDual]
  exact approach n reached

/-- **No turning round.** -/
theorem Approaches.le_or_ge (approach : Approaches target ticks x) :
    (∀ n m, n ≤ m → m ≤ ticks → x n ≤ x m) ∨ ∀ n m, n ≤ m → m ≤ ticks → x m ≤ x n := by
  rcases le_total (x 0) target with below | above
  · exact .inl fun n m before reached => approach.le_of_le below before reached
  · exact .inr fun n m before reached => approach.dual.le_of_le above before reached

/-- **Staying in bounds.** -/
theorem Approaches.mem_Icc (approach : Approaches target ticks x) (aim : target ∈ Set.Icc lo hi)
    (start : x 0 ∈ Set.Icc lo hi) {n : ℕ} (reached : n ≤ ticks) : x n ∈ Set.Icc lo hi := by
  induction n with
  | zero => exact start
  | succ n ih => exact Set.uIcc_subset_Icc (ih (Nat.le_of_succ_le reached)) aim (approach n reached)

end Approach

section Pace

variable {T : Type*}

/-- Events at the times `time` that are registered in `last`, and that do not happen unless the
time of the registered event and their own are far enough apart. -/
structure Paced (apart : T → T → Prop) (time : ℕ → T) (ticks : ℕ) (fires : ℕ → Prop)
    (last : ℕ → Option T) : Prop where
  registers : ∀ n < ticks, fires n → last (n + 1) = some (time n)
  keeps : ∀ n < ticks, ¬ fires n → last (n + 1) = last n
  waits : ∀ n < ticks, fires n → ∀ t, last n = some t → apart t (time n)

variable {apart : T → T → Prop} {time : ℕ → T} {ticks : ℕ} {fires : ℕ → Prop}
  {last : ℕ → Option T}

/-- The register holds an event until the next one. -/
theorem Paced.registered (paced : Paced apart time ticks fires last) {i j : ℕ} (first : fires i)
    (after : i < j) (reached : j ≤ ticks) (quiet : ∀ k, i < k → k < j → ¬ fires k) :
    last j = some (time i) := by
  induction j, after using Nat.le_induction with
  | base => exact paced.registers i reached first
  | succ j after ih =>
      rw [paced.keeps j reached (quiet j after j.lt_succ_self)]
      exact ih (Nat.le_of_succ_le reached) fun k later before =>
        quiet k later (before.trans j.lt_succ_self)

/-- **Two consecutive events are far enough apart.** -/
theorem Paced.apart_of_consecutive (paced : Paced apart time ticks fires last) {i j : ℕ}
    (first : fires i) (after : i < j) (reached : j < ticks) (second : fires j)
    (quiet : ∀ k, i < k → k < j → ¬ fires k) : apart (time i) (time j) :=
  paced.waits j reached second (time i) (paced.registered first after reached.le quiet)

end Pace

end Gateway.Control
