import Mathlib.Data.Finset.Card
import Mathlib.Data.Finset.Range

/-!
Counting the numbered parties that have a property.

Parties are numbered in the order of their arrival. `census p n` is how many of the
first `n` have the property `p`. Accounting proofs need only how it changes when
one party changes (`census_change`), when one passes the property on (`census_pass`)
and when one arrives (`census_arrive`).
-/

namespace Gateway

/-- How many of the parties below `n` have the property `p`. -/
def census (p : Nat → Prop) [DecidablePred p] (n : Nat) : Nat :=
  ((Finset.range n).filter p).card

variable {p p' : Nat → Prop} [DecidablePred p] [DecidablePred p'] {n i : Nat}

/-- One for a property that holds, zero otherwise. -/
def tally (a : Prop) [Decidable a] : Nat := if a then 1 else 0

theorem tally_of {a : Prop} [Decidable a] (holds : a) : tally a = 1 := if_pos holds

theorem tally_of_not {a : Prop} [Decidable a] (fails : ¬ a) : tally a = 0 := if_neg fails

theorem tally_congr {a b : Prop} [Decidable a] [Decidable b] (same : a ↔ b) : tally a = tally b := by
  simp only [tally, same]

theorem census_succ : census p (n + 1) = census p n + tally (p n) := by
  simp only [census, Finset.range_add_one, Finset.filter_insert, tally]
  split
  · rw [Finset.card_insert_of_notMem (by simp)]
  · rfl

theorem census_congr (same : ∀ t, t < n → (p' t ↔ p t)) : census p' n = census p n := by
  refine congrArg Finset.card (Finset.filter_congr fun t member => ?_)
  exact same t (Finset.mem_range.mp member)

/-- One party changes. -/
theorem census_change (bound : i < n) (same : ∀ t, t ≠ i → (p' t ↔ p t)) :
    census p' n + tally (p i) = census p n + tally (p' i) := by
  induction n with
  | zero => omega
  | succ n ih =>
      rw [census_succ, census_succ]
      rcases Nat.lt_succ_iff_lt_or_eq.mp bound with below | rfl
      · have last : tally (p' n) = tally (p n) := by
          simp only [tally, same n (Nat.ne_of_gt below)]
        have := ih below
        omega
      · rw [census_congr fun t below => same t (Nat.ne_of_lt below)]
        omega

/-- One party passes the property on to another. -/
theorem census_pass {j : Nat} (bound : i < n) (bound' : j < n) (had : p i) (without : ¬ p j)
    (lost : ¬ p' i) (got : p' j) (same : ∀ t, t ≠ i → t ≠ j → (p' t ↔ p t)) :
    census p' n = census p n := by
  -- between the two changes nobody of both has it
  have first : ∀ t, t ≠ i → (t ≠ i ∧ p t ↔ p t) := fun t ne => and_iff_right ne
  have second : ∀ t, t ≠ j → (p' t ↔ t ≠ i ∧ p t) := by
    intro t ne
    by_cases here : t = i
    · subst here
      simp [lost]
    · rw [same t here ne, and_iff_right here]
  have left := census_change bound first
  have gained := census_change bound' second
  rw [tally_of had, tally_of_not (fun h => h.1 rfl)] at left
  rw [tally_of got, tally_of_not (fun h => without h.2)] at gained
  omega

/-- One party arrives. -/
theorem census_arrive (same : ∀ t, t < n → (p' t ↔ p t)) :
    census p' (n + 1) = census p n + tally (p' n) := by
  rw [census_succ, census_congr same]

theorem census_pos (bound : i < n) (holds : p i) : 0 < census p n :=
  Finset.card_pos.mpr ⟨i, Finset.mem_filter.mpr ⟨Finset.mem_range.mpr bound, holds⟩⟩

theorem census_eq_zero_iff : census p n = 0 ↔ ∀ t, t < n → ¬ p t := by
  simp only [census, Finset.card_eq_zero, Finset.filter_eq_empty_iff, Finset.mem_range]

theorem tally_le_census (bound : i < n) : tally (p i) ≤ census p n := by
  unfold tally
  split
  · rename_i holds
    exact census_pos bound holds
  · exact Nat.zero_le _

/-! ### Properties of the parties' states -/

section States

variable {α : Type} (q : α → Prop) [DecidablePred q] {state before : Nat → α}

/-- A counter that follows the state of one party still counts. -/
theorem census_follow (bound : i < n) {new : α} (changed : state = Function.update before i new)
    {count count' : Nat} (counted : count = census (fun t => q (before t)) n)
    (follows : count' + tally (q (before i)) = count + tally (q new)) :
    count' = census (fun t => q (state t)) n := by
  have others : ∀ t, t ≠ i → (q (state t) ↔ q (before t)) := by
    intro t ne
    rw [changed, Function.update_of_ne ne]
  have here : state i = new := by rw [changed, Function.update_self]
  have change := census_change bound others
  rw [here] at change
  omega

/-- One party arrives. -/
theorem census_state_arrive (same : ∀ t, t < n → state t = before t) :
    census (fun t => q (state t)) (n + 1) =
      census (fun t => q (before t)) n + tally (q (state n)) := by
  have iff : ∀ t, t < n → (q (state t) ↔ q (before t)) := fun t below => by rw [same t below]
  exact census_arrive iff

end States

end Gateway
