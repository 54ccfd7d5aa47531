import Mathlib.Algebra.Order.Field.Basic
import Mathlib.Tactic.FieldSimp
import Mathlib.Tactic.Linarith
import Mathlib.Tactic.Positivity
import Mathlib.Tactic.Ring

/-!
The Erlang formulas for a queue with many servers, over an ordered field.

`blocking a c` is the probability that `c` servers are all busy under the offered load `a`
(Erlang B, by its recursion), and `queued a c` the probability that an arrival has to wait
(Erlang C). Both are best seen through their inverses: the inverse of `blocking` obeys a
linear recursion, and the inverse of `queued` is the difference of two neighbours
(`inv_queued_succ`).

* `blocking_pos`, `blocking_le_one`: `blocking` is a probability.
* `queued_pos`, `queued_le_one`: so is `queued`, from `a` servers on.
* `queued_succ_lt`, `meanWait_lt`: above `a`, each further server makes waiting less likely,
  and the mean wait shorter.
-/

namespace Gateway.Erlang

variable {K : Type*} [Field K] [LinearOrder K] [IsStrictOrderedRing K]

/-- Erlang B: the probability that all servers are busy. -/
def blocking (a : K) : ℕ → K
  | 0 => 1
  | k + 1 => a * blocking a k / ((k + 1 : ℕ) + a * blocking a k)

/-- The divisor that turns Erlang B into Erlang C. -/
def idleShare (a : K) (c : ℕ) : K := 1 - a / c * (1 - blocking a c)

/-- Erlang C: the probability of waiting. -/
def queued (a : K) (c : ℕ) : K := blocking a c / idleShare a c

/-- The mean time in the queue, for arrivals at rate `lam` and servers of rate `mu`. -/
def meanWait (lam mu : K) (c : ℕ) : K := queued (lam / mu) c / (c * mu - lam)

variable {a : K} {k c c' : ℕ}

theorem blocking_pos (loaded : 0 < a) (k : ℕ) : 0 < blocking a k := by
  induction k with
  | zero => exact one_pos
  | succ k ih =>
      rw [blocking]
      positivity

theorem blocking_le_one (loaded : 0 < a) (k : ℕ) : blocking a k ≤ 1 := by
  cases k with
  | zero => exact le_rfl
  | succ k =>
      have busy : 0 < a * blocking a k := mul_pos loaded (blocking_pos loaded k)
      have servers : (0 : K) ≤ (k + 1 : ℕ) := Nat.cast_nonneg _
      rw [blocking]
      apply div_le_one_of_le₀
      · linarith
      · linarith

/-- The recursion of Erlang B is linear in the inverses. -/
theorem inv_blocking_succ (loaded : 0 < a) (k : ℕ) :
    (blocking a (k + 1))⁻¹ = (k + 1 : ℕ) / a * (blocking a k)⁻¹ + 1 := by
  have positive := blocking_pos loaded k
  rw [blocking, inv_div]
  field_simp

/-- The inverse of Erlang C is a difference of inverses of Erlang B. -/
theorem inv_queued_succ (loaded : 0 < a) (k : ℕ) :
    (queued a (k + 1))⁻¹ = (blocking a (k + 1))⁻¹ - (blocking a k)⁻¹ := by
  have before := blocking_pos loaded k
  have after := blocking_pos loaded (k + 1)
  have servers : (0 : K) < (k + 1 : ℕ) := Nat.cast_pos.mpr k.succ_pos
  -- the share of the load that is carried by the other servers
  have carried : a / (k + 1 : ℕ) * ((blocking a (k + 1))⁻¹ - 1) = (blocking a k)⁻¹ := by
    rw [inv_blocking_succ loaded k, add_sub_cancel_right]
    field_simp
  rw [← carried, queued, idleShare, inv_div]
  field_simp

theorem inv_queued_eq (loaded : 0 < a) (k : ℕ) :
    (queued a (k + 1))⁻¹ = ((k + 1 : ℕ) - a) / a * (blocking a k)⁻¹ + 1 := by
  rw [inv_queued_succ loaded, inv_blocking_succ loaded, sub_div, div_self loaded.ne']
  ring

theorem one_le_inv_queued (loaded : 0 < a) (stable : a ≤ (k + 1 : ℕ)) :
    1 ≤ (queued a (k + 1))⁻¹ := by
  have spare : 0 ≤ ((k + 1 : ℕ) - a) / a := div_nonneg (sub_nonneg.mpr stable) loaded.le
  have inverse : 0 < (blocking a k)⁻¹ := inv_pos.mpr (blocking_pos loaded k)
  rw [inv_queued_eq loaded]
  linarith [mul_nonneg spare inverse.le]

/-! ### From `a` servers on -/

theorem queued_pos (loaded : 0 < a) (stable : a ≤ c) : 0 < queued a c := by
  cases c with
  | zero => exact absurd (stable.trans_eq Nat.cast_zero) loaded.not_ge
  | succ k =>
      have inverse := one_le_inv_queued loaded stable
      exact inv_pos.mp (one_pos.trans_le inverse)

theorem queued_le_one (loaded : 0 < a) (stable : a ≤ c) : queued a c ≤ 1 := by
  have positive := queued_pos loaded stable
  cases c with
  | zero => exact absurd (stable.trans_eq Nat.cast_zero) loaded.not_ge
  | succ k => exact (one_le_inv₀ positive).mp (one_le_inv_queued loaded stable)

/-- The divisor of Erlang C does not vanish: else Erlang C would. -/
theorem idleShare_ne_zero (loaded : 0 < a) (stable : a ≤ c) : idleShare a c ≠ 0 := by
  intro vanishes
  have positive := queued_pos loaded stable
  rw [queued, vanishes, div_zero] at positive
  exact lt_irrefl _ positive

/-- **One more server makes waiting less likely.** -/
theorem queued_succ_lt (loaded : 0 < a) (stable : a < c) : queued a (c + 1) < queued a c := by
  have positive := queued_pos loaded stable.le
  have more : a ≤ (c + 1 : ℕ) := stable.le.trans (Nat.cast_le.mpr c.le_succ)
  refine (inv_lt_inv₀ positive (queued_pos loaded more)).mp ?_
  cases c with
  | zero => exact absurd (stable.trans_eq Nat.cast_zero) loaded.not_gt
  | succ k =>
      have inverse := one_le_inv_queued loaded stable.le
      have growing : (blocking a k)⁻¹ < (blocking a (k + 1))⁻¹ := by
        rw [inv_queued_succ loaded] at inverse
        linarith
      have spare : 0 < ((k + 1 : ℕ) - a) / a := div_pos (sub_pos.mpr stable) loaded
      have more_spare : ((k + 1 : ℕ) - a) / a < ((k + 1 + 1 : ℕ) - a) / a := by
        rw [div_lt_div_iff_of_pos_right loaded, sub_lt_sub_iff_right, Nat.cast_lt]
        exact Nat.lt_succ_self _
      have later : 0 < (blocking a (k + 1))⁻¹ := inv_pos.mpr (blocking_pos loaded (k + 1))
      rw [inv_queued_eq loaded, inv_queued_eq loaded, add_lt_add_iff_right]
      calc ((k + 1 : ℕ) - a) / a * (blocking a k)⁻¹
          < ((k + 1 : ℕ) - a) / a * (blocking a (k + 1))⁻¹ := mul_lt_mul_of_pos_left growing spare
        _ < ((k + 1 + 1 : ℕ) - a) / a * (blocking a (k + 1))⁻¹ :=
            mul_lt_mul_of_pos_right more_spare later

/-! ### The mean wait -/

section Wait

variable {lam mu : K}

theorem spare_pos (rate : 0 < mu) (stable : lam / mu < c) : 0 < c * mu - lam :=
  sub_pos.mpr ((div_lt_iff₀ rate).mp stable)

theorem meanWait_succ_lt (arriving : 0 < lam) (rate : 0 < mu) (stable : lam / mu < c) :
    meanWait lam mu (c + 1) < meanWait lam mu c := by
  have loaded : 0 < lam / mu := div_pos arriving rate
  have more : lam / mu < (c + 1 : ℕ) := stable.trans (Nat.cast_lt.mpr c.lt_succ_self)
  have wider : c * mu - lam < (c + 1 : ℕ) * mu - lam := by
    rw [sub_lt_sub_iff_right]
    exact mul_lt_mul_of_pos_right (Nat.cast_lt.mpr c.lt_succ_self) rate
  calc meanWait lam mu (c + 1)
      < queued (lam / mu) c / ((c + 1 : ℕ) * mu - lam) :=
        (div_lt_div_iff_of_pos_right (spare_pos rate more)).mpr (queued_succ_lt loaded stable)
    _ < meanWait lam mu c :=
        div_lt_div_of_pos_left (queued_pos loaded stable.le) (spare_pos rate stable) wider

/-- **More servers make the mean wait shorter.** -/
theorem meanWait_lt (arriving : 0 < lam) (rate : 0 < mu) (stable : lam / mu < c)
    (more : c < c') : meanWait lam mu c' < meanWait lam mu c := by
  induction c', more using Nat.le_induction with
  | base => exact meanWait_succ_lt arriving rate stable
  | succ n after ih =>
      have above : lam / mu < n := stable.trans (Nat.cast_lt.mpr after)
      exact (meanWait_succ_lt arriving rate above).trans ih

end Wait

end Gateway.Erlang
