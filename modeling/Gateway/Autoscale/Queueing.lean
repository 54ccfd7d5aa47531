import Mathlib.Data.Int.ConditionallyCompleteOrder
import Gateway.Lib.Erlang
import Gateway.Lib.Numeric

/-!
Queueing formulas of the autoscaler (`gateway/autoscale/queueing.py`).

The definitions are over any type of numbers: exact arithmetic is `ℚ`, and Python's floats are
`Float`. A division by zero raises, and so does a conversion between integers and floats out of
range, so the functions are partial; `math.inf` is `⊤`.

* `climb_le_iff`: in any arithmetic, the search returns the first count that meets the SLO.

In exact arithmetic:

* `erlangB_eq`, `erlangC_eq`: what the code computes is Erlang B and Erlang C.
* `wait_antitone`: the expected wait falls with the number of replicas, from infinity below
  the stability floor.
* `slo_sizing`: the linear search for an SLO is exact, and more replicas keep the SLO.
-/

namespace Gateway.Queueing

open Numeric

section Definitions

variable {F : Type} [OfNat F 0] [OfNat F 1] [Add F] [Sub F] [Mul F] [Div F] [LE F]
  [DecidableLE F] [Numeric F]

/-- `erlang_b`. -/
def erlangB (c : ℤ) (a : F) : Option F :=
  if c ≤ 0 then some 1
  else (List.range' 1 c.toNat).foldlM (fun b (k : ℕ) => do
    let servers ← ofInt k
    divide (a * b) (servers + a * b)) 1

/-- `erlang_c`. -/
def erlangC (c : ℤ) (a : F) : Option F :=
  if a ≤ 0 then some 0
  else if intLe c a then some 1
  else do
    let b ← erlangB c a
    let servers ← ofInt c
    let rho ← divide a servers
    divide b (1 - rho * (1 - b))

/-- `expected_wait_s`. -/
def expectedWaitS (c : ℤ) (lam mu : F) : Option (WithTop F) :=
  if mu ≤ 0 ∨ lam ≤ 0 then some (0 : F)
  else do
    let a ← divide lam mu
    if intLe c a then some ⊤
    else
      let p ← erlangC c a
      let servers ← ofInt c
      (divide p (servers * mu - lam)).map WithTop.some

/-- The loop of `min_replicas_for_wait_slo`, with the number of replicas up to the maximum. -/
def climb (lam mu sloS : F) (maxReplicas : ℤ) : ℕ → ℤ → Option ℤ
  | 0, _ => some maxReplicas
  | left + 1, c => do
      let w ← expectedWaitS c lam mu
      if within w sloS then some c else climb lam mu sloS maxReplicas left (c + 1)

/-- `min_replicas_for_wait_slo`. -/
def minReplicasForWaitSlo (lam mu sloS : F) (maxReplicas : ℤ) : Option ℤ :=
  if lam ≤ 0 ∨ mu ≤ 0 then some 0
  else do
    let a ← divide lam mu
    let whole ← floor a
    let c := max 1 (whole + 1)
    climb lam mu sloS maxReplicas (maxReplicas - c).toNat c

/-- The expected wait of `c` replicas is found to be within the SLO. -/
def Within (lam mu sloS : F) (c : ℤ) : Prop :=
  ∃ w, expectedWaitS c lam mu = some w ∧ within w sloS = true

/-- **The search, in any arithmetic**: it stops at the first count found within the SLO, or at
the maximum. -/
theorem climb_le_iff {lam mu sloS : F} {maxReplicas r : ℤ} {left : ℕ} {c : ℤ}
    (count : (maxReplicas - c).toNat = left)
    (found : climb lam mu sloS maxReplicas left c = some r) (n : ℤ) :
    r ≤ n ↔ maxReplicas ≤ n ∨ ∃ m, c ≤ m ∧ m ≤ n ∧ m < maxReplicas ∧ Within lam mu sloS m := by
  induction left generalizing c with
  | zero =>
      obtain rfl := Option.some.inj found
      constructor
      · exact .inl
      · rintro (all | ⟨m, from_c, -, below, -⟩)
        · exact all
        · omega
  | succ left ih =>
      obtain ⟨w, waits, rest⟩ := Option.bind_eq_some_iff.mp found
      split at rest
      · rename_i met
        obtain rfl := Option.some.inj rest
        constructor
        · exact fun more => .inr ⟨c, le_rfl, more, by omega, w, waits, met⟩
        · rintro (all | ⟨m, from_c, upto, -, -⟩) <;> omega
      · rename_i missed
        rw [ih (by omega) rest]
        refine or_congr_right (exists_congr fun m => ⟨?_, ?_⟩)
        · rintro ⟨after, rest⟩
          exact ⟨by omega, rest⟩
        · rintro ⟨from_c, upto, below, w', waits', met⟩
          refine ⟨?_, upto, below, w', waits', met⟩
          -- the wait at `c` itself was too long
          rcases from_c.eq_or_lt with rfl | after
          · obtain rfl := Option.some.inj (waits.symm.trans waits')
            exact absurd met missed
          · omega

/-- The search as a whole starts at the stability floor. -/
theorem minReplicasForWaitSlo_le_iff {lam mu sloS : F} {maxReplicas r : ℤ}
    (busy : ¬ (lam ≤ 0 ∨ mu ≤ 0))
    (found : minReplicasForWaitSlo lam mu sloS maxReplicas = some r) (n : ℤ) :
    r ≤ n ↔ maxReplicas ≤ n ∨ ∃ m, 1 ≤ m ∧ m ≤ n ∧ m < maxReplicas ∧
      (∀ a, divide lam mu = some a → intLe m a = false) ∧ Within lam mu sloS m := by
  unfold minReplicasForWaitSlo at found
  rw [if_neg busy] at found
  obtain ⟨a, load, found⟩ := Option.bind_eq_some_iff.mp found
  obtain ⟨whole, floored, found⟩ := Option.bind_eq_some_iff.mp found
  rw [climb_le_iff rfl found n]
  refine or_congr_right (exists_congr fun m => ?_)
  have stable : (∀ a, divide lam mu = some a → intLe m a = false) ↔ whole < m := by
    rw [load, floor_lt_iff floored]
    simp
  rw [stable]
  constructor
  · rintro ⟨start, upto, below, met⟩
    exact ⟨by omega, upto, below, by omega, met⟩
  · rintro ⟨one, upto, below, above, met⟩
    exact ⟨by omega, upto, below, met⟩

end Definitions

/-! ### The formulas -/

section Formulas

variable {a : ℚ} {c : ℤ}

theorem foldlM_blocking (loaded : 0 < a) (n : ℕ) :
    (List.range' 1 n).foldlM (fun b (k : ℕ) => do
      let servers ← ofInt k
      divide (a * b) (servers + a * b)) 1 = some (Erlang.blocking a n) := by
  induction n with
  | zero => rfl
  | succ n ih =>
      have positive := Erlang.blocking_pos loaded n
      have nonzero : ((n + 1 : ℕ) : ℚ) + a * Erlang.blocking a n ≠ 0 := by positivity
      rw [List.range'_concat, List.foldlM_append, ih]
      simpa [Nat.add_comm, Erlang.blocking] using divide_eq nonzero

/-- **`erlang_b` computes Erlang B.** -/
theorem erlangB_eq (loaded : 0 < a) (c : ℤ) :
    erlangB c a = some (Erlang.blocking a c.toNat) := by
  unfold erlangB
  split
  · rename_i none_left
    rw [Int.toNat_of_nonpos none_left]
    rfl
  · exact foldlM_blocking loaded _

theorem cast_toNat_of_lt (loaded : 0 < a) (stable : a < c) : ((c.toNat : ℕ) : ℚ) = c := by
  have positive : 0 < c := by exact_mod_cast loaded.trans stable
  exact_mod_cast Int.toNat_of_nonneg positive.le

/-- **`erlang_c` computes Erlang C** above the stability floor, and 1 below. -/
theorem erlangC_eq (loaded : 0 < a) (c : ℤ) :
    erlangC c a = some (if c ≤ a then 1 else Erlang.queued a c.toNat) := by
  unfold erlangC
  rw [if_neg loaded.not_ge]
  simp only [intLe_rat]
  split
  · rfl
  · rename_i stable
    have stable := not_le.mp stable
    have servers := cast_toNat_of_lt loaded stable
    have positive : (c : ℚ) ≠ 0 := (loaded.trans stable).ne'
    have share : 1 - a / c * (1 - Erlang.blocking a c.toNat) = Erlang.idleShare a c.toNat := by
      rw [Erlang.idleShare, servers]
    have nonzero : Erlang.idleShare a c.toNat ≠ 0 :=
      Erlang.idleShare_ne_zero loaded (servers ▸ stable.le)
    simp [erlangB_eq loaded, divide_eq positive, share, divide_eq nonzero, Erlang.queued]

theorem erlangB_mem_unit (loaded : 0 < a) (c : ℤ) :
    ∃ b, erlangB c a = some b ∧ 0 ≤ b ∧ b ≤ 1 :=
  ⟨_, erlangB_eq loaded c, (Erlang.blocking_pos loaded _).le, Erlang.blocking_le_one loaded _⟩

theorem erlangC_mem_unit (loaded : 0 < a) (c : ℤ) :
    ∃ p, erlangC c a = some p ∧ 0 ≤ p ∧ p ≤ 1 := by
  refine ⟨_, erlangC_eq loaded c, ?_⟩
  split
  · exact ⟨zero_le_one, le_rfl⟩
  · rename_i stable
    have stable : a ≤ (c.toNat : ℕ) :=
      (cast_toNat_of_lt loaded (not_le.mp stable)).symm ▸ (not_le.mp stable).le
    exact ⟨(Erlang.queued_pos loaded stable).le, Erlang.queued_le_one loaded stable⟩

end Formulas

/-! ### The wait -/

section Wait

variable {lam mu : ℚ} {c c' : ℤ}

/-- The expected wait as a function of the replicas. -/
def wait (lam mu : ℚ) (c : ℤ) : WithTop ℚ :=
  if c ≤ lam / mu then ⊤ else (Erlang.meanWait lam mu c.toNat : ℚ)

theorem wait_unstable (unstable : c ≤ lam / mu) : wait lam mu c = ⊤ := if_pos unstable

theorem wait_stable (stable : lam / mu < c) :
    wait lam mu c = (Erlang.meanWait lam mu c.toNat : ℚ) :=
  if_neg (not_le.mpr stable)

/-- **`expected_wait_s` does not raise**, and returns the expected wait. -/
theorem expectedWaitS_eq (arriving : 0 < lam) (rate : 0 < mu) (c : ℤ) :
    expectedWaitS c lam mu = some (wait lam mu c) := by
  have loaded : 0 < lam / mu := div_pos arriving rate
  have positive : ¬ (mu ≤ 0 ∨ lam ≤ 0) := not_or.mpr ⟨rate.not_ge, arriving.not_ge⟩
  unfold expectedWaitS wait
  rw [if_neg positive, divide_eq rate.ne']
  simp only [Option.bind_eq_bind, Option.bind_some, erlangC_eq loaded, intLe_rat, ofInt_rat]
  split
  · rfl
  · rename_i stable
    have stable := not_le.mp stable
    have servers := cast_toNat_of_lt loaded stable
    have spare : (c : ℚ) * mu - lam ≠ 0 := by
      rw [← servers]
      exact (Erlang.spare_pos rate (servers ▸ stable)).ne'
    rw [divide_eq spare, Erlang.meanWait, servers]
    rfl

/-- **The wait is strictly decreasing** above the stability floor. -/
theorem wait_lt (arriving : 0 < lam) (rate : 0 < mu) (stable : lam / mu < c) (more : c < c') :
    wait lam mu c' < wait lam mu c := by
  have loaded : 0 < lam / mu := div_pos arriving rate
  have above : lam / mu < c' := stable.trans (Int.cast_lt.mpr more)
  have positive : 0 < c := by exact_mod_cast loaded.trans stable
  rw [wait_stable stable, wait_stable above, WithTop.coe_lt_coe]
  apply Erlang.meanWait_lt arriving rate
  · rwa [cast_toNat_of_lt loaded stable]
  · omega

theorem wait_antitone (arriving : 0 < lam) (rate : 0 < mu) : Antitone (wait lam mu) := by
  intro c c' more
  rcases le_or_gt (c : ℚ) (lam / mu) with unstable | stable
  · rw [wait_unstable unstable]
    exact le_top
  · rcases more.eq_or_lt with rfl | more
    · exact le_rfl
    · exact (wait_lt arriving rate stable more).le

end Wait

/-! ### The search -/

section Search

variable {lam mu sloS : ℚ} {maxReplicas : ℤ}

/-- The expected wait of `c` replicas is within the SLO. -/
def MeetsSlo (lam mu sloS : ℚ) (c : ℤ) : Prop :=
  ∃ w, expectedWaitS c lam mu = some w ∧ w ≤ sloS

/-- The expected wait of `c` replicas is beyond the SLO. -/
def MissesSlo (lam mu sloS : ℚ) (c : ℤ) : Prop :=
  ∃ w, expectedWaitS c lam mu = some w ∧ sloS < w

theorem meetsSlo_iff (arriving : 0 < lam) (rate : 0 < mu) {c : ℤ} :
    MeetsSlo lam mu sloS c ↔ wait lam mu c ≤ sloS := by
  simp [MeetsSlo, expectedWaitS_eq arriving rate]

theorem missesSlo_iff (arriving : 0 < lam) (rate : 0 < mu) {c : ℤ} :
    MissesSlo lam mu sloS c ↔ sloS < wait lam mu c := by
  simp [MissesSlo, expectedWaitS_eq arriving rate]

/-- The loop: the replicas below the count are known to miss the SLO. -/
theorem climb_spec (arriving : 0 < lam) (rate : 0 < mu) (left : ℕ) (c : ℤ)
    (count : (maxReplicas - c).toNat = left) (missed : ∀ c' < c, sloS < wait lam mu c') :
    ∃ r, climb lam mu sloS maxReplicas left c = some r ∧ (∀ c' < r, sloS < wait lam mu c') ∧
      (r < maxReplicas → wait lam mu r ≤ sloS) := by
  induction left generalizing c with
  | zero =>
      refine ⟨maxReplicas, rfl, ?_, fun below => absurd below (lt_irrefl _)⟩
      intro c' below
      exact missed c' (by omega)
  | succ left ih =>
      simp only [climb, expectedWaitS_eq arriving rate, Option.bind_eq_bind, Option.bind_some,
        within_rat]
      split
      · rename_i met
        exact ⟨c, rfl, missed, fun _ => met⟩
      · rename_i too_long
        apply ih (c + 1) (by omega)
        intro c' below
        rcases (Int.lt_add_one_iff.mp below).eq_or_lt with rfl | below
        · exact not_le.mp too_long
        · exact missed c' below

/-- The search starts at the stability floor. -/
theorem lt_floor_unstable (loaded : 0 < lam / mu) {c : ℤ} (below : c < max 1 (⌊lam / mu⌋ + 1)) :
    c ≤ lam / mu := by
  have floor : 0 ≤ ⌊lam / mu⌋ := Int.floor_nonneg.mpr loaded.le
  exact Int.le_floor.mp (by omega)

theorem minReplicasForWaitSlo_spec (arriving : 0 < lam) (rate : 0 < mu) (sloS : ℚ)
    (maxReplicas : ℤ) :
    ∃ r, minReplicasForWaitSlo lam mu sloS maxReplicas = some r ∧
      (∀ c < r, sloS < wait lam mu c) ∧ (r < maxReplicas → wait lam mu r ≤ sloS) := by
  have positive : ¬ (lam ≤ 0 ∨ mu ≤ 0) := not_or.mpr ⟨arriving.not_ge, rate.not_ge⟩
  unfold minReplicasForWaitSlo
  rw [if_neg positive, divide_eq rate.ne']
  apply climb_spec arriving rate _ _ rfl
  intro c below
  rw [wait_unstable (lt_floor_unstable (div_pos arriving rate) below)]
  exact WithTop.coe_lt_top sloS

/-- More replicas than the search found keep the SLO. -/
theorem meetsSlo_of_le (arriving : 0 < lam) (rate : 0 < mu) {r c : ℤ}
    (found : minReplicasForWaitSlo lam mu sloS maxReplicas = some r) (below : r < maxReplicas)
    (more : r ≤ c) : MeetsSlo lam mu sloS c := by
  obtain ⟨r', found', -, met⟩ := minReplicasForWaitSlo_spec arriving rate sloS maxReplicas
  obtain rfl : r' = r := Option.some.inj (found'.symm.trans found)
  rw [meetsSlo_iff arriving rate]
  exact (wait_antitone arriving rate more).trans (met below)

/-- **Sizing for an SLO.** For all rates: the Erlang formulas are probabilities and divide by
zero nowhere; the expected wait is infinite up to the stability floor and strictly decreasing
above; and the search returns a count below which the SLO is missed and, unless it ended at the
maximum, from which on it is met, also when the count is raised for another reason. -/
theorem slo_sizing (lam mu sloS : ℚ) (maxReplicas : ℤ) (arriving : 0 < lam) (rate : 0 < mu) :
    (∀ c, ∃ b, erlangB c (lam / mu) = some b ∧ 0 ≤ b ∧ b ≤ 1) ∧
    (∀ c, ∃ p, erlangC c (lam / mu) = some p ∧ 0 ≤ p ∧ p ≤ 1) ∧
    (∀ c : ℤ, c ≤ lam / mu → expectedWaitS c lam mu = some ⊤) ∧
    (∀ c c' : ℤ, lam / mu < c → c < c' → ∃ w w' : ℚ,
      expectedWaitS c lam mu = some (w : WithTop ℚ) ∧
      expectedWaitS c' lam mu = some (w' : WithTop ℚ) ∧ w' < w) ∧
    ∃ r, minReplicasForWaitSlo lam mu sloS maxReplicas = some r ∧
      (∀ c < r, MissesSlo lam mu sloS c) ∧
      (r < maxReplicas → (∀ c ≥ r, MeetsSlo lam mu sloS c) ∧
        ∀ needed, MeetsSlo lam mu sloS (max r needed)) := by
  have loaded : 0 < lam / mu := div_pos arriving rate
  refine ⟨erlangB_mem_unit loaded, erlangC_mem_unit loaded, ?_, ?_, ?_⟩
  · intro c unstable
    rw [expectedWaitS_eq arriving rate, wait_unstable unstable]
  · intro c c' stable more
    have above : lam / mu < c' := stable.trans (Int.cast_lt.mpr more)
    have shorter := wait_lt arriving rate stable more
    rw [wait_stable stable, wait_stable above, WithTop.coe_lt_coe] at shorter
    refine ⟨_, _, ?_, ?_, shorter⟩
    · rw [expectedWaitS_eq arriving rate, wait_stable stable]
    · rw [expectedWaitS_eq arriving rate, wait_stable above]
  · obtain ⟨r, found, missed, -⟩ := minReplicasForWaitSlo_spec arriving rate sloS maxReplicas
    refine ⟨r, found, ?_, fun below => ⟨fun c more => ?_, fun needed => ?_⟩⟩
    · intro c below
      exact (missesSlo_iff arriving rate).mpr (missed c below)
    · exact meetsSlo_of_le arriving rate found below more
    · exact meetsSlo_of_le arriving rate found below (le_max_left r needed)

/-- Two erlangs, 100 ms and at most 20 replicas: four are needed, and seven do as well. -/
theorem slo_sizing_two_erlangs :
    minReplicasForWaitSlo (2 : ℚ) 1 (1 / 10) 20 = some 4 ∧ MissesSlo 2 1 (1 / 10) 3 ∧
      MeetsSlo 2 1 (1 / 10) (max 4 7) := by
  obtain ⟨-, -, -, -, r, found, missed, met⟩ :=
    slo_sizing 2 1 (1 / 10) 20 (by norm_num) (by norm_num)
  have four : minReplicasForWaitSlo (2 : ℚ) 1 (1 / 10) 20 = some 4 := by decide +kernel
  obtain rfl : 4 = r := Option.some.inj (four.symm.trans found)
  exact ⟨four, missed 3 (by norm_num), (met (by norm_num)).2 7⟩

end Search

end Gateway.Queueing
