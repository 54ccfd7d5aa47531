import Gateway.Lib.Control
import Gateway.Autoscale.Planner

/-!
The autoscaler in closed loop: each recommendation becomes the replica count of the next tick,
and `scrape_loop` keeps the times of the last moves.

Under a constant load the target is constant, so the counts approach it (`Tempered.mem_uIcc`),
and the two registers of the loop space the moves out (`paced_up`, `paced_down`).

* `Settled.stays`: a count at which the planner once rested is never left.
* `no_flapping`: for as long as the planner returns, in whatever arithmetic, the counts stay in
  bounds, move by at most the step, never turn round, respect the cooldowns and, once they have
  settled, stay. In exact arithmetic it always returns (`Loop.exists_after`); in floats it may
  divide by zero (`loop_divides_by_zero`).
-/

namespace Gateway.Autoscale

/-! ### One decision -/

section Decision

variable {F : Type} [Sub F] [LT F] [DecidableLT F] {signal : ScalingSignal F}
  {cfg : AutoscaleConfig F} {target desired : ℤ} {direction : Direction} {blocked : Bool}

namespace Tempered

/-- A decision moves towards the target, not beyond. -/
theorem mem_uIcc (step : 0 ≤ cfg.maxScaleStep)
    (tempered : Tempered signal cfg target direction desired blocked) :
    desired ∈ Set.uIcc signal.currentReplicas target := by
  cases tempered with
  | up short =>
      rw [Set.uIcc_of_le short.le]
      exact ⟨le_min short.le (le_add_of_nonneg_right step), min_le_left _ _⟩
  | down enough =>
      rw [Set.uIcc_of_ge enough]
      exact ⟨le_max_left _ _, max_le enough (sub_le_self _ step)⟩
  | upLater | downLater | stay => exact Set.left_mem_uIcc

theorem abs_sub_le (step : 0 ≤ cfg.maxScaleStep)
    (tempered : Tempered signal cfg target direction desired blocked) :
    |desired - signal.currentReplicas| ≤ cfg.maxScaleStep := by
  cases tempered <;> grind

/-- If steps may be taken, the count grows precisely on an upward decision. -/
theorem up_iff (step : 1 ≤ cfg.maxScaleStep)
    (tempered : Tempered signal cfg target direction desired blocked) :
    signal.currentReplicas < desired ↔ direction = .up := by
  cases tempered with
  | up short => exact iff_of_true (lt_min short (by omega)) rfl
  | down enough => exact iff_of_false (max_le enough (by omega)).not_gt nofun
  | upLater | downLater | stay => exact iff_of_false (lt_irrefl _) nofun

/-- And it shrinks on a downward one, unless that asks for the current count. -/
theorem down_of_lt (step : 1 ≤ cfg.maxScaleStep)
    (tempered : Tempered signal cfg target direction desired blocked)
    (shrinks : desired < signal.currentReplicas) : direction = .down := by
  cases tempered with
  | up short => exact absurd shrinks (le_min short.le (by omega)).not_gt
  | down => rfl
  | upLater | downLater | stay => exact absurd shrinks (lt_irrefl _)

/-- A downward decision for the current count is at the target. -/
theorem eq_of_down (step : 1 ≤ cfg.maxScaleStep)
    (tempered : Tempered signal cfg target .down desired blocked)
    (rests : ¬ desired < signal.currentReplicas) : signal.currentReplicas = target := by
  cases tempered with
  | down enough => omega

theorem ready_up (tempered : Tempered signal cfg target .up desired blocked) :
    coolingDown signal.nowS signal.lastScaleUpS cfg.scaleUpCooldownS = false := by
  cases tempered with
  | up _ ready => exact ready

theorem ready_down (tempered : Tempered signal cfg target .down desired blocked) :
    coolingDown signal.nowS signal.lastScaleDownS cfg.scaleDownCooldownS = false := by
  cases tempered with
  | down _ _ ready => exact ready

end Tempered

/-- The planner has no reason to leave this count: it is the target, or above it by less than
the deadband. -/
def Settled (cfg : AutoscaleConfig F) (target count : ℤ) : Prop :=
  count = target ∨ target ≤ count ∧ count - cfg.scaleDownDeadband < target

/-- A decision for the current count settles it, unless a cooldown was the reason. -/
theorem Tempered.settled (step : 1 ≤ cfg.maxScaleStep)
    (tempered : Tempered signal cfg target direction signal.currentReplicas false) :
    Settled cfg target signal.currentReplicas := by
  generalize same : signal.currentReplicas = count at tempered
  cases tempered with
  | up short => omega
  | down enough => exact .inl (by omega)
  | stay enough within => exact .inr ⟨by omega, by omega⟩

theorem Settled.stays (settled : Settled cfg target signal.currentReplicas)
    (step : 0 ≤ cfg.maxScaleStep)
    (tempered : Tempered signal cfg target direction desired blocked) :
    desired = signal.currentReplicas := by
  cases tempered with
  | up short => rcases settled with same | ⟨enough, -⟩ <;> omega
  | down enough beyond => rcases settled with same | ⟨-, within⟩ <;> omega
  | upLater | downLater | stay => rfl

end Decision

/-! ### The loop -/

/-- The autoscaler and the fleet that follows it. -/
structure Loop (F : Type := ℚ) where
  scaler : Autoscaler F
  replicas : ℤ

section Loops

variable {F : Type} [OfNat F 0] [OfNat F 1] [OfScientific F] [Add F] [Sub F] [Mul F] [Div F]
  [Max F] [LT F] [DecidableLT F] [LE F] [DecidableLE F] [Numeric F]

namespace Loop

/-- The signal of a tick. -/
def signal (l : Loop F) (rps now : F) : ScalingSignal F := l.scaler.signal rps l.replicas now

/-- A tick: plan, keep the times of the last moves, and follow the recommendation. -/
def step (cfg : AutoscaleConfig F) (rps : F) (l : Loop F) (now : F) : Option (Loop F) :=
  (plan (l.signal rps now) cfg).map fun decision =>
    ⟨l.scaler.note decision now, decision.desiredReplicas⟩

/-- The loop after `n` ticks. -/
def after (cfg : AutoscaleConfig F) (rps : F) (start : Loop F) (time : ℕ → F) : ℕ → Option (Loop F)
  | 0 => some start
  | n + 1 => (after cfg rps start time n).bind fun l => l.step cfg rps (time n)

/-- A round of `scrape_loop` is a tick of the loop, when the healthy backends are the replicas
and the load is the one observed. -/
theorem step_scaler_of_tick {cfg : AutoscaleConfig F} (on : cfg.enabled = true) {l l' : Loop F}
    {healthy : ℕ} {rps now : F} (followed : l.replicas = max 1 (healthy : ℤ))
    (observed : l.scaler.observedRps now = some rps) (taken : l.step cfg rps now = some l') :
    ∃ s, l.scaler.tick cfg healthy now = some s ∧ s.lastDecision = l'.scaler.lastDecision ∧
      s.lastScaleUp = l'.scaler.lastScaleUp ∧ s.lastScaleDown = l'.scaler.lastScaleDown := by
  obtain ⟨decision, planned, rfl⟩ := Option.map_eq_some_iff.mp taken
  have planned' : plan (({ l.scaler with lastSnapshot := (now, l.scaler.requestCount) } :
      Autoscaler F).signal rps (max 1 healthy) now) cfg = some decision := by
    rw [← followed]
    exact planned
  unfold Autoscaler.tick
  rw [if_pos on, observed]
  simp only [Option.bind_eq_bind, Option.bind_some, planned']
  exact ⟨_, rfl, rfl, rfl, rfl⟩

/-- **In exact arithmetic the loop never fails.** -/
theorem exists_after (cfg : AutoscaleConfig) (rps : ℚ) (start : Loop) (time : ℕ → ℚ) (n : ℕ) :
    ∃ l, after cfg rps start time n = some l := by
  induction n with
  | zero => exact ⟨start, rfl⟩
  | succ n ih =>
      obtain ⟨l, reached⟩ := ih
      obtain ⟨decision, planned⟩ := exists_plan (l.signal rps (time n)) cfg
      exact ⟨_, by rw [after, reached, Option.bind_some, step, planned, Option.map_some]⟩

end Loop

/-! ### Runs -/

/-- A run of `ticks` ticks of the loop, with the decisions made in it. -/
structure IsRun (cfg : AutoscaleConfig F) (rps : F) (time : ℕ → F) (ticks : ℕ) (run : ℕ → Loop F)
    (made : ℕ → ScalingDecision F) : Prop where
  planned : ∀ n < ticks, plan ((run n).signal rps (time n)) cfg = some (made n)
  next : ∀ n < ticks, run (n + 1) =
    ⟨(run n).scaler.note (made n) (time n), (made n).desiredReplicas⟩

variable {cfg : AutoscaleConfig F} {rps : F} {start : Loop F} {time : ℕ → F} {ticks : ℕ}
  {run : ℕ → Loop F} {needs : ℤ × ℤ} {made : ℕ → ScalingDecision F}

/-- The decisions made in a run. -/
theorem exists_isRun
    (reached : ∀ n ≤ ticks, Loop.after cfg rps start time n = some (run n)) :
    ∃ made, IsRun cfg rps time ticks run made := by
  have tick : ∀ n < ticks, ∃ decision, plan ((run n).signal rps (time n)) cfg = some decision ∧
      run (n + 1) = ⟨(run n).scaler.note decision (time n), decision.desiredReplicas⟩ := by
    intro n before
    have taken := reached (n + 1) before
    rw [Loop.after, reached n before.le, Option.bind_some] at taken
    obtain ⟨decision, planned, next⟩ := Option.map_eq_some_iff.mp taken
    exact ⟨decision, planned, next.symm⟩
  have : Nonempty (ScalingDecision F) := ⟨0, 0, .hold, "", 0, 0, ⊤, false⟩
  choose! made planned next using tick
  exact ⟨made, planned, next⟩

namespace IsRun

theorem tempered (runs : IsRun cfg rps time ticks run made)
    (sized : sizing cfg (max 0 rps) = some needs) {n : ℕ} (before : n < ticks) :
    Tempered ((run n).signal rps (time n)) cfg (targetOf cfg needs) (made n).direction
      (run (n + 1)).replicas (made n).blockedByCooldown := by
  obtain ⟨needs', w, sized', tempered, -⟩ := plan_spec (runs.planned n before)
  obtain rfl := Option.some.inj (sized.symm.trans sized')
  rw [runs.next n before]
  exact tempered

/-- The decisions of one direction pace themselves by the register of the last one. -/
theorem paced {direction : Direction} {cooldown : F} {last : Autoscaler F → Option F}
    (runs : IsRun cfg rps time ticks run made)
    (noted : ∀ s decision now, last (Autoscaler.note s decision now) =
      if decision.direction = direction then some now else last s)
    (ready : ∀ n < ticks, (made n).direction = direction →
      coolingDown (time n) (last (run n).scaler) cooldown = false) :
    Control.Paced (fun t now => ¬ now - t < cooldown) time ticks
      (fun n => (made n).direction = direction) fun n => last (run n).scaler where
  registers n before moved := by rw [runs.next n before, noted, if_pos moved]
  keeps n before rests := by rw [runs.next n before, noted, if_neg rests]
  waits n before moved t registered := by
    have passed := ready n before moved
    simpa [coolingDown, registered] using passed

theorem paced_up (runs : IsRun cfg rps time ticks run made)
    (sized : sizing cfg (max 0 rps) = some needs) :
    Control.Paced (fun t now => ¬ now - t < cfg.scaleUpCooldownS) time ticks
      (fun n => (made n).direction = .up) fun n => (run n).scaler.lastScaleUp := by
  refine runs.paced (fun _ _ _ => rfl) fun n before moved => ?_
  have tempered := runs.tempered sized before
  rw [moved] at tempered
  exact tempered.ready_up

theorem paced_down (runs : IsRun cfg rps time ticks run made)
    (sized : sizing cfg (max 0 rps) = some needs) :
    Control.Paced (fun t now => ¬ now - t < cfg.scaleDownCooldownS) time ticks
      (fun n => (made n).direction = .down) fun n => (run n).scaler.lastScaleDown := by
  refine runs.paced (fun _ _ _ => rfl) fun n before moved => ?_
  have tempered := runs.tempered sized before
  rw [moved] at tempered
  exact tempered.ready_down

theorem approaches (runs : IsRun cfg rps time ticks run made)
    (sized : sizing cfg (max 0 rps) = some needs) (step : 0 ≤ cfg.maxScaleStep) :
    Control.Approaches (targetOf cfg needs) ticks fun n => (run n).replicas := by
  intro n before
  have between := (runs.tempered sized before).mem_uIcc step
  exact between

/-- **Settled counts are never left.** -/
theorem settled_stays (runs : IsRun cfg rps time ticks run made)
    (sized : sizing cfg (max 0 rps) = some needs) (step : 0 ≤ cfg.maxScaleStep) {n m : ℕ}
    (settled : Settled cfg (targetOf cfg needs) (run n).replicas) (later : n ≤ m)
    (reached : m ≤ ticks) : (run m).replicas = (run n).replicas := by
  induction m, later using Nat.le_induction with
  | base => rfl
  | succ m _ ih =>
      have same := ih (Nat.le_of_succ_le reached)
      rw [← same] at settled ⊢
      exact settled.stays step (runs.tempered sized reached)

section Moves

variable (runs : IsRun cfg rps time ticks run made)
  (sized : sizing cfg (max 0 rps) = some needs) (step : 1 ≤ cfg.maxScaleStep) {i j : ℕ}

include runs sized step

/-- Consecutive moves upwards are apart. -/
theorem up_apart (after : i < j) (before : j < ticks)
    (first : (run i).replicas < (run (i + 1)).replicas)
    (second : (run j).replicas < (run (j + 1)).replicas)
    (quiet : ∀ k, i < k → k < j → ¬ (run k).replicas < (run (k + 1)).replicas) :
    ¬ time j - time i < cfg.scaleUpCooldownS := by
  have up_iff : ∀ {n}, n < ticks →
      ((run n).replicas < (run (n + 1)).replicas ↔ (made n).direction = .up) :=
    fun early => (runs.tempered sized early).up_iff step
  refine (runs.paced_up sized).apart_of_consecutive ((up_iff (after.trans before)).mp first) after
    before ((up_iff before).mp second) ?_
  intro k later earlier moved
  exact quiet k later earlier ((up_iff (earlier.trans before)).mpr moved)

/-- Consecutive moves downwards are apart: a downward decision that moves nothing is made at the
target, and no move follows. -/
theorem down_apart (after : i < j) (before : j < ticks)
    (first : (run (i + 1)).replicas < (run i).replicas)
    (second : (run (j + 1)).replicas < (run j).replicas)
    (quiet : ∀ k, i < k → k < j → ¬ (run (k + 1)).replicas < (run k).replicas) :
    ¬ time j - time i < cfg.scaleDownCooldownS := by
  have down : ∀ {n}, n < ticks → (run (n + 1)).replicas < (run n).replicas →
      (made n).direction = .down := fun early => (runs.tempered sized early).down_of_lt step
  refine (runs.paced_down sized).apart_of_consecutive (down (after.trans before) first) after before
    (down before second) ?_
  intro k later earlier moved
  have tempered := runs.tempered sized (earlier.trans before)
  rw [moved] at tempered
  have settled : Settled cfg (targetOf cfg needs) (run k).replicas :=
    .inl (tempered.eq_of_down step (quiet k later earlier))
  have step' : 0 ≤ cfg.maxScaleStep := zero_le_one.trans step
  have until_j := runs.settled_stays sized step' settled earlier.le before.le
  have after_j := runs.settled_stays sized step' settled (earlier.le.trans j.le_succ) before
  rw [until_j, after_j] at second
  exact lt_irrefl _ second

end Moves

end IsRun

/-- The counts of a run of `ticks` ticks, in whatever arithmetic it is made. -/
structure Steady (cfg : AutoscaleConfig F) (rps : F) (time : ℕ → F) (ticks : ℕ)
    (run : ℕ → Loop F) : Prop where
  inside : ∀ n ≤ ticks, (run n).replicas ∈ Set.Icc cfg.minReplicas cfg.maxReplicas
  small : ∀ n < ticks, |(run (n + 1)).replicas - (run n).replicas| ≤ cfg.maxScaleStep
  monotone : (∀ n m, n ≤ m → m ≤ ticks → (run n).replicas ≤ (run m).replicas) ∨
    ∀ n m, n ≤ m → m ≤ ticks → (run m).replicas ≤ (run n).replicas
  up_apart : ∀ i j, i < j → j < ticks → (run i).replicas < (run (i + 1)).replicas →
    (run j).replicas < (run (j + 1)).replicas →
    (∀ k, i < k → k < j → ¬ (run k).replicas < (run (k + 1)).replicas) →
    ¬ time j - time i < cfg.scaleUpCooldownS
  down_apart : ∀ i j, i < j → j < ticks → (run (i + 1)).replicas < (run i).replicas →
    (run (j + 1)).replicas < (run j).replicas →
    (∀ k, i < k → k < j → ¬ (run (k + 1)).replicas < (run k).replicas) →
    ¬ time j - time i < cfg.scaleDownCooldownS
  settles : ∀ n < ticks, ∀ decision, plan ((run n).signal rps (time n)) cfg = some decision →
    decision.desiredReplicas = (run n).replicas → decision.blockedByCooldown = false →
    ∀ m, n ≤ m → m ≤ ticks → (run m).replicas = (run n).replicas

theorem IsRun.steady (runs : IsRun cfg rps time ticks run made)
    (sized : sizing cfg (max 0 rps) = some needs) (bounds : cfg.minReplicas ≤ cfg.maxReplicas)
    (step : 1 ≤ cfg.maxScaleStep)
    (start : (run 0).replicas ∈ Set.Icc cfg.minReplicas cfg.maxReplicas) :
    Steady cfg rps time ticks run := by
  have step' : 0 ≤ cfg.maxScaleStep := zero_le_one.trans step
  have approaches := runs.approaches sized step'
  constructor
  · intro n reached
    exact approaches.mem_Icc (targetOf_mem_Icc bounds needs) start reached
  · intro n before
    have small := (runs.tempered sized before).abs_sub_le step'
    exact small
  · exact approaches.le_or_ge
  · intro i j after before first second quiet
    exact runs.up_apart sized step after before first second quiet
  · intro i j after before first second quiet
    exact runs.down_apart sized step after before first second quiet
  · intro n before decision planned same free m later reached
    obtain rfl : made n = decision := Option.some.inj ((runs.planned n before).symm.trans planned)
    have tempered := runs.tempered sized before
    rw [runs.next n before, same, free] at tempered
    exact runs.settled_stays sized step' (tempered.settled step) later reached

/-- **No flapping in closed loop.** For every configuration with consistent bounds and a positive
step, every constant load, every start within the bounds and all tick times, for as long as the
planner returns, and in the arithmetic the code computes in: the replica counts stay within the
bounds, change by at most the step, never turn round, respect the cooldown of their direction,
and never change again once the planner returned the current count without a cooldown blocking
it. -/
theorem no_flapping (cfg : AutoscaleConfig F) (rps : F) (start : Loop F) (time : ℕ → F)
    (bounds : cfg.minReplicas ≤ cfg.maxReplicas) (step : 1 ≤ cfg.maxScaleStep)
    (inside : start.replicas ∈ Set.Icc cfg.minReplicas cfg.maxReplicas) (ticks : ℕ)
    (run : ℕ → Loop F)
    (reached : ∀ n ≤ ticks, Loop.after cfg rps start time n = some (run n)) :
    Steady cfg rps time ticks run := by
  have begins : run 0 = start := (Option.some.inj (reached 0 ticks.zero_le)).symm
  obtain ⟨made, runs⟩ := exists_isRun reached
  rcases ticks.eq_zero_or_pos with rfl | positive
  · -- nothing was planned
    have only : ∀ {n : ℕ}, n ≤ 0 → n = 0 := Nat.le_zero.mp
    constructor
    · intro n reached
      rw [only reached, begins]
      exact inside
    · exact fun n before => absurd before n.not_lt_zero
    · refine .inl fun n m before reached => ?_
      rw [only reached, only (before.trans reached)]
    · exact fun i j _ before => absurd before j.not_lt_zero
    · exact fun i j _ before => absurd before j.not_lt_zero
    · exact fun n before => absurd before n.not_lt_zero
  · obtain ⟨needs, w, sized, -⟩ := plan_spec (runs.planned 0 positive)
    exact runs.steady sized bounds step (begins ▸ inside)

end Loops

/-- A tick every 31 seconds. -/
def halfMinutes (n : ℕ) : ℚ := 31 * n

/-- Ten requests per second on one replica, in steps of one: three after two ticks, and within
the bounds for ever. -/
theorem no_flapping_ramp :
    let cfg : AutoscaleConfig := { AutoscaleConfig.defaults with maxScaleStep := 1 }
    (Loop.after cfg 10 ⟨.init, 1⟩ halfMinutes 2).map (·.replicas) = some 3 ∧
      ∃ run : ℕ → Loop, (∀ n, Loop.after cfg 10 ⟨.init, 1⟩ halfMinutes n = some (run n)) ∧
        ∀ n, 1 ≤ (run n).replicas ∧ (run n).replicas ≤ 20 := by
  intro cfg
  choose run reached using Loop.exists_after cfg 10 ⟨.init, 1⟩ halfMinutes
  refine ⟨by decide +kernel, run, reached, fun n => ?_⟩
  have steady := no_flapping cfg 10 ⟨.init, 1⟩ halfMinutes (by decide) (by decide)
    ⟨by decide, by decide⟩ n run fun m _ => reached m
  exact Set.mem_Icc.mp (steady.inside n le_rfl)

/-- In floats, fifteen replicas of rate `1.1` are more than a load of `16.5`, since `16.5 / 1.1` is
rounded down, but have no spare rate, since `15 * 1.1` is rounded to `16.5`. The planner divides
by it at the first tick. -/
theorem loop_divides_by_zero :
    let cfg : AutoscaleConfig Float :=
      { AutoscaleConfig.defaults with serviceRatePerReplicaRps := 1.1 }
    cfg.minReplicas ≤ cfg.maxReplicas ∧ 1 ≤ cfg.maxScaleStep ∧ 0 ≤ cfg.scaleDownDeadband ∧
      0 ≤ cfg.scaleUpCooldownS ∧ 0 ≤ cfg.scaleDownCooldownS ∧
      ∀ (start : Loop Float) (time : ℕ → Float), Loop.after cfg 16.5 start time 1 = none := by
  intro cfg
  refine ⟨by decide, by decide, by decide, by decide +kernel, by decide +kernel, ?_⟩
  intro start time
  have raises : sizing cfg (max 0 16.5) = none := by decide +kernel
  have unplanned : plan (start.signal 16.5 (time 0)) cfg = none := by
    change (sizing cfg (max 0 16.5)).bind _ = none
    rw [raises, Option.bind_none]
  rw [Loop.after, Loop.after, Option.bind_some, Loop.step, unplanned, Option.map_none]

end Gateway.Autoscale
