import Gateway.Autoscale.Queueing

/-!
The autoscaling controller (`gateway/autoscale/planner.py`, and its part of `scrape_loop` in
`gateway/server.py`).

As in the queueing formulas, the definitions are over any type of numbers. A time of `none` is
`float("-inf")`. The target follows from the configuration and the load alone (`sizing`,
`targetOf`); `temper` moves the current count towards it.

* `exists_plan`: in exact arithmetic the planner divides by zero nowhere, and returns a decision
  on every signal. `Tempered`, `plan_spec`: all that a decision can be, with its guards.
* `Suffices`, `targetOf_le_iff`: in any arithmetic, the counts from the target on are those that
  suffice for the load.
* `plan_labelled_iff`: when a decision keeps to the deadband and is labelled as the count moves.
-/

namespace Gateway.Autoscale

open Numeric Queueing

/-- `AutoscaleConfig`. -/
structure AutoscaleConfig (F : Type := ℚ) where
  enabled : Bool
  minReplicas : ℤ
  maxReplicas : ℤ
  serviceRatePerReplicaRps : F
  targetWaitMs : F
  targetUtilization : F
  scaleUpCooldownS : F
  scaleDownCooldownS : F
  maxScaleStep : ℤ
  scaleDownDeadband : ℤ
  deriving DecidableEq, Repr

/-- The defaults of the configuration. -/
def AutoscaleConfig.defaults {F : Type} [OfScientific F] : AutoscaleConfig F where
  enabled := false
  minReplicas := 1
  maxReplicas := 20
  serviceRatePerReplicaRps := 5.0
  targetWaitMs := 100.0
  targetUtilization := 0.70
  scaleUpCooldownS := 30.0
  scaleDownCooldownS := 300.0
  maxScaleStep := 4
  scaleDownDeadband := 1

/-- `ScalingSignal`. -/
structure ScalingSignal (F : Type := ℚ) where
  offeredRps : F
  currentReplicas : ℤ
  nowS : F
  lastScaleUpS : Option F := none
  lastScaleDownS : Option F := none
  deriving DecidableEq, Repr

inductive Direction where
  | up
  | down
  | hold
  deriving DecidableEq, Repr

/-- `ScalingDecision`. -/
structure ScalingDecision (F : Type := ℚ) where
  currentReplicas : ℤ
  desiredReplicas : ℤ
  direction : Direction
  reason : String
  sloReplicas : ℤ
  utilReplicas : ℤ
  estWaitMs : WithTop F
  blockedByCooldown : Bool

section Definitions

variable {F : Type} [OfNat F 0] [OfNat F 1] [OfScientific F] [Add F] [Sub F] [Mul F] [Div F]
  [Max F] [LT F] [DecidableLT F] [LE F] [DecidableLE F] [Numeric F]

/-- `_util_replicas`. -/
def utilReplicas (lam mu targetUtil : F) : Option ℤ :=
  if lam ≤ 0 ∨ mu ≤ 0 then some 0
  else if targetUtil ≤ 0 then some 1
  else do
    let a ← divide lam mu
    let n ← divide a targetUtil
    ceil n

/-- The two requirements: `slo_n` and `util_n`. -/
def sizing (cfg : AutoscaleConfig F) (lam : F) : Option (ℤ × ℤ) := do
  let sloN ← minReplicasForWaitSlo lam cfg.serviceRatePerReplicaRps (cfg.targetWaitMs / 1000.0)
    cfg.maxReplicas
  let utilN ← utilReplicas lam cfg.serviceRatePerReplicaRps cfg.targetUtilization
  some (sloN, utilN)

/-- `target`, clamped. -/
def targetOf (cfg : AutoscaleConfig F) (needs : ℤ × ℤ) : ℤ :=
  max cfg.minReplicas (min cfg.maxReplicas (max needs.1 needs.2))

/-- `now - last < cooldown`. -/
def coolingDown (now : F) (last : Option F) (cooldown : F) : Bool :=
  last.any fun t => now - t < cooldown

/-- The decision on a target, before the wait is estimated: `direction`, `desired`, `reason`
and `blocked`. -/
def temper (signal : ScalingSignal F) (cfg : AutoscaleConfig F) (needs : ℤ × ℤ) :
    Direction × ℤ × String × Bool :=
  let (sloN, utilN) := needs
  let target := targetOf cfg needs
  let cur := signal.currentReplicas
  if target > cur then
    if coolingDown signal.nowS signal.lastScaleUpS cfg.scaleUpCooldownS then
      (.hold, cur, s!"scale-up to {target} suppressed by up-cooldown", true)
    else
      (.up, min target (cur + cfg.maxScaleStep),
        s!"latency needs {sloN}, utilization needs {utilN} -> target {target}", false)
  else if target ≤ cur - cfg.scaleDownDeadband then
    if coolingDown signal.nowS signal.lastScaleDownS cfg.scaleDownCooldownS then
      (.hold, cur, s!"scale-down to {target} suppressed by down-cooldown", true)
    else
      (.down, max target (cur - cfg.maxScaleStep),
        s!"load fits in {target} (deadband {cfg.scaleDownDeadband})", false)
  else (.hold, cur, "within deadband of current", false)

/-- `plan`. -/
def plan (signal : ScalingSignal F) (cfg : AutoscaleConfig F) : Option (ScalingDecision F) := do
  let mu := cfg.serviceRatePerReplicaRps
  let lam := max 0 signal.offeredRps
  let needs ← sizing cfg lam
  let (direction, desired, reason, blocked) := temper signal cfg needs
  let wait ← expectedWaitS desired lam mu
  some
    { currentReplicas := signal.currentReplicas
      desiredReplicas := desired
      direction := direction
      reason := reason
      sloReplicas := needs.1
      utilReplicas := needs.2
      estWaitMs := wait.map (· * 1000.0)
      blockedByCooldown := blocked }

end Definitions

/-! ### The scrape loop -/

/-- The `_autoscale_*` globals of the server. -/
structure Autoscaler (F : Type := ℚ) where
  requestCount : ℕ
  lastSnapshot : F × ℕ
  lastDecision : Option (ScalingDecision F)
  lastScaleUp : Option F
  lastScaleDown : Option F

namespace Autoscaler

variable {F : Type} [OfNat F 0] [OfNat F 1] [OfScientific F] [Add F] [Sub F] [Mul F] [Div F]
  [Max F] [LT F] [DecidableLT F] [LE F] [DecidableLE F] [Numeric F]

/-- The globals before the first scrape. -/
def init : Autoscaler F where
  requestCount := 0
  lastSnapshot := (0, 0)
  lastDecision := none
  lastScaleUp := none
  lastScaleDown := none

/-- The requests per second since the last snapshot. -/
def observedRps (s : Autoscaler F) (now : F) : Option F :=
  let (prevT, prevC) := s.lastSnapshot
  let elapsed := if prevT > 0 then now - prevT else 0
  if elapsed > 0.5 then do
    let arrived ← ofInt (s.requestCount - prevC)
    divide arrived elapsed
  else some 0

def signal (s : Autoscaler F) (rps : F) (replicas : ℤ) (now : F) : ScalingSignal F where
  offeredRps := rps
  currentReplicas := replicas
  nowS := now
  lastScaleUpS := s.lastScaleUp
  lastScaleDownS := s.lastScaleDown

/-- What the loop keeps of a decision. -/
def note (s : Autoscaler F) (decision : ScalingDecision F) (now : F) : Autoscaler F :=
  { s with
    lastDecision := some decision
    lastScaleUp := if decision.direction = .up then some now else s.lastScaleUp
    lastScaleDown := if decision.direction = .down then some now else s.lastScaleDown }

/-- The planner's part of one round of `scrape_loop`, with `healthy` backends. -/
def tick (cfg : AutoscaleConfig F) (s : Autoscaler F) (healthy : ℕ) (now : F) :
    Option (Autoscaler F) :=
  if cfg.enabled then do
    let rps ← s.observedRps now
    let s := { s with lastSnapshot := (now, s.requestCount) }
    let decision ← plan (s.signal rps (max 1 healthy) now) cfg
    some (s.note decision now)
  else some s

end Autoscaler

/-! ### Decisions exist -/

theorem exists_utilReplicas (lam mu targetUtil : ℚ) :
    ∃ n, utilReplicas lam mu targetUtil = some n := by
  unfold utilReplicas
  split
  · exact ⟨_, rfl⟩
  split
  · exact ⟨_, rfl⟩
  · rename_i positive some_util
    have rate : mu ≠ 0 := by
      rintro rfl
      exact positive (.inr le_rfl)
    have util : targetUtil ≠ 0 := by
      rintro rfl
      exact some_util le_rfl
    rw [divide_eq rate]
    simp [divide_eq util]

theorem exists_minReplicas (lam mu sloS : ℚ) (maxReplicas : ℤ) :
    ∃ n, minReplicasForWaitSlo lam mu sloS maxReplicas = some n := by
  by_cases idle : lam ≤ 0 ∨ mu ≤ 0
  · exact ⟨0, if_pos idle⟩
  · obtain ⟨arriving, rate⟩ := not_or.mp idle
    obtain ⟨r, found, -⟩ := minReplicasForWaitSlo_spec (not_le.mp arriving) (not_le.mp rate) sloS
      maxReplicas
    exact ⟨r, found⟩

theorem exists_expectedWait (c : ℤ) (lam mu : ℚ) : ∃ w, expectedWaitS c lam mu = some w := by
  by_cases idle : mu ≤ 0 ∨ lam ≤ 0
  · exact ⟨0, if_pos idle⟩
  · obtain ⟨rate, arriving⟩ := not_or.mp idle
    exact ⟨_, expectedWaitS_eq (not_le.mp arriving) (not_le.mp rate) c⟩

theorem exists_sizing (cfg : AutoscaleConfig) (lam : ℚ) : ∃ needs, sizing cfg lam = some needs := by
  obtain ⟨sloN, slo⟩ := exists_minReplicas lam cfg.serviceRatePerReplicaRps
    (cfg.targetWaitMs / 1000.0) cfg.maxReplicas
  obtain ⟨utilN, util⟩ := exists_utilReplicas lam cfg.serviceRatePerReplicaRps cfg.targetUtilization
  refine ⟨(sloN, utilN), ?_⟩
  unfold sizing
  rw [slo, util]
  rfl

/-- **In exact arithmetic the planner decides** on every signal. -/
theorem exists_plan (signal : ScalingSignal) (cfg : AutoscaleConfig) :
    ∃ decision, plan signal cfg = some decision := by
  obtain ⟨needs, sized⟩ := exists_sizing cfg (max 0 signal.offeredRps)
  obtain ⟨w, waits⟩ := exists_expectedWait (temper signal cfg needs).2.1 (max 0 signal.offeredRps)
    cfg.serviceRatePerReplicaRps
  unfold plan
  dsimp only
  rw [sized, Option.bind_eq_bind, Option.bind_some, waits]
  exact ⟨_, rfl⟩

/-! ### What a decision can be -/

section Decisions

variable {F : Type} [Sub F] [LT F] [DecidableLT F]

/-- The ways to move the current count towards a target. -/
inductive Tempered (signal : ScalingSignal F) (cfg : AutoscaleConfig F) (target : ℤ) :
    Direction → ℤ → Bool → Prop where
  | up : signal.currentReplicas < target →
      coolingDown signal.nowS signal.lastScaleUpS cfg.scaleUpCooldownS = false →
      Tempered signal cfg target .up (min target (signal.currentReplicas + cfg.maxScaleStep)) false
  | upLater : signal.currentReplicas < target →
      coolingDown signal.nowS signal.lastScaleUpS cfg.scaleUpCooldownS = true →
      Tempered signal cfg target .hold signal.currentReplicas true
  | down : target ≤ signal.currentReplicas →
      target ≤ signal.currentReplicas - cfg.scaleDownDeadband →
      coolingDown signal.nowS signal.lastScaleDownS cfg.scaleDownCooldownS = false →
      Tempered signal cfg target .down (max target (signal.currentReplicas - cfg.maxScaleStep))
        false
  | downLater : target ≤ signal.currentReplicas →
      target ≤ signal.currentReplicas - cfg.scaleDownDeadband →
      coolingDown signal.nowS signal.lastScaleDownS cfg.scaleDownCooldownS = true →
      Tempered signal cfg target .hold signal.currentReplicas true
  | stay : target ≤ signal.currentReplicas →
      signal.currentReplicas - cfg.scaleDownDeadband < target →
      Tempered signal cfg target .hold signal.currentReplicas false

theorem temper_tempered (signal : ScalingSignal F) (cfg : AutoscaleConfig F) (needs : ℤ × ℤ) :
    Tempered signal cfg (targetOf cfg needs) (temper signal cfg needs).1
      (temper signal cfg needs).2.1 (temper signal cfg needs).2.2.2 := by
  unfold temper
  dsimp only
  split
  · rename_i short
    split
    · rename_i cooling
      exact .upLater short cooling
    · rename_i ready
      exact .up short (Bool.not_eq_true _ ▸ ready)
  · rename_i enough
    have enough := not_lt.mp enough
    split
    · rename_i beyond
      split
      · rename_i cooling
        exact .downLater enough beyond cooling
      · rename_i ready
        exact .down enough beyond (Bool.not_eq_true _ ▸ ready)
    · rename_i within
      exact .stay enough (not_le.mp within)

/-- **The decisions of the planner**: what it moves towards, and the wait it estimates. -/
theorem plan_spec [OfNat F 0] [OfNat F 1] [OfScientific F] [Add F] [Mul F] [Div F] [Max F] [LE F]
    [DecidableLE F] [Numeric F] {signal : ScalingSignal F} {cfg : AutoscaleConfig F}
    {decision : ScalingDecision F} (planned : plan signal cfg = some decision) :
    ∃ needs w, sizing cfg (max 0 signal.offeredRps) = some needs ∧
      Tempered signal cfg (targetOf cfg needs) decision.direction decision.desiredReplicas
        decision.blockedByCooldown ∧
      expectedWaitS decision.desiredReplicas (max 0 signal.offeredRps)
        cfg.serviceRatePerReplicaRps = some w ∧
      decision.estWaitMs = w.map (· * 1000.0) := by
  obtain ⟨needs, sized, rest⟩ := Option.bind_eq_some_iff.mp planned
  obtain ⟨w, waits, made⟩ := Option.bind_eq_some_iff.mp rest
  obtain rfl := Option.some.inj made
  exact ⟨needs, w, sized, temper_tempered signal cfg needs, waits, rfl⟩

end Decisions

/-! ### The target -/

theorem targetOf_mem_Icc {F : Type} {cfg : AutoscaleConfig F}
    (bounds : cfg.minReplicas ≤ cfg.maxReplicas) (needs : ℤ × ℤ) :
    targetOf cfg needs ∈ Set.Icc cfg.minReplicas cfg.maxReplicas :=
  ⟨le_max_left _ _, max_le bounds (min_le_left _ _)⟩

/-- **In exact arithmetic the target keeps the SLO**: the utilisation requirement and the bounds
only raise what the search returned, unless that was the maximum. -/
theorem target_meets_slo {cfg : AutoscaleConfig} {needs : ℤ × ℤ} {lam : ℚ} (arriving : 0 < lam)
    (rate : 0 < cfg.serviceRatePerReplicaRps) (sized : sizing cfg lam = some needs)
    (below : needs.1 < cfg.maxReplicas) :
    MeetsSlo lam cfg.serviceRatePerReplicaRps (cfg.targetWaitMs / 1000.0) (targetOf cfg needs) := by
  obtain ⟨sloN, found, rest⟩ := Option.bind_eq_some_iff.mp sized
  obtain ⟨utilN, -, pair⟩ := Option.bind_eq_some_iff.mp rest
  obtain rfl := Option.some.inj pair
  apply meetsSlo_of_le arriving rate found below
  exact le_max_of_le_right (le_min below.le (le_max_left _ _))

section Targets

variable {F : Type} [OfNat F 0] [OfNat F 1] [OfScientific F] [Add F] [Sub F] [Mul F] [Div F]
  [LE F] [DecidableLE F] [Numeric F] {cfg : AutoscaleConfig F} {lam : F} {needs : ℤ × ℤ}

/-- No load, or no rate of service. -/
def Idle (cfg : AutoscaleConfig F) (lam : F) : Prop := lam ≤ 0 ∨ cfg.serviceRatePerReplicaRps ≤ 0

/-- `n` replicas are more than the load, `lam / mu`, as it is computed. -/
def Stable (cfg : AutoscaleConfig F) (lam : F) (n : ℤ) : Prop :=
  ∀ a, divide lam cfg.serviceRatePerReplicaRps = some a → intLe n a = false

/-- Up to `n` replicas, some stable count is found to keep the wait SLO. -/
def KeepsWait (cfg : AutoscaleConfig F) (lam : F) (n : ℤ) : Prop :=
  ∃ m, 1 ≤ m ∧ m ≤ n ∧ Stable cfg lam m ∧
    Within lam cfg.serviceRatePerReplicaRps (cfg.targetWaitMs / 1000.0) m

/-- `n` replicas keep the utilisation: `lam / mu / target_utilization` is at most `n`. -/
def KeepsUtilization (cfg : AutoscaleConfig F) (lam : F) (n : ℤ) : Prop :=
  if cfg.targetUtilization ≤ 0 then 1 ≤ n
  else ∀ a x q, divide lam cfg.serviceRatePerReplicaRps = some a →
    divide a cfg.targetUtilization = some x → value x = some q → q ≤ n

/-- `n` replicas suffice for the load `lam`: they are not below the minimum, and at the maximum
or enough for both requirements. -/
def Suffices (cfg : AutoscaleConfig F) (lam : F) (n : ℤ) : Prop :=
  cfg.minReplicas ≤ n ∧
    (cfg.maxReplicas ≤ n ∨ Idle cfg lam ∧ 0 ≤ n ∨
      ¬ Idle cfg lam ∧ KeepsWait cfg lam n ∧ KeepsUtilization cfg lam n)

omit [OfNat F 1] [OfScientific F] [Add F] [Sub F] [Mul F] in
theorem utilReplicas_le_iff {util : ℤ} (busy : ¬ Idle cfg lam)
    (found : utilReplicas lam cfg.serviceRatePerReplicaRps cfg.targetUtilization = some util)
    (n : ℤ) : util ≤ n ↔ KeepsUtilization cfg lam n := by
  unfold utilReplicas at found
  unfold KeepsUtilization
  unfold Idle at busy
  rw [if_neg busy] at found
  split at found
  · rename_i unused
    obtain rfl := Option.some.inj found
    rw [if_pos unused]
  · rename_i used
    obtain ⟨a, load, found⟩ := Option.bind_eq_some_iff.mp found
    obtain ⟨x, share, found⟩ := Option.bind_eq_some_iff.mp found
    rw [if_neg used, ceil_le_iff found]
    constructor
    · intro least a' x' q load' share' stands
      obtain rfl := Option.some.inj (load.symm.trans load')
      obtain rfl := Option.some.inj (share.symm.trans share')
      exact least q stands
    · exact fun keeps q stands => keeps a x q load share stands

theorem minReplicas_le_iff {slo : ℤ} (busy : ¬ Idle cfg lam)
    (found : minReplicasForWaitSlo lam cfg.serviceRatePerReplicaRps (cfg.targetWaitMs / 1000.0)
      cfg.maxReplicas = some slo) {n : ℤ} (below : n < cfg.maxReplicas) :
    slo ≤ n ↔ KeepsWait cfg lam n := by
  rw [minReplicasForWaitSlo_le_iff busy found]
  constructor
  · rintro (all | ⟨m, one, upto, -, rest⟩)
    · exact absurd below all.not_gt
    · exact ⟨m, one, upto, rest⟩
  · rintro ⟨m, one, upto, rest⟩
    exact .inr ⟨m, one, upto, upto.trans_lt below, rest⟩

/-- **From the target on, the counts suffice**, and below it none does. -/
theorem targetOf_le_iff (sized : sizing cfg lam = some needs) (n : ℤ) :
    targetOf cfg needs ≤ n ↔ Suffices cfg lam n := by
  obtain ⟨slo, slo_found, rest⟩ := Option.bind_eq_some_iff.mp sized
  obtain ⟨util, util_found, pair⟩ := Option.bind_eq_some_iff.mp rest
  obtain rfl := Option.some.inj pair
  rw [targetOf, Suffices, max_le_iff, min_le_iff]
  refine and_congr_right fun _ => ?_
  by_cases most : cfg.maxReplicas ≤ n
  · exact iff_of_true (.inl most) (.inl most)
  refine or_congr_right ?_
  rw [max_le_iff]
  by_cases idle : Idle cfg lam
  · have none_needed : slo = 0 ∧ util = 0 := by
      unfold minReplicasForWaitSlo at slo_found
      unfold utilReplicas at util_found
      have zero := idle
      unfold Idle at zero
      rw [if_pos zero] at slo_found util_found
      exact ⟨(Option.some.inj slo_found).symm, (Option.some.inj util_found).symm⟩
    rw [none_needed.1, none_needed.2]
    simp [idle]
  · rw [minReplicas_le_iff idle slo_found (not_le.mp most), utilReplicas_le_iff idle util_found]
    simp [idle]

end Targets

/-! ### The deadband and the labels -/

/-- The fleet shrinks only for a drop beyond the deadband, and the direction is the way the
count moves. -/
structure Labelled {F : Type} (signal : ScalingSignal F) (cfg : AutoscaleConfig F) (target : ℤ)
    (direction : Direction) (desired : ℤ) : Prop where
  beyond : direction = .down → cfg.scaleDownDeadband < signal.currentReplicas - target
  up : direction = .up ↔ signal.currentReplicas < desired
  down : direction = .down ↔ desired < signal.currentReplicas
  hold : direction = .hold ↔ desired = signal.currentReplicas

/-- A count that rests, under a hold. -/
theorem Labelled.of_hold {F : Type} {signal : ScalingSignal F} {cfg : AutoscaleConfig F}
    (target : ℤ) : Labelled signal cfg target .hold signal.currentReplicas where
  beyond := nofun
  up := ⟨nofun, fun grows => absurd grows (lt_irrefl _)⟩
  down := ⟨nofun, fun shrinks => absurd shrinks (lt_irrefl _)⟩
  hold := iff_of_true rfl rfl

section Labels

variable {F : Type} [OfNat F 0] [OfNat F 1] [OfScientific F] [Add F] [Sub F] [Mul F] [Div F]
  [Max F] [LT F] [DecidableLT F] [LE F] [DecidableLE F] [Numeric F]
  {signal : ScalingSignal F} {cfg : AutoscaleConfig F}

/-- The signal asks for no move at the edge of the deadband, none of size zero, and none with a
step limit that allows no move. A fleet that may grow because it does not suffice can take a
step; and one that may shrink, as it suffices without the replicas of the deadband, can take a
step too, and suffices without one more than these. -/
structure OffTheEdge (signal : ScalingSignal F) (cfg : AutoscaleConfig F) : Prop where
  up : ¬ Suffices cfg (max 0 signal.offeredRps) signal.currentReplicas →
    coolingDown signal.nowS signal.lastScaleUpS cfg.scaleUpCooldownS = false →
    1 ≤ cfg.maxScaleStep
  down : Suffices cfg (max 0 signal.offeredRps) signal.currentReplicas →
    Suffices cfg (max 0 signal.offeredRps) (signal.currentReplicas - cfg.scaleDownDeadband) →
    coolingDown signal.nowS signal.lastScaleDownS cfg.scaleDownCooldownS = false →
    Suffices cfg (max 0 signal.offeredRps) (signal.currentReplicas - cfg.scaleDownDeadband - 1) ∧
      Suffices cfg (max 0 signal.offeredRps) (signal.currentReplicas - 1) ∧ 1 ≤ cfg.maxScaleStep

theorem Tempered.labelled_iff {needs : ℤ × ℤ} {desired : ℤ} {direction : Direction}
    {blocked : Bool} (sized : sizing cfg (max 0 signal.offeredRps) = some needs)
    (tempered : Tempered signal cfg (targetOf cfg needs) direction desired blocked) :
    Labelled signal cfg (targetOf cfg needs) direction desired ↔ OffTheEdge signal cfg := by
  have suffices_iff := targetOf_le_iff sized
  generalize targetOf cfg needs = target at tempered suffices_iff
  cases tempered with
  | up short ready =>
      have lacking := mt (suffices_iff signal.currentReplicas).mpr short.not_ge
      constructor
      · intro labelled
        have grows := labelled.up.mp rfl
        exact ⟨fun _ _ => by omega, fun enough => absurd enough lacking⟩
      · intro off
        have step := off.up lacking ready
        exact ⟨nofun, iff_of_true rfl (by omega), ⟨nofun, by omega⟩, ⟨nofun, by omega⟩⟩
  | down enough beyond ready =>
      have spare := (suffices_iff signal.currentReplicas).mp enough
      constructor
      · intro labelled
        have far := labelled.beyond rfl
        have shrinks := labelled.down.mp rfl
        exact ⟨fun lacking => absurd spare lacking, fun _ _ _ =>
          ⟨(suffices_iff _).mp (by omega), (suffices_iff _).mp (by omega), by omega⟩⟩
      · intro off
        obtain ⟨edge, moved, step⟩ := off.down spare ((suffices_iff _).mp beyond) ready
        have edge := (suffices_iff _).mpr edge
        have moved := (suffices_iff _).mpr moved
        exact ⟨fun _ => by omega, ⟨nofun, by omega⟩, iff_of_true rfl (by omega),
          ⟨nofun, by omega⟩⟩
  | upLater short cooling =>
      have lacking := mt (suffices_iff signal.currentReplicas).mpr short.not_ge
      refine iff_of_true (Labelled.of_hold target) ⟨fun _ ready => ?_, fun enough => ?_⟩
      · rw [cooling] at ready
        cases ready
      · exact absurd enough lacking
  | downLater enough beyond cooling =>
      have spare := (suffices_iff signal.currentReplicas).mp enough
      refine iff_of_true (Labelled.of_hold target) ⟨fun lacking => ?_, fun _ _ ready => ?_⟩
      · exact absurd spare lacking
      · rw [cooling] at ready
        cases ready
  | stay enough within =>
      have spare := (suffices_iff signal.currentReplicas).mp enough
      refine iff_of_true (Labelled.of_hold target) ⟨fun lacking => ?_, fun _ beyond => ?_⟩
      · exact absurd spare lacking
      · exact absurd ((suffices_iff _).mpr beyond) within.not_ge

/-- **The deadband**, in the arithmetic the code computes in. On every signal and configuration
on which the planner returns, the decision keeps to the deadband and is labelled as the count
moves precisely when the signal is off the edge. -/
theorem plan_labelled_iff (signal : ScalingSignal F) (cfg : AutoscaleConfig F)
    (decision : ScalingDecision F) (planned : plan signal cfg = some decision) :
    ∃ needs, sizing cfg (max 0 signal.offeredRps) = some needs ∧
      (Labelled signal cfg (targetOf cfg needs) decision.direction decision.desiredReplicas ↔
        OffTheEdge signal cfg) := by
  obtain ⟨needs, w, sized, tempered, -⟩ := plan_spec planned
  exact ⟨needs, sized, tempered.labelled_iff sized⟩

end Labels

/-- The decision on a signal that can be evaluated. -/
theorem exists_decision {F : Type} [OfNat F 0] [OfNat F 1] [OfScientific F] [Add F] [Sub F]
    [Mul F] [Div F] [Max F] [LT F] [DecidableLT F] [LE F] [DecidableLE F] [Numeric F]
    {signal : ScalingSignal F} {cfg : AutoscaleConfig F} {direction : Direction} {desired : ℤ}
    (evaluated : (plan signal cfg).map (fun d => (d.direction, d.desiredReplicas)) =
      some (direction, desired)) :
    ∃ decision, plan signal cfg = some decision ∧ decision.direction = direction ∧
      decision.desiredReplicas = desired := by
  obtain ⟨decision, planned, same⟩ := Option.map_eq_some_iff.mp evaluated
  exact ⟨decision, planned, congrArg Prod.fst same, congrArg Prod.snd same⟩

/-- In floats, 21 requests per second need seven replicas: `21 / 5 / 0.7` is rounded to more than
six. Nine are told to become seven, as they should, and eight to become seven, by exactly the
deadband. -/
theorem plan_labelled_edge :
    let busy (replicas : ℤ) : ScalingSignal Float :=
      { offeredRps := 21, currentReplicas := replicas, nowS := 0 }
    OffTheEdge (busy 9) .defaults ∧ ¬ OffTheEdge (busy 8) .defaults := by
  intro busy
  have sized : sizing .defaults (max 0 (21 : Float)) = some (6, 7) := by decide +kernel
  constructor
  · have evaluated : (plan (busy 9) .defaults).map (fun d => (d.direction, d.desiredReplicas)) =
        some (.down, 7) := by decide +kernel
    obtain ⟨decision, planned, down, seven⟩ := exists_decision evaluated
    obtain ⟨needs, sized', off_iff⟩ := plan_labelled_iff (busy 9) .defaults decision planned
    obtain rfl := Option.some.inj (sized.symm.trans sized')
    rw [← off_iff, down, seven]
    exact ⟨by decide, by decide, by decide, by decide⟩
  · have evaluated : (plan (busy 8) .defaults).map (fun d => (d.direction, d.desiredReplicas)) =
        some (.down, 7) := by decide +kernel
    obtain ⟨decision, planned, down, -⟩ := exists_decision evaluated
    obtain ⟨needs, sized', off_iff⟩ := plan_labelled_iff (busy 8) .defaults decision planned
    obtain rfl := Option.some.inj (sized.symm.trans sized')
    rw [← off_iff]
    intro labelled
    exact absurd (labelled.beyond down) (by decide)

/-- Ten requests per second need three replicas; the default deadband of one does not keep the
fourth. -/
theorem plan_shrinks_by_deadband :
    let signal : ScalingSignal Float := { offeredRps := 10, currentReplicas := 4, nowS := 0 }
    ∃ needs decision, sizing .defaults (max 0 signal.offeredRps) = some needs ∧
      targetOf (.defaults : AutoscaleConfig Float) needs = 3 ∧
      plan signal .defaults = some decision ∧
      decision.direction = .down ∧ decision.desiredReplicas = 3 ∧
      ¬ Labelled signal .defaults 3 decision.direction decision.desiredReplicas := by
  intro signal
  have sized : sizing .defaults (max 0 (10 : Float)) = some (3, 3) := by decide +kernel
  have evaluated : (plan signal .defaults).map (fun d => (d.direction, d.desiredReplicas)) =
      some (.down, 3) := by decide +kernel
  obtain ⟨decision, planned, down, three⟩ := exists_decision evaluated
  refine ⟨(3, 3), decision, sized, rfl, planned, down, three, fun labelled => ?_⟩
  exact absurd (labelled.beyond down) (by decide)

end Gateway.Autoscale
