import Gateway.Lib.Json
import Gateway.Lib.Machine
import Gateway.Autoscale.Planner

/-!
The autoscale endpoint (`autoscale_endpoint` in `gateway/server.py`).

The server counts requests, `scrape_loop` plans, and the endpoint reports the last decision. The
wait it reports is infinite at a count that is not above the stability floor, and such a float
has no JSON text. The planner asks for stable counts; the step limit, the cooldowns and the
bounds are applied afterwards. Where the planner raises, the task of the loop ends and the last
decision stays.

* `Tempered.stable_iff`: when the count that is asked for is stable, from the signal alone.
* `autoscaleEndpoint_answers`: in every run, the endpoint always answers if a stable count was
  within reach of every planned signal, and only then. Floats can also be too large to report;
  exact numbers cannot (`ranged_rat`).
-/

namespace Gateway.Autoscale

open Numeric Queueing Machine

/-! ### The endpoint -/

/-- `round(x, 2)`: to the nearest hundredth, ties to the even one. -/
def round2 (x : ℚ) : ℚ :=
  let low := ⌊x * 100⌋
  let rest := x * 100 - low
  let up := 1 / 2 < rest ∨ rest = 1 / 2 ∧ low % 2 = 1
  (if up then low + 1 else low) / 100

/-- A response with a JSON document. -/
structure JsonResponse where
  content : Json ℚ
  statusCode : ℕ

/-- `JSONResponse`: a document with a float that is not finite is refused. -/
def jsonResponse (content : Json (Option ℚ)) (statusCode : ℕ := 200) : Option JsonResponse :=
  (content.mapFloats id).map fun content => ⟨content, statusCode⟩

def Direction.text : Direction → String
  | .up => "up"
  | .down => "down"
  | .hold => "hold"

section Definitions

variable {F : Type} [Numeric F]

/-- What a wait stands for, rounded; an infinite one stands for no number. -/
def roundedWait : WithTop F → Option ℚ
  | ⊤ => none
  | .some w => (value w).map round2

/-- The document about a decision. -/
def ScalingDecision.report (d : ScalingDecision F) : Json (Option ℚ) :=
  .obj
    [("enabled", .bool true),
      ("current_replicas", .int d.currentReplicas),
      ("desired_replicas", .int d.desiredReplicas),
      ("direction", .str d.direction.text),
      ("reason", .str d.reason),
      ("est_wait_ms", .float (roundedWait d.estWaitMs)),
      ("blocked_by_cooldown", .bool d.blockedByCooldown)]

/-- `autoscale_endpoint`. -/
def autoscaleEndpoint (cfg : AutoscaleConfig F) (s : Autoscaler F) : Option JsonResponse :=
  if cfg.enabled then
    match s.lastDecision with
    | none => jsonResponse (.obj [("enabled", .bool true), ("status", .str "warming_up")])
    | some d => jsonResponse d.report
  else jsonResponse (.obj [("enabled", .bool false)])

/-- The endpoint returns a document. -/
def Answers (cfg : AutoscaleConfig F) (s : Autoscaler F) : Prop :=
  ∃ r, autoscaleEndpoint cfg s = some r

end Definitions

/-! ### The server -/

/-- What the server does between two answers: it counts a request, or plans for a number of
healthy backends. -/
inductive Action (F : Type := ℚ) where
  | request
  | scrape (healthy : ℕ) (now : F)

/-- The globals of the autoscaler, and whether the task of `scrape_loop` still runs. -/
structure Scraped (F : Type := ℚ) where
  scaler : Autoscaler F
  scraping : Bool

section Server

variable {F : Type} [OfNat F 0] [OfNat F 1] [OfScientific F] [Add F] [Sub F] [Mul F] [Div F]
  [Max F] [LT F] [DecidableLT F] [LE F] [DecidableLE F] [Numeric F]

namespace Scraped

/-- The server before the first scrape. -/
def init : Scraped F := ⟨.init, true⟩

/-- An action. An exception of the planner ends the task of the loop. -/
def step (cfg : AutoscaleConfig F) (s : Scraped F) : Action F → Scraped F
  | .request => { s with scaler := { s.scaler with requestCount := s.scaler.requestCount + 1 } }
  | .scrape healthy now =>
      if s.scraping then
        match s.scaler.tick cfg healthy now with
        | some scaler => { s with scaler := scaler }
        | none => { s with scraping := false }
      else s

/-- The server after some actions. -/
def after (cfg : AutoscaleConfig F) (as : List (Action F)) : Scraped F := as.foldl (step cfg) init

end Scraped

/-- The signal that a scrape plans for, with the load it observed. -/
def Autoscaler.scraped (s : Autoscaler F) (healthy : ℕ) (now rps : F) : ScalingSignal F :=
  s.signal rps (max 1 healthy) now

/-- A stable count is within reach of the current one. Where the fleet is to grow, a single step
and the bounds are enough; where it is to shrink, the bounds or the step limit stop it above the
floor; and where a cooldown or the deadband keeps it, it is stable itself. -/
structure WithinReach (signal : ScalingSignal F) (cfg : AutoscaleConfig F) : Prop where
  grow : ¬ Suffices cfg (max 0 signal.offeredRps) signal.currentReplicas →
    coolingDown signal.nowS signal.lastScaleUpS cfg.scaleUpCooldownS = false →
    Stable cfg (max 0 signal.offeredRps) (max cfg.minReplicas cfg.maxReplicas) ∧
      Stable cfg (max 0 signal.offeredRps) (signal.currentReplicas + cfg.maxScaleStep)
  shrink : Suffices cfg (max 0 signal.offeredRps) signal.currentReplicas →
    Suffices cfg (max 0 signal.offeredRps) (signal.currentReplicas - cfg.scaleDownDeadband) →
    coolingDown signal.nowS signal.lastScaleDownS cfg.scaleDownCooldownS = false →
    Stable cfg (max 0 signal.offeredRps) (max cfg.minReplicas cfg.maxReplicas) ∨
      Stable cfg (max 0 signal.offeredRps) (signal.currentReplicas - cfg.maxScaleStep)
  lack : ¬ Suffices cfg (max 0 signal.offeredRps) signal.currentReplicas →
    coolingDown signal.nowS signal.lastScaleUpS cfg.scaleUpCooldownS = true →
    Stable cfg (max 0 signal.offeredRps) signal.currentReplicas
  rest : Suffices cfg (max 0 signal.offeredRps) signal.currentReplicas →
    ¬ (Suffices cfg (max 0 signal.offeredRps) (signal.currentReplicas - cfg.scaleDownDeadband) ∧
      coolingDown signal.nowS signal.lastScaleDownS cfg.scaleDownCooldownS = false) →
    Stable cfg (max 0 signal.offeredRps) signal.currentReplicas

/-- A signal without load, or with a stable count within reach; or the requirements of the load
cannot be computed. -/
def Coped (signal : ScalingSignal F) (cfg : AutoscaleConfig F) : Prop :=
  ¬ Idle cfg (max 0 signal.offeredRps) → sizing cfg (max 0 signal.offeredRps) ≠ none →
    WithinReach signal cfg

/-- No number of replicas has a wait under the load that is beyond the range of the numbers. -/
def Ranged (signal : ScalingSignal F) (cfg : AutoscaleConfig F) : Prop :=
  ∀ (n : ℤ) (w : F), expectedWaitS n (max 0 signal.offeredRps) cfg.serviceRatePerReplicaRps =
    some w → (value (w * 1000.0)).isSome = true

/-- A condition on the signals that are planned for. -/
def Action.Planned (cfg : AutoscaleConfig F) (ok : ScalingSignal F → AutoscaleConfig F → Prop)
    (s : Scraped F) : Action F → Prop
  | .request => True
  | .scrape healthy now => cfg.enabled = true → s.scraping = true →
      ∀ rps, s.scaler.observedRps now = some rps → ok (s.scaler.scraped healthy now rps) cfg

end Server

/-! ### Stable decisions -/

section Loads

variable {F : Type} [Div F] [Numeric F] {cfg : AutoscaleConfig F} {lam : F} {n m : ℤ}

theorem Stable.mono (stable : Stable cfg lam n) (more : n ≤ m) : Stable cfg lam m := by
  intro a load
  have above := stable a load
  unfold intLe at above ⊢
  cases stands : value a with
  | none =>
      rw [stands] at above
      exact above
  | some q =>
      rw [stands] at above
      simp only [Option.elim_some, decide_eq_false_iff_not, not_le] at above ⊢
      exact above.trans_le (Int.cast_le.mpr more)

theorem stable_min_iff : Stable cfg lam (min n m) ↔ Stable cfg lam n ∧ Stable cfg lam m := by
  constructor
  · exact fun both => ⟨both.mono (min_le_left n m), both.mono (min_le_right n m)⟩
  · rintro ⟨first, second⟩
    rcases min_choice n m with same | same <;> rwa [same]

theorem stable_max_iff : Stable cfg lam (max n m) ↔ Stable cfg lam n ∨ Stable cfg lam m := by
  constructor
  · intro larger
    rcases max_choice n m with same | same
    · exact .inl (same ▸ larger)
    · exact .inr (same ▸ larger)
  · rintro (first | second)
    · exact first.mono (le_max_left n m)
    · exact second.mono (le_max_right n m)

end Loads

section Decisions

variable {F : Type} [OfNat F 0] [OfNat F 1] [OfScientific F] [Add F] [Sub F] [Mul F] [Div F]
  [LE F] [DecidableLE F] [Numeric F] {cfg : AutoscaleConfig F} {lam : F} {needs : ℤ × ℤ}

/-- **Some count in bounds is stable precisely when the target is**: below the maximum, the
search ends at a stable count. -/
theorem stable_targetOf_iff (busy : ¬ Idle cfg lam) (sized : sizing cfg lam = some needs) :
    Stable cfg lam (targetOf cfg needs) ↔ Stable cfg lam (max cfg.minReplicas cfg.maxReplicas) := by
  obtain ⟨slo, found, rest⟩ := Option.bind_eq_some_iff.mp sized
  obtain ⟨util, -, pair⟩ := Option.bind_eq_some_iff.mp rest
  obtain rfl := Option.some.inj pair
  have searched : cfg.maxReplicas ≤ slo ∨ Stable cfg lam slo := by
    rcases (minReplicasForWaitSlo_le_iff busy found slo).mp le_rfl with
      most | ⟨m, -, upto, -, above, -⟩
    · exact .inl most
    · have stable : Stable cfg lam m := above
      exact .inr (stable.mono upto)
  unfold targetOf
  constructor
  · exact fun stable => stable.mono (max_le_max le_rfl (min_le_left _ _))
  · intro stable
    rcases stable_max_iff.mp stable with least | most
    · exact least.mono (le_max_left _ _)
    · refine Stable.mono ?_ (le_max_right _ _)
      rw [stable_min_iff, stable_max_iff]
      refine ⟨most, .inl ?_⟩
      rcases searched with beyond | stable
      · exact most.mono beyond
      · exact stable

omit [OfScientific F] in
/-- Where there is a load and the count is not stable, the wait is infinite. -/
theorem expectedWaitS_of_unstable {c : ℤ} (busy : ¬ Idle cfg lam) (unstable : ¬ Stable cfg lam c) :
    expectedWaitS c lam cfg.serviceRatePerReplicaRps = some ⊤ := by
  obtain ⟨a, rest⟩ := not_forall.mp unstable
  obtain ⟨load, below⟩ := Classical.not_imp.mp rest
  unfold expectedWaitS
  rw [if_neg fun idle => busy (Or.comm.mp idle), load, Option.bind_eq_bind, Option.bind_some,
    if_pos (Bool.eq_true_of_not_eq_false below)]

omit [OfScientific F] in
/-- The wait is infinite precisely where there is a load and the count is not stable. -/
theorem expectedWaitS_eq_top_iff {c : ℤ} {w : WithTop F}
    (waits : expectedWaitS c lam cfg.serviceRatePerReplicaRps = some w) :
    w = ⊤ ↔ ¬ Idle cfg lam ∧ ¬ Stable cfg lam c := by
  unfold expectedWaitS at waits
  split at waits
  · rename_i idle
    obtain rfl := Option.some.inj waits
    exact iff_of_false WithTop.coe_ne_top fun both => both.1 (Or.comm.mp idle)
  · rename_i busy
    obtain ⟨a, load, waits⟩ := Option.bind_eq_some_iff.mp waits
    have stable_iff : Stable cfg lam c ↔ intLe c a = false := by
      unfold Stable
      rw [load]
      simp
    rw [stable_iff]
    split at waits
    · rename_i unstable
      obtain rfl := Option.some.inj waits
      exact iff_of_true rfl ⟨fun idle => busy (Or.comm.mp idle), by simp [unstable]⟩
    · rename_i stable
      obtain ⟨p, -, waits⟩ := Option.bind_eq_some_iff.mp waits
      obtain ⟨servers, -, waits⟩ := Option.bind_eq_some_iff.mp waits
      obtain ⟨x, -, rfl⟩ := Option.map_eq_some_iff.mp waits
      exact iff_of_false WithTop.coe_ne_top fun both => both.2 (Bool.not_eq_true _ ▸ stable)

end Decisions

section Reach

variable {F : Type} [OfNat F 0] [OfNat F 1] [OfScientific F] [Add F] [Sub F] [Mul F] [Div F]
  [Max F] [LT F] [DecidableLT F] [LE F] [DecidableLE F] [Numeric F]
  {signal : ScalingSignal F} {cfg : AutoscaleConfig F} {decision : ScalingDecision F}

/-- A count that suffices and is kept is all there is within reach. -/
theorem stable_iff_of_kept (spare : Suffices cfg (max 0 signal.offeredRps) signal.currentReplicas)
    (kept : ¬ (Suffices cfg (max 0 signal.offeredRps)
        (signal.currentReplicas - cfg.scaleDownDeadband) ∧
      coolingDown signal.nowS signal.lastScaleDownS cfg.scaleDownCooldownS = false)) :
    Stable cfg (max 0 signal.offeredRps) signal.currentReplicas ↔ WithinReach signal cfg := by
  constructor
  · intro stable
    exact ⟨fun lacking => absurd spare lacking, fun _ beyond ready => absurd ⟨beyond, ready⟩ kept,
      fun lacking => absurd spare lacking, fun _ _ => stable⟩
  · exact fun reach => reach.rest spare kept

/-- **The count asked for is stable** precisely when a stable one is within reach. -/
theorem Tempered.stable_iff {needs : ℤ × ℤ} {desired : ℤ} {direction : Direction} {blocked : Bool}
    (busy : ¬ Idle cfg (max 0 signal.offeredRps))
    (sized : sizing cfg (max 0 signal.offeredRps) = some needs)
    (tempered : Tempered signal cfg (targetOf cfg needs) direction desired blocked) :
    Stable cfg (max 0 signal.offeredRps) desired ↔ WithinReach signal cfg := by
  have suffices_iff := targetOf_le_iff sized
  have bounded := stable_targetOf_iff busy sized
  generalize targetOf cfg needs = target at tempered suffices_iff bounded
  have spare_iff := suffices_iff signal.currentReplicas
  have beyond_iff := suffices_iff (signal.currentReplicas - cfg.scaleDownDeadband)
  -- one guard of the four holds, and the others leave their part of the condition void
  cases tempered with
  | up short ready =>
      have lacking := mt spare_iff.mpr short.not_ge
      rw [stable_min_iff, bounded]
      constructor
      · intro stable
        exact ⟨fun _ _ => stable, fun spare => absurd spare lacking,
          fun _ cooling => absurd (ready.symm.trans cooling) Bool.false_ne_true,
          fun spare => absurd spare lacking⟩
      · exact fun reach => reach.grow lacking ready
  | upLater short cooling =>
      have lacking := mt spare_iff.mpr short.not_ge
      constructor
      · intro stable
        exact ⟨fun _ ready => absurd (ready.symm.trans cooling) Bool.false_ne_true,
          fun spare => absurd spare lacking, fun _ _ => stable, fun spare => absurd spare lacking⟩
      · exact fun reach => reach.lack lacking cooling
  | down enough beyond ready =>
      have spare := spare_iff.mp enough
      have beyond := beyond_iff.mp beyond
      rw [stable_max_iff, bounded]
      constructor
      · intro stable
        exact ⟨fun lacking => absurd spare lacking, fun _ _ _ => stable,
          fun lacking => absurd spare lacking, fun _ kept => absurd ⟨beyond, ready⟩ kept⟩
      · exact fun reach => reach.shrink spare beyond ready
  | downLater enough beyond cooling =>
      exact stable_iff_of_kept (spare_iff.mp enough) fun both =>
        Bool.false_ne_true (both.2.symm.trans cooling)
  | stay enough inside =>
      exact stable_iff_of_kept (spare_iff.mp enough) fun both => inside.not_ge (beyond_iff.mpr both.1)

/-- A planned wait is finite precisely when the signal is coped with. -/
theorem estWaitMs_ne_top_iff (planned : plan signal cfg = some decision) :
    decision.estWaitMs ≠ ⊤ ↔ Coped signal cfg := by
  obtain ⟨needs, w, sized, tempered, waits, estimated⟩ := plan_spec planned
  rw [estimated, Ne, WithTop.map_eq_top_iff, expectedWaitS_eq_top_iff waits, not_and, not_not]
  unfold Coped
  refine forall_congr' fun busy => ?_
  rw [tempered.stable_iff busy sized, sized]
  simp

/-- A planned wait that is finite can be reported if it is within range. -/
theorem roundedWait_ne_none (ranged : Ranged signal cfg) (planned : plan signal cfg = some decision)
    (finite : decision.estWaitMs ≠ ⊤) : roundedWait decision.estWaitMs ≠ none := by
  obtain ⟨needs, w, -, -, waits, estimated⟩ := plan_spec planned
  rw [estimated] at finite ⊢
  cases w with
  | top => exact absurd rfl finite
  | coe x =>
      obtain ⟨q, stands⟩ := Option.isSome_iff_exists.mp (ranged _ x waits)
      have rounded : roundedWait ((x : WithTop F).map (· * 1000.0)) = some (round2 q) := by
        change (value (x * 1000.0)).map round2 = some (round2 q)
        rw [stands, Option.map_some]
      rw [rounded]
      exact Option.some_ne_none _

theorem jsonResponse_report {F : Type} [Numeric F] (d : ScalingDecision F) :
    (∃ r, jsonResponse d.report = some r) ↔ roundedWait d.estWaitMs ≠ none := by
  unfold ScalingDecision.report jsonResponse
  cases roundedWait d.estWaitMs with
  | none => exact iff_of_false (fun ⟨r, answered⟩ => nomatch answered) (· rfl)
  | some w => exact iff_of_true ⟨_, rfl⟩ (Option.some_ne_none w)

end Reach

/-! ### Runs -/

section Runs

variable {F : Type} [OfNat F 0] [OfNat F 1] [OfScientific F] [Add F] [Sub F] [Mul F] [Div F]
  [Max F] [LT F] [DecidableLT F] [LE F] [DecidableLE F] [Numeric F] {cfg : AutoscaleConfig F}

theorem answers_iff {F : Type} [Numeric F] (cfg : AutoscaleConfig F) (s : Autoscaler F) :
    Answers cfg s ↔
      (cfg.enabled = true → ∀ d, s.lastDecision = some d → roundedWait d.estWaitMs ≠ none) := by
  unfold Answers autoscaleEndpoint
  split
  · rename_i enabled
    cases last : s.lastDecision with
    | none => exact iff_of_true ⟨_, rfl⟩ fun _ d decided => nomatch decided
    | some d =>
        rw [jsonResponse_report]
        constructor
        · rintro finite - d' same
          obtain rfl := Option.some.inj same
          exact finite
        · exact fun finite => finite enabled d rfl
  · rename_i disabled
    exact iff_of_true ⟨_, rfl⟩ fun enabled => absurd enabled disabled

/-- One round of the planner. -/
theorem Autoscaler.answers_tick {s s' : Autoscaler F} {healthy : ℕ} {now : F}
    (enabled : cfg.enabled = true) (ticked : s.tick cfg healthy now = some s') :
    ∃ rps decision, s.observedRps now = some rps ∧
      plan (s.scraped healthy now rps) cfg = some decision ∧
      (Answers cfg s' ↔ roundedWait decision.estWaitMs ≠ none) := by
  unfold Autoscaler.tick at ticked
  rw [if_pos enabled] at ticked
  obtain ⟨rps, observed, ticked⟩ := Option.bind_eq_some_iff.mp ticked
  obtain ⟨decision, planned, made⟩ := Option.bind_eq_some_iff.mp ticked
  obtain rfl := Option.some.inj made
  refine ⟨rps, decision, observed, planned, ?_⟩
  rw [answers_iff]
  constructor
  · exact fun answers => answers enabled decision rfl
  · intro reported _ d last
    obtain rfl := Option.some.inj last
    exact reported

/-- Where the planner raises there was no count to cope with. -/
theorem coped_of_plan_eq_none {signal : ScalingSignal F} (raises : plan signal cfg = none) :
    Coped signal cfg := by
  intro busy computed
  obtain ⟨needs, sized⟩ := Option.ne_none_iff_exists'.mp computed
  have tempered := temper_tempered signal cfg needs
  rw [← tempered.stable_iff busy sized]
  by_contra unstable
  have waits := expectedWaitS_of_unstable busy unstable
  unfold plan at raises
  dsimp only at raises
  rw [sized, Option.bind_eq_bind, Option.bind_some, waits] at raises
  cases raises

/-- A scrape that the planner does not run for, or raises on, changes no decision. -/
theorem Scraped.step_scrape (s : Scraped F) (healthy : ℕ) (now : F) :
    (cfg.enabled = true ∧ s.scraping = true ∧
      ∃ scaler, s.scaler.tick cfg healthy now = some scaler ∧
        (s.step cfg (.scrape healthy now)).scaler = scaler) ∨
    (s.step cfg (.scrape healthy now)).scaler = s.scaler ∧
      Action.Planned cfg Coped s (.scrape healthy now) := by
  cases running : s.scraping with
  | false =>
      refine .inr ⟨?_, fun _ on => absurd (running.symm.trans on) Bool.false_ne_true⟩
      rw [Scraped.step, running, if_neg Bool.false_ne_true]
  | true =>
      have follows : s.step cfg (.scrape healthy now) =
          match s.scaler.tick cfg healthy now with
          | some scaler => { s with scaler := scaler }
          | none => { s with scraping := false } := by
        rw [Scraped.step, if_pos running]
      rw [follows]
      cases ticked : s.scaler.tick cfg healthy now with
      | none =>
          refine .inr ⟨rfl, fun enabled _ rps observed => coped_of_plan_eq_none ?_⟩
          unfold Autoscaler.tick at ticked
          rw [if_pos enabled, observed, Option.bind_eq_bind, Option.bind_some,
            Option.bind_eq_bind, Option.bind_eq_none_iff] at ticked
          by_contra decided
          obtain ⟨decision, planned⟩ := Option.ne_none_iff_exists'.mp decided
          cases ticked decision planned
      | some scaler =>
          by_cases enabled : cfg.enabled = true
          · exact .inl ⟨enabled, rfl, scaler, rfl, rfl⟩
          · have same : s.scaler.tick cfg healthy now = some s.scaler := if_neg enabled
            obtain rfl := Option.some.inj (same.symm.trans ticked)
            exact .inr ⟨rfl, fun on => absurd on enabled⟩

/-- If the endpoint answers after an action, the action coped with its signal. -/
theorem Scraped.coped_of_answers {s : Scraped F} {a : Action F}
    (answers : Answers cfg (s.step cfg a).scaler) : a.Planned cfg Coped s := by
  cases a with
  | request => trivial
  | scrape healthy now =>
      rcases s.step_scrape healthy now with ⟨enabled, -, scaler, ticked, follows⟩ | ⟨-, coped⟩
      · obtain ⟨rps, decision, observed, planned, answers_iff⟩ :=
          Autoscaler.answers_tick enabled ticked
        rw [follows, answers_iff] at answers
        intro _ _ rps' observed'
        obtain rfl := Option.some.inj (observed.symm.trans observed')
        refine (estWaitMs_ne_top_iff planned).mp fun infinite => answers ?_
        rw [infinite]
        rfl
      · exact coped

/-- If the endpoint answers before an action that copes with a signal within range, it answers
after it. -/
theorem Scraped.answers_step {s : Scraped F} {a : Action F} (answers : Answers cfg s.scaler)
    (copes : a.Planned cfg Coped s) (ranged : a.Planned cfg Ranged s) :
    Answers cfg (s.step cfg a).scaler := by
  cases a with
  | request => exact answers
  | scrape healthy now =>
      rcases s.step_scrape healthy now with ⟨enabled, running, scaler, ticked, follows⟩ | ⟨same, -⟩
      · obtain ⟨rps, decision, observed, planned, answers_iff⟩ :=
          Autoscaler.answers_tick enabled ticked
        rw [follows, answers_iff]
        exact roundedWait_ne_none (ranged enabled running rps observed) planned
          ((estWaitMs_ne_top_iff planned).mpr (copes enabled running rps observed))
      · rwa [same]

/-- **The endpoint**, in the arithmetic the code computes in, under every configuration. In every
run of requests and scrapes that cope with the signals they read, the endpoint answers in every
state, unless a wait is out of the range of the numbers; and where it answers in every state of a
run, every scrape coped with its signal. -/
theorem autoscaleEndpoint_answers (cfg : AutoscaleConfig F) (as : List (Action F)) :
    ((∀ done a, done ++ [a] <+: as →
        a.Planned cfg Coped (Scraped.after cfg done) ∧
          a.Planned cfg Ranged (Scraped.after cfg done)) →
      ∀ done, done <+: as → Answers cfg (Scraped.after cfg done).scaler) ∧
    ((∀ done, done <+: as → Answers cfg (Scraped.after cfg done).scaler) →
      ∀ done a, done ++ [a] <+: as → a.Planned cfg Coped (Scraped.after cfg done)) := by
  constructor
  · intro copes done visited
    induction done using List.reverseRecOn with
    | nil =>
        rw [answers_iff]
        exact fun _ d decided => nomatch decided
    | append_singleton done a ih =>
        have before := ih ((List.prefix_append done [a]).trans visited)
        obtain ⟨coped, ranged⟩ := copes done a visited
        have next := Scraped.answers_step before coped ranged
        rwa [Scraped.after, List.foldl_append]
  · intro answers done a visited
    have after := answers _ visited
    rw [Scraped.after, List.foldl_append] at after
    exact Scraped.coped_of_answers after

end Runs

/-! ### Exact arithmetic -/

/-- No wait is out of range. -/
theorem ranged_rat (signal : ScalingSignal) (cfg : AutoscaleConfig) : Ranged signal cfg :=
  fun _ _ _ => rfl

/-- Three requests within a second, at one replica, are coped with. -/
theorem autoscaleEndpoint_answers_some :
    let cfg : AutoscaleConfig := { AutoscaleConfig.defaults with enabled := true }
    let as : List Action := [.scrape 1 1, .request, .request, .request, .scrape 1 2]
    ∀ done a, done ++ [a] <+: as → a.Planned cfg Coped (Scraped.after cfg done) := by
  intro cfg as
  have answered : ∀ done ∈ as.inits,
      (autoscaleEndpoint cfg (Scraped.after cfg done).scaler).isSome = true := by decide +kernel
  refine (autoscaleEndpoint_answers cfg as).2 ?_
  intro done visited
  exact Option.isSome_iff_exists.mp (answered done ((List.mem_inits _ _).mpr visited))

/-- Thirty requests within a second need more than six replicas. A single one is told to become
five, at which the wait is infinite, and the endpoint has no document for it. -/
theorem autoscaleEndpoint_overloaded :
    let cfg : AutoscaleConfig Float := { AutoscaleConfig.defaults with enabled := true }
    let s := Scraped.after cfg (.scrape 1 1 :: List.replicate 30 .request ++ [.scrape 1 2])
    s.scaler.lastDecision.map (·.desiredReplicas) = some 5 ∧ ¬ Answers cfg s.scaler := by
  intro cfg s
  refine ⟨by decide +kernel, fun ⟨r, answered⟩ => ?_⟩
  have refused : (autoscaleEndpoint cfg s.scaler).isNone = true := by decide +kernel
  rw [answered] at refused
  cases refused

end Gateway.Autoscale
