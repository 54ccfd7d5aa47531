import Mathlib.Algebra.Order.BigOperators.Group.List
import Mathlib.Algebra.Order.Field.Rat
import Mathlib.Data.List.Forall2
import Mathlib.Tactic.Linarith
import Gateway.Lib.Dict

/-!
SLO-aware admission, from `gateway/admission/policy.py`.

* `fleetPressure_mono`, `admitFloor_mono`: more load is never less pressure, and more pressure is
  never a lower floor.
* `decide_monotone`: what is admitted is admitted with a higher tier, an earlier estimate and a
  lighter fleet; gold within its SLO is always admitted; and others are told to come back.
-/

namespace Gateway

/-- `AdmissionConfig`. -/
structure AdmissionConfig where
  enabled : Bool := false
  ttftSloMs : ℚ := 500
  maxInflightPerBackend : Int := 64
  shedPressure : ℚ := 3 / 4
  queueEnabled : Bool := true
  maxQueueDepth : Int := 256
  retryAfterBaseMs : ℚ := 200
  retryAfterMaxMs : ℚ := 10000

/-- `ADMIT`, `QUEUE` and `REJECT`. -/
inductive AdmissionAction where
  | admitted
  | queue
  | reject
  deriving DecidableEq, Repr

/-- Why a request was admitted, queued or rejected. -/
inductive AdmissionReason where
  | deadlineInfeasible
  | withinSlo
  | clearsFloor
  | queuedForBackpressure
  | shed
  deriving DecidableEq, Repr

/-- `FleetState`. -/
structure FleetState where
  backendInflight : Dict String Nat
  backendKvUsage : Dict String ℚ
  queueDepth : Int := 0

/-- `AdmissionRequest`; the output estimate is not read by the decision. -/
structure AdmissionRequest where
  estTtftMs : ℚ
  tier : String

/-- `AdmissionDecision`. -/
structure AdmissionDecision where
  action : AdmissionAction
  reason : AdmissionReason
  retryAfterMs : ℚ
  pressure : ℚ
  admitFloor : ℚ
  deriving DecidableEq

namespace AdmissionPolicy

/-- `tier_priority(tier)`. -/
def tierPriority (tier : String) : Nat :=
  match tier.toLower with
  | "gold" => 3
  | "silver" => 2
  | "bronze" => 1
  | _ => 0

/-- `fleet_pressure(fleet, cfg)`. -/
def fleetPressure (fleet : FleetState) (cfg : AdmissionConfig) : ℚ :=
  let kv := fleet.backendKvUsage.values
  let meanKv := if kv.isEmpty then 0 else kv.sum / kv.length
  let inflight := fleet.backendInflight.values
  let saturated := inflight.countP fun n => decide (cfg.maxInflightPerBackend ≤ n)
  let satFrac : ℚ := if inflight.isEmpty then 0 else saturated / inflight.length
  max 0 (min 1 (max meanKv satFrac))

/-- `_admit_floor(pressure, cfg)`. -/
def admitFloor (pressure : ℚ) (cfg : AdmissionConfig) : ℚ :=
  let span := max (1 / 1000000000) (1 - cfg.shedPressure)
  let t := max 0 (min 1 ((pressure - cfg.shedPressure) / span))
  1 + 2 * t

/-- `_retry_after(pressure, cfg, overshoot_ms)`. -/
def retryAfter (pressure : ℚ) (cfg : AdmissionConfig) (overshootMs : ℚ) : ℚ :=
  min cfg.retryAfterMaxMs (max (cfg.retryAfterBaseMs * (1 + pressure)) overshootMs)

/-- `decide(req, fleet, cfg)`. -/
def decide (req : AdmissionRequest) (fleet : FleetState) (cfg : AdmissionConfig) :
    AdmissionDecision :=
  let pressure := fleetPressure fleet cfg
  if cfg.ttftSloMs < req.estTtftMs then
    ⟨.reject, .deadlineInfeasible, retryAfter pressure cfg (req.estTtftMs - cfg.ttftSloMs), pressure,
      0⟩
  else if pressure < cfg.shedPressure then ⟨.admitted, .withinSlo, 0, pressure, 0⟩
  else
    let floor := admitFloor pressure cfg
    if floor ≤ tierPriority req.tier then ⟨.admitted, .clearsFloor, 0, pressure, floor⟩
    else if cfg.queueEnabled && fleet.queueDepth < cfg.maxQueueDepth then
      ⟨.queue, .queuedForBackpressure, retryAfter pressure cfg 0, pressure, floor⟩
    else ⟨.reject, .shed, retryAfter pressure cfg 0, pressure, floor⟩

/-! ### Pressure -/

section Pressure

/-- The same backends, none with more load. -/
structure Lighter (fleet fleet' : FleetState) : Prop where
  inflight : ∀ b, Option.Rel (· ≤ ·) (fleet.backendInflight.get? b) (fleet'.backendInflight.get? b)
  kvUsage : ∀ b, Option.Rel (· ≤ ·) (fleet.backendKvUsage.get? b) (fleet'.backendKvUsage.get? b)

variable {fleet fleet' : FleetState} {cfg : AdmissionConfig}

/-- The mean KV usage. -/
def meanKv (kv : List ℚ) : ℚ := if kv.isEmpty then 0 else kv.sum / kv.length

/-- A backend at or over the in-flight cap. -/
def isSaturated (cfg : AdmissionConfig) (n : Nat) : Bool := cfg.maxInflightPerBackend ≤ (n : Int)

/-- The fraction of saturated backends. -/
def satFrac (cfg : AdmissionConfig) (inflight : List Nat) : ℚ :=
  if inflight.isEmpty then 0 else (inflight.countP (isSaturated cfg) : ℚ) / inflight.length

theorem fleetPressure_eq (fleet : FleetState) (cfg : AdmissionConfig) :
    fleetPressure fleet cfg = max 0 (min 1 (max (meanKv fleet.backendKvUsage.values)
      (satFrac cfg fleet.backendInflight.values))) := by
  unfold fleetPressure satFrac meanKv
  simp only [bind_pure_comp, List.map_eq_map, List.countP_map]
  rfl

theorem fleetPressure_mem (fleet : FleetState) (cfg : AdmissionConfig) :
    0 ≤ fleetPressure fleet cfg ∧ fleetPressure fleet cfg ≤ 1 :=
  ⟨le_max_left _ _, max_le zero_le_one (min_le_left _ _)⟩

theorem meanKv_mono {kv kv' : List ℚ} (le : List.Forall₂ (· ≤ ·) kv kv') : meanKv kv ≤ meanKv kv' := by
  have lengths := le.length_eq
  have sums := le.sum_le_sum
  unfold meanKv
  cases le with
  | nil => exact le_rfl
  | cons first rest =>
      simp only [List.isEmpty_cons, Bool.false_eq_true, if_false]
      rw [lengths]
      exact div_le_div_of_nonneg_right sums (Nat.cast_nonneg _)

theorem meanKv_perm {kv kv' : List ℚ} (perm : kv.Perm kv') : meanKv kv = meanKv kv' := by
  rw [meanKv, meanKv, perm.isEmpty_eq, perm.sum_eq, perm.length_eq]

theorem countP_saturated_mono (cfg : AdmissionConfig) {inflight inflight' : List Nat}
    (le : List.Forall₂ (· ≤ ·) inflight inflight') :
    inflight.countP (isSaturated cfg) ≤ inflight'.countP (isSaturated cfg) := by
  induction le with
  | nil => exact le_rfl
  | cons first rest ih =>
      rename_i n n' _ _
      rw [List.countP_cons, List.countP_cons]
      have saturates : isSaturated cfg n = true → isSaturated cfg n' = true := by
        simp only [isSaturated, decide_eq_true_eq]
        omega
      split
      · rename_i full
        rw [if_pos (saturates full)]
        omega
      · omega

theorem satFrac_mono {inflight inflight' : List Nat}
    (le : List.Forall₂ (· ≤ ·) inflight inflight') : satFrac cfg inflight ≤ satFrac cfg inflight' := by
  have lengths := le.length_eq
  have counts := countP_saturated_mono cfg le
  unfold satFrac
  cases le with
  | nil => exact le_rfl
  | cons first rest =>
      simp only [List.isEmpty_cons, Bool.false_eq_true, if_false]
      rw [lengths]
      exact div_le_div_of_nonneg_right (Nat.cast_le.mpr counts) (Nat.cast_nonneg _)

theorem satFrac_perm {inflight inflight' : List Nat} (perm : inflight.Perm inflight') :
    satFrac cfg inflight = satFrac cfg inflight' := by
  rw [satFrac, satFrac, perm.isEmpty_eq, perm.countP_eq, perm.length_eq]

/-- **More load is never less pressure.** -/
theorem fleetPressure_mono (cfg : AdmissionConfig) (lighter : Lighter fleet fleet') :
    fleetPressure fleet cfg ≤ fleetPressure fleet' cfg := by
  obtain ⟨kv, kv_perm, kv_le⟩ := Dict.forall₂_values lighter.kvUsage
  obtain ⟨inflight, inflight_perm, inflight_le⟩ := Dict.forall₂_values lighter.inflight
  rw [fleetPressure_eq, fleetPressure_eq, ← meanKv_perm kv_perm, ← satFrac_perm inflight_perm]
  exact max_le_max le_rfl (min_le_min le_rfl (max_le_max (meanKv_mono kv_le)
    (satFrac_mono inflight_le)))

/-- **More pressure is never a lower floor.** -/
theorem admitFloor_mono {p p' : ℚ} (le : p ≤ p') : admitFloor p cfg ≤ admitFloor p' cfg := by
  have span : (0 : ℚ) ≤ max (1 / 1000000000) (1 - cfg.shedPressure) :=
    le_max_of_le_left (by norm_num)
  have higher : (p - cfg.shedPressure) / max (1 / 1000000000) (1 - cfg.shedPressure) ≤
      (p' - cfg.shedPressure) / max (1 / 1000000000) (1 - cfg.shedPressure) :=
    div_le_div_of_nonneg_right (sub_le_sub_right le _) span
  have clamped := max_le_max (le_refl (0 : ℚ)) (min_le_min (le_refl (1 : ℚ)) higher)
  unfold admitFloor
  dsimp only
  linarith

/-- The floor never passes gold. -/
theorem admitFloor_le_three (p : ℚ) (cfg : AdmissionConfig) : admitFloor p cfg ≤ 3 := by
  have clamped : max 0 (min 1 ((p - cfg.shedPressure) /
      max (1 / 1000000000) (1 - cfg.shedPressure))) ≤ (1 : ℚ) :=
    max_le zero_le_one (min_le_left _ _)
  unfold admitFloor
  dsimp only
  linarith

end Pressure

/-! ### Decisions -/

section Decisions

variable {req : AdmissionRequest} {fleet : FleetState} {cfg : AdmissionConfig}

/-- What is admitted: requests within their SLO, that the pressure or their tier lets pass. -/
theorem admitted_iff :
    (decide req fleet cfg).action = .admitted ↔ req.estTtftMs ≤ cfg.ttftSloMs ∧
      (fleetPressure fleet cfg < cfg.shedPressure ∨
        admitFloor (fleetPressure fleet cfg) cfg ≤ tierPriority req.tier) := by
  unfold decide
  dsimp only
  split
  · rename_i late
    exact iff_of_false nofun fun both => late.not_ge both.1
  · rename_i in_time
    have in_time := not_lt.mp in_time
    split
    · rename_i calm
      exact iff_of_true rfl ⟨in_time, .inl calm⟩
    · rename_i pressed
      split
      · rename_i clears
        exact iff_of_true rfl ⟨in_time, .inr clears⟩
      · rename_i below
        have shed : ¬ (fleetPressure fleet cfg < cfg.shedPressure ∨
            admitFloor (fleetPressure fleet cfg) cfg ≤ tierPriority req.tier) :=
          not_or.mpr ⟨pressed, below⟩
        split <;> exact iff_of_false nofun fun both => shed both.2

theorem decide_pressure : (decide req fleet cfg).pressure = fleetPressure fleet cfg := by
  unfold decide
  dsimp only
  repeat' split
  all_goals rfl

/-- What is not admitted is told to come back. -/
theorem decide_retryAfter (refused : (decide req fleet cfg).action ≠ .admitted) :
    ∃ overshoot, (decide req fleet cfg).retryAfterMs =
      retryAfter (fleetPressure fleet cfg) cfg overshoot := by
  unfold decide at refused ⊢
  dsimp only at refused ⊢
  split
  · exact ⟨_, rfl⟩
  · rename_i in_time
    rw [if_neg in_time] at refused
    split
    · rename_i calm
      rw [if_pos calm] at refused
      exact absurd rfl refused
    · rename_i pressed
      rw [if_neg pressed] at refused
      split
      · rename_i clears
        rw [if_pos clears] at refused
        exact absurd rfl refused
      · split <;> exact ⟨0, rfl⟩

theorem retryAfter_mem (base : 0 < cfg.retryAfterBaseMs) (cap : 0 < cfg.retryAfterMaxMs) {p : ℚ}
    (nonneg : 0 ≤ p) (overshoot : ℚ) :
    0 < retryAfter p cfg overshoot ∧ retryAfter p cfg overshoot ≤ cfg.retryAfterMaxMs := by
  have backoff : 0 < cfg.retryAfterBaseMs * (1 + p) := mul_pos base (by linarith)
  exact ⟨lt_min cap (lt_max_of_lt_left backoff), min_le_left _ _⟩

/-- **Admission.** For every two requests and fleets under one configuration: what is admitted is
admitted with at least its tier, at most its estimate and a lighter fleet; gold within its SLO is
admitted under every fleet; the pressure is a fraction; and a request that is not admitted is told to
come back, after a positive time within the cap. -/
theorem decide_monotone (cfg : AdmissionConfig) (req req' : AdmissionRequest)
    (fleet fleet' : FleetState) :
    (tierPriority req'.tier ≤ tierPriority req.tier → req.estTtftMs ≤ req'.estTtftMs →
      Lighter fleet fleet' → (decide req' fleet' cfg).action = .admitted →
      (decide req fleet cfg).action = .admitted) ∧
    (req.tier.toLower = "gold" → req.estTtftMs ≤ cfg.ttftSloMs →
      (decide req fleet cfg).action = .admitted) ∧
    (0 ≤ (decide req fleet cfg).pressure ∧ (decide req fleet cfg).pressure ≤ 1) ∧
    (0 < cfg.retryAfterBaseMs → 0 < cfg.retryAfterMaxMs →
      (decide req fleet cfg).action ≠ .admitted →
      0 < (decide req fleet cfg).retryAfterMs ∧
        (decide req fleet cfg).retryAfterMs ≤ cfg.retryAfterMaxMs) := by
  refine ⟨fun tier earlier lighter admitted => ?_, fun gold in_time => ?_, ?_,
    fun base cap refused => ?_⟩
  · obtain ⟨in_time, passes⟩ := admitted_iff.mp admitted
    have pressure := fleetPressure_mono cfg lighter
    refine admitted_iff.mpr ⟨earlier.trans in_time, ?_⟩
    rcases passes with calm | clears
    · exact .inl (pressure.trans_lt calm)
    · refine .inr ((admitFloor_mono pressure).trans (clears.trans ?_))
      exact_mod_cast tier
  · refine admitted_iff.mpr ⟨in_time, .inr ?_⟩
    have top : tierPriority req.tier = 3 := by
      rw [tierPriority, gold]
      rfl
    rw [top]
    exact_mod_cast admitFloor_le_three _ cfg
  · rw [decide_pressure]
    exact fleetPressure_mem fleet cfg
  · obtain ⟨overshoot, hint⟩ := decide_retryAfter refused
    rw [hint]
    exact retryAfter_mem base cap (fleetPressure_mem fleet cfg).1 overshoot

end Decisions

end AdmissionPolicy

end Gateway
