import Mathlib.Algebra.BigOperators.Ring.Finset
import Mathlib.Algebra.Order.BigOperators.Group.Finset
import Gateway.FairSched.Tasks
import Gateway.FairQueue.Starvation

/-!
How long a request waits at the dispatch scheduler.

Every action of the gate is a few calls of its fair queue, and whoever is granted a slot was
served by them (`step_drives`). So the pace of a class in the queue bounds what the class is
granted, also when waiters are cancelled and reaped in between. A request that parks as the
`n`-th of its class is granted a slot after at most `n / w * W + m` hand-overs, where `w` is the
weight of its class, `W` the sum of the weights and `m` the number of the classes that call
(`bounded_wait`). Meanwhile somebody holds a slot, so that there is always a hand-over to come.
-/

namespace Gateway

variable {C : Type} [DecidableEq C]

/-! ### The queue behind the gate -/

namespace WeightedFairQueue

variable {α : Type} {clsOf : α → C} {w : C → ℚ} {k : ℚ} {q q' q'' : WeightedFairQueue C α}

/-- Calls that lead from `q` to `q'` and serve at least the items `given`, class by class. -/
def Drives (clsOf : α → C) (w : C → ℚ) (k : ℚ) (q q' : WeightedFairQueue C α) (given : List α) :
    Prop :=
  ∃ ops, q' = q.runOps clsOf w k ops ∧
    ∀ c, (given.map clsOf).count c ≤ q.servedCount clsOf w k c ops

theorem servedCount_append (c : C) (ops ops' : List (Op α)) :
    q.servedCount clsOf w k c (ops ++ ops') =
      q.servedCount clsOf w k c ops + (q.runOps clsOf w k ops).servedCount clsOf w k c ops' := by
  induction ops generalizing q with
  | nil => simp [servedCount, WeightedFairQueue.runOps]
  | cons op ops ih =>
      simp only [List.cons_append, servedCount, ih]
      exact (Nat.add_assoc _ _ _).symm

theorem Drives.refl (q : WeightedFairQueue C α) : Drives clsOf w k q q [] :=
  ⟨[], rfl, fun _ => Nat.zero_le _⟩

theorem Drives.trans {given given' : List α} (first : Drives clsOf w k q q' given)
    (second : Drives clsOf w k q' q'' given') : Drives clsOf w k q q'' (given ++ given') := by
  obtain ⟨ops, rfl, served⟩ := first
  obtain ⟨ops', rfl, served'⟩ := second
  refine ⟨ops ++ ops', ?_, fun c => ?_⟩
  · simp [WeightedFairQueue.runOps, List.foldl_append]
  · rw [List.map_append, List.count_append, servedCount_append]
    exact Nat.add_le_add (served c) (served' c)

/-- A call of `dequeue`, whoever it serves is given or not. -/
theorem drives_dequeue {x : α} (taken : q.dequeue = some (x, q')) :
    Drives clsOf w k q q' [x] ∧ Drives clsOf w k q q' [] := by
  have result : q.serve clsOf w k .dequeue = (q', some x) := serve_dequeue_some taken
  have reached : q' = q.runOps clsOf w k [.dequeue] := by
    simp [WeightedFairQueue.runOps, result]
  refine ⟨⟨[.dequeue], reached, fun c => ?_⟩, ⟨[.dequeue], reached, fun _ => Nat.zero_le _⟩⟩
  simp only [servedCount, result, List.map_cons, List.map_nil, List.count_singleton,
    Option.map_some, Option.some.injEq, beq_iff_eq]
  exact Nat.le_add_right _ _

/-- A call of `enqueue`; a weight that is not positive counts as the smallest one. -/
theorem drives_enqueue {x : α} {weight : ℚ} (own : w (clsOf x) = effectiveWeight weight) :
    Drives clsOf w k q (q.enqueue x (clsOf x) weight k).1 [] := by
  refine ⟨[.enqueue x], ?_, fun _ => Nat.zero_le _⟩
  have same : q.finishTag (clsOf x) (w (clsOf x)) k = q.finishTag (clsOf x) weight k := by
    rw [finishTag, finishTag, own, effectiveWeight_of_pos (effectiveWeight_pos weight)]
  simp only [WeightedFairQueue.runOps, List.foldl_cons, List.foldl_nil, WeightedFairQueue.serve,
    WeightedFairQueue.enqueue, same]

theorem Drives.fair {given : List α} (drives : Drives clsOf w k q q' given)
    (fair : q.Fair clsOf w k) (pos : ∀ c, 0 < w c) (nonneg : 0 ≤ k) : q'.Fair clsOf w k := by
  obtain ⟨ops, rfl, _⟩ := drives
  exact fair.runOps pos nonneg ops

/-- What a class is given while an entry stays queued: its share of the time that the entry
waits, and one more. -/
theorem Drives.given_le {given : List α} (drives : Drives clsOf w k q q' given)
    (fair : q.Fair clsOf w k) (pos : ∀ c, 0 < w c) (cost : 0 < k) {e : Tagged α} {j : C}
    (queued : e ∈ q.waiting clsOf j) (still : e ∈ q'.heap) (i : C) :
    ((given.map clsOf).count i : ℚ) ≤ (q.waiting clsOf j).length / w j * w i + 1 := by
  obtain ⟨ops, rfl, served⟩ := drives
  have fresh : Paced clsOf q.vt (k / w i) i 0 q := by
    constructor
    · intro e' member
      simpa using fair.tidy.ahead (mem_waiting.mp member).1
    · have := div_nonneg cost.le (pos i).le
      simpa using this
  have paced := (fresh.runOps fair pos cost.le ops).vt
  rw [Nat.zero_add] at paced
  have ahead := (fair.runOps pos cost.le ops).tidy.ahead still
  -- the entry is tagged at most like the last one of its class
  have tagged : e.finish ≤ q.vt + (q.waiting clsOf j).length * (k / w j) := by
    obtain ⟨front, last, split⟩ :=
      (List.eq_nil_or_concat' (q.waiting clsOf j)).resolve_left (List.ne_nil_of_mem queued)
    have at_end : (q.waiting clsOf j).getLast? = some last := by simp [split]
    have newest := fair.tidy.newest at_end
    have near := fair.finish_le at_end
    have before := fair.tidy.finish_le_last queued
    linarith
  have counted := served i
  generalize q.servedCount clsOf w k i ops = n at paced counted
  have given_le : ((given.map clsOf).count i : ℚ) ≤ n := by exact_mod_cast counted
  have work : (n - 1 : ℚ) * (k / w i) ≤ (q.waiting clsOf j).length * (k / w j) := by linarith
  have share : (n - 1 : ℚ) ≤ (q.waiting clsOf j).length * (k / w j) / (k / w i) :=
    (le_div_iff₀ (div_pos cost (pos i))).mpr work
  have weighed : ((q.waiting clsOf j).length : ℚ) * (k / w j) / (k / w i) =
      (q.waiting clsOf j).length / w j * w i := by
    field_simp [(pos i).ne', (pos j).ne', cost.ne']
  linarith

/-- Whatever is given while an entry stays queued. -/
theorem Drives.length_le {given : List α} (drives : Drives clsOf w k q q' given)
    (fair : q.Fair clsOf w k) (pos : ∀ c, 0 < w c) (cost : 0 < k) {e : Tagged α} {j : C}
    (queued : e ∈ q.waiting clsOf j) (still : e ∈ q'.heap) {classes : Finset C}
    (known : ∀ x ∈ given, clsOf x ∈ classes) :
    (given.length : ℚ) ≤
      (q.waiting clsOf j).length / w j * ∑ c ∈ classes, w c + classes.card := by
  have within : ∀ c ∈ (given.map clsOf : Multiset C), c ∈ classes := by
    intro c member
    obtain ⟨x, given, rfl⟩ := List.mem_map.mp (Multiset.mem_coe.mp member)
    exact known x given
  have total : ∑ c ∈ classes, (given.map clsOf).count c = given.length := by
    simpa using Multiset.sum_count_eq_card within
  calc (given.length : ℚ)
      = ∑ c ∈ classes, ((given.map clsOf).count c : ℚ) := by rw [← total, Nat.cast_sum]
    _ ≤ ∑ c ∈ classes, ((q.waiting clsOf j).length / w j * w c + 1) :=
        Finset.sum_le_sum fun c _ => drives.given_le fair pos cost queued still c
    _ = (q.waiting clsOf j).length / w j * ∑ c ∈ classes, w c + classes.card := by
        rw [Finset.sum_add_distrib, ← Finset.mul_sum, Finset.sum_const, nsmul_eq_mul, mul_one]

end WeightedFairQueue

/-! ### The gate drives its queue -/

namespace Gate

open WeightedFairQueue (Drives effectiveWeight)

variable {clsOf : Nat → C} {w : C → ℚ} {k : ℚ} {s s' : Gate C}

/-- `_grant_next` changes the queue only, and grants whom it serves last. -/
theorem grantNext_drives (clsOf : Nat → C) (w : C → ℚ) (k : ℚ) (fuel : Nat)
    (sched : AsyncFairScheduler C Nat) (fut : Nat → Future) :
    ∃ wfq, (AsyncFairScheduler.grantNext fuel sched fut).1 = { sched with wfq := wfq } ∧
      Drives clsOf w k sched.wfq wfq (AsyncFairScheduler.grantNext fuel sched fut).2.2.toList := by
  induction fuel generalizing sched with
  | zero => exact ⟨sched.wfq, rfl, .refl _⟩
  | succ fuel ih =>
      simp only [AsyncFairScheduler.grantNext]
      cases taken : sched.wfq.dequeue with
      | none => exact ⟨sched.wfq, rfl, .refl _⟩
      | some served =>
          have drives : Drives clsOf w k sched.wfq served.2 [served.1] ∧
              Drives clsOf w k sched.wfq served.2 [] := WeightedFairQueue.drives_dequeue taken
          dsimp only
          split
          · obtain ⟨wfq, same, later⟩ := ih { sched with wfq := served.2 }
            exact ⟨wfq, same, drives.2.trans later⟩
          · exact ⟨served.2, rfl, drives.1⟩

/-- Callers are labelled with the class of their call. -/
def Labelled (clsOf : Nat → C) (s : Gate C) : Action C → Prop
  | .acquire cls => clsOf s.next = cls
  | _ => True

/-- The settings of the scheduler, with the weights that the queue uses. -/
structure Configured (w : C → ℚ) (k : ℚ) (s : Gate C) : Prop where
  weight : ∀ c, w c = effectiveWeight (s.sched.weightFor c)
  cost : s.sched.cost = k

/-- The settings stay, and whoever is granted a slot was served by the queue. -/
structure Follows (clsOf : Nat → C) (w : C → ℚ) (k : ℚ) (s s' : Gate C) : Prop where
  conf : s'.Configured w k
  given : ∃ given, s'.grants = s.grants ++ given ∧ Drives clsOf w k s.sched.wfq s'.sched.wfq given

theorem Follows.of_sched {wfq : WeightedFairQueue C Nat} {active : Int} {given : List Nat}
    (conf : s.Configured w k) (sched : s'.sched = { s.sched with wfq := wfq, active := active })
    (grants : s'.grants = s.grants ++ given) (drives : Drives clsOf w k s.sched.wfq wfq given) :
    Follows clsOf w k s s' := by
  refine ⟨⟨?_, ?_⟩, given, grants, ?_⟩
  · rw [sched]
    exact conf.weight
  · rw [sched]
    exact conf.cost
  · rw [sched]
    exact drives

theorem Follows.of_same (conf : s.Configured w k) (sched : s'.sched = s.sched)
    (grants : s'.grants = s.grants) : Follows clsOf w k s s' :=
  .of_sched conf sched (by rw [grants, List.append_nil]) (.refl _)

/-- A hand-over. -/
theorem follows_handOver (conf : s.Configured w k) (t : Nat) :
    Follows clsOf w k s (s.handOver t) := by
  obtain ⟨wfq, same, drives⟩ := grantNext_drives clsOf w k s.sched.wfq.len s.sched s.fut
  cases granted : (AsyncFairScheduler.grantNext s.sched.wfq.len s.sched s.fut).2.2 with
  | none =>
      rw [granted] at drives
      have sched : (s.handOver t).sched =
          { s.sched with wfq := wfq, active := max 0 (s.sched.active - 1) } := by
        simp only [handOver, AsyncFairScheduler.releaseOne, granted, same]
      refine .of_sched conf sched ?_ drives
      simp only [handOver, AsyncFairScheduler.releaseOne, granted, Option.toList_none]
  | some f =>
      rw [granted] at drives
      have sched : (s.handOver t).sched = { s.sched with wfq := wfq, active := s.sched.active } := by
        simp only [handOver, AsyncFairScheduler.releaseOne, granted, same]
      refine .of_sched conf sched ?_ drives
      simp only [handOver, AsyncFairScheduler.releaseOne, granted]

/-- **One action** is a few calls of the queue, and grants only whom they serve. -/
theorem step_follows {a : Action C} (conf : s.Configured w k) (labelled : Labelled clsOf s a)
    (taken : s.step a = some s') : Follows clsOf w k s s' := by
  cases a with
  | acquire cls =>
      obtain ⟨_, grants, ⟨_, sched, _⟩ | ⟨_, sched, _⟩⟩ := acquire_cases taken
      · exact .of_sched conf sched (by rw [grants, List.append_nil]) (.refl _)
      · have called : clsOf s.next = cls := labelled
        have drives : Drives clsOf w k s.sched.wfq
            (s.sched.wfq.enqueue s.next cls (s.sched.weightFor cls) s.sched.cost).1 [] := by
          rw [conf.cost, ← called]
          exact WeightedFairQueue.drives_enqueue (conf.weight _)
        exact .of_sched conf sched (by rw [grants, List.append_nil]) drives
  | release t =>
      simp only [step] at taken
      split at taken
      · cases taken
        exact follows_handOver conf t
      · cases taken
  | cancel t =>
      simp only [step] at taken
      split at taken
      · split at taken <;> cases taken <;> exact .of_same conf rfl rfl
      · cases taken
  | resume t =>
      simp only [step] at taken
      split at taken
      · cases taken
        exact .of_same conf rfl rfl
      · cases taken
        exact follows_handOver conf t
      · cases taken
        exact .of_same conf rfl rfl
      · cases taken

/-- **A run** of the gate drives its queue. -/
theorem run_follows {as : List (Action C)} (conf : s.Configured w k)
    (labelled : Machine.Along step (Labelled clsOf) s as) (reach : Machine.run step s as = some s') :
    Follows clsOf w k s s' := by
  induction as generalizing s with
  | nil =>
      cases reach
      exact .of_same conf rfl rfl
  | cons a as ih =>
      obtain ⟨mid, taken, reach⟩ := Machine.run_cons_eq_some.mp reach
      obtain ⟨conf, first, grants, drives⟩ := step_follows conf labelled.1 taken
      obtain ⟨conf, rest, grants', drives'⟩ := ih conf (labelled.2 mid taken) reach
      exact ⟨conf, first ++ rest, by rw [grants', grants, List.append_assoc], drives.trans drives'⟩

/-! ### Waiting -/

omit [DecidableEq C] in
/-- Whoever waits after a slot was handed over has been waiting. -/
theorem waits_of_handOver {t u : Nat} (sound : s.Sound) (slot : s.HasSlot u)
    (waits : (s.handOver u).Waits t) : s.Waits t := by
  obtain ⟨_, caller, outcome⟩ := sound.handOver_cases slot
  obtain ⟨⟨m, waiting⟩, pending⟩ := waits
  rw [caller] at waiting
  have other : t ≠ u := by
    rintro rfl
    rw [Function.update_self] at waiting
    cases waiting
  rw [Function.update_of_ne other] at waiting
  refine ⟨⟨m, waiting⟩, ?_⟩
  rcases outcome with ⟨_, fut, _⟩ | ⟨e, _, _, _, fut, _⟩
  · rwa [fut] at pending
  · rw [fut] at pending
    by_cases same : t = e.item
    · rw [same, Function.update_self] at pending
      cases pending
    · rwa [Function.update_of_ne same] at pending

/-- Whoever waits after a call and had called before it has been waiting. -/
theorem waits_of_acquire {cls : C} {t : Nat} (called : t < s.next)
    (taken : s.step (.acquire cls) = some s') (waits : s'.Waits t) : s.Waits t := by
  have other : t ≠ s.next := Nat.ne_of_lt called
  obtain ⟨_, _, ⟨_, _, fut, caller⟩ | ⟨_, _, fut, caller⟩⟩ := acquire_cases taken
  · refine (waits_congr ?_ ?_).mp waits
    · rw [caller, Function.update_of_ne other]
    · rw [fut]
  · refine (waits_congr ?_ ?_).mp waits
    · rw [caller, Function.update_of_ne other]
    · rw [fut, Function.update_of_ne other]

/-- Whoever waits after a cancellation has been waiting. -/
theorem waits_of_cancel {t u : Nat} (taken : s.step (.cancel u) = some s') (waits : s'.Waits t) :
    s.Waits t := by
  simp only [step] at taken
  split at taken
  · rename_i m waiting
    split at taken
    · cases taken
      by_cases same : t = u
      · subst same
        have pending := waits.2
        simp only [Function.update_self] at pending
        cases pending
      · refine (waits_congr ?_ ?_).mp waits
        · rfl
        · exact Function.update_of_ne same ..
    · cases taken
      by_cases same : t = u
      · subst same
        exact ⟨⟨m, waiting⟩, waits.2⟩
      · refine (waits_congr ?_ ?_).mp waits
        · exact Function.update_of_ne same ..
        · rfl
  · cases taken

omit [DecidableEq C] in
/-- Whoever waits after another caller went on has been waiting. -/
theorem waits_of_caller {t u : Nat} {c : Caller} (done : s.fut u ≠ .pending)
    (waits : Gate.Waits { s with caller := Function.update s.caller u c } t) : s.Waits t := by
  have other : t ≠ u := by
    rintro rfl
    exact done waits.2
  refine (waits_congr ?_ ?_).mp waits
  · exact Function.update_of_ne other ..
  · rfl

/-- Whoever waits after an action and had called before it has been waiting. -/
theorem waits_of_step {a : Action C} {t : Nat} (sound : s.Sound) (called : t < s.next)
    (taken : s.step a = some s') (waits : s'.Waits t) : s.Waits t := by
  cases a with
  | acquire cls => exact waits_of_acquire called taken waits
  | release u =>
      simp only [step] at taken
      split at taken
      · rename_i holding
        cases taken
        exact waits_of_handOver sound (.inl holding) waits
      · cases taken
  | cancel u => exact waits_of_cancel taken waits
  | resume u =>
      simp only [step] at taken
      split at taken
      · rename_i gone
        cases taken
        exact waits_of_caller (by simp [gone]) waits
      · rename_i waiting granted
        cases taken
        exact waits_of_handOver sound (.inr ⟨.inr waiting, granted⟩) waits
      · rename_i granted
        cases taken
        exact waits_of_caller (by simp [granted]) waits
      · cases taken

/-- An action is a call, which numbers the caller, or changes neither the numbers nor, but for
what is taken from it, the queue. -/
theorem queue_of_step {a : Action C} (sound : s.Sound) (taken : s.step a = some s') :
    s.next ≤ s'.next ∧ ∀ e ∈ s'.sched.wfq.heap, e ∈ s.sched.wfq.heap ∨ s.next ≤ e.item := by
  by_cases hands : s.HandsOver a
  · obtain ⟨u, slot, rfl⟩ := handOver_of_step hands taken
    obtain ⟨_, _, outcome⟩ := sound.handOver_cases slot
    refine ⟨le_refl _, fun e member => .inl ?_⟩
    rcases outcome with ⟨_, _, _, _, heap⟩ | ⟨_, _, _, _, _, _, _, still, _⟩
    · rw [heap] at member
      cases member
    · exact still e member
  · cases a with
    | acquire cls =>
        obtain ⟨next, _, ⟨_, sched, _⟩ | ⟨_, sched, _⟩⟩ := acquire_cases taken
        · refine ⟨next ▸ Nat.le_succ _, fun e member => .inl ?_⟩
          rwa [sched] at member
        · refine ⟨next ▸ Nat.le_succ _, fun e member => ?_⟩
          rw [sched] at member
          rcases Heap.mem_push.mp member with rfl | before
          · exact .inr (le_refl _)
          · exact .inl before
    | release t => exact absurd trivial hands
    | cancel t =>
        simp only [step] at taken
        split at taken
        · split at taken <;> cases taken <;> exact ⟨le_refl _, fun e => .inl⟩
        · cases taken
    | resume t =>
        simp only [step] at taken
        split at taken
        · cases taken
          exact ⟨le_refl _, fun e => .inl⟩
        · rename_i waiting granted
          exact absurd ⟨waiting, granted⟩ hands
        · cases taken
          exact ⟨le_refl _, fun e => .inl⟩
        · cases taken

/-- Whoever waits after a run has been waiting all along, with the entry that parked it. -/
theorem waits_of_run {as : List (Action C)} {t : Nat} (sound : s.Sound) (called : t < s.next)
    (reach : Machine.run step s as = some s') (waits : s'.Waits t) :
    s.Waits t ∧ ∀ e ∈ s'.sched.wfq.heap, e.item = t → e ∈ s.sched.wfq.heap := by
  induction as generalizing s with
  | nil =>
      cases reach
      exact ⟨waits, fun e member _ => member⟩
  | cons a as ih =>
      obtain ⟨mid, taken, reach⟩ := Machine.run_cons_eq_some.mp reach
      obtain ⟨grows, queue⟩ := queue_of_step sound taken
      obtain ⟨waits, kept⟩ := ih (step_sound sound taken) (called.trans_le grows) reach
      refine ⟨waits_of_step sound called taken waits, fun e member item => ?_⟩
      rcases queue e (kept e member item) with before | new
      · exact before
      · omega

instance (s : Gate C) (a : Action C) : Decidable (s.HandsOver a) :=
  match a with
  | .release _ => inferInstanceAs (Decidable True)
  | .resume _ => inferInstanceAs (Decidable (_ ∧ _))
  | .acquire _ => inferInstanceAs (Decidable False)
  | .cancel _ => inferInstanceAs (Decidable False)

/-- How often a run hands a slot on. -/
def handOvers : Gate C → List (Action C) → Nat
  | _, [] => 0
  | s, a :: as =>
      (if s.HandsOver a then 1 else 0) +
        match s.step a with
        | none => 0
        | some s' => handOvers s' as

/-- While somebody waits, every hand-over is a grant. -/
theorem grants_of_run {as : List (Action C)} {t : Nat} (sound : s.Sound) (called : t < s.next)
    (reach : Machine.run step s as = some s') (waits : s'.Waits t) :
    s'.grants.length = s.grants.length + handOvers s as := by
  induction as generalizing s with
  | nil =>
      cases reach
      rfl
  | cons a as ih =>
      have here := (waits_of_run sound called reach waits).1
      obtain ⟨mid, taken, reach⟩ := Machine.run_cons_eq_some.mp reach
      have grows := (queue_of_step sound taken).1
      have later := ih (step_sound sound taken) (called.trans_le grows) reach
      simp only [handOvers, taken]
      by_cases hands : s.HandsOver a
      · obtain ⟨u, slot, rfl⟩ := handOver_of_step hands taken
        obtain ⟨_, _, ⟨nobody, _⟩ | ⟨e, _, _, _, _, grants, _⟩⟩ := sound.handOver_cases slot
        · exact absurd here (nobody t)
        · rw [later, grants, if_pos hands, List.length_append, List.length_singleton]
          omega
      · rw [later, grants_of_step hands taken, if_neg hands]
        omega

/-! ### The classes of the callers -/

/-- The class an action calls with. -/
def Action.cls? : Action C → Option C
  | .acquire cls => some cls
  | _ => none

/-- The classes of the callers, in the order of their calls. -/
def acquired (as : List (Action C)) : List C := as.filterMap Action.cls?

theorem labelled_of_acquired {as : List (Action C)}
    (agrees : ∀ i c, (acquired as)[i]? = some c → clsOf (s.next + i) = c) :
    Machine.Along step (Labelled clsOf) s as := by
  induction as generalizing s with
  | nil => trivial
  | cons a as ih =>
      cases a with
      | acquire cls =>
          have head : acquired (.acquire cls :: as) = cls :: acquired as := rfl
          rw [head] at agrees
          refine ⟨agrees 0 cls rfl, fun s' taken => ih fun i c found => ?_⟩
          rw [(acquire_cases taken).1, Nat.add_assoc, Nat.add_comm 1]
          exact agrees (i + 1) c found
      | release t =>
          refine ⟨trivial, fun s' taken => ih ?_⟩
          simp only [step] at taken
          split at taken
          · cases taken
            exact agrees
          · cases taken
      | cancel t =>
          refine ⟨trivial, fun s' taken => ih ?_⟩
          simp only [step] at taken
          split at taken
          · split at taken <;> cases taken <;> exact agrees
          · cases taken
      | resume t =>
          refine ⟨trivial, fun s' taken => ih ?_⟩
          simp only [step] at taken
          split at taken <;> cases taken <;> exact agrees

/-- The class of each caller of a run. -/
def classOf (as : List (Action C)) (default : C) (t : Nat) : C := (acquired as).getD t default

theorem labelled_classOf (maxConcurrency : Int) (weights : Dict C ℚ) (defaultWeight cost : ℚ)
    (as : List (Action C)) (default : C) :
    Machine.Along step (Labelled (classOf as default))
      (init maxConcurrency weights defaultWeight cost) as := by
  refine labelled_of_acquired fun i c found => ?_
  simp [classOf, List.getD, init, found]

omit [DecidableEq C] in
theorem classOf_mem {as : List (Action C)} {default : C} {classes : Finset C}
    (known : ∀ c ∈ acquired as, c ∈ classes) (fallback : default ∈ classes) (t : Nat) :
    classOf as default t ∈ classes := by
  rw [classOf, List.getD]
  cases found : (acquired as)[t]? with
  | none => exact fallback
  | some c => exact known c (List.mem_of_getElem? found)

/-- **Bounded waiting.** A request parks, as the `place`-th queued entry of its class. For as long
as it waits, whatever other callers do, somebody holds a slot, and slots have been handed on at
most `place / w` times the sum of the weights of all classes that call, plus once for each of
these classes. -/
theorem bounded_wait {maxConcurrency : Int} {weights : Dict C ℚ} {defaultWeight cost : ℚ}
    (pos : 0 < cost) {before during : List (Action C)} {cls : C} {s mid s' : Gate C}
    {classes : Finset C}
    (reach : Machine.run step (init maxConcurrency weights defaultWeight cost) before = some s)
    (arrives : s.step (.acquire cls) = some mid)
    (later : Machine.run step mid during = some s') (waits : s'.Waits s.next)
    (known : ∀ c ∈ acquired (before ++ .acquire cls :: during), c ∈ classes) :
    let w := fun c => effectiveWeight (weights.getD c defaultWeight)
    let place := mid.sched.wfq.waiting (classOf (before ++ .acquire cls :: during) cls) cls
    (∃ u, s'.HasSlot u) ∧
      (mid.handOvers during : ℚ) ≤ place.length / w cls * ∑ c ∈ classes, w c + classes.card := by
  intro w place
  have sound : s.Sound := Machine.run_invariant
    (fun _ _ _ sound taken => step_sound sound taken) (init_sound ..) reach
  have sound_mid := step_sound sound arrives
  have sound' : s'.Sound := Machine.run_invariant
    (fun _ _ _ sound taken => step_sound sound taken) sound_mid later
  have called : s.next < mid.next := by
    rw [(acquire_cases arrives).1]
    exact Nat.lt_succ_self _
  obtain ⟨entry, queued, item⟩ := sound'.parked waits
  have busy : ∃ u, s'.HasSlot u := by
    by_contra none_holds
    have live : s'.fut entry.item = .pending := by
      rw [item]
      exact waits.2
    have full := sound'.sched.full queued live
    have positive := sound'.sched.positive
    have count := sound'.count
    rw [census_eq_zero_iff.mpr fun u _ slot => none_holds ⟨u, slot⟩] at count
    omega
  refine ⟨busy, ?_⟩
  -- the gate drove its queue to where the request parked, and on from there
  obtain ⟨labelled, labelled'⟩ := (labelled_classOf maxConcurrency weights defaultWeight cost
    (before ++ .acquire cls :: during) cls).of_append
  obtain ⟨own, labelled'⟩ := labelled' s reach
  have conf : (init maxConcurrency weights defaultWeight cost).Configured w cost :=
    ⟨fun _ => rfl, rfl⟩
  obtain ⟨conf, _, _, drives⟩ := run_follows conf labelled reach
  obtain ⟨conf, _, _, enters⟩ := step_follows conf own arrives
  obtain ⟨_, given, grants, driven⟩ := run_follows conf (labelled' mid arrives) later
  have weight_pos : ∀ c, 0 < w c := fun c => WeightedFairQueue.effectiveWeight_pos _
  have fair := (drives.trans enters).fair WeightedFairQueue.fair_empty weight_pos pos.le
  have member : entry ∈ place := by
    refine WeightedFairQueue.mem_waiting.mpr ⟨?_, ?_⟩
    · exact (waits_of_run sound_mid called later waits).2 entry queued item
    · rw [item]
      exact own
  have hands : mid.handOvers during = given.length := by
    have := grants_of_run sound_mid called later waits
    rw [grants, List.length_append] at this
    omega
  have fallback : cls ∈ classes := known cls (by simp [acquired, Action.cls?])
  rw [hands]
  exact driven.length_le fair weight_pos pos member queued fun t _ => classOf_mem known fallback t

/-- Two tiers. -/
def tiers : Dict String ℚ := (Dict.empty.set "gold" 3).set "bronze" 1

/-- Callers of the `gold` tier that pass a `bronze` one; one of them gives up. -/
def passing : List (Action String) :=
  [.acquire "gold", .acquire "gold", .acquire "gold", .cancel 2, .release 0, .resume 3]

theorem bounded_wait_passed : ∃ s mid s' : Gate String,
    Machine.run step (init 1 tiers 1 1) [.acquire "gold"] = some s ∧
      s.step (.acquire "bronze") = some mid ∧ Machine.run step mid passing = some s' ∧
      mid.handOvers passing = 1 ∧ s'.Waits s.next ∧
      (mid.handOvers passing : ℚ) ≤ (mid.sched.wfq.waiting
          (classOf ([.acquire "gold"] ++ .acquire "bronze" :: passing) "bronze") "bronze").length /
        effectiveWeight (tiers.getD "bronze" 1) *
          ∑ c ∈ ({"gold", "bronze"} : Finset String), effectiveWeight (tiers.getD c 1) +
          ({"gold", "bronze"} : Finset String).card := by
  obtain ⟨s, reach, first, found⟩ : ∃ s,
      Machine.run step (init 1 tiers 1 1) [.acquire "gold"] = some s ∧ s.next = 1 ∧
        (s.step (.acquire "bronze")).any (fun mid => mid.handOvers passing = 1 ∧
          (Machine.run step mid passing).any fun s' =>
            s'.caller 1 = .waiting false ∧ s'.fut 1 = .pending) = true :=
    Machine.exists_run (by decide +kernel)
  obtain ⟨mid, arrives, found⟩ := (Option.any_eq_true _ _).mp found
  obtain ⟨once, found⟩ := of_decide_eq_true found
  obtain ⟨s', later, found⟩ := (Option.any_eq_true _ _).mp found
  obtain ⟨waiting, pending⟩ := of_decide_eq_true found
  have waits : s'.Waits s.next := by
    rw [first]
    exact ⟨⟨false, waiting⟩, pending⟩
  refine ⟨s, mid, s', reach, arrives, later, once, waits, ?_⟩
  exact (bounded_wait (by norm_num) reach arrives later waits (by decide)).2

end Gate

end Gateway
