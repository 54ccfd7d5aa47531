import Mathlib.Algebra.Order.BigOperators.Group.List
import Mathlib.Algebra.Order.Field.Basic
import Mathlib.Data.List.Induction
import Mathlib.Data.List.Nodup
import Mathlib.Tactic.Linarith
import Mathlib.Tactic.FieldSimp
import Mathlib.Tactic.Ring

/-!
Jobs placed on machines one after the other.

A job may take less than its cost where it is placed, and the rule that places it may be off by a
slack. Such a list of placements is compared with any other assignment of the jobs, in which every
job takes its whole cost.

* `sum_loadAt`: the machines carry together what they started with and the work of the jobs.
* `Greedy`: every job went where it ends soonest, up to the slack.
* `Greedy.loadAt_le`: no machine is busy for longer than `2 - 1 / n` times as long as the busiest of
  the other assignment, and the slack.
-/

namespace Gateway.ListScheduling

variable {J M α : Type*} [DecidableEq M]

section Loads

variable [AddCommMonoid α]

/-- How long a machine is busy, which starts with some work and gets some of the jobs. -/
def loadAt (start : M → α) (place : J → M) (work : J → α) (jobs : List J) (m : M) : α :=
  start m + ((jobs.filter fun j => place j = m).map work).sum

variable (start : M → α) (place : J → M) (work : J → α)

@[simp] theorem loadAt_nil (m : M) : loadAt start place work [] m = start m := by
  simp [loadAt]

theorem loadAt_concat (jobs : List J) (j : J) (m : M) :
    loadAt start place work (jobs ++ [j]) m =
      loadAt start place work jobs m + if place j = m then work j else 0 := by
  by_cases here : place j = m
  · simp [loadAt, List.filter_append, here, add_assoc]
  · simp [loadAt, List.filter_append, here]

theorem loadAt_map {I : Type*} (name : I → J) (jobs : List I) (m : M) :
    loadAt start place work (jobs.map name) m =
      loadAt start (fun i => place (name i)) (fun i => work (name i)) jobs m := by
  simp [loadAt, List.filter_map, Function.comp_def]

theorem sum_map_ite {machines : List M} (distinct : machines.Nodup) {m : M}
    (member : m ∈ machines) (w : α) :
    (machines.map fun m' => if m = m' then w else 0).sum = w := by
  induction machines with
  | nil => cases member
  | cons first machines ih =>
      obtain ⟨absent, distinct⟩ := List.nodup_cons.mp distinct
      rw [List.map_cons, List.sum_cons]
      rcases List.mem_cons.mp member with rfl | member
      · have none_else : machines.map (fun m' => if m = m' then w else 0) =
            machines.map fun _ => 0 :=
          List.map_congr_left fun m' other => if_neg fun same : m = m' => absent (same ▸ other)
        rw [if_pos rfl, none_else]
        simp
      · have elsewhere : ¬ m = first := fun same => absent (same ▸ member)
        rw [if_neg elsewhere, zero_add, ih distinct member]

/-- The machines carry together what they started with and the work of the jobs. -/
theorem sum_loadAt {machines : List M} (distinct : machines.Nodup) {jobs : List J}
    (placed : ∀ j ∈ jobs, place j ∈ machines) :
    (machines.map (loadAt start place work jobs)).sum =
      (machines.map start).sum + (jobs.map work).sum := by
  induction jobs using List.reverseRecOn with
  | nil =>
      rw [List.map_congr_left fun m _ => loadAt_nil start place work m, List.map_nil, List.sum_nil,
        add_zero]
  | append_singleton jobs j ih =>
      have before := ih fun j' member => placed j' (List.mem_append_left _ member)
      have here : place j ∈ machines := placed j (by simp)
      rw [List.map_congr_left fun m _ => loadAt_concat start place work jobs j m, List.sum_map_add,
        before, sum_map_ite distinct here, List.map_append, List.sum_append, List.map_singleton,
        List.sum_singleton, add_assoc]

end Loads

section Bounds

variable [Field α] [LinearOrder α] [IsStrictOrderedRing α]

/-- Every job went to a machine on which it ends no later than on any of the free ones, up to the
slack. -/
def Greedy (start : M → α) (place : J → M) (work cost : J → α) (free : List M) (slack : α)
    (jobs : List J) : Prop :=
  ∀ before j after, jobs = before ++ j :: after → ∀ m ∈ free,
    loadAt start place work before (place j) + work j ≤
      loadAt start place work before m + cost j + slack

variable {start : M → α} {place other : J → M} {work cost : J → α} {free : List M} {slack span : α}
  {jobs : List J}

omit [IsStrictOrderedRing α] in
theorem Greedy.nil : Greedy start place work cost free slack ([] : List J) :=
  fun _ _ _ parts => absurd parts.symm (by simp)

omit [IsStrictOrderedRing α] in
/-- One more job. -/
theorem Greedy.concat (greedy : Greedy start place work cost free slack jobs) {j : J}
    (soonest : ∀ m ∈ free, loadAt start place work jobs (place j) + work j ≤
      loadAt start place work jobs m + cost j + slack) :
    Greedy start place work cost free slack (jobs ++ [j]) := by
  intro before j' after parts
  rcases List.eq_nil_or_concat after with rfl | ⟨after, last, rfl⟩
  · obtain ⟨rfl, same⟩ := List.append_inj' parts rfl
    obtain rfl := List.singleton_inj.mp same
    exact soonest
  · rw [List.concat_eq_append, ← List.cons_append, ← List.append_assoc] at parts
    exact greedy before j' after (List.append_inj' parts rfl).1

theorem start_le_loadAt {jobs : List J} (nonneg : ∀ j ∈ jobs, 0 ≤ cost j) {m : M} :
    start m ≤ loadAt start other cost jobs m := by
  have more : 0 ≤ ((jobs.filter fun j => other j = m).map cost).sum := by
    refine List.sum_nonneg fun c inside => ?_
    obtain ⟨j, kept, rfl⟩ := List.mem_map.mp inside
    exact nonneg j (List.mem_filter.mp kept).1
  exact le_add_of_nonneg_right more

/-- A machine is busy at least as long as with any one of its jobs. -/
theorem cost_le_loadAt {jobs : List J} (idle : ∀ m, 0 ≤ start m) (nonneg : ∀ j ∈ jobs, 0 ≤ cost j)
    {j : J} (member : j ∈ jobs) : cost j ≤ loadAt start other cost jobs (other j) := by
  have one : cost j ≤ ((jobs.filter fun j' => other j' = other j).map cost).sum := by
    refine List.single_le_sum ?_ _ (List.mem_map_of_mem (List.mem_filter.mpr ⟨member, by simp⟩))
    intro c inside
    obtain ⟨j', kept, rfl⟩ := List.mem_map.mp inside
    exact nonneg j' (List.mem_filter.mp kept).1
  have begun := idle (other j)
  unfold loadAt
  linarith

/-- The average of the machines is no more than the busiest of them. -/
theorem sum_le_of_loadAt_le (distinct : free.Nodup) (assigned : ∀ j ∈ jobs, other j ∈ free)
    (bounded : ∀ m ∈ free, loadAt start other cost jobs m ≤ span) :
    (free.map start).sum + (jobs.map cost).sum ≤ free.length * span := by
  rw [← sum_loadAt start other cost distinct assigned]
  have each : ∀ c ∈ free.map (loadAt start other cost jobs), c ≤ span := by
    intro c inside
    obtain ⟨m, member, rfl⟩ := List.mem_map.mp inside
    exact bounded m member
  have total := List.sum_le_card_nsmul _ span each
  rwa [List.length_map, nsmul_eq_mul] at total

/-- A job that goes where it ends soonest starts no later than the machines are busy on average. -/
theorem Greedy.length_mul_le (greedy : Greedy start place work cost free slack jobs)
    {before : List J} {j : J} {after : List J} (parts : jobs = before ++ j :: after) :
    free.length * (loadAt start place work before (place j) + work j) ≤
      (free.map (loadAt start place work before)).sum + free.length * (cost j + slack) := by
  have each : ∀ m ∈ free, loadAt start place work before (place j) + work j - (cost j + slack) ≤
      loadAt start place work before m := by
    intro m member
    have here := greedy before j after parts m member
    linarith
  have total : (free.map fun _ => loadAt start place work before (place j) + work j -
      (cost j + slack)).sum ≤ (free.map (loadAt start place work before)).sum :=
    List.sum_le_sum each
  rw [List.map_const', List.sum_replicate, nsmul_eq_mul, mul_sub] at total
  linarith

/-- **List scheduling.** -/
theorem Greedy.loadAt_le (greedy : Greedy start place work cost free slack jobs)
    (distinct : free.Nodup) (idle : ∀ m, 0 ≤ start m) (placed : ∀ j ∈ jobs, place j ∈ free)
    (less : ∀ j ∈ jobs, work j ≤ cost j) (nonneg : ∀ j ∈ jobs, 0 ≤ cost j) (no_debt : 0 ≤ slack)
    (assigned : ∀ j ∈ jobs, other j ∈ free) (some_free : free ≠ [])
    (bounded : ∀ m ∈ free, loadAt start other cost jobs m ≤ span) {m : M} (begun : start m ≤ span) :
    loadAt start place work jobs m ≤ (2 - 1 / free.length) * span + slack := by
  have positive : (0 : α) < free.length := by exact_mod_cast List.length_pos_iff.mpr some_free
  have one_le : (1 : α) ≤ free.length := by exact_mod_cast List.length_pos_iff.mpr some_free
  have span_nonneg : 0 ≤ span := (idle m).trans begun
  have average := sum_le_of_loadAt_le distinct assigned bounded
  suffices all : ∀ done rest, jobs = done ++ rest →
      loadAt start place work done m ≤ (2 - 1 / free.length) * span + slack from
    all jobs [] (List.append_nil _).symm
  intro done
  -- the last job that the machine got decides when it ends
  induction done using List.reverseRecOn with
  | nil =>
      intro rest _
      have factor : (1 : α) ≤ 2 - 1 / free.length := by
        have small : 1 / (free.length : α) ≤ 1 := by rwa [div_le_one positive]
        linarith
      have scaled : 1 * span ≤ (2 - 1 / free.length) * span :=
        mul_le_mul_of_nonneg_right factor span_nonneg
      rw [loadAt_nil]
      linarith
  | append_singleton done j ih =>
      intro rest parts
      have parts : jobs = done ++ j :: rest := by rw [parts, List.append_assoc, List.singleton_append]
      rw [loadAt_concat]
      by_cases here : place j = m
      · rw [if_pos here, ← here]
        have soonest := greedy.length_mul_le parts
        rw [sum_loadAt start place work distinct fun j' member =>
          placed j' (parts ▸ List.mem_append_left _ member)] at soonest
        have earlier : (done.map work).sum ≤ (done.map cost).sum :=
          List.sum_le_sum fun j' member => less j' (parts ▸ List.mem_append_left _ member)
        have later : 0 ≤ (rest.map cost).sum := by
          refine List.sum_nonneg fun c inside => ?_
          obtain ⟨j', member, rfl⟩ := List.mem_map.mp inside
          exact nonneg j' (parts ▸ List.mem_append_right _ (List.mem_cons_of_mem _ member))
        have all : (jobs.map cost).sum = (done.map cost).sum + (cost j + (rest.map cost).sum) := by
          rw [parts, List.map_append, List.sum_append, List.map_cons, List.sum_cons]
        have inside : j ∈ jobs := by simp [parts]
        have longest : cost j ≤ span :=
          (cost_le_loadAt idle nonneg inside).trans (bounded _ (assigned j inside))
        have others : (free.length - 1) * cost j ≤ (free.length - 1) * span :=
          mul_le_mul_of_nonneg_left longest (sub_nonneg.mpr one_le)
        have ends : (2 - 1 / free.length) * span + slack =
            ((2 * free.length - 1) * span + free.length * slack) / free.length := by
          field_simp
        rw [ends, le_div_iff₀ positive]
        calc (loadAt start place work done (place j) + work j) * free.length
            _ ≤ (free.map start).sum + (done.map cost).sum + free.length * (cost j + slack) := by
              linarith
            _ ≤ free.length * span + (free.length - 1) * cost j + free.length * slack := by
              rw [all] at average
              linarith
            _ ≤ (2 * free.length - 1) * span + free.length * slack := by linarith
      · rw [if_neg here, add_zero]
        exact ih _ parts

end Bounds

end Gateway.ListScheduling
