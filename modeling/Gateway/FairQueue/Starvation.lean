import Mathlib.Algebra.Order.Floor.Defs
import Mathlib.Data.Rat.Floor
import Gateway.FairQueue.Fairness

/-!
No class of the fair queue is starved, whatever is enqueued before or after.

An item is tagged at most its place in the queue of its class times the service time of the
class ahead of the virtual time (`Fair.finish_le`). What another class is served meanwhile is
spaced by its own service time and begins at the virtual time of the enqueue (`Paced`), and
nothing is served that is tagged later than a queued item. So its share is bounded by the
weights alone (`no_starvation`).
-/

namespace Gateway.WeightedFairQueue

variable {C α : Type} [DecidableEq C] {clsOf : α → C} {w : C → ℚ} {k : ℚ}
  {q : WeightedFairQueue C α}

/-! ### The tag of a queued item -/

/-- A chain of entries that are spaced by `d`. -/
theorem finish_getLast {d : ℚ} (first : Tagged α) (rest : List (Tagged α)) {last : Tagged α}
    (spaced : (first :: rest).IsChain fun a b => b.finish = a.finish + d)
    (at_end : (first :: rest).getLast? = some last) :
    last.finish = first.finish + rest.length * d := by
  induction rest generalizing first with
  | nil =>
      cases at_end
      simp
  | cons second rest ih =>
      obtain ⟨next, spaced⟩ := List.isChain_cons_cons.mp spaced
      rw [List.getLast?_cons_cons] at at_end
      rw [ih second spaced at_end, next, List.length_cons]
      push_cast
      ring

/-- The last entry of a class is tagged at most its place in the queue of the class ahead. -/
theorem Fair.finish_le (fair : q.Fair clsOf w k) {c : C} {e : Tagged α}
    (last : (q.waiting clsOf c).getLast? = some e) :
    e.finish ≤ q.vt + (q.waiting clsOf c).length * (k / w c) := by
  obtain ⟨first, rest, queued⟩ : ∃ first rest, q.waiting clsOf c = first :: rest := by
    refine List.exists_cons_of_ne_nil ?_
    rintro empty
    rw [empty] at last
    cases last
  have spaced := fair.spaced c
  have near : first.finish ≤ q.vt + k / w c := fair.near (by rw [queued]; rfl)
  rw [queued] at spaced last ⊢
  rw [finish_getLast first rest spaced last, List.length_cons]
  push_cast
  linarith

/-! ### The pace of a class -/

/-- Since the virtual time was `start`, a class has been served `n` items: its queued entries
are tagged `n` service times later, and the virtual time is less than one service time
behind that. -/
structure Paced (clsOf : α → C) (start d : ℚ) (c : C) (n : Nat) (q : WeightedFairQueue C α) :
    Prop where
  queued : ∀ e ∈ q.waiting clsOf c, start + n * d ≤ e.finish
  vt : start + n * d ≤ q.vt + d

theorem Paced.enqueue {start : ℚ} {c : C} {n : Nat} (paced : Paced clsOf start (k / w c) c n q)
    (tidy : q.Tidy clsOf) (pos : ∀ c, 0 < w c) (nonneg : 0 ≤ k) (x : α) :
    Paced clsOf start (k / w c) c n (q.enqueue x (clsOf x) (w (clsOf x)) k).1 := by
  refine ⟨?_, paced.vt⟩
  intro e member
  rw [tidy.waiting_enqueue nonneg] at member
  split at member
  · rename_i same
    subst same
    rcases List.mem_append.mp member with before | new
    · exact paced.queued e before
    · rw [List.mem_singleton.mp new]
      have later := le_max_left q.vt (q.lastFinish.getD (clsOf x) 0)
      have behind := paced.vt
      show _ ≤ q.finishTag (clsOf x) (w (clsOf x)) k
      rw [finishTag, effectiveWeight_of_pos (pos _)]
      linarith
  · exact paced.queued e member

/-- An item of the class is served. -/
theorem Paced.serve_own {start : ℚ} {c : C} {n : Nat} (paced : Paced clsOf start (k / w c) c n q)
    (fair : q.Fair clsOf w k) {e : Tagged α} {q' : WeightedFairQueue C α}
    (heap : q.heap = e :: q'.heap) (vt : q'.vt = max q.vt e.finish) (own : clsOf e.item = c) :
    Paced clsOf start (k / w c) c (n + 1) q' := by
  have shift : q.waiting clsOf c = e :: q'.waiting clsOf c := by
    rw [waiting_dequeue heap, if_pos own]
  have reached : start + n * (k / w c) ≤ e.finish :=
    paced.queued e (by rw [shift]; exact List.mem_cons_self)
  have spaced := fair.spaced c
  have sorted := fair.tidy.sorted_waiting c
  rw [shift] at spaced sorted
  constructor
  · intro e' member
    obtain ⟨second, rest, split⟩ := List.exists_cons_of_ne_nil (List.ne_nil_of_mem member)
    rw [split] at spaced sorted member
    have next : second.finish = e.finish + k / w c := (List.isChain_cons_cons.mp spaced).1
    have later : second.finish ≤ e'.finish := by
      rcases List.mem_cons.mp member with rfl | behind
      · exact le_refl _
      · exact finish_le_of_key_lt (sorted.of_cons.head_lt behind)
    push_cast
    linarith
  · rw [vt]
    have := le_max_right q.vt e.finish
    push_cast
    linarith

/-- An item of another class is served. -/
theorem Paced.serve_other {start : ℚ} {d : ℚ} {c : C} {n : Nat} (paced : Paced clsOf start d c n q)
    {e : Tagged α} {q' : WeightedFairQueue C α} (heap : q.heap = e :: q'.heap)
    (vt : q'.vt = max q.vt e.finish) (other : clsOf e.item ≠ c) : Paced clsOf start d c n q' := by
  have shift : q.waiting clsOf c = q'.waiting clsOf c := by
    rw [waiting_dequeue heap, if_neg other]
  refine ⟨?_, ?_⟩
  · rw [← shift]
    exact paced.queued
  · rw [vt]
    have := paced.vt
    have := le_max_left q.vt e.finish
    linarith

/-- One call. -/
theorem Paced.serve {start : ℚ} {c : C} {n : Nat} (paced : Paced clsOf start (k / w c) c n q)
    (fair : q.Fair clsOf w k) (pos : ∀ c, 0 < w c) (nonneg : 0 ≤ k) (op : Op α) :
    Paced clsOf start (k / w c) c
      (n + if (q.serve clsOf w k op).2.map clsOf = some c then 1 else 0)
      (q.serve clsOf w k op).1 := by
  cases op with
  | enqueue x => exact paced.enqueue fair.tidy pos nonneg x
  | dequeue =>
      rcases Option.eq_none_or_eq_some q.dequeue with taken | ⟨⟨x, q'⟩, taken⟩
      · rw [serve_dequeue_none taken]
        exact paced
      · rw [serve_dequeue_some taken]
        obtain ⟨e, heap, rfl, -, -, vt⟩ := dequeue_eq_some taken
        by_cases own : clsOf e.item = c
        · simpa [own] using paced.serve_own fair heap vt own
        · simpa [own] using paced.serve_other heap vt own

theorem Paced.runOps {start : ℚ} {c : C} {n : Nat} (paced : Paced clsOf start (k / w c) c n q)
    (fair : q.Fair clsOf w k) (pos : ∀ c, 0 < w c) (nonneg : 0 ≤ k) (ops : List (Op α)) :
    Paced clsOf start (k / w c) c (n + q.servedCount clsOf w k c ops) (q.runOps clsOf w k ops) := by
  induction ops generalizing q n with
  | nil => exact paced
  | cons op rest ih =>
      have later := ih (paced.serve fair pos nonneg op) (fair.serve pos nonneg op)
      rw [Nat.add_assoc] at later
      exact later

/-! ### The bound -/

/-- **No starvation.** In any run with a weight per class and a uniform cost, an item is
enqueued and is then the last of the `n` waiting items of its class. As long as it is queued, no
other class is served more than `⌊n * w i / w j⌋ + 1` items, whatever was enqueued before and
whatever is enqueued after it. -/
theorem no_starvation (pos : ∀ c, 0 < w c) (cost : 0 < k) (before during : List (Op α)) (x : α)
    (i : C) :
    let q : WeightedFairQueue C α := empty.runOps clsOf w k before
    let entry : Tagged α := ⟨q.finishTag (clsOf x) (w (clsOf x)) k, q.seq, x⟩
    let after : WeightedFairQueue C α := (q.serve clsOf w k (.enqueue x)).1
    entry ∈ (after.runOps clsOf w k during).heap →
      (after.servedCount clsOf w k i during : ℤ) ≤
        ⌊(after.waiting clsOf (clsOf x)).length * w i / w (clsOf x)⌋ + 1 := by
  intro q entry after queued
  have fair : q.Fair clsOf w k := fair_empty.runOps pos cost.le before
  have fair' : after.Fair clsOf w k := fair.serve pos cost.le (.enqueue x)
  have last : (after.waiting clsOf (clsOf x)).getLast? = some entry := by
    show ((q.enqueue x (clsOf x) (w (clsOf x)) k).1.waiting clsOf (clsOf x)).getLast? = _
    rw [fair.tidy.waiting_enqueue cost.le, if_pos rfl]
    simp [entry]
  have tagged := fair'.finish_le last
  have fresh : Paced clsOf after.vt (k / w i) i 0 after := by
    constructor
    · intro e member
      simpa using fair'.tidy.ahead (mem_waiting.mp member).1
    · have := div_nonneg cost.le (pos i).le
      simpa using this
  have paced := fresh.runOps fair' pos cost.le during
  -- nothing that is tagged later than a queued item has been served
  have ahead := (fair'.runOps pos cost.le during).tidy.ahead queued
  have bound := paced.vt
  rw [Nat.zero_add] at bound
  generalize after.servedCount clsOf w k i during = served at bound ⊢
  generalize (after.waiting clsOf (clsOf x)).length = place at tagged ⊢
  have times : (served : ℚ) * (k / w i) ≤ place * (k / w (clsOf x)) + k / w i := by linarith
  have share : (served : ℚ) - 1 ≤ place * w i / w (clsOf x) := by
    have scaled := mul_le_mul_of_nonneg_right times (div_nonneg (pos i).le cost.le)
    have own_time : k / w i * (w i / k) = 1 := by
      field_simp [(pos i).ne', cost.ne']
    have other_time : k / w (clsOf x) * (w i / k) = w i / w (clsOf x) := by
      field_simp [(pos (clsOf x)).ne', cost.ne']
    calc (served : ℚ) - 1 = served * (k / w i) * (w i / k) - k / w i * (w i / k) := by
          rw [mul_assoc, own_time, mul_one]
      _ ≤ (place * (k / w (clsOf x)) + k / w i) * (w i / k) - k / w i * (w i / k) := by linarith
      _ = place * (k / w (clsOf x) * (w i / k)) := by ring
      _ = place * w i / w (clsOf x) := by rw [other_time]; ring
  have floor : (served : ℤ) - 1 ≤ ⌊(place : ℚ) * w i / w (clsOf x)⌋ := by
    rw [Int.le_floor]
    push_cast
    exact share
  omega

/-- A `bronze` item behind another, and a flood of `gold` ones after it. -/
theorem no_starvation_flood :
    let q : WeightedFairQueue String String := empty.runOps id tierWeight 1 [.enqueue "bronze"]
    let after := (q.serve id tierWeight 1 (.enqueue "bronze")).1
    let flood : List (Op String) := List.replicate 9 (.enqueue "gold") ++ List.replicate 6 .dequeue
    after.servedCount id tierWeight 1 "gold" flood = 5 ∧
      (after.servedCount id tierWeight 1 "gold" flood : ℤ) ≤
        ⌊(after.waiting id "bronze").length * tierWeight "gold" / tierWeight "bronze"⌋ + 1 := by
  intro q after flood
  have pos : ∀ tier, 0 < tierWeight tier := by
    intro tier
    rw [tierWeight]
    split <;> norm_num
  refine ⟨by decide +kernel, ?_⟩
  exact no_starvation pos (by norm_num) [.enqueue "bronze"] flood "bronze" "gold" (by decide +kernel)

end Gateway.WeightedFairQueue
