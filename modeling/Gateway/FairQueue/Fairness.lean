import Mathlib.Algebra.Order.Group.Abs
import Mathlib.Data.List.Chain
import Mathlib.Data.List.Infix
import Mathlib.Tactic.Ring
import Gateway.FairQueue.Order

/-!
Weighted fairness of the fair queue.

With a fixed weight per class and a uniform cost `k`, the tags of a class are spaced
by `k / w c`, and its head is within that distance of the virtual time (`Fair`).
Between two moments throughout which a class is backlogged its head moves by
`k / w c` for each item served (`headTag_serve`), so two backlogged classes stay
together (`fair_share`), whatever the other classes do.
-/

namespace Gateway.WeightedFairQueue

variable {C α : Type} [DecidableEq C] (clsOf : α → C) (w : C → ℚ) (k : ℚ)

/-! ### Runs -/

/-- The calls of a queue with a fixed weight per class and a uniform cost. -/
inductive Op (α : Type) where
  | enqueue (x : α)
  | dequeue

/-- One call, with the item it serves. A `dequeue` of an empty queue raises and leaves
the queue as it was. -/
def serve (q : WeightedFairQueue C α) : Op α → WeightedFairQueue C α × Option α
  | .enqueue x => ((q.enqueue x (clsOf x) (w (clsOf x)) k).1, none)
  | .dequeue =>
      match q.dequeue with
      | none => (q, none)
      | some (x, q') => (q', some x)

/-- The queue after a sequence of calls. -/
def runOps (q : WeightedFairQueue C α) (ops : List (Op α)) : WeightedFairQueue C α :=
  ops.foldl (fun q op => (q.serve clsOf w k op).1) q

/-- How many items of class `c` a sequence of calls serves. -/
def servedCount (c : C) : WeightedFairQueue C α → List (Op α) → Nat
  | _, [] => 0
  | q, op :: rest =>
      let (q', x) := q.serve clsOf w k op
      (if x.map clsOf = some c then 1 else 0) + servedCount c q' rest

/-! ### The invariant -/

/-- The tags of every class are spaced by its service time, and its head is within one
service time of the virtual time. -/
structure Fair (q : WeightedFairQueue C α) : Prop where
  tidy : q.Tidy clsOf
  spaced : ∀ c, (q.waiting clsOf c).IsChain fun a b => b.finish = a.finish + k / w c
  near : ∀ {c e}, (q.waiting clsOf c).head? = some e → e.finish ≤ q.vt + k / w c

variable {clsOf w k} {q : WeightedFairQueue C α}

theorem fair_empty : (empty : WeightedFairQueue C α).Fair clsOf w k where
  tidy := tidy_empty
  spaced := fun _ => List.IsChain.nil
  near := fun h => by cases h

theorem Fair.enqueue (fair : q.Fair clsOf w k) (pos : ∀ c, 0 < w c) (nonneg : 0 ≤ k) (x : α) :
    (q.enqueue x (clsOf x) (w (clsOf x)) k).1.Fair clsOf w k := by
  have tidy := fair.tidy
  have tag : q.finishTag (clsOf x) (w (clsOf x)) k =
      max q.vt (q.lastFinish.getD (clsOf x) 0) + k / w (clsOf x) := by
    rw [finishTag, effectiveWeight_of_pos (pos _)]
  refine ⟨tidy.enqueue nonneg, fun c => ?_, fun {c e} head => ?_⟩
  · rw [tidy.waiting_enqueue nonneg]
    split
    · rename_i same
      subst same
      refine List.IsChain.append (fair.spaced _) (List.IsChain.singleton _) ?_
      intro a last b new
      cases new
      have queued : q.waiting clsOf (clsOf x) ≠ [] := by
        rintro none_queued
        rw [none_queued] at last
        cases last
      rw [tidy.newest last, tag, max_eq_right (tidy.vt_le_last queued)]
    · exact fair.spaced c
  · rw [tidy.waiting_enqueue nonneg] at head
    show e.finish ≤ q.vt + k / w c
    split at head
    · rename_i same
      subst same
      cases queued : q.waiting clsOf (clsOf x) with
      | nil =>
          rw [queued] at head
          cases head
          rw [tag, max_eq_left (tidy.idle queued)]
      | cons first rest =>
          rw [queued] at head
          exact fair.near (queued ▸ head)
    · exact fair.near head

theorem Fair.dequeue (fair : q.Fair clsOf w k) {x : α} {q' : WeightedFairQueue C α}
    (taken : q.dequeue = some (x, q')) : q'.Fair clsOf w k := by
  obtain ⟨e, heap, _, _, _, vt⟩ := dequeue_eq_some taken
  have split : ∀ c, q.waiting clsOf c =
      if clsOf e.item = c then e :: q'.waiting clsOf c else q'.waiting clsOf c :=
    fun c => waiting_dequeue heap c
  refine ⟨fair.tidy.dequeue taken, fun c => ?_, fun {c e'} head => ?_⟩
  · have spaced := fair.spaced c
    rw [split] at spaced
    split at spaced
    · exact spaced.tail
    · exact spaced
  · rw [vt]
    by_cases same : clsOf e.item = c
    · have spaced := fair.spaced c
      rw [split, if_pos same] at spaced
      obtain ⟨rest, queued⟩ := List.head?_eq_some_iff.mp head
      rw [queued] at spaced
      have next : e'.finish = e.finish + k / w c := (List.isChain_cons_cons.mp spaced).1
      rw [next]
      exact add_le_add_left (le_max_right _ _) _
    · have before : (q.waiting clsOf c).head? = some e' := by
        rw [split, if_neg same, head]
      exact (fair.near before).trans (add_le_add_left (le_max_left _ _) _)

/-! ### Backlogged classes -/

/-- The tag of the next item of a class; `0` for a class that is not queued. -/
def headTag (clsOf : α → C) (q : WeightedFairQueue C α) (c : C) : ℚ :=
  match q.waiting clsOf c with
  | [] => 0
  | e :: _ => e.finish

theorem serve_dequeue_none (raises : q.dequeue = none) :
    q.serve clsOf w k .dequeue = (q, none) := by
  simp only [WeightedFairQueue.serve, raises]

theorem serve_dequeue_some {x : α} {q' : WeightedFairQueue C α}
    (taken : q.dequeue = some (x, q')) : q.serve clsOf w k .dequeue = (q', some x) := by
  simp only [WeightedFairQueue.serve, taken]

theorem Fair.serve (fair : q.Fair clsOf w k) (pos : ∀ c, 0 < w c) (nonneg : 0 ≤ k) (op : Op α) :
    (q.serve clsOf w k op).1.Fair clsOf w k := by
  cases op with
  | enqueue x => exact fair.enqueue pos nonneg x
  | dequeue =>
      simp only [WeightedFairQueue.serve]
      split
      · exact fair
      · rename_i x q' taken
        exact fair.dequeue taken

theorem Fair.runOps (fair : q.Fair clsOf w k) (pos : ∀ c, 0 < w c) (nonneg : 0 ≤ k)
    (ops : List (Op α)) : (q.runOps clsOf w k ops).Fair clsOf w k := by
  induction ops generalizing q with
  | nil => exact fair
  | cons op rest ih => exact ih (fair.serve pos nonneg op)

/-- The head of a queued class is within one service time of the virtual time. -/
theorem Fair.headTag_mem (fair : q.Fair clsOf w k) {c : C} (queued : q.waiting clsOf c ≠ []) :
    q.vt ≤ q.headTag clsOf c ∧ q.headTag clsOf c ≤ q.vt + k / w c := by
  obtain ⟨e, rest, split⟩ := List.exists_cons_of_ne_nil queued
  have here : q.headTag clsOf c = e.finish := by simp only [headTag, split]
  have member : e ∈ q.waiting clsOf c := split ▸ List.mem_cons_self
  rw [here]
  exact ⟨fair.tidy.ahead (mem_waiting.mp member).1, fair.near (by rw [split]; rfl)⟩

/-- While a class stays queued, its head moves by its service time for each of its
items that is served. -/
theorem Fair.headTag_serve (fair : q.Fair clsOf w k) (nonneg : 0 ≤ k) (op : Op α) {c : C}
    (before : q.waiting clsOf c ≠ []) (after : (q.serve clsOf w k op).1.waiting clsOf c ≠ []) :
    (q.serve clsOf w k op).1.headTag clsOf c = q.headTag clsOf c +
      (if (q.serve clsOf w k op).2.map clsOf = some c then 1 else 0 : Nat) * (k / w c) := by
  obtain ⟨e, rest, split⟩ := List.exists_cons_of_ne_nil before
  cases op with
  | enqueue x =>
      simp only [WeightedFairQueue.serve, headTag, fair.tidy.waiting_enqueue nonneg, split]
      by_cases same : c = clsOf x
      · simp [same]
      · simp [same]
  | dequeue =>
      rcases Option.eq_none_or_eq_some q.dequeue with taken | ⟨⟨x, q'⟩, taken⟩
      · rw [serve_dequeue_none taken]
        simp
      · rw [serve_dequeue_some taken] at after ⊢
        obtain ⟨first, heap, rfl, _⟩ := dequeue_eq_some taken
        have shift : q.waiting clsOf c = if clsOf first.item = c then first :: q'.waiting clsOf c
            else q'.waiting clsOf c := waiting_dequeue heap c
        by_cases same : clsOf first.item = c
        · rw [if_pos same] at shift
          obtain ⟨e', rest', split'⟩ := List.exists_cons_of_ne_nil after
          have spaced := fair.spaced c
          rw [shift, split'] at spaced
          have next : e'.finish = first.finish + k / w c := (List.isChain_cons_cons.mp spaced).1
          simp [headTag, shift, split', next, same]
        · rw [if_neg same] at shift
          simp [headTag, shift, same]

theorem Fair.headTag_runOps (fair : q.Fair clsOf w k) (pos : ∀ c, 0 < w c) (nonneg : 0 ≤ k)
    (ops : List (Op α)) {c : C}
    (queued : ∀ done, done <+: ops → (q.runOps clsOf w k done).waiting clsOf c ≠ []) :
    (q.runOps clsOf w k ops).headTag clsOf c =
      q.headTag clsOf c + q.servedCount clsOf w k c ops * (k / w c) := by
  induction ops generalizing q with
  | nil => simp [WeightedFairQueue.runOps, servedCount]
  | cons op rest ih =>
      have now : q.waiting clsOf c ≠ [] := queued [] List.nil_prefix
      have next : (q.serve clsOf w k op).1.waiting clsOf c ≠ [] :=
        queued [op] ⟨rest, rfl⟩
      have later := ih (fair.serve pos nonneg op) fun done within =>
        queued (op :: done) (List.cons_prefix_cons.mpr ⟨rfl, within⟩)
      show ((q.serve clsOf w k op).1.runOps clsOf w k rest).headTag clsOf c = _
      rw [later, fair.headTag_serve nonneg op now next]
      simp only [servedCount]
      push_cast
      ring

/-- **Weighted fairness.** Over every interval of a run throughout which two classes are
queued, what they are served, measured in service time, differs by at most one service
time of each. -/
theorem fair_share (pos : ∀ c, 0 < w c) (cost : 0 < k) (before during : List (Op α)) (i j : C)
    (backlogged : ∀ done, done <+: during → ∀ c, c = i ∨ c = j →
      ((empty : WeightedFairQueue C α).runOps clsOf w k (before ++ done)).waiting clsOf c ≠ []) :
    let q : WeightedFairQueue C α := empty.runOps clsOf w k before
    |q.servedCount clsOf w k i during * (k / w i) - q.servedCount clsOf w k j during * (k / w j)| ≤
      k / w i + k / w j := by
  intro q
  have fair : q.Fair clsOf w k := fair_empty.runOps pos cost.le before
  have queued : ∀ c, c = i ∨ c = j → ∀ done, done <+: during →
      (q.runOps clsOf w k done).waiting clsOf c ≠ [] := by
    intro c which done within
    have := backlogged done within c which
    rwa [WeightedFairQueue.runOps, List.foldl_append] at this
  have start := fun c which => fair.headTag_mem (queued c which [] List.nil_prefix)
  have finish := fun c which =>
    (fair.runOps pos cost.le during).headTag_mem (queued c which during List.prefix_rfl)
  have moved := fun c which => fair.headTag_runOps pos cost.le during (queued c which)
  have start_i := start i (.inl rfl)
  have start_j := start j (.inr rfl)
  have finish_i := finish i (.inl rfl)
  have finish_j := finish j (.inr rfl)
  have moved_i := moved i (.inl rfl)
  have moved_j := moved j (.inr rfl)
  rw [abs_le]
  constructor <;> linarith

/-- Weights of two tiers. -/
def tierWeight (tier : String) : ℚ := if tier = "gold" then 3 else 1

/-- A backlog of both tiers, with `bronze` queued first. -/
def backlog : List (Op String) :=
  [.enqueue "bronze", .enqueue "bronze", .enqueue "gold", .enqueue "gold", .enqueue "gold",
    .enqueue "gold", .enqueue "gold"]

theorem fair_share_backlog :
    let q : WeightedFairQueue String String := empty.runOps id tierWeight 1 backlog
    let during : List (Op String) := [.dequeue, .dequeue, .dequeue, .dequeue]
    q.servedCount id tierWeight 1 "gold" during = 3 ∧
      q.servedCount id tierWeight 1 "bronze" during = 1 ∧
      |(q.servedCount id tierWeight 1 "gold" during : ℚ) * (1 / tierWeight "gold") -
          q.servedCount id tierWeight 1 "bronze" during * (1 / tierWeight "bronze")| ≤
        1 / tierWeight "gold" + 1 / tierWeight "bronze" := by
  have pos : ∀ tier, 0 < tierWeight tier := by
    intro tier
    rw [tierWeight]
    split <;> decide +kernel
  intro q during
  refine ⟨by decide +kernel, by decide +kernel, ?_⟩
  refine fair_share pos (by decide +kernel) backlog during "gold" "bronze" ?_
  intro done within
  have one_of := (List.mem_inits _ _).mpr within
  simp only [during, List.inits, List.map_cons, List.map_nil, List.mem_cons, List.not_mem_nil,
    or_false] at one_of
  rcases one_of with rfl | rfl | rfl | rfl | rfl <;> rintro c (rfl | rfl) <;> decide +kernel

end Gateway.WeightedFairQueue
