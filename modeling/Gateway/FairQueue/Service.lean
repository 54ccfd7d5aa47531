import Gateway.FairQueue.Order

/-!
Whole runs of the fair queue, with any classes, weights and costs that are not negative.

Items are arbitrary objects, and the queue does not store their classes. A run is followed
on a second queue whose items are the arrivals themselves (`map_enqueue`, `map_dequeue`),
where `Tidy` applies. `run_orderly`: nothing is lost, every class is served in the order of
its arrivals, and tags are served in increasing order.
-/

namespace Gateway.WeightedFairQueue

/-! ### Runs -/

/-- The arguments of an `enqueue`. -/
structure Arrival (C α : Type) where
  item : α
  cls : C
  weight : ℚ
  cost : ℚ

/-- A call of the queue. -/
inductive Call (C α : Type) where
  | enqueue (a : Arrival C α)
  | dequeue

/-- The queue after some calls: what was enqueued, the entries popped and the items
returned, each in order. -/
structure Log (C α : Type) where
  queue : WeightedFairQueue C α
  arrived : List (Arrival C α)
  served : List (Tagged α)
  returned : List α

namespace Log

variable {C α : Type} [DecidableEq C]

def init : Log C α := ⟨empty, [], [], []⟩

/-- A `dequeue` of an empty queue raises and leaves it as it is. -/
def step (t : Log C α) : Call C α → Log C α
  | .enqueue a =>
      { t with
        queue := (t.queue.enqueue a.item a.cls a.weight a.cost).1
        arrived := t.arrived ++ [a] }
  | .dequeue =>
      match t.queue.dequeue with
      | none => t
      | some (item, q) =>
          { t with
            queue := q
            served := t.served ++ t.queue.heap.head?.toList
            returned := t.returned ++ [item] }

def run (calls : List (Call C α)) : Log C α := calls.foldl step init

/-- The class under which an entry was enqueued; the entry numbered `n` is arrival `n`. -/
def classOf (t : Log C α) (e : Tagged α) : Option C := (t.arrived[e.seq]?).map Arrival.cls

/-- What a run owes to its callers. -/
structure Orderly (t : Log C α) : Prop where
  returned : t.returned = t.served.map Tagged.item
  conserved : (t.returned ++ t.queue.heap.map Tagged.item).Perm (t.arrived.map Arrival.item)
  numbered : ∀ e ∈ t.served ++ t.queue.heap,
    (t.arrived[e.seq]?).map Arrival.item = some e.item
  fifo : ∀ c, ((t.served ++ t.queue.heap).filter fun e => t.classOf e = some c).map Tagged.item =
    (t.arrived.filter fun a => a.cls = c).map Arrival.item
  rising : (t.served.map Tagged.finish).Pairwise (· ≤ ·)
  ahead : ∀ e ∈ t.queue.heap, t.queue.vt ≤ e.finish

end Log

/-! ### Relabelling the items -/

section Relabel

variable {C α β : Type} (f : α → β)

/-- An entry for another item. -/
def relabel (e : Tagged α) : Tagged β := ⟨e.finish, e.seq, f e.item⟩

/-- The queue with other items in it. -/
def map (q : WeightedFairQueue C α) : WeightedFairQueue C β :=
  { q with heap := q.heap.map (relabel f) }

theorem map_enqueue [DecidableEq C] (q : WeightedFairQueue C α) (x : α) (cls : C)
    (weight cost : ℚ) :
    ((q.map f).enqueue (f x) cls weight cost).1 = (q.enqueue x cls weight cost).1.map f := by
  have pushed : Heap.push Tagged.key (relabel f ⟨q.finishTag cls weight cost, q.seq, x⟩)
      (q.heap.map (relabel f)) =
        (Heap.push Tagged.key ⟨q.finishTag cls weight cost, q.seq, x⟩ q.heap).map (relabel f) :=
    Heap.push_map (relabel f) (fun _ => rfl) _ _
  simp only [enqueue, map, ← pushed]
  rfl

theorem map_dequeue (q : WeightedFairQueue C α) :
    (q.map f).dequeue = q.dequeue.map fun taken => (f taken.1, taken.2.map f) := by
  simp only [dequeue, map]
  cases q.heap with
  | nil => rfl
  | cons e rest => rfl

end Relabel

/-! ### The invariant of a run -/

namespace Log

variable {C α : Type} [DecidableEq C]

/-- A run followed on a queue of arrivals: `served` are the entries it has popped. -/
structure Tracked (t : Log C α) (q : WeightedFairQueue C (Arrival C α))
    (served : List (Tagged (Arrival C α))) : Prop where
  queue : t.queue = q.map Arrival.item
  popped : t.served = served.map (relabel Arrival.item)
  returned : t.returned = served.map fun e => e.item.item
  tidy : q.Tidy Arrival.cls
  next : q.seq = t.arrived.length
  numbered : ∀ e ∈ served ++ q.heap, t.arrived[e.seq]? = some e.item
  conserved : ((served ++ q.heap).map Tagged.item).Perm t.arrived
  fifo : ∀ c, (served.filter (fun e => e.item.cls = c) ++ q.waiting Arrival.cls c).map Tagged.item =
    t.arrived.filter fun a => a.cls = c
  rising : (served.map Tagged.finish).Pairwise (· ≤ ·)
  past : ∀ e ∈ served, e.finish ≤ q.vt

variable {t : Log C α} {q : WeightedFairQueue C (Arrival C α)}
  {served : List (Tagged (Arrival C α))}

theorem tracked_init : (init : Log C α).Tracked empty [] where
  queue := rfl
  popped := rfl
  returned := rfl
  tidy := tidy_empty
  next := rfl
  numbered := by
    intro e member
    cases member
  conserved := .refl _
  fifo := fun _ => rfl
  rising := List.Pairwise.nil
  past := by
    intro e member
    cases member

theorem Tracked.enqueue (tracked : t.Tracked q served) {a : Arrival C α} (nonneg : 0 ≤ a.cost) :
    (t.step (.enqueue a)).Tracked (q.enqueue a a.cls a.weight a.cost).1 served where
  queue := by
    show (t.queue.enqueue a.item a.cls a.weight a.cost).1 = _
    rw [tracked.queue, map_enqueue]
  popped := tracked.popped
  returned := tracked.returned
  tidy := tracked.tidy.enqueue nonneg
  next := by
    show q.seq + 1 = (t.arrived ++ [a]).length
    rw [tracked.next, List.length_append, List.length_singleton]
  numbered := by
    intro e member
    show (t.arrived ++ [a])[e.seq]? = some e.item
    have old (here : e ∈ served ++ q.heap) : (t.arrived ++ [a])[e.seq]? = some e.item := by
      have place := tracked.numbered e here
      rw [List.getElem?_append_left (List.getElem?_eq_some_iff.mp place).1, place]
    rcases List.mem_append.mp member with before | queued
    · exact old (List.mem_append_left _ before)
    · rcases Heap.mem_push.mp queued with rfl | queued
      · show (t.arrived ++ [a])[q.seq]? = some a
        rw [tracked.next, List.getElem?_concat_length]
      · exact old (List.mem_append_right _ queued)
  conserved := by
    have pushed : ((q.enqueue a a.cls a.weight a.cost).1.heap.map Tagged.item).Perm
        (a :: q.heap.map Tagged.item) := (Heap.perm_push _ q.heap).map Tagged.item
    have before := tracked.conserved
    rw [List.map_append] at before ⊢
    have last := (List.perm_append_singleton a t.arrived).symm
    exact (pushed.append_left _).trans (List.perm_middle.trans ((before.cons a).trans last))
  fifo := by
    intro c
    show _ = (t.arrived ++ [a]).filter fun a => a.cls = c
    rw [tracked.tidy.waiting_enqueue nonneg, List.filter_append, ← tracked.fifo c]
    by_cases same : c = a.cls
    · rw [if_pos same, ← List.append_assoc, List.map_append]
      simp [same]
    · rw [if_neg same]
      simp [Ne.symm same]
  rising := tracked.rising
  past := tracked.past

/-- What a `dequeue` does to the log. -/
theorem Tracked.step_dequeue (tracked : t.Tracked q served) {e : Tagged (Arrival C α)}
    {q' : WeightedFairQueue C (Arrival C α)} (taken : q.dequeue = some (e.item, q'))
    (heap : q.heap = e :: q'.heap) :
    t.step .dequeue =
      ⟨q'.map Arrival.item, t.arrived, t.served ++ [relabel Arrival.item e],
        t.returned ++ [e.item.item]⟩ := by
  have called : t.queue.dequeue = some (e.item.item, q'.map Arrival.item) := by
    rw [tracked.queue, map_dequeue, taken]
    rfl
  have head : t.queue.heap.head?.toList = [relabel Arrival.item e] := by
    rw [tracked.queue]
    show (q.heap.map (relabel Arrival.item)).head?.toList = _
    rw [heap]
    rfl
  simp only [step, called, head]

/-- The entry popped has the greatest tag so far. -/
theorem Tracked.rising_concat (tracked : t.Tracked q served) {e : Tagged (Arrival C α)}
    (queued : e ∈ q.heap) : ((served ++ [e]).map Tagged.finish).Pairwise (· ≤ ·) := by
  rw [List.map_append, List.map_singleton]
  refine List.pairwise_append.mpr ⟨tracked.rising, List.pairwise_singleton _ _, ?_⟩
  intro x before y new
  obtain ⟨e', member, rfl⟩ := List.mem_map.mp before
  rw [List.mem_singleton.mp new]
  exact (tracked.past e' member).trans (tracked.tidy.ahead queued)

theorem Tracked.dequeue (tracked : t.Tracked q served) {e : Tagged (Arrival C α)}
    {q' : WeightedFairQueue C (Arrival C α)} (taken : q.dequeue = some (e.item, q'))
    (heap : q.heap = e :: q'.heap) (vt : q'.vt = max q.vt e.finish) (seq : q'.seq = q.seq) :
    (t.step .dequeue).Tracked q' (served ++ [e]) := by
  have moved : (served ++ [e]) ++ q'.heap = served ++ q.heap := by rw [heap]; simp
  rw [tracked.step_dequeue taken heap]
  exact {
    queue := rfl
    popped := by rw [tracked.popped, List.map_append, List.map_singleton]
    returned := by rw [tracked.returned, List.map_append, List.map_singleton]
    tidy := tracked.tidy.dequeue taken
    next := seq.trans tracked.next
    numbered := by
      rw [moved]
      exact tracked.numbered
    conserved := by
      rw [moved]
      exact tracked.conserved
    fifo := by
      intro c
      rw [← tracked.fifo c, waiting_dequeue heap, List.filter_append]
      by_cases same : e.item.cls = c
      · simp [same]
      · simp [same]
    rising := tracked.rising_concat (heap ▸ List.mem_cons_self)
    past := by
      intro e' member
      rw [vt]
      rcases List.mem_append.mp member with before | new
      · exact (tracked.past e' before).trans (le_max_left _ _)
      · rw [List.mem_singleton.mp new]
        exact le_max_right _ _ }

/-- One call more. -/
theorem Tracked.step (tracked : t.Tracked q served) (call : Call C α)
    (nonneg : ∀ a, call = .enqueue a → 0 ≤ a.cost) :
    ∃ q' served', (t.step call).Tracked q' served' := by
  cases call with
  | enqueue a => exact ⟨_, _, tracked.enqueue (nonneg a rfl)⟩
  | dequeue =>
      cases taken : q.dequeue with
      | none =>
          have raises : t.queue.dequeue = none := by
            rw [tracked.queue, map_dequeue, taken]
            rfl
          have same : t.step .dequeue = t := by simp only [Log.step, raises]
          rw [same]
          exact ⟨q, served, tracked⟩
      | some result =>
          obtain ⟨x, q'⟩ := result
          obtain ⟨e, heap, rfl, -, seq, vt⟩ := dequeue_eq_some taken
          exact ⟨q', _, tracked.dequeue taken heap vt seq⟩

theorem exists_tracked {calls : List (Call C α)}
    (nonneg : ∀ a, Call.enqueue a ∈ calls → 0 ≤ a.cost) :
    ∃ q served, (run calls).Tracked q served := by
  induction calls using List.reverseRecOn with
  | nil => exact ⟨_, _, tracked_init⟩
  | append_singleton calls call ih =>
      obtain ⟨q, served, tracked⟩ := ih fun a member => nonneg a (List.mem_append_left _ member)
      rw [run, List.foldl_concat]
      refine tracked.step call fun a same => nonneg a ?_
      rw [same]
      exact List.mem_append_right _ (List.mem_singleton_self _)

/-- The entries of the log are those of the queue of arrivals. -/
theorem Tracked.entries (tracked : t.Tracked q served) :
    t.served ++ t.queue.heap = (served ++ q.heap).map (relabel Arrival.item) := by
  rw [tracked.popped, tracked.queue, List.map_append]
  rfl

theorem Tracked.returned_eq (tracked : t.Tracked q served) :
    t.returned = t.served.map Tagged.item := by
  rw [tracked.returned, tracked.popped, List.map_map]
  rfl

/-- The class of an entry is the one of the arrival that it holds. -/
theorem Tracked.classOf_relabel (tracked : t.Tracked q served) {e : Tagged (Arrival C α)}
    (inside : e ∈ served ++ q.heap) : t.classOf (relabel Arrival.item e) = some e.item.cls := by
  show (t.arrived[e.seq]?).map Arrival.cls = _
  rw [tracked.numbered e inside, Option.map_some]

theorem Tracked.orderly (tracked : t.Tracked q served) : t.Orderly := by
  refine ⟨tracked.returned_eq, ?_, ?_, ?_, ?_, ?_⟩
  · rw [tracked.returned_eq, ← List.map_append, tracked.entries, List.map_map]
    have conserved := tracked.conserved.map Arrival.item
    rwa [List.map_map] at conserved
  · intro e member
    rw [tracked.entries] at member
    obtain ⟨e', inside, rfl⟩ := List.mem_map.mp member
    show (t.arrived[e'.seq]?).map Arrival.item = some e'.item.item
    rw [tracked.numbered e' inside, Option.map_some]
  · intro c
    have kinds : (served ++ q.heap).filter ((fun e => decide (t.classOf e = some c)) ∘
        relabel Arrival.item) = (served ++ q.heap).filter fun e => e.item.cls = c := by
      refine List.filter_congr fun e inside => ?_
      rw [Function.comp_apply, tracked.classOf_relabel inside]
      simp
    rw [tracked.entries, List.filter_map, kinds, ← tracked.fifo c, List.filter_append,
      List.map_map, List.map_map]
    rfl
  · rw [tracked.popped, List.map_map]
    exact tracked.rising
  · intro e member
    rw [tracked.queue] at member ⊢
    obtain ⟨e', inside, rfl⟩ := List.mem_map.mp member
    exact tracked.tidy.ahead inside

/-- Nothing is lost or served twice, each class is served in the order of its arrivals, and
no tag is served after a later one, whatever the calls. -/
theorem run_orderly (calls : List (Call C α))
    (nonneg : ∀ a, Call.enqueue a ∈ calls → 0 ≤ a.cost) : (run calls).Orderly := by
  obtain ⟨q, served, tracked⟩ := exists_tracked nonneg
  exact tracked.orderly

/-- Two classes, one of which comes back with another weight between two services. -/
def comingBack : List (Call String String) :=
  [.enqueue ⟨"x", "gold", 3, 1⟩, .enqueue ⟨"y", "bronze", 1, 1⟩, .dequeue,
    .enqueue ⟨"z", "gold", 2, 1⟩, .dequeue, .dequeue, .dequeue]

theorem run_orderly_comingBack :
    (∀ a, Call.enqueue a ∈ comingBack → 0 < a.weight ∧ 0 ≤ a.cost) ∧
      (run comingBack).returned = ["x", "z", "y"] ∧ (run comingBack).Orderly := by
  have proper : ∀ a, Call.enqueue a ∈ comingBack → 0 < a.weight ∧ 0 ≤ a.cost := by
    intro a member
    simp only [comingBack, List.mem_cons, Call.enqueue.injEq, reduceCtorEq, List.not_mem_nil,
      or_false, false_or] at member
    rcases member with rfl | rfl | rfl
    all_goals decide +kernel
  exact ⟨proper, by decide +kernel, run_orderly comingBack fun a member => (proper a member).2⟩

end Log

end Gateway.WeightedFairQueue
