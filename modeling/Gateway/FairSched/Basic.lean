import Mathlib.Logic.Function.Basic
import Gateway.FairQueue.Basic

/-!
The dispatch scheduler of `gateway/fairsched.py`.

A future is what `asyncio` makes of it for the scheduler: pending, cancelled, or
finished by `set_result`. The table of futures belongs to the event loop, so it is
passed along with the scheduler.

`Sched.Sound` is the scheduler's own invariant. Its main part is the docstring of
`acquire`: live waiters exist only while all slots are taken. `Sound.releaseOne`
says what handing a slot on does.
-/

namespace Gateway

/-- The state of an `asyncio.Future`. -/
inductive Future where
  | pending
  | cancelled
  | finished
  deriving DecidableEq, Repr

/-- `AsyncFairScheduler`, with futures named by `F`. -/
structure AsyncFairScheduler (C F : Type) where
  maxConcurrency : Int
  weights : Dict C ℚ
  defaultWeight : ℚ
  cost : ℚ
  active : Int
  wfq : WeightedFairQueue C F

namespace AsyncFairScheduler

variable {C F : Type}

/-- `AsyncFairScheduler(max_concurrency, weights, default_weight, cost)`. -/
def init (maxConcurrency : Int) (weights : Dict C ℚ) (defaultWeight cost : ℚ) :
    AsyncFairScheduler C F :=
  ⟨max 1 maxConcurrency, weights, defaultWeight, cost, 0, .empty⟩

/-- `queue_depth`. -/
def queueDepth (s : AsyncFairScheduler C F) : Nat := s.wfq.len

variable [DecidableEq C] [DecidableEq F]

/-- `weight_for(cls)`. -/
def weightFor (s : AsyncFairScheduler C F) (cls : C) : ℚ := s.weights.getD cls s.defaultWeight

/-- `acquire(cls)` up to its suspension: whether a slot was free, and else the queue
with the new future `f` in it. -/
def acquire (s : AsyncFairScheduler C F) (fut : F → Future) (f : F) (cls : C) :
    AsyncFairScheduler C F × (F → Future) × Bool :=
  if s.active < s.maxConcurrency then ({ s with active := s.active + 1 }, fut, true)
  else
    ({ s with wfq := (s.wfq.enqueue f cls (s.weightFor cls) s.cost).1 },
      Function.update fut f .pending, false)

/-- `_grant_next()`, with the number of queued futures as fuel; also the future that
was granted. -/
def grantNext : Nat → AsyncFairScheduler C F → (F → Future) →
    AsyncFairScheduler C F × (F → Future) × Option F
  | 0, s, fut => (s, fut, none)
  | fuel + 1, s, fut =>
      match s.wfq.dequeue with
      | none => (s, fut, none)
      | some (f, wfq) =>
          let s := { s with wfq := wfq }
          if fut f = .cancelled then grantNext fuel s fut
          else (s, Function.update fut f .finished, some f)

/-- `_release_one()`. -/
def releaseOne (s : AsyncFairScheduler C F) (fut : F → Future) :
    AsyncFairScheduler C F × (F → Future) × Option F :=
  let (s, fut, granted) := grantNext s.wfq.len s fut
  match granted with
  | some f => (s, fut, some f)
  | none => ({ s with active := max 0 (s.active - 1) }, fut, none)

/-! ### The scheduler's invariant -/

/-- A queued entry whose waiter is neither cancelled nor granted. -/
def Live (fut : F → Future) (e : Tagged F) : Prop := fut e.item = .pending

/-- The scheduler's invariant. -/
structure Sound (s : AsyncFairScheduler C F) (fut : F → Future) : Prop where
  sorted : Heap.Ordered Tagged.key s.wfq.heap
  arrived : ∀ {e}, e ∈ s.wfq.heap → e.seq < s.wfq.seq
  once : (s.wfq.heap.map Tagged.item).Nodup
  unfinished : ∀ {e}, e ∈ s.wfq.heap → fut e.item ≠ .finished
  positive : 1 ≤ s.maxConcurrency
  nonneg : 0 ≤ s.active
  bounded : s.active ≤ s.maxConcurrency
  full : ∀ {e}, e ∈ s.wfq.heap → Live fut e → s.active = s.maxConcurrency

variable {s : AsyncFairScheduler C F} {fut : F → Future}

omit [DecidableEq C] [DecidableEq F] in
theorem sound_init (maxConcurrency : Int) (weights : Dict C ℚ) (defaultWeight cost : ℚ)
    (fut : F → Future) :
    (init maxConcurrency weights defaultWeight cost : AsyncFairScheduler C F).Sound fut where
  sorted := List.Pairwise.nil
  arrived := fun h => by cases h
  once := List.nodup_nil
  unfinished := fun h => by cases h
  positive := le_max_left _ _
  nonneg := le_refl _
  bounded := by
    show (0 : Int) ≤ max 1 maxConcurrency
    omega
  full := fun h => by cases h

omit [DecidableEq C] [DecidableEq F] in
/-- A free slot is taken at once. -/
theorem Sound.acquire_free (sound : s.Sound fut) (free : s.active < s.maxConcurrency) :
    ({ s with active := s.active + 1 } : AsyncFairScheduler C F).Sound fut where
  sorted := sound.sorted
  arrived := sound.arrived
  once := sound.once
  unfinished := sound.unfinished
  positive := sound.positive
  nonneg := by
    have := sound.nonneg
    show 0 ≤ s.active + 1
    omega
  bounded := by
    show s.active + 1 ≤ s.maxConcurrency
    omega
  full := by
    intro e member live
    have := sound.full member live
    omega

/-- With all slots taken, a new future is queued. -/
theorem Sound.acquire_park (sound : s.Sound fut) (busy : ¬ s.active < s.maxConcurrency) {f : F}
    (fresh : ∀ e ∈ s.wfq.heap, e.item ≠ f) (cls : C) :
    ({ s with wfq := (s.wfq.enqueue f cls (s.weightFor cls) s.cost).1 } :
      AsyncFairScheduler C F).Sound (Function.update fut f .pending) where
  sorted := by
    refine Heap.ordered_push sound.sorted fun e member same => ?_
    have := sound.arrived member
    rw [(Prod.mk.inj (toLex.injective same)).2] at this
    exact absurd this (lt_irrefl _)
  arrived := by
    intro e member
    rcases Heap.mem_push.mp member with rfl | before
    · exact Nat.lt_succ_self _
    · exact Nat.lt_succ_of_lt (sound.arrived before)
  once := by
    refine ((Heap.perm_push _ _).map Tagged.item).nodup_iff.mpr (List.nodup_cons.mpr ⟨?_, sound.once⟩)
    rw [List.mem_map]
    rintro ⟨e, member, same⟩
    exact fresh e member same
  unfinished := by
    intro e member
    rcases Heap.mem_push.mp member with rfl | before
    · simp
    · rw [Function.update_of_ne (fresh e before)]
      exact sound.unfinished before
  positive := sound.positive
  nonneg := sound.nonneg
  bounded := sound.bounded
  full := fun _ _ => le_antisymm sound.bounded (not_lt.mp busy)

omit [DecidableEq C] in
/-- Cancelling a waiter takes nobody's slot. -/
theorem Sound.cancel (sound : s.Sound fut) (f : F) : s.Sound (Function.update fut f .cancelled) where
  sorted := sound.sorted
  arrived := sound.arrived
  once := sound.once
  unfinished := by
    intro e member
    by_cases same : e.item = f
    · simp [same]
    · rw [Function.update_of_ne same]
      exact sound.unfinished member
  positive := sound.positive
  nonneg := sound.nonneg
  bounded := sound.bounded
  full := by
    intro e member live
    refine sound.full member ?_
    by_cases same : e.item = f
    · simp [Live, same] at live
    · rwa [Live, Function.update_of_ne same] at live

/-! ### Handing a slot on -/

/-- What a call leaves alone. -/
def SameSlots (s s' : AsyncFairScheduler C F) : Prop :=
  s'.active = s.active ∧ s'.maxConcurrency = s.maxConcurrency ∧ s'.wfq.seq = s.wfq.seq

omit [DecidableEq C] in
/-- `_grant_next` reaps the cancelled waiters at the front, then grants the next one. -/
theorem grantNext_spec (fut : F → Future) {fuel : Nat} (enough : s.wfq.heap.length ≤ fuel) :
    (∃ s', grantNext fuel s fut = (s', fut, none) ∧ SameSlots s s' ∧ s'.wfq.heap = [] ∧
        ∀ e ∈ s.wfq.heap, fut e.item = .cancelled) ∨
      ∃ s' passed e, grantNext fuel s fut =
          (s', Function.update fut e.item .finished, some e.item) ∧ SameSlots s s' ∧
        s.wfq.heap = passed ++ e :: s'.wfq.heap ∧ (∀ x ∈ passed, fut x.item = .cancelled) ∧
        fut e.item ≠ .cancelled := by
  induction fuel generalizing s with
  | zero =>
      have empty : s.wfq.heap = [] := List.length_eq_zero_iff.mp (Nat.le_zero.mp enough)
      exact .inl ⟨s, rfl, ⟨rfl, rfl, rfl⟩, empty, by simp [empty]⟩
  | succ fuel ih =>
      simp only [grantNext, WeightedFairQueue.dequeue]
      cases heap : s.wfq.heap with
      | nil => exact .inl ⟨s, rfl, ⟨rfl, rfl, rfl⟩, heap, by simp⟩
      | cons first rest =>
          rw [heap, List.length_cons] at enough
          dsimp only
          split
          · rename_i gone
            rcases ih (s := { s with wfq := { s.wfq with
                heap := rest
                vt := if s.wfq.vt < first.finish then first.finish else s.wfq.vt } })
                (Nat.le_of_succ_le_succ enough) with
              ⟨s', result, same, empty, all⟩ | ⟨s', passed, e, result, same, split, skipped, waits⟩
            · exact .inl ⟨s', result, same, empty, List.forall_mem_cons.mpr ⟨gone, all⟩⟩
            · refine .inr ⟨s', first :: passed, e, result, same, ?_, ?_, waits⟩
              · rw [List.cons_append, ← split]
              · exact List.forall_mem_cons.mpr ⟨gone, skipped⟩
          · rename_i waits
            exact .inr ⟨_, [], first, rfl, ⟨rfl, rfl, rfl⟩, rfl, by simp, waits⟩

/-- `_release_one` when nobody waits, or when `e` is granted. -/
inductive Handover (s : AsyncFairScheduler C F) (fut : F → Future)
    (s' : AsyncFairScheduler C F) (fut' : F → Future) : Option F → Prop where
  | freed : (∀ e ∈ s.wfq.heap, ¬ Live fut e) → fut' = fut → s'.active = s.active - 1 →
      s'.wfq.heap = [] → Handover s fut s' fut' none
  | granted {e : Tagged F} : e ∈ s.wfq.heap → Live fut e →
      (∀ e' ∈ s.wfq.heap, Live fut e' → e.key ≤ e'.key) →
      fut' = Function.update fut e.item .finished → s'.active = s.active →
      (∀ e' ∈ s'.wfq.heap, e' ∈ s.wfq.heap) →
      (∀ e' ∈ s.wfq.heap, Live fut e' → e' = e ∨ e' ∈ s'.wfq.heap) →
      Handover s fut s' fut' (some e.item)

omit [DecidableEq C] [DecidableEq F] in
/-- The slot is freed when all queued waiters were cancelled. -/
theorem Sound.freed (sound : s.Sound fut) {s' : AsyncFairScheduler C F} (same : SameSlots s s')
    (empty : s'.wfq.heap = []) (held : 0 < s.active) :
    ({ s' with active := s.active - 1 } : AsyncFairScheduler C F).Sound fut := by
  obtain ⟨_, slots, _⟩ := same
  have none_queued : ∀ {e}, e ∉ s'.wfq.heap := by simp [empty]
  have bounded := sound.bounded
  exact
    { sorted := by
        show Heap.Ordered Tagged.key s'.wfq.heap
        rw [empty]
        exact List.Pairwise.nil
      arrived := fun member => absurd member none_queued
      once := by
        show (s'.wfq.heap.map Tagged.item).Nodup
        rw [empty]
        exact List.nodup_nil
      unfinished := fun member => absurd member none_queued
      positive := slots ▸ sound.positive
      nonneg := by
        show 0 ≤ s.active - 1
        omega
      bounded := by
        show s.active - 1 ≤ s'.maxConcurrency
        omega
      full := fun member => absurd member none_queued }

omit [DecidableEq C] in
/-- The slot goes to a live waiter; those before it were cancelled. -/
theorem Sound.granted (sound : s.Sound fut) {s' : AsyncFairScheduler C F} (same : SameSlots s s')
    {passed : List (Tagged F)} {e : Tagged F} (split : s.wfq.heap = passed ++ e :: s'.wfq.heap)
    (live : Live fut e) : s'.Sound (Function.update fut e.item .finished) := by
  obtain ⟨active, slots, seq⟩ := same
  have member : e ∈ s.wfq.heap := by simp [split]
  have still : ∀ {e'}, e' ∈ s'.wfq.heap → e' ∈ s.wfq.heap := by
    intro e' later
    simp [split, later]
  have sorted := sound.sorted
  have once := sound.once
  rw [split] at sorted once
  rw [List.map_append, List.map_cons] at once
  have distinct := List.nodup_cons.mp once.of_append_right
  exact
    { sorted := Heap.Ordered.of_cons (List.pairwise_append.mp sorted).2.1
      arrived := fun later => seq ▸ sound.arrived (still later)
      once := distinct.2
      unfinished := by
        intro e' later
        have other : e'.item ≠ e.item := fun same =>
          distinct.1 (same ▸ List.mem_map_of_mem later)
        rw [Function.update_of_ne other]
        exact sound.unfinished (still later)
      positive := slots ▸ sound.positive
      nonneg := active ▸ sound.nonneg
      bounded := by
        rw [active, slots]
        exact sound.bounded
      full := by
        intro _ _ _
        rw [active, slots]
        exact sound.full member live }

omit [DecidableEq C] in
/-- **Handing a slot on** keeps the invariant, and grants the live waiter with the
smallest finish tag and arrival number, if there is one. -/
theorem Sound.releaseOne (sound : s.Sound fut) (held : 0 < s.active) :
    (s.releaseOne fut).1.Sound (s.releaseOne fut).2.1 ∧
      (s.releaseOne fut).1.maxConcurrency = s.maxConcurrency ∧
      Handover s fut (s.releaseOne fut).1 (s.releaseOne fut).2.1 (s.releaseOne fut).2.2 := by
  rcases grantNext_spec fut (le_refl s.wfq.heap.length) with
    ⟨s', result, same, empty, all⟩ | ⟨s', passed, e, result, same, split, skipped, waits⟩
  · have left : max 0 (s'.active - 1) = s.active - 1 := by
      have := same.1
      omega
    have outcome : s.releaseOne fut = ({ s' with active := s.active - 1 }, fut, none) := by
      simp only [AsyncFairScheduler.releaseOne, WeightedFairQueue.len, result, left]
    rw [outcome]
    refine ⟨sound.freed same empty held, same.2.1, .freed (fun e member live => ?_) rfl rfl empty⟩
    rw [Live, all e member] at live
    cases live
  · have outcome : s.releaseOne fut =
        (s', Function.update fut e.item .finished, some e.item) := by
      simp only [AsyncFairScheduler.releaseOne, WeightedFairQueue.len, result]
    have member : e ∈ s.wfq.heap := by simp [split]
    have live : Live fut e := by
      have unfinished := sound.unfinished member
      rw [Live]
      cases state : fut e.item with
      | pending => rfl
      | cancelled => exact absurd state waits
      | finished => exact absurd state unfinished
    have behind : ∀ e' ∈ s.wfq.heap, Live fut e' → e' = e ∨ e' ∈ s'.wfq.heap := by
      intro e' member' live'
      rw [split] at member'
      rcases List.mem_append.mp member' with before | later
      · rw [Live, skipped e' before] at live'
        cases live'
      · exact List.mem_cons.mp later
    rw [outcome]
    refine ⟨sound.granted same split live, same.2.1,
      .granted member live (fun e' member' live' => ?_) rfl same.1 (fun e' later => ?_) behind⟩
    · have sorted := sound.sorted
      rw [split] at sorted
      rcases behind e' member' live' with rfl | after
      · exact le_refl _
      · exact (Heap.Ordered.head_lt (List.pairwise_append.mp sorted).2.1 after).le
    · simp [split, later]

end AsyncFairScheduler

end Gateway
