import Gateway.FairSched.Basic
import Gateway.Lib.Census
import Gateway.Lib.Machine

/-!
The dispatch scheduler under every interleaving of its callers.

Callers are numbered by their calls of `acquire`; a call that parks creates the future
of that number. Between two suspensions a caller runs atomically, as on the event
loop. `asyncio` cancels a task that waits on a pending future by cancelling the
future at once; if the future is done already, the task gets the `CancelledError`
when it resumes (`mustCancel`).

`Gate.Sound` is the invariant of all runs. `gate_sound` states what follows: slots are
counted exactly, none is idle while somebody waits, and every slot handed on goes to
the live waiter with the smallest finish tag and arrival number, to each at most once.
-/

namespace Gateway

/-- Where a caller of `acquire` is. -/
inductive Caller where
  /-- Suspended at `await fut`. -/
  | waiting (mustCancel : Bool)
  /-- It has a slot, and will call `release` once. -/
  | holding
  /-- It released its slot or raised. -/
  | finished
  deriving DecidableEq, Repr

/-- The scheduler with its callers and futures. `grants` is bookkeeping: the waiters
granted a slot so far, in order. -/
structure Gate (C : Type) where
  sched : AsyncFairScheduler C Nat
  fut : Nat → Future
  caller : Nat → Caller
  next : Nat
  grants : List Nat

namespace Gate

variable {C : Type}

/-- A fresh scheduler that nobody has called. -/
def init (maxConcurrency : Int) (weights : Dict C ℚ) (defaultWeight cost : ℚ) : Gate C :=
  ⟨.init maxConcurrency weights defaultWeight cost, fun _ => .pending, fun _ => .finished, 0, []⟩

/-- What can happen at the gate. -/
inductive Action (C : Type) where
  | acquire (cls : C)
  | release (t : Nat)
  | cancel (t : Nat)
  | resume (t : Nat)

/-- Caller `t` ends and hands its slot on. -/
def handOver (s : Gate C) (t : Nat) : Gate C :=
  let (sched, fut, granted) := s.sched.releaseOne s.fut
  { s with
    sched := sched
    fut := fut
    caller := Function.update s.caller t .finished
    grants := s.grants ++ granted.toList }

/-- One atomic span. -/
def step [DecidableEq C] (s : Gate C) : Action C → Option (Gate C)
  | .acquire cls =>
      let (sched, fut, free) := s.sched.acquire s.fut s.next cls
      some { s with
        sched := sched
        fut := fut
        caller := Function.update s.caller s.next (if free then .holding else .waiting false)
        next := s.next + 1 }
  | .release t => if s.caller t = .holding then some (s.handOver t) else none
  | .cancel t =>
      match s.caller t with
      | .waiting _ =>
          if s.fut t = .pending then some { s with fut := Function.update s.fut t .cancelled }
          else some { s with caller := Function.update s.caller t (.waiting true) }
      | _ => none
  | .resume t =>
      match s.caller t, s.fut t with
      | .waiting _, .cancelled =>
          some { s with caller := Function.update s.caller t .finished }
      | .waiting true, .finished => some (s.handOver t)
      | .waiting false, .finished =>
          some { s with caller := Function.update s.caller t .holding }
      | _, _ => none

/-- A live waiter: neither cancelled nor granted. -/
def Waits (s : Gate C) (t : Nat) : Prop := (∃ m, s.caller t = .waiting m) ∧ s.fut t = .pending

/-- A caller with a slot: it holds one, or was granted one and has not resumed. -/
def HasSlot (s : Gate C) (t : Nat) : Prop :=
  s.caller t = .holding ∨ ((s.caller t = .waiting false ∨ s.caller t = .waiting true) ∧
    s.fut t = .finished)

instance (s : Gate C) : DecidablePred s.HasSlot := fun _ => inferInstanceAs (Decidable (_ ∨ _ ∧ _))

/-- The actions that hand a slot on: a release, and the resumption of a waiter that was
cancelled after it had been granted. -/
def HandsOver (s : Gate C) : Action C → Prop
  | .release _ => True
  | .resume t => s.caller t = .waiting true ∧ s.fut t = .finished
  | _ => False

/-! ### The invariant -/

/-- The invariant of all runs. -/
structure Sound (s : Gate C) : Prop where
  sched : s.sched.Sound s.fut
  known : ∀ {e}, e ∈ s.sched.wfq.heap → e.item < s.next
  live : ∀ {e}, e ∈ s.sched.wfq.heap → s.fut e.item = .pending → s.Waits e.item
  parked : ∀ {t}, s.Waits t → ∃ e ∈ s.sched.wfq.heap, e.item = t
  fresh : ∀ {t}, s.next ≤ t → s.caller t = .finished
  count : s.sched.active = census s.HasSlot s.next
  granted : ∀ {t}, t ∈ s.grants → t < s.next ∧ s.fut t = .finished
  once : s.grants.Nodup

theorem init_sound (maxConcurrency : Int) (weights : Dict C ℚ) (defaultWeight cost : ℚ) :
    (init maxConcurrency weights defaultWeight cost).Sound where
  sched := AsyncFairScheduler.sound_init ..
  known := fun h => by cases h
  live := fun h => by cases h
  parked := fun ⟨⟨_, h⟩, _⟩ => by cases h
  fresh := fun _ => rfl
  count := rfl
  granted := fun h => by cases h
  once := List.nodup_nil

variable {s s' : Gate C}

/-- A caller that is not finished has called. -/
theorem Sound.lt_next (sound : s.Sound) {t : Nat} (busy : s.caller t ≠ .finished) : t < s.next := by
  by_contra later
  exact busy (sound.fresh (Nat.le_of_not_lt later))

theorem hasSlot_congr {t : Nat} (caller : s'.caller t = s.caller t) (fut : s'.fut t = s.fut t) :
    s'.HasSlot t ↔ s.HasSlot t := by
  rw [HasSlot, HasSlot, caller, fut]

theorem waits_congr {t : Nat} (caller : s'.caller t = s.caller t) (fut : s'.fut t = s.fut t) :
    s'.Waits t ↔ s.Waits t := by
  rw [Waits, Waits, caller, fut]

/-- A live waiter has no slot. -/
theorem Waits.not_hasSlot {t : Nat} (waits : s.Waits t) : ¬ s.HasSlot t := by
  obtain ⟨⟨m, waiting⟩, pending⟩ := waits
  rintro (holding | ⟨_, finished⟩)
  · rw [waiting] at holding
    cases holding
  · rw [pending] at finished
    cases finished

theorem not_waits_of_finished {t : Nat} (ended : s.caller t = .finished) : ¬ s.Waits t := by
  rintro ⟨⟨m, waiting⟩, _⟩
  rw [ended] at waiting
  cases waiting

theorem not_hasSlot_of_finished {t : Nat} (ended : s.caller t = .finished) : ¬ s.HasSlot t := by
  rw [HasSlot, ended]
  simp

/-- A caller arrives: it has a slot exactly if `active` counts one more. -/
theorem Sound.count_arrive (sound : s.Sound) (next : s'.next = s.next + 1)
    (caller : ∀ t, t ≠ s.next → s'.caller t = s.caller t)
    (fut : ∀ t, t ≠ s.next → s'.fut t = s.fut t)
    (active : s'.sched.active = s.sched.active + tally (s'.HasSlot s.next)) :
    s'.sched.active = census s'.HasSlot s'.next := by
  have same : ∀ t, t < s.next → (s'.HasSlot t ↔ s.HasSlot t) := fun t below =>
    hasSlot_congr (caller t (Nat.ne_of_lt below)) (fut t (Nat.ne_of_lt below))
  rw [next, census_arrive same, active, sound.count]
  push_cast
  rfl

/-- A caller changes: `active` follows its slot. -/
theorem Sound.count_change (sound : s.Sound) {t : Nat} (bound : t < s.next)
    (next : s'.next = s.next) (caller : ∀ u, u ≠ t → s'.caller u = s.caller u)
    (fut : ∀ u, u ≠ t → s'.fut u = s.fut u)
    (active : s'.sched.active + tally (s.HasSlot t) = s.sched.active + tally (s'.HasSlot t)) :
    s'.sched.active = census s'.HasSlot s'.next := by
  have same : ∀ u, u ≠ t → (s'.HasSlot u ↔ s.HasSlot u) := fun u other =>
    hasSlot_congr (caller u other) (fut u other)
  have change : census s'.HasSlot s.next + tally (s.HasSlot t) =
      census s.HasSlot s.next + tally (s'.HasSlot t) := census_change bound same
  have before := sound.count
  rw [next]
  omega

/-! ### Arrival -/

/-- What `acquire` does. -/
theorem acquire_cases [DecidableEq C] {cls : C} (taken : s.step (.acquire cls) = some s') :
    s'.next = s.next + 1 ∧ s'.grants = s.grants ∧
      ((s.sched.active < s.sched.maxConcurrency ∧
          s'.sched = { s.sched with active := s.sched.active + 1 } ∧ s'.fut = s.fut ∧
          s'.caller = Function.update s.caller s.next .holding) ∨
        (¬ s.sched.active < s.sched.maxConcurrency ∧
          s'.sched = { s.sched with
            wfq := (s.sched.wfq.enqueue s.next cls (s.sched.weightFor cls) s.sched.cost).1 } ∧
          s'.fut = Function.update s.fut s.next .pending ∧
          s'.caller = Function.update s.caller s.next (.waiting false))) := by
  simp only [step, AsyncFairScheduler.acquire] at taken
  split at taken
  · rename_i free
    cases taken
    exact ⟨rfl, rfl, .inl ⟨free, rfl, rfl, rfl⟩⟩
  · rename_i busy
    cases taken
    exact ⟨rfl, rfl, .inr ⟨busy, rfl, rfl, rfl⟩⟩

/-- A caller enters, with a slot or parked behind an entry of its own. -/
theorem Sound.enter (sound : s.Sound) (next : s'.next = s.next + 1) (grants : s'.grants = s.grants)
    (sched : s'.sched.Sound s'.fut) (caller : ∀ t, t ≠ s.next → s'.caller t = s.caller t)
    (fut : ∀ t, t ≠ s.next → s'.fut t = s.fut t)
    (old : ∀ e ∈ s.sched.wfq.heap, e ∈ s'.sched.wfq.heap)
    (new : ∀ e ∈ s'.sched.wfq.heap, e.item = s.next ∧ s'.Waits s.next ∨ e ∈ s.sched.wfq.heap)
    (queued : s'.Waits s.next → ∃ e ∈ s'.sched.wfq.heap, e.item = s.next)
    (active : s'.sched.active = s.sched.active + tally (s'.HasSlot s.next)) : s'.Sound := by
  refine ⟨sched, ?_, ?_, ?_, ?_, sound.count_arrive next caller fut active, ?_, grants ▸ sound.once⟩
  · intro e member
    rw [next]
    rcases new e member with ⟨item, _⟩ | before
    · exact item ▸ Nat.lt_succ_self _
    · exact Nat.lt_succ_of_lt (sound.known before)
  · intro e member pending
    rcases new e member with ⟨item, waits⟩ | before
    · exact item ▸ waits
    · have ne : e.item ≠ s.next := Nat.ne_of_lt (sound.known before)
      rw [fut _ ne] at pending
      exact (waits_congr (caller _ ne) (fut _ ne)).mpr (sound.live before pending)
  · intro t waits
    by_cases same : t = s.next
    · subst same
      exact queued waits
    · obtain ⟨e, member, item⟩ :=
        sound.parked ((waits_congr (caller t same) (fut t same)).mp waits)
      exact ⟨e, old e member, item⟩
  · intro t later
    rw [caller t (by omega)]
    exact sound.fresh (by omega)
  · intro t member
    rw [grants] at member
    have granted := sound.granted member
    rw [next, fut t (Nat.ne_of_lt granted.1)]
    exact ⟨Nat.lt_succ_of_lt granted.1, granted.2⟩

theorem Sound.acquire [DecidableEq C] (sound : s.Sound) {cls : C}
    (taken : s.step (.acquire cls) = some s') : s'.Sound := by
  obtain ⟨next, grants, ⟨free, sched, fut, caller⟩ | ⟨busy, sched, fut, caller⟩⟩ :=
    acquire_cases taken
  · have here : s'.caller s.next = .holding := by rw [caller, Function.update_self]
    have heap : s'.sched.wfq.heap = s.sched.wfq.heap := by rw [sched]
    refine sound.enter next grants ?_ (fun t ne => ?_) (fun t _ => by rw [fut]) (heap ▸ fun _ => id)
      (heap ▸ fun _ => .inr) ?_ ?_
    · rw [sched, fut]
      exact sound.sched.acquire_free free
    · rw [caller, Function.update_of_ne ne]
    · rintro ⟨⟨m, waiting⟩, _⟩
      rw [here] at waiting
      cases waiting
    · rw [tally_of (.inl here), sched]
      rfl
  · have waits : s'.Waits s.next := by
      refine ⟨⟨false, ?_⟩, ?_⟩
      · rw [caller, Function.update_self]
      · rw [fut, Function.update_self]
    have heap : ∀ {e}, e ∈ s'.sched.wfq.heap ↔
        e = ⟨s.sched.wfq.finishTag cls (s.sched.weightFor cls) s.sched.cost, s.sched.wfq.seq, s.next⟩ ∨
          e ∈ s.sched.wfq.heap := by
      intro e
      rw [sched]
      exact Heap.mem_push
    refine sound.enter next grants ?_ (fun t ne => ?_) (fun t ne => ?_)
      (fun e member => heap.mpr (.inr member)) (fun e member => ?_)
      (fun _ => ⟨_, heap.mpr (.inl rfl), rfl⟩) ?_
    · rw [sched, fut]
      exact sound.sched.acquire_park busy (fun e member => Nat.ne_of_lt (sound.known member)) cls
    · rw [caller, Function.update_of_ne ne]
    · rw [fut, Function.update_of_ne ne]
    · rcases heap.mp member with rfl | before
      · exact .inl ⟨rfl, waits⟩
      · exact .inr before
    · rw [tally_of_not waits.not_hasSlot, sched]
      simp

/-! ### Handing over -/

/-- A caller with a slot has called. -/
theorem Sound.slot_lt_next (sound : s.Sound) {t : Nat} (slot : s.HasSlot t) : t < s.next :=
  sound.lt_next fun idle => not_hasSlot_of_finished idle slot

/-- A caller has a slot, so somebody is active. -/
theorem Sound.active_pos (sound : s.Sound) {t : Nat} (slot : s.HasSlot t) : 0 < s.sched.active := by
  have := census_pos (sound.slot_lt_next slot) slot
  rw [sound.count]
  omega

/-- What a hand-over does: nobody waits and a slot is freed, or the first live waiter
gets the slot. -/
theorem Sound.handOver_cases (sound : s.Sound) {t : Nat} (slot : s.HasSlot t) :
    (s.handOver t).sched.Sound (s.handOver t).fut ∧
      (s.handOver t).caller = Function.update s.caller t .finished ∧
      (((∀ u, ¬ s.Waits u) ∧ (s.handOver t).fut = s.fut ∧ (s.handOver t).grants = s.grants ∧
          (s.handOver t).sched.active = s.sched.active - 1 ∧ (s.handOver t).sched.wfq.heap = []) ∨
        ∃ e ∈ s.sched.wfq.heap, s.Waits e.item ∧
          (∀ e' ∈ s.sched.wfq.heap, s.Waits e'.item → e.key ≤ e'.key) ∧
          (s.handOver t).fut = Function.update s.fut e.item .finished ∧
          (s.handOver t).grants = s.grants ++ [e.item] ∧
          (s.handOver t).sched.active = s.sched.active ∧
          (∀ e' ∈ (s.handOver t).sched.wfq.heap, e' ∈ s.sched.wfq.heap) ∧
          ∀ e' ∈ s.sched.wfq.heap, s.Waits e'.item →
            e' = e ∨ e' ∈ (s.handOver t).sched.wfq.heap) := by
  obtain ⟨sched, _, handover⟩ := sound.sched.releaseOne (sound.active_pos slot)
  refine ⟨sched, rfl, ?_⟩
  simp only [handOver]
  generalize (s.sched.releaseOne s.fut).2.2 = granted at handover
  cases handover with
  | freed none_live fut active heap =>
      refine .inl ⟨fun u waits => ?_, fut, by simp, active, heap⟩
      obtain ⟨e, member, rfl⟩ := sound.parked waits
      exact none_live e member waits.2
  | @granted e member live first fut active still behind =>
      refine .inr ⟨e, member, sound.live member live, ?_, fut, by simp, active, still, ?_⟩
      · exact fun e' member' waits => first e' member' waits.2
      · exact fun e' member' waits => behind e' member' waits.2

/-- Caller `t` ends and its slot is freed: nobody waits. -/
theorem Sound.freed (sound : s.Sound) {t : Nat} (slot : s.HasSlot t)
    (sched : s'.sched.Sound s'.fut) (caller : s'.caller = Function.update s.caller t .finished)
    (next : s'.next = s.next) (nobody : ∀ u, ¬ s.Waits u) (fut : s'.fut = s.fut)
    (grants : s'.grants = s.grants) (active : s'.sched.active = s.sched.active - 1)
    (heap : s'.sched.wfq.heap = []) : s'.Sound := by
  have ended : s'.caller t = .finished := by rw [caller, Function.update_self]
  have other : ∀ {u}, u ≠ t → s'.caller u = s.caller u := by
    intro u ne
    rw [caller, Function.update_of_ne ne]
  refine ⟨sched, ?_, ?_, ?_, ?_, ?_, ?_, grants ▸ sound.once⟩
  · simp [heap]
  · simp [heap]
  · intro u waits
    have ne : u ≠ t := fun same => not_waits_of_finished ended (same ▸ waits)
    exact absurd ((waits_congr (other ne) (by rw [fut])).mp waits) (nobody u)
  · intro u later
    rw [next] at later
    rw [other (Nat.ne_of_gt (lt_of_lt_of_le (sound.slot_lt_next slot) later))]
    exact sound.fresh later
  · refine sound.count_change (sound.slot_lt_next slot) next (fun u ne => other ne)
      (fun u _ => by rw [fut]) ?_
    rw [tally_of slot, tally_of_not (not_hasSlot_of_finished ended), active]
    simp
  · rw [grants, fut, next]
    exact sound.granted

/-- The account of grants takes in a grant to a caller whose future was pending. -/
theorem Sound.grant (sound : s.Sound) {u : Nat} (known : u < s.next) (pending : s.fut u = .pending)
    (next : s'.next = s.next) (fut : s'.fut = Function.update s.fut u .finished)
    (grants : s'.grants = s.grants ++ [u]) :
    (∀ {t}, t ∈ s'.grants → t < s'.next ∧ s'.fut t = .finished) ∧ s'.grants.Nodup := by
  have got : s'.fut u = .finished := by rw [fut, Function.update_self]
  constructor
  · intro t member
    rw [grants] at member
    rw [next]
    rcases List.mem_append.mp member with old | new
    · have granted := sound.granted old
      refine ⟨granted.1, ?_⟩
      by_cases same : t = u
      · rw [same, got]
      · rw [fut, Function.update_of_ne same, granted.2]
    · rw [List.mem_singleton.mp new]
      exact ⟨known, got⟩
  · rw [grants]
    refine List.Nodup.append sound.once (List.nodup_singleton _) ?_
    rw [List.disjoint_singleton]
    intro twice
    have finished := (sound.granted twice).2
    rw [pending] at finished
    cases finished

/-- Caller `t` ends and its slot goes to the waiter of the entry `e`. -/
theorem Sound.passed (sound : s.Sound) {t : Nat} (slot : s.HasSlot t)
    (sched : s'.sched.Sound s'.fut) (caller : s'.caller = Function.update s.caller t .finished)
    (next : s'.next = s.next) {e : Tagged Nat} (member : e ∈ s.sched.wfq.heap)
    (waits : s.Waits e.item) (fut : s'.fut = Function.update s.fut e.item .finished)
    (grants : s'.grants = s.grants ++ [e.item]) (active : s'.sched.active = s.sched.active)
    (still : ∀ e' ∈ s'.sched.wfq.heap, e' ∈ s.sched.wfq.heap)
    (behind : ∀ e' ∈ s.sched.wfq.heap, s.Waits e'.item → e' = e ∨ e' ∈ s'.sched.wfq.heap) :
    s'.Sound := by
  have bound := sound.slot_lt_next slot
  have ended : s'.caller t = .finished := by rw [caller, Function.update_self]
  have other : ∀ {u}, u ≠ t → s'.caller u = s.caller u := by
    intro u ne
    rw [caller, Function.update_of_ne ne]
  have elsewhere : ∀ {u}, u ≠ e.item → s'.fut u = s.fut u := by
    intro u ne
    rw [fut, Function.update_of_ne ne]
  have got : s'.fut e.item = .finished := by rw [fut, Function.update_self]
  have still_pending : ∀ {u}, s'.fut u = .pending → u ≠ e.item := by
    rintro u pending rfl
    rw [got] at pending
    cases pending
  have has : s'.HasSlot e.item := by
    have ne : e.item ≠ t := fun same => waits.not_hasSlot (same ▸ slot)
    obtain ⟨⟨m, waiting⟩, _⟩ := waits
    refine .inr ⟨?_, got⟩
    rw [other ne, waiting]
    cases m <;> simp
  obtain ⟨granted, once⟩ := sound.grant (sound.known member) waits.2 next fut grants
  refine ⟨sched, fun member' => next ▸ sound.known (still _ member'), ?_, ?_, ?_, ?_, granted, once⟩
  · intro e' member' pending
    have ne := still_pending pending
    rw [elsewhere ne] at pending
    have before := sound.live (still e' member') pending
    have ne_t : e'.item ≠ t := fun same => before.not_hasSlot (same ▸ slot)
    exact (waits_congr (other ne_t) (elsewhere ne)).mpr before
  · intro u waits'
    have ne := still_pending waits'.2
    have ne_t : u ≠ t := fun same => not_waits_of_finished ended (same ▸ waits')
    have before := (waits_congr (other ne_t) (elsewhere ne)).mp waits'
    obtain ⟨e', member', rfl⟩ := sound.parked before
    rcases behind e' member' before with rfl | later
    · exact absurd rfl ne
    · exact ⟨e', later, rfl⟩
  · intro u later
    rw [next] at later
    rw [other (by omega)]
    exact sound.fresh later
  · have same : census s'.HasSlot s.next = census s.HasSlot s.next :=
      census_pass bound (sound.known member) slot waits.not_hasSlot
        (not_hasSlot_of_finished ended) has fun u ne ne' =>
          hasSlot_congr (other ne) (elsewhere ne')
    rw [active, next, same]
    exact sound.count

theorem Sound.handOver (sound : s.Sound) {t : Nat} (slot : s.HasSlot t) : (s.handOver t).Sound := by
  obtain ⟨sched, caller, outcome⟩ := sound.handOver_cases slot
  rcases outcome with ⟨nobody, fut, grants, active, heap⟩ |
    ⟨e, member, waits, _, fut, grants, active, still, behind⟩
  · exact sound.freed slot sched caller rfl nobody fut grants active heap
  · exact sound.passed slot sched caller rfl member waits fut grants active still behind

/-! ### Cancelling and resuming -/

/-- A caller that waits for nothing changes without a change of the scheduler. -/
theorem Sound.change (sound : s.Sound) {t : Nat} (busy : s.caller t ≠ .finished)
    (sched : s'.sched = s.sched) (next : s'.next = s.next) (grants : s'.grants = s.grants)
    (caller : ∀ {u}, u ≠ t → s'.caller u = s.caller u)
    (fut : ∀ {u}, u ≠ t → s'.fut u = s.fut u) (sound' : s.sched.Sound s'.fut)
    (done : s'.fut t ≠ .pending) (finished : s.fut t = .finished → s'.fut t = .finished)
    (slot : s'.HasSlot t ↔ s.HasSlot t) : s'.Sound := by
  have bound := sound.lt_next busy
  have not_pending : ∀ {u}, s'.fut u = .pending → u ≠ t := by
    rintro u pending rfl
    exact done pending
  refine ⟨sched ▸ sound', ?_, ?_, ?_, ?_, ?_, ?_, grants ▸ sound.once⟩
  · rw [sched, next]
    exact sound.known
  · intro e member pending
    rw [sched] at member
    have ne := not_pending pending
    rw [fut ne] at pending
    exact (waits_congr (caller ne) (fut ne)).mpr (sound.live member pending)
  · intro u waits
    have ne := not_pending waits.2
    rw [sched]
    exact sound.parked ((waits_congr (caller ne) (fut ne)).mp waits)
  · intro u later
    rw [next] at later
    rw [caller (by omega)]
    exact sound.fresh later
  · refine sound.count_change bound next (fun u ne => caller ne) (fun u ne => fut ne) ?_
    simp only [sched, tally, slot]
  · intro u member
    rw [grants] at member
    have old := sound.granted member
    rw [next]
    refine ⟨old.1, ?_⟩
    by_cases same : u = t
    · subst same
      exact finished old.2
    · rw [fut same, old.2]

variable [DecidableEq C]

theorem Sound.cancel (sound : s.Sound) {t : Nat} (taken : s.step (.cancel t) = some s') :
    s'.Sound := by
  simp only [step] at taken
  split at taken
  · rename_i m waiting
    have busy : s.caller t ≠ .finished := by simp [waiting]
    split at taken
    · rename_i pending
      cases taken
      refine sound.change busy rfl rfl rfl (fun _ => rfl) (fun ne => Function.update_of_ne ne ..)
        (sound.sched.cancel t) (by simp) (fun finished => ?_) ?_
      · rw [pending] at finished
        cases finished
      · simp [HasSlot, waiting, pending]
    · rename_i done
      cases taken
      refine sound.change busy rfl rfl rfl (fun ne => Function.update_of_ne ne ..) (fun _ => rfl)
        sound.sched done id ?_
      cases m <;> simp [HasSlot, waiting]
  · cases taken

theorem Sound.resume (sound : s.Sound) {t : Nat} (taken : s.step (.resume t) = some s') :
    s'.Sound := by
  simp only [step] at taken
  split at taken
  · rename_i m waiting gone
    cases taken
    refine sound.change (by simp [waiting]) rfl rfl rfl (fun ne => Function.update_of_ne ne ..)
      (fun _ => rfl) sound.sched (by simp [gone]) id ?_
    simp [HasSlot, waiting, gone]
  · rename_i waiting granted
    cases taken
    exact sound.handOver (.inr ⟨.inr waiting, granted⟩)
  · rename_i waiting granted
    cases taken
    refine sound.change (by simp [waiting]) rfl rfl rfl (fun ne => Function.update_of_ne ne ..)
      (fun _ => rfl) sound.sched (by simp [granted]) id ?_
    simp [HasSlot, waiting, granted]
  · cases taken

/-- **Every action keeps the invariant.** -/
theorem step_sound {a : Action C} (sound : s.Sound) (taken : s.step a = some s') : s'.Sound := by
  cases a with
  | acquire cls => exact sound.acquire taken
  | release t =>
      simp only [step] at taken
      split at taken
      · rename_i holding
        cases taken
        exact sound.handOver (.inl holding)
      · cases taken
  | cancel t => exact sound.cancel taken
  | resume t => exact sound.resume taken

omit [DecidableEq C] in
theorem grantNext_slots (fuel : Nat) (sched : AsyncFairScheduler C Nat) (fut : Nat → Future) :
    (AsyncFairScheduler.grantNext fuel sched fut).1.maxConcurrency = sched.maxConcurrency := by
  induction fuel generalizing sched with
  | zero => rfl
  | succ fuel ih =>
      simp only [AsyncFairScheduler.grantNext]
      split
      · rfl
      · split
        · exact ih _
        · rfl

omit [DecidableEq C] in
theorem handOver_slots (s : Gate C) (t : Nat) :
    (s.handOver t).sched.maxConcurrency = s.sched.maxConcurrency := by
  simp only [handOver, AsyncFairScheduler.releaseOne]
  split <;> exact grantNext_slots ..

/-- The number of slots never changes. -/
theorem step_slots {a : Action C} (taken : s.step a = some s') :
    s'.sched.maxConcurrency = s.sched.maxConcurrency := by
  cases a with
  | acquire cls =>
      obtain ⟨_, _, ⟨_, sched, _⟩ | ⟨_, sched, _⟩⟩ := acquire_cases taken <;> rw [sched]
  | release t =>
      simp only [step] at taken
      split at taken
      · cases taken
        exact handOver_slots s t
      · cases taken
  | cancel t =>
      simp only [step] at taken
      split at taken
      · split at taken <;> cases taken <;> rfl
      · cases taken
  | resume t =>
      simp only [step] at taken
      split at taken
      · cases taken
        rfl
      · cases taken
        exact handOver_slots s t
      · cases taken
        rfl
      · cases taken

/-- An action that hands over is the hand-over of a caller with a slot. -/
theorem handOver_of_step {a : Action C} (hands : s.HandsOver a) (taken : s.step a = some s') :
    ∃ t, s.HasSlot t ∧ s' = s.handOver t := by
  cases a with
  | acquire cls => cases hands
  | cancel t => cases hands
  | release t =>
      simp only [step] at taken
      split at taken
      · rename_i holding
        cases taken
        exact ⟨t, .inl holding, rfl⟩
      · cases taken
  | resume t =>
      obtain ⟨waiting, granted⟩ := hands
      simp only [step, waiting, granted] at taken
      cases taken
      exact ⟨t, .inr ⟨.inr waiting, granted⟩, rfl⟩

/-- Nobody is granted a slot otherwise. -/
theorem grants_of_step {a : Action C} (keeps : ¬ s.HandsOver a) (taken : s.step a = some s') :
    s'.grants = s.grants := by
  cases a with
  | acquire cls => exact (acquire_cases taken).2.1
  | release t => exact absurd trivial keeps
  | cancel t =>
      simp only [step] at taken
      split at taken
      · split at taken <;> cases taken <;> rfl
      · cases taken
  | resume t =>
      simp only [step] at taken
      split at taken
      · cases taken
        rfl
      · rename_i waiting granted
        exact absurd ⟨waiting, granted⟩ keeps
      · cases taken
        rfl
      · cases taken

/-- **The scheduler under every interleaving.** In every reachable state `active` is the
number of callers with a slot and within its bounds; all slots are taken while
somebody waits, and everybody who waits is queued; a hand-over grants the slot to the
live waiter with the smallest finish tag and arrival number, and to nobody else, and
frees it if nobody waits; no other action grants anything, and nobody is granted a
slot twice. -/
theorem gate_sound {maxConcurrency : Int} {weights : Dict C ℚ} {defaultWeight cost : ℚ}
    {as : List (Action C)}
    (reach : Machine.run step (init maxConcurrency weights defaultWeight cost) as = some s) :
    (s.sched.active = census s.HasSlot s.next ∧ (∀ t, s.HasSlot t → t < s.next) ∧
        0 ≤ s.sched.active ∧ s.sched.active ≤ s.sched.maxConcurrency ∧
        s.sched.maxConcurrency = max 1 maxConcurrency) ∧
      (∀ t, s.Waits t →
        s.sched.active = s.sched.maxConcurrency ∧ ∃ e ∈ s.sched.wfq.heap, e.item = t) ∧
      (∀ a s', s.step a = some s' → s.HandsOver a →
        ((∃ t, s.Waits t) → ∃ e ∈ s.sched.wfq.heap, s.Waits e.item ∧
          (∀ e' ∈ s.sched.wfq.heap, s.Waits e'.item → e.key ≤ e'.key) ∧
          s'.grants = s.grants ++ [e.item] ∧ s'.fut = Function.update s.fut e.item .finished) ∧
        ((∀ t, ¬ s.Waits t) →
          s'.grants = s.grants ∧ s'.sched.active = s.sched.active - 1)) ∧
      (∀ a s', s.step a = some s' → ¬ s.HandsOver a → s'.grants = s.grants) ∧
      s.grants.Nodup := by
  have sound : s.Sound := Machine.run_invariant
    (fun _ _ _ sound taken => step_sound sound taken) (init_sound ..) reach
  have slots : s.sched.maxConcurrency = max 1 maxConcurrency :=
    Machine.run_invariant (I := fun s : Gate C => s.sched.maxConcurrency = max 1 maxConcurrency)
      (fun _ _ _ before taken => (step_slots taken).trans before) rfl reach
  refine ⟨⟨sound.count, fun t => sound.slot_lt_next, sound.sched.nonneg, sound.sched.bounded, slots⟩,
    ?_, ?_, fun a s' taken keeps => grants_of_step keeps taken, sound.once⟩
  · intro t waits
    obtain ⟨e, member, rfl⟩ := sound.parked waits
    exact ⟨sound.sched.full member waits.2, e, member, rfl⟩
  · intro a s' taken hands
    obtain ⟨t, slot, rfl⟩ := handOver_of_step hands taken
    obtain ⟨_, _, outcome⟩ := sound.handOver_cases slot
    rcases outcome with ⟨nobody, _, grants, active, _⟩ | ⟨e, member, waits, first, fut, grants, _⟩
    · exact ⟨fun ⟨u, waits⟩ => absurd waits (nobody u), fun _ => ⟨grants, active⟩⟩
    · exact ⟨fun _ => ⟨e, member, waits, first, grants, fut⟩, fun nobody => absurd waits (nobody _)⟩

/-- One slot: a waiter cancelled while parked, a release past it, and the winner
cancelled before it resumes. -/
def cancelledTwice : List (Action String) :=
  [.acquire "gold", .acquire "bronze", .acquire "silver", .cancel 1, .release 0, .cancel 2]

theorem gate_sound_cancelled :
    ∃ s, Machine.run step (init 1 .empty 1 1) cancelledTwice = some s ∧ s.grants = [2] ∧
      s.sched.active = census s.HasSlot s.next ∧ s.sched.active = 1 := by
  obtain ⟨s, reach, grants, active⟩ : ∃ s,
      Machine.run step (init 1 .empty 1 1) cancelledTwice = some s ∧ s.grants = [2] ∧
        s.sched.active = 1 := Machine.exists_run (by decide +kernel)
  exact ⟨s, reach, grants, (gate_sound reach).1.1, active⟩

end Gate

end Gateway
