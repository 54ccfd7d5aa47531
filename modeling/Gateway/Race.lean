import Gateway.Lib.Machine
import Mathlib.Algebra.GroupWithZero.Nat
import Mathlib.Algebra.Order.BigOperators.Group.List
import Mathlib.Algebra.Order.Group.Nat
import Mathlib.Data.List.Nodup

/-!
The race of `gateway/extensions/speculative.py`: the same request goes to several backends, the
first to respond wins, and the connections to the others are given up.

`race` runs beside the tasks that open its connections, and the event loop may run them in any
order between two of its awaits. A run is a list of actions: a task runs up to its await, its
connection opens or fails, a cancelled task is unwound, `asyncio.wait` returns with the tasks that
are done (in any order, as they are a set), the exit of a losing connection is over, or the request
is cancelled.

* `race_safe`: a race that has returned a winner holds the winner's connection and will never hold
  another one; a race that has returned none has seen every connection fail. A race ends after at
  most `4 n + 1` actions, and as long as it has not, some action is possible.
-/

namespace Gateway

/-- A connection of a race, with the task that opens it. -/
inductive Connection where
  /-- No candidate. -/
  | absent
  /-- The task has not started. -/
  | pending
  /-- At `await cm.__aenter__()`. -/
  | opening
  /-- The task has returned the response. -/
  | opened (code : Nat)
  /-- The task has raised. -/
  | failed
  /-- The task was cancelled and has not run since. -/
  | cancelling
  /-- The task has ended by its cancellation. -/
  | cancelled
  /-- `cm.__aexit__` has closed the response. -/
  | closed
  deriving DecidableEq, Repr

namespace Connection

/-- The task has returned or raised. -/
def isDone : Connection → Bool
  | opened _ | failed => true
  | _ => false

/-- The connection is open, or its task may still open it. -/
def live : Connection → Bool
  | pending | opening | opened _ => true
  | _ => false

/-- The task has not called `client.stream`, or it has been cancelled. -/
def unopened : Connection → Bool
  | pending | cancelling | cancelled => true
  | _ => false

/-- `t.cancel()`, which does nothing to a task that is done. -/
def cancel : Connection → Connection
  | pending | opening => cancelling
  | c => c

/-- `cm.__aexit__(None, None, None)`. A context that is still in `__aenter__` raises, which the
caller swallows; one that is over has nothing to close. -/
def exit : Connection → Connection
  | opened _ => closed
  | c => c

/-- How many actions a connection has before it. -/
def weight : Connection → Nat
  | pending => 3
  | opening => 2
  | cancelling => 1
  | _ => 0

theorem weight_cancel_le (c : Connection) : c.cancel.weight ≤ c.weight := by
  cases c with
  | pending | opening => decide
  | _ => exact Nat.le_refl _

theorem weight_exit (c : Connection) : c.exit.weight = c.weight := by
  cases c <;> rfl

theorem cancel_over (c : Connection) : c.cancel ≠ pending ∧ c.cancel ≠ opening := by
  cases c <;> exact ⟨Connection.noConfusion, Connection.noConfusion⟩

theorem cancel_eq_absent {c : Connection} : c.cancel = absent ↔ c = absent := by
  cases c <;> simp [cancel]

theorem unopened_cancel {c : Connection} (unopened : c.unopened = true) :
    c.cancel.unopened = true := by
  cases c with
  | pending | opening | cancelling | cancelled => rfl
  | absent | opened | failed | closed => cases unopened

theorem ne_pending_of_live_cancel {c : Connection} (open' : c.cancel.live = true) :
    c ≠ pending := by
  rintro rfl
  cases open'

theorem exit_of_unopened {c : Connection} (unopened : c.unopened = true) : c.exit = c := by
  cases c with
  | opened code => cases unopened
  | _ => rfl

theorem exit_eq_pending {c : Connection} : c.exit = pending ↔ c = pending := by
  cases c <;> simp [exit]

theorem exit_eq_absent {c : Connection} : c.exit = absent ↔ c = absent := by
  cases c <;> simp [exit]

/-- Nothing that is over is open after its exit. -/
theorem exit_over {c : Connection} (ended : c ≠ pending ∧ c ≠ opening) :
    (c.exit ≠ pending ∧ c.exit ≠ opening) ∧ c.exit.live = false := by
  cases c with
  | pending => exact absurd rfl ended.1
  | opening => exact absurd rfl ended.2
  | _ => simp [exit, live]

end Connection

/-- `RaceOutcome`: `winnerResponse` is the status of the response. -/
structure RaceOutcome (B : Type) where
  winnerId : B
  winnerResponse : Nat
  loserIds : List B
  deriving DecidableEq, Repr

/-- Where `race` is. -/
inductive RacePhase (B : Type) where
  /-- At `await asyncio.wait(...)`. -/
  | waiting
  /-- At the `await cm.__aexit__(...)` of the first of `left`. -/
  | closing (outcome : Option (RaceOutcome B)) (left : List B)
  | returned (outcome : Option (RaceOutcome B))
  | raised
  deriving DecidableEq, Repr

/-- `race` has neither returned nor raised. -/
def RacePhase.running {B : Type} : RacePhase B → Bool
  | waiting | closing _ _ => true
  | returned _ | raised => false

/-- `race`: `cms` and `tasks` are the backends with an entry there. -/
structure Race (B : Type) where
  conn : B → Connection
  cms : List B
  tasks : List B
  failed : List B
  phase : RacePhase B

namespace Race

variable {B : Type} [DecidableEq B]

/-- `race` up to its first await. -/
def init (candidates : List B) : Race B where
  conn b := if b ∈ candidates then .pending else .absent
  cms := []
  tasks := candidates
  failed := []
  phase := if candidates.isEmpty then .returned none else .waiting

/-- Connection `b` changes. -/
def setConn (s : Race B) (b : B) (c : Connection) : Race B :=
  { s with conn := Function.update s.conn b c }

/-! ### The tasks -/

/-- `open_one` runs up to its await. -/
def start (s : Race B) (b : B) : Option (Race B) :=
  if s.conn b = .pending then some { s.setConn b .opening with cms := s.cms ++ [b] } else none

/-- `cm.__aenter__()` returns. -/
def respond (s : Race B) (b : B) (code : Nat) : Option (Race B) :=
  if s.conn b = .opening then some (s.setConn b (.opened code)) else none

/-- `cm.__aenter__()` raises an `Exception`. -/
def fail (s : Race B) (b : B) : Option (Race B) :=
  if s.conn b = .opening then some (s.setConn b .failed) else none

/-- A cancelled task is unwound. -/
def unwind (s : Race B) (b : B) : Option (Race B) :=
  if s.conn b = .cancelling then some (s.setConn b .cancelled) else none

/-! ### The loops -/

/-- `for t in done: ...`, and what has won. -/
def harvest (s : Race B) : List B → Race B × Option (B × Nat)
  | [] => (s, none)
  | b :: done =>
      let s := { s with tasks := s.tasks.erase b }
      match s.conn b with
      | .opened code => (s, some (b, code))
      | _ => { s with failed := s.failed ++ [b], cms := s.cms.erase b }.harvest done

/-- `t.cancel()` of some tasks. -/
def cancelAll (s : Race B) (bs : List B) : Race B :=
  { s with conn := fun b => if b ∈ bs then (s.conn b).cancel else s.conn b }

/-- The loop over the losers' contexts goes on with `left`. -/
def goOn (s : Race B) (outcome : Option (RaceOutcome B)) (left : List B) : Race B :=
  match left, outcome with
  | [], some o =>
      -- `cms[winner_id]` raises a `KeyError` if it is not there
      { s with phase := if o.winnerId ∈ s.cms then .returned (some o) else .raised }
  | [], none => { s with phase := .returned none }
  | left, outcome => { s with phase := .closing outcome left }

/-- What follows an iteration of `while tasks and winner_id is None`. -/
def settle (s : Race B) (winner : Option (B × Nat)) : Race B :=
  match winner with
  | some (w, code) =>
      let losers := s.tasks.filter fun b => b ≠ w
      (s.cancelAll losers).goOn (some ⟨w, code, losers ++ s.failed⟩) (s.cms.filter fun b => b ≠ w)
  | none => if s.tasks.isEmpty then (s.cancelAll s.tasks).goOn none s.cms else s

/-- `asyncio.wait` returns, with the tasks that are done. -/
def wake (s : Race B) (done : List B) : Option (Race B) :=
  if s.phase = .waiting ∧ done ≠ [] ∧ done.Perm (s.tasks.filter fun b => (s.conn b).isDone) then
    some ((s.harvest done).1.settle (s.harvest done).2)
  else none

/-- The exit of a loser's context is over. -/
def exit (s : Race B) : Option (Race B) :=
  match s.phase with
  | .closing outcome (b :: left) => some ((s.setConn b (s.conn b).exit).goOn outcome left)
  | _ => none

/-- The request is cancelled. Its tasks are not, and what is open stays so. -/
def abandon (s : Race B) : Option (Race B) :=
  if s.phase.running then some { s with phase := .raised } else none

inductive Act (B : Type) where
  | start (b : B)
  | respond (b : B) (code : Nat)
  | fail (b : B)
  | unwind (b : B)
  | wake (done : List B)
  | exit
  | abandon
  deriving DecidableEq, Repr

def step (s : Race B) : Act B → Option (Race B)
  | .start b => s.start b
  | .respond b code => s.respond b code
  | .fail b => s.fail b
  | .unwind b => s.unwind b
  | .wake done => s.wake done
  | .exit => s.exit
  | .abandon => s.abandon

/-! ### The invariant -/

variable {candidates : List B} {s s' : Race B} {b : B}

/-- The tables of a race whose tasks are still awaited. `won` is the task that has just been found
to have a response. -/
structure Pool (candidates : List B) (won : Option B) (s : Race B) : Prop where
  split : (won.toList ++ s.tasks ++ s.failed).Perm candidates
  awaited : ∀ b ∈ s.tasks, (s.conn b).live = true ∨ s.conn b = .failed
  refused : ∀ b ∈ s.failed, s.conn b = .failed
  cms : ∀ b, b ∈ s.cms ↔ (b ∈ won.toList ∨ b ∈ s.tasks) ∧ s.conn b ≠ .pending
  nodup : s.cms.Nodup

/-- The winner's connection is open, and no other task is on its way to a response. -/
structure Won (candidates : List B) (s : Race B) (o : RaceOutcome B) : Prop where
  member : o.winnerId ∈ candidates
  losers : o.loserIds.Perm (candidates.erase o.winnerId)
  opened : s.conn o.winnerId = .opened o.winnerResponse
  kept : o.winnerId ∈ s.cms
  ended : ∀ b ≠ o.winnerId, s.conn b ≠ .pending ∧ s.conn b ≠ .opening

/-- What holds of a race wherever it is. -/
structure Sound (candidates : List B) (s : Race B) : Prop where
  distinct : candidates.Nodup
  absent : ∀ b, s.conn b = .absent ↔ b ∉ candidates
  waiting : s.phase = .waiting → s.Pool candidates none ∧ s.tasks ≠ []
  closing : ∀ outcome left, s.phase = .closing outcome left → ∃ o, outcome = some o ∧
    s.Won candidates o ∧ left ≠ [] ∧ o.winnerId ∉ left ∧
      ∀ b ≠ o.winnerId, (s.conn b).live = true → b ∈ left
  returned : ∀ o, s.phase = .returned (some o) →
    s.Won candidates o ∧ ∀ b ≠ o.winnerId, (s.conn b).live = false
  lost : s.phase = .returned none → ∀ b ∈ candidates, s.conn b = .failed

theorem sound_init (distinct : candidates.Nodup) : (init candidates).Sound candidates where
  distinct := distinct
  absent := by
    intro b
    simp only [init]
    split
    · rename_i member
      exact ⟨fun absent => Connection.noConfusion absent, fun none => absurd member none⟩
    · rename_i none
      exact ⟨fun _ => none, fun _ => rfl⟩
  waiting := by
    intro at_wait
    have some_candidate : candidates ≠ [] := by
      rintro rfl
      cases at_wait
    have pending : ∀ b ∈ candidates, (init candidates).conn b = .pending :=
      fun b member => if_pos member
    refine ⟨⟨by simp [init], fun b member => .inl ?_, fun b member => ?_, fun b => ?_,
      List.nodup_nil⟩, some_candidate⟩
    · rw [pending b member]
      rfl
    · cases member
    · constructor
      · intro member
        cases member
      · rintro ⟨member | member, started⟩
        · cases member
        · exact absurd (pending b member) started
  closing := by
    intro outcome left at_exit
    simp only [init] at at_exit
    split at at_exit <;> cases at_exit
  returned := by
    intro o done
    simp only [init] at done
    split at done <;> cases done
  lost := by
    intro done b member
    simp only [init] at done
    split at done
    · rename_i no_candidate
      rw [List.isEmpty_iff.mp no_candidate] at member
      cases member
    · cases done

/-! ### The tasks keep it -/

theorem Sound.mem (sound : s.Sound candidates) (present : s.conn b ≠ .absent) : b ∈ candidates := by
  by_contra none
  exact present ((sound.absent b).mpr none)

omit [DecidableEq B] in
theorem Pool.nodup_split (pool : s.Pool candidates none) (distinct : candidates.Nodup) :
    (s.tasks ++ s.failed).Nodup :=
  pool.split.nodup_iff.mpr distinct

omit [DecidableEq B] in
/-- A task that has not ended is awaited. -/
theorem Pool.mem_tasks (pool : s.Pool candidates none) (member : b ∈ candidates)
    (ne : s.conn b ≠ .failed) : b ∈ s.tasks := by
  rcases List.mem_append.mp (pool.split.mem_iff.mpr member) with awaited | refused
  · exact awaited
  · exact absurd (pool.refused b refused) ne

/-- What a task does to its connection. -/
inductive Moves : Connection → Connection → Prop where
  | start : Moves .pending .opening
  | respond (code : Nat) : Moves .opening (.opened code)
  | fail : Moves .opening .failed
  | unwind : Moves .cancelling .cancelled

theorem Moves.weight_lt {c c' : Connection} (moves : Moves c c') : c'.weight < c.weight := by
  cases moves with
  | start | respond | fail | unwind => simp [Connection.weight]

theorem Moves.source {c c' : Connection} (moves : Moves c c') : c ≠ .absent ∧ c ≠ .failed := by
  cases moves <;> exact ⟨Connection.noConfusion, Connection.noConfusion⟩

theorem Moves.target {c c' : Connection} (moves : Moves c c') : c' ≠ .absent ∧ c' ≠ .pending := by
  cases moves <;> exact ⟨Connection.noConfusion, Connection.noConfusion⟩

/-- A task changes its connection. -/
structure Moved (s s' : Race B) (b : B) (c c' : Connection) : Prop where
  moves : Moves c c'
  was : s.conn b = c
  conn : s'.conn = Function.update s.conn b c'
  tasks : s'.tasks = s.tasks
  failed : s'.failed = s.failed
  phase : s'.phase = s.phase
  cms : s'.cms = if c = .pending then s.cms ++ [b] else s.cms

/-- **What an action is.** -/
theorem step_cases {a : Act B} (taken : s.step a = some s') :
    (∃ b c c', Moved s s' b c c' ∧ (c = .pending → a = .start b)) ∨
      (∃ done, s.wake done = some s') ∨ s.exit = some s' ∨ s.abandon = some s' := by
  cases a with
  | start b =>
      obtain ⟨was, moved⟩ := Option.ite_none_right_eq_some.mp taken
      cases moved
      exact .inl ⟨b, _, _, ⟨.start, was, rfl, rfl, rfl, rfl, rfl⟩, fun _ => rfl⟩
  | respond b code =>
      obtain ⟨was, moved⟩ := Option.ite_none_right_eq_some.mp taken
      cases moved
      exact .inl ⟨b, _, _, ⟨.respond code, was, rfl, rfl, rfl, rfl, rfl⟩, Connection.noConfusion⟩
  | fail b =>
      obtain ⟨was, moved⟩ := Option.ite_none_right_eq_some.mp taken
      cases moved
      exact .inl ⟨b, _, _, ⟨.fail, was, rfl, rfl, rfl, rfl, rfl⟩, Connection.noConfusion⟩
  | unwind b =>
      obtain ⟨was, moved⟩ := Option.ite_none_right_eq_some.mp taken
      cases moved
      exact .inl ⟨b, _, _, ⟨.unwind, was, rfl, rfl, rfl, rfl, rfl⟩, Connection.noConfusion⟩
  | wake done => exact .inr (.inl ⟨done, taken⟩)
  | exit => exact .inr (.inr (.inl taken))
  | abandon => exact .inr (.inr (.inr taken))

section Tasks

variable {c c' : Connection} (moved : Moved s s' b c c')
include moved

theorem absent_task (sound : s.Sound candidates) (x : B) :
    s'.conn x = .absent ↔ x ∉ candidates := by
  rw [moved.conn]
  by_cases same : x = b
  · subst same
    rw [Function.update_self]
    have member : x ∈ candidates := sound.mem (moved.was ▸ moved.moves.source.1)
    exact ⟨fun absent => absurd absent moved.moves.target.1, fun none => absurd member none⟩
  · rw [Function.update_of_ne same]
    exact sound.absent x

theorem pool_task (sound : s.Sound candidates) (pool : s.Pool candidates none) :
    s'.Pool candidates none := by
  have running : s.conn b ≠ .failed := moved.was ▸ moved.moves.source.2
  have awaited : b ∈ s.tasks :=
    pool.mem_tasks (sound.mem (moved.was ▸ moved.moves.source.1)) running
  have others : ∀ x ≠ b, s'.conn x = s.conn x := fun x ne => by
    rw [moved.conn, Function.update_of_ne ne]
  have own : s'.conn b = c' := by rw [moved.conn, Function.update_self]
  constructor
  case split =>
    rw [moved.tasks, moved.failed]
    exact pool.split
  case awaited =>
    intro x member
    rw [moved.tasks] at member
    by_cases same : x = b
    · rw [same, own]
      have before := pool.awaited b awaited
      rw [moved.was] at before
      cases moved.moves with
      | start | respond | fail => simp [Connection.live]
      | unwind => simp [Connection.live] at before
    · rw [others x same]
      exact pool.awaited x member
  case refused =>
    intro x member
    rw [moved.failed] at member
    have ne : x ≠ b := by
      rintro rfl
      exact running (pool.refused x member)
    rw [others x ne]
    exact pool.refused x member
  case cms =>
    intro x
    rw [moved.tasks, moved.cms]
    by_cases same : x = b
    · subst same
      rw [own]
      simp only [awaited, or_true, true_and]
      refine ⟨fun _ => moved.moves.target.2, fun _ => ?_⟩
      split
      · exact List.mem_append_right _ List.mem_cons_self
      · rename_i begun
        exact (pool.cms x).mpr ⟨.inr awaited, moved.was ▸ begun⟩
    · rw [others x same, ← pool.cms x]
      split
      · simp [same]
      · rfl
  case nodup =>
    rw [moved.cms]
    split
    · rename_i fresh
      have new : b ∉ s.cms := fun listed => ((pool.cms b).mp listed).2 (moved.was.trans fresh)
      refine List.nodup_append.mpr ⟨pool.nodup, List.nodup_singleton b, fun x old y last => ?_⟩
      rw [List.mem_singleton.mp last]
      rintro rfl
      exact new old
    · exact pool.nodup

theorem won_task {o : RaceOutcome B} (won : s.Won candidates o) :
    s'.Won candidates o ∧ ∀ x ≠ o.winnerId, (s'.conn x).live = true → (s.conn x).live = true := by
  have was := moved.was
  have ne : b ≠ o.winnerId := by
    rintro rfl
    rw [won.opened] at was
    subst was
    cases moved.moves
  have ended := won.ended b ne
  rw [was] at ended
  -- only a cancelled task is left to move
  obtain ⟨rfl, rfl⟩ : c = .cancelling ∧ c' = .cancelled := by
    cases moved.moves with
    | start => exact absurd rfl ended.1
    | respond | fail => exact absurd rfl ended.2
    | unwind => exact ⟨rfl, rfl⟩
  refine ⟨⟨won.member, won.losers, ?_, ?_, fun x other => ?_⟩, fun x other => ?_⟩
  · rw [moved.conn, Function.update_of_ne ne.symm]
    exact won.opened
  · rw [moved.cms]
    exact won.kept
  · rw [moved.conn, Function.update_apply]
    split
    · exact ⟨Connection.noConfusion, Connection.noConfusion⟩
    · exact won.ended x other
  · rw [moved.conn, Function.update_apply]
    split
    · intro open'
      cases open'
    · exact id

theorem sound_task (sound : s.Sound candidates) : s'.Sound candidates where
  distinct := sound.distinct
  absent := absent_task moved sound
  waiting := by
    intro at_wait
    obtain ⟨pool, some_left⟩ := sound.waiting (moved.phase ▸ at_wait)
    exact ⟨pool_task moved sound pool, moved.tasks ▸ some_left⟩
  closing := by
    intro outcome left at_exit
    obtain ⟨o, rfl, won, some_left, kept, live⟩ := sound.closing outcome left (moved.phase ▸ at_exit)
    obtain ⟨won', fewer⟩ := won_task moved won
    exact ⟨o, rfl, won', some_left, kept, fun x other open' => live x other (fewer x other open')⟩
  returned := by
    intro o done
    obtain ⟨won, none_live⟩ := sound.returned o (moved.phase ▸ done)
    obtain ⟨won', fewer⟩ := won_task moved won
    refine ⟨won', fun x other => Bool.eq_false_iff.mpr fun open' => ?_⟩
    exact Bool.eq_false_iff.mp (none_live x other) (fewer x other open')
  lost := by
    intro done x member
    have all := sound.lost (moved.phase ▸ done)
    have ne : x ≠ b := by
      rintro rfl
      exact moved.moves.source.2 (moved.was.symm.trans (all x member))
    rw [moved.conn, Function.update_of_ne ne]
    exact all x member

end Tasks

/-! ### The loops keep it -/

/-- A task that is done has a response. -/
theorem Pool.win (pool : s.Pool candidates none) (member : b ∈ s.tasks) :
    Pool candidates (some b) { s with tasks := s.tasks.erase b } := by
  have taken : s.tasks.Perm (b :: s.tasks.erase b) := List.perm_cons_erase member
  refine ⟨(taken.symm.append_right s.failed).trans pool.split,
    fun x left => pool.awaited x (List.mem_of_mem_erase left), pool.refused, fun x => ?_, pool.nodup⟩
  have listed := pool.cms x
  simp only [Option.toList_none, List.not_mem_nil, false_or] at listed
  rw [listed, taken.mem_iff, List.mem_cons, Option.toList_some, List.mem_singleton]

/-- A task that is done has raised. -/
theorem Pool.refuse (pool : s.Pool candidates none) (distinct : candidates.Nodup)
    (member : b ∈ s.tasks) (state : s.conn b = .failed) :
    Pool candidates none { s with
      tasks := s.tasks.erase b
      failed := s.failed ++ [b]
      cms := s.cms.erase b } := by
  have taken : s.tasks.Perm (b :: s.tasks.erase b) := List.perm_cons_erase member
  have tasks : s.tasks.Nodup := (pool.nodup_split distinct).of_append_left
  have left : ∀ {x}, x ∈ s.tasks.erase b ↔ x ≠ b ∧ x ∈ s.tasks := tasks.mem_erase_iff
  refine ⟨?_, fun x awaited => pool.awaited x (left.mp awaited).2, fun x refused => ?_, fun x => ?_,
    pool.nodup.erase b⟩
  · refine List.Perm.trans ?_ ((taken.append_right s.failed).symm.trans pool.split)
    simp only [Option.toList_none, List.nil_append, ← List.append_assoc, List.cons_append]
    exact List.perm_append_singleton b _
  · rcases List.mem_append.mp refused with old | new
    · exact pool.refused x old
    · rw [List.mem_singleton.mp new]
      exact state
  · rw [pool.nodup.mem_erase_iff, pool.cms x]
    simp only [Option.toList_none, List.not_mem_nil, false_or, left]
    tauto

/-- What the loop over the tasks that are done leaves. -/
structure Harvested (candidates : List B) (s : Race B) (h : Race B × Option (B × Nat)) : Prop where
  pool : h.1.Pool candidates (h.2.map Prod.fst)
  conn : h.1.conn = s.conn
  phase : h.1.phase = s.phase
  response : ∀ w code, h.2 = some (w, code) → s.conn w = .opened code
  fewer : h.1.tasks.length ≤ s.tasks.length

theorem harvested_harvest (distinct : candidates.Nodup) (pool : s.Pool candidates none)
    {done : List B} (nodup : done.Nodup)
    (awaited : ∀ b ∈ done, b ∈ s.tasks ∧ (s.conn b).isDone = true) :
    Harvested candidates s (s.harvest done) := by
  induction done generalizing s with
  | nil => exact ⟨pool, rfl, rfl, fun _ _ won => (Option.some_ne_none _ won.symm).elim, Nat.le_refl _⟩
  | cons b done ih =>
      obtain ⟨⟨member, ended⟩, rest⟩ := List.forall_mem_cons.mp awaited
      have tasks : s.tasks.Nodup := (pool.nodup_split distinct).of_append_left
      have fewer : (s.tasks.erase b).length ≤ s.tasks.length := List.length_erase_le
      cases state : s.conn b with
      | opened code =>
          have won : s.harvest (b :: done) = ({ s with tasks := s.tasks.erase b }, some (b, code)) := by
            simp only [harvest, state]
          rw [won]
          refine ⟨pool.win member, rfl, rfl, fun w code' same => ?_, fewer⟩
          cases same
          exact state
      | failed =>
          have lost : s.harvest (b :: done) =
              { s with
                tasks := s.tasks.erase b
                failed := s.failed ++ [b]
                cms := s.cms.erase b }.harvest done := by
            simp only [harvest, state]
          have later : ∀ x ∈ done, x ∈ s.tasks.erase b ∧ (s.conn x).isDone = true := by
            intro x member'
            refine ⟨tasks.mem_erase_iff.mpr ⟨?_, (rest x member').1⟩, (rest x member').2⟩
            rintro rfl
            exact (List.nodup_cons.mp nodup).1 member'
          obtain ⟨pool', conn, phase, response, fewer'⟩ :=
            ih (pool.refuse distinct member state) (List.nodup_cons.mp nodup).2 later
          rw [lost]
          exact ⟨pool', conn, phase, response, fewer'.trans fewer⟩
      | absent | pending | opening | cancelling | cancelled | closed =>
          rw [state] at ended
          cases ended

/-- The loop takes a task off the table, if one is done. -/
theorem length_harvest_lt {done : List B} (member : b ∈ s.tasks) :
    (s.harvest (b :: done)).1.tasks.length < s.tasks.length := by
  have le : ∀ (done : List B) (s : Race B), (s.harvest done).1.tasks.length ≤ s.tasks.length := by
    intro done
    induction done with
    | nil => exact fun s => Nat.le_refl _
    | cons x done ih =>
        intro s
        have fewer : (s.tasks.erase x).length ≤ s.tasks.length := List.length_erase_le
        unfold harvest
        dsimp only
        split
        · exact fewer
        · exact (ih _).trans fewer
  have fewer : (s.tasks.erase b).length < s.tasks.length := by
    rw [List.length_erase_of_mem member]
    have := List.length_pos_of_mem member
    omega
  unfold harvest
  dsimp only
  split
  · exact fewer
  · exact (le done _).trans_lt fewer

/-- The race goes on with the losers' contexts, or returns. -/
theorem sound_goOn {o : RaceOutcome B} {left : List B} (distinct : candidates.Nodup)
    (absent : ∀ b, s.conn b = .absent ↔ b ∉ candidates) (won : s.Won candidates o)
    (kept : o.winnerId ∉ left) (live : ∀ b ≠ o.winnerId, (s.conn b).live = true → b ∈ left) :
    (s.goOn (some o) left).Sound candidates := by
  cases left with
  | nil =>
      simp only [goOn, if_pos won.kept]
      constructor
      case distinct => exact distinct
      case absent => exact absent
      case returned =>
        intro o' done
        cases done
        refine ⟨⟨won.member, won.losers, won.opened, won.kept, won.ended⟩, fun b ne => ?_⟩
        exact Bool.eq_false_iff.mpr fun open' => List.not_mem_nil (live b ne open')
      case lost =>
        intro done
        cases done
      all_goals
        intros
        contradiction
  | cons b left =>
      simp only [goOn]
      constructor
      case distinct => exact distinct
      case absent => exact absent
      case closing =>
        intro outcome left' at_exit
        cases at_exit
        exact ⟨o, rfl, ⟨won.member, won.losers, won.opened, won.kept, won.ended⟩, List.cons_ne_nil _ _,
          kept, live⟩
      all_goals
        intros
        contradiction

omit [DecidableEq B] in
/-- A candidate that is neither awaited nor the winner has failed. -/
theorem Pool.failed_of_notMem {w : B} (pool : s.Pool candidates (some w)) (member : b ∈ candidates)
    (ne : b ≠ w) (not_awaited : b ∉ s.tasks) : s.conn b = .failed := by
  have split : (w :: (s.tasks ++ s.failed)).Perm candidates := pool.split
  refine pool.refused b ?_
  rcases List.mem_cons.mp (split.mem_iff.mpr member) with same | rest
  · exact absurd same ne
  · exact (List.mem_append.mp rest).resolve_left not_awaited

/-- An iteration that has found a winner. -/
theorem sound_settle_some (distinct : candidates.Nodup)
    (absent : ∀ b, s.conn b = .absent ↔ b ∉ candidates) {w : B} {code : Nat}
    (pool : s.Pool candidates (some w)) (response : s.conn w = .opened code) :
    (s.settle (some (w, code))).Sound candidates := by
  have split : (w :: (s.tasks ++ s.failed)).Perm candidates := pool.split
  obtain ⟨apart, -⟩ := List.nodup_cons.mp (split.nodup_iff.mpr distinct)
  have awaited : w ∉ s.tasks := fun member => apart (List.mem_append_left _ member)
  have others : s.tasks.filter (fun b => b ≠ w) = s.tasks := by
    rw [List.filter_eq_self]
    intro b member
    exact decide_eq_true fun same => awaited (same ▸ member)
  have quiet : ∀ b ≠ w, b ∉ s.tasks → s.conn b = .failed ∨ s.conn b = .absent := by
    intro b ne not_awaited
    by_cases member : b ∈ candidates
    · exact .inl (pool.failed_of_notMem member ne not_awaited)
    · exact .inr ((absent b).mpr member)
  have conn : ∀ b, (s.cancelAll s.tasks).conn b =
      if b ∈ s.tasks then (s.conn b).cancel else s.conn b := fun _ => rfl
  simp only [settle, others]
  refine sound_goOn distinct (fun b => ?_) ⟨?_, ?_, ?_, ?_, fun b ne => ?_⟩ ?_ fun b ne open' => ?_
  · rw [conn]
    split
    · rw [Connection.cancel_eq_absent, absent]
    · exact absent b
  · exact split.mem_iff.mp List.mem_cons_self
  · have rest := split.erase w
    rwa [List.erase_cons_head] at rest
  · rw [conn, if_neg awaited]
    exact response
  · exact (pool.cms w).mpr ⟨.inl List.mem_cons_self, by rw [response]; exact Connection.noConfusion⟩
  · rw [conn]
    split
    · exact Connection.cancel_over _
    · rename_i not_awaited
      rcases quiet b ne not_awaited with state | state
      · rw [state]
        exact ⟨Connection.noConfusion, Connection.noConfusion⟩
      · rw [state]
        exact ⟨Connection.noConfusion, Connection.noConfusion⟩
  · simp
  · rw [conn] at open'
    split at open'
    · rename_i member
      have started := Connection.ne_pending_of_live_cancel open'
      exact List.mem_filter.mpr ⟨(pool.cms b).mpr ⟨.inr member, started⟩, decide_eq_true ne⟩
    · rename_i not_awaited
      rcases quiet b ne not_awaited with state | state
      · rw [state] at open'
        cases open'
      · rw [state] at open'
        cases open'

/-- An iteration that has found none. -/
theorem sound_settle_none (sound : s.Sound candidates) {m : Race B} (at_wait : s.phase = .waiting)
    (pool : m.Pool candidates none) (conn : m.conn = s.conn) (phase : m.phase = s.phase) :
    (m.settle none).Sound candidates := by
  simp only [settle]
  split
  · rename_i none_left
    have tasks : m.tasks = [] := List.isEmpty_iff.mp none_left
    have all : ∀ b ∈ candidates, m.conn b = .failed := by
      intro b member
      have placed := pool.split.mem_iff.mpr member
      rw [tasks] at placed
      exact pool.refused b placed
    have ended : m.cms = [] := by
      rw [List.eq_nil_iff_forall_not_mem]
      intro b listed
      rcases ((pool.cms b).mp listed).1 with won | awaited
      · cases won
      · rw [tasks] at awaited
        cases awaited
    rw [tasks, ended]
    simp only [cancelAll, goOn, List.not_mem_nil, if_false]
    constructor
    case distinct => exact sound.distinct
    case absent => exact fun b => conn ▸ sound.absent b
    case lost => exact fun _ => all
    case returned =>
      intro o done
      cases done
    all_goals
      intros
      contradiction
  · rename_i some_left
    rw [at_wait] at phase
    constructor
    case distinct => exact sound.distinct
    case absent => exact fun b => conn ▸ sound.absent b
    case waiting => exact fun _ => ⟨pool, fun none_left => some_left (List.isEmpty_iff.mpr none_left)⟩
    all_goals
      rw [phase]
      intros
      contradiction

theorem sound_wake (sound : s.Sound candidates) {done : List B} (taken : s.wake done = some s') :
    s'.Sound candidates := by
  unfold wake at taken
  split at taken
  · rename_i woken
    obtain ⟨at_wait, -, perm⟩ := woken
    obtain ⟨pool, -⟩ := sound.waiting at_wait
    have tasks : s.tasks.Nodup := (pool.nodup_split sound.distinct).of_append_left
    obtain ⟨pool', conn, phase, response, -⟩ :=
      harvested_harvest sound.distinct pool (perm.nodup_iff.mpr (tasks.filter _)) fun b member =>
        List.mem_filter.mp (perm.mem_iff.mp member)
    cases taken
    cases won : (s.harvest done).2 with
    | none =>
        rw [won] at pool'
        exact sound_settle_none sound at_wait pool' conn phase
    | some w =>
        rw [won] at pool'
        refine sound_settle_some sound.distinct (fun b => conn ▸ sound.absent b) pool' ?_
        rw [conn]
        exact response w.1 w.2 won
  · cases taken

theorem sound_exit (sound : s.Sound candidates) (taken : s.exit = some s') : s'.Sound candidates := by
  unfold exit at taken
  split at taken
  · rename_i outcome b left at_exit
    obtain ⟨o, rfl, won, -, kept, live⟩ := sound.closing outcome (b :: left) at_exit
    have ne : o.winnerId ≠ b := fun same => kept (same ▸ List.mem_cons_self)
    have conn : ∀ x, (s.setConn b (s.conn b).exit).conn x =
        if x = b then (s.conn b).exit else s.conn x := fun x => Function.update_apply ..
    cases taken
    refine sound_goOn sound.distinct (fun x => ?_) ⟨won.member, won.losers, ?_, won.kept,
      fun x other => ?_⟩ (fun member => kept (List.mem_cons_of_mem _ member))
      fun x other open' => ?_
    · rw [conn]
      split
      · rename_i same
        rw [same, Connection.exit_eq_absent, sound.absent b]
      · exact sound.absent x
    · rw [conn, if_neg ne]
      exact won.opened
    · rw [conn]
      split
      · rename_i same
        exact (Connection.exit_over (won.ended b (same ▸ other))).1
      · exact won.ended x other
    · rw [conn] at open'
      split at open'
      · rename_i same
        have shut := (Connection.exit_over (won.ended b (same ▸ other))).2
        exact absurd open' (Bool.eq_false_iff.mp shut)
      · rename_i differs
        exact (List.mem_cons.mp (live x other open')).resolve_left differs
  · cases taken

theorem sound_abandon (sound : s.Sound candidates) (taken : s.abandon = some s') :
    s'.Sound candidates := by
  unfold abandon at taken
  split at taken
  · cases taken
    constructor
    case distinct => exact sound.distinct
    case absent => exact sound.absent
    all_goals
      intros
      contradiction
  · cases taken

/-- **One action.** -/
theorem sound_step {a : Act B} (sound : s.Sound candidates) (taken : s.step a = some s') :
    s'.Sound candidates := by
  rcases step_cases taken with ⟨b, c, c', moved, -⟩ | ⟨done, woken⟩ | closed | abandoned
  · exact sound_task moved sound
  · exact sound_wake sound woken
  · exact sound_exit sound closed
  · exact sound_abandon sound abandoned

/-! ### How long a race takes -/

/-- What is left of the loops. -/
def loopsLeft (s : Race B) : Nat :=
  match s.phase with
  | .waiting => s.tasks.length + 1
  | .closing _ left => left.length + 1
  | .returned _ | .raised => 0

/-- How many actions a race can still have. -/
def actionsLeft (candidates : List B) (s : Race B) : Nat :=
  (candidates.map fun b => (s.conn b).weight).sum + s.loopsLeft

theorem actionsLeft_init : (init candidates).actionsLeft candidates ≤ 4 * candidates.length + 1 := by
  have weights : (candidates.map fun b => ((init candidates).conn b).weight).sum =
      candidates.length * 3 := by
    rw [List.map_congr_left (g := fun _ => 3) fun b member => by simp [init, member, Connection.weight]]
    simp
  have loops : (init candidates).loopsLeft ≤ candidates.length + 1 := by
    unfold loopsLeft init
    dsimp only
    split <;> rename_i at_phase
    · exact Nat.le_refl _
    · split at at_phase <;> cases at_phase
    all_goals exact Nat.zero_le _
  rw [actionsLeft, weights]
  omega

theorem loopsLeft_goOn (outcome : Option (RaceOutcome B)) (left : List B) :
    (s.goOn outcome left).loopsLeft ≤ left.length + 1 := by
  cases left with
  | nil =>
      cases outcome with
      | none => exact Nat.zero_le _
      | some o =>
          simp only [goOn]
          split <;> exact Nat.zero_le _
  | cons b left => exact Nat.le_refl _

theorem conn_goOn (outcome : Option (RaceOutcome B)) (left : List B) :
    (s.goOn outcome left).conn = s.conn := by
  cases left with
  | nil => cases outcome <;> rfl
  | cons b left => rfl

/-- A task's action is one less to come. -/
theorem sum_weight_lt {c c' : Connection} (moved : Moved s s' b c c') (member : b ∈ candidates) :
    (candidates.map fun x => (s'.conn x).weight).sum <
      (candidates.map fun x => (s.conn x).weight).sum := by
  refine List.sum_lt_sum _ _ (fun x _ => ?_) ⟨b, member, ?_⟩
  · rw [moved.conn, Function.update_apply]
    split
    · rename_i same
      rw [same, moved.was]
      exact moved.moves.weight_lt.le
    · exact Nat.le_refl _
  · rw [moved.conn, Function.update_self, moved.was]
    exact moved.moves.weight_lt

omit [DecidableEq B] in
/-- What cancels tasks or closes connections makes nothing heavier. -/
theorem sum_weight_le (le : ∀ b, (s'.conn b).weight ≤ (s.conn b).weight) :
    (candidates.map fun b => (s'.conn b).weight).sum ≤
      (candidates.map fun b => (s.conn b).weight).sum :=
  List.sum_le_sum fun b _ => le b

theorem conn_cancelAll (bs : List B) (b : B) :
    (s.cancelAll bs).conn b = s.conn b ∨ (s.cancelAll bs).conn b = (s.conn b).cancel := by
  simp only [cancelAll]
  split
  · exact .inr rfl
  · exact .inl rfl

omit [DecidableEq B] in
/-- Every context that is left belongs to a task. -/
theorem Pool.length_le {won : Option B} (pool : s.Pool candidates won) {left : List B}
    (sub : left.Sublist s.cms) (apart : ∀ b ∈ left, b ∉ won.toList) :
    left.length ≤ s.tasks.length := by
  have nodup : left.Nodup := pool.nodup.sublist sub
  refine (List.subperm_of_subset nodup fun b member => ?_).length_le
  exact ((pool.cms b).mp (sub.subset member)).1.resolve_left (apart b member)

theorem loopsLeft_settle {won : Option (B × Nat)} (pool : s.Pool candidates (won.map Prod.fst))
    (at_wait : s.phase = .waiting) : (s.settle won).loopsLeft ≤ s.tasks.length + 1 := by
  cases won with
  | none =>
      have fewer : s.cms.length ≤ s.tasks.length :=
        pool.length_le (List.Sublist.refl _) fun b _ => List.not_mem_nil
      simp only [settle]
      split
      · exact (loopsLeft_goOn none s.cms).trans (Nat.succ_le_succ fewer)
      · rw [loopsLeft, at_wait]
  | some w =>
      refine (loopsLeft_goOn _ _).trans (Nat.succ_le_succ (pool.length_le List.filter_sublist ?_))
      intro b member same
      have ne := of_decide_eq_true (List.mem_filter.mp member).2
      exact ne (List.mem_singleton.mp same)

/-- An iteration may cancel a task. -/
theorem conn_settle (won : Option (B × Nat)) (b : B) :
    (s.settle won).conn b = s.conn b ∨ (s.settle won).conn b = (s.conn b).cancel := by
  cases won with
  | none =>
      simp only [settle]
      split
      · rw [conn_goOn]
        exact conn_cancelAll _ b
      · exact .inl rfl
  | some w =>
      simp only [settle]
      rw [conn_goOn]
      exact conn_cancelAll _ b

theorem weight_settle_le (won : Option (B × Nat)) (b : B) :
    ((s.settle won).conn b).weight ≤ (s.conn b).weight := by
  rcases conn_settle won b with same | same
  · rw [same]
  · rw [same]
    exact Connection.weight_cancel_le _

theorem wake_lowers (sound : s.Sound candidates) {done : List B} (taken : s.wake done = some s') :
    s'.actionsLeft candidates < s.actionsLeft candidates := by
  unfold wake at taken
  split at taken
  · rename_i woken
    obtain ⟨at_wait, some_done, perm⟩ := woken
    obtain ⟨pool, -⟩ := sound.waiting at_wait
    have tasks : s.tasks.Nodup := (pool.nodup_split sound.distinct).of_append_left
    have awaited : ∀ b ∈ done, b ∈ s.tasks ∧ (s.conn b).isDone = true := fun b member =>
      List.mem_filter.mp (perm.mem_iff.mp member)
    obtain ⟨pool', conn, phase, -, -⟩ :=
      harvested_harvest sound.distinct pool (perm.nodup_iff.mpr (tasks.filter _)) awaited
    have fewer : (s.harvest done).1.tasks.length < s.tasks.length := by
      cases done with
      | nil => exact absurd rfl some_done
      | cons b done => exact length_harvest_lt (awaited b List.mem_cons_self).1
    have before : s.loopsLeft = s.tasks.length + 1 := by rw [loopsLeft, at_wait]
    cases taken
    have after := loopsLeft_settle pool' (phase.trans at_wait)
    have weights : (candidates.map fun b =>
          (((s.harvest done).1.settle (s.harvest done).2).conn b).weight).sum ≤
        (candidates.map fun b => (s.conn b).weight).sum :=
      sum_weight_le fun b => (weight_settle_le _ b).trans_eq (by rw [conn])
    unfold actionsLeft
    omega
  · cases taken

theorem exit_lowers (taken : s.exit = some s') :
    s'.actionsLeft candidates < s.actionsLeft candidates := by
  unfold exit at taken
  split at taken
  · rename_i outcome b left at_exit
    cases taken
    have before : s.loopsLeft = left.length + 2 := by
      rw [loopsLeft, at_exit]
      rfl
    have after := loopsLeft_goOn (s := s.setConn b (s.conn b).exit) outcome left
    have weights : (candidates.map fun x =>
          (((s.setConn b (s.conn b).exit).goOn outcome left).conn x).weight).sum ≤
        (candidates.map fun x => (s.conn x).weight).sum := by
      refine sum_weight_le fun x => ?_
      have conn : (s.setConn b (s.conn b).exit).conn x =
          if x = b then (s.conn b).exit else s.conn x := Function.update_apply ..
      rw [conn_goOn, conn]
      split
      · rename_i same
        rw [same, Connection.weight_exit]
      · exact Nat.le_refl _
    unfold actionsLeft
    omega
  · cases taken

theorem step_lowers {a : Act B} (sound : s.Sound candidates) (taken : s.step a = some s') :
    s'.actionsLeft candidates < s.actionsLeft candidates := by
  rcases step_cases taken with ⟨b, c, c', moved, -⟩ | ⟨done, woken⟩ | closed | abandoned
  · have member : b ∈ candidates := sound.mem (moved.was ▸ moved.moves.source.1)
    have weights := sum_weight_lt moved member
    have loops : s'.loopsLeft = s.loopsLeft := by
      unfold loopsLeft
      rw [moved.phase, moved.tasks]
    unfold actionsLeft
    omega
  · exact wake_lowers sound woken
  · exact exit_lowers closed
  · unfold abandon at abandoned
    split at abandoned
    · rename_i running
      cases abandoned
      unfold actionsLeft loopsLeft
      cases at_phase : s.phase with
      | waiting | closing outcome left =>
          dsimp only
          omega
      | returned outcome | raised =>
          rw [at_phase] at running
          cases running
    · cases abandoned

/-- A race that has neither returned nor raised goes on, whether or not it is cancelled. -/
theorem exists_step (sound : s.Sound candidates) (running : s.phase.running = true) :
    ∃ a, a ≠ .abandon ∧ (s.step a).isSome = true := by
  cases at_phase : s.phase with
  | waiting =>
      obtain ⟨pool, some_left⟩ := sound.waiting at_phase
      by_cases ended : ∀ b ∈ s.tasks, (s.conn b).isDone = true
      · refine ⟨.wake s.tasks, by simp, ?_⟩
        have done : s.tasks.filter (fun b => (s.conn b).isDone) = s.tasks :=
          List.filter_eq_self.mpr ended
        simp only [step, wake]
        rw [if_pos ⟨at_phase, some_left, by rw [done]⟩]
        rfl
      · push Not at ended
        obtain ⟨b, member, open'⟩ := ended
        have awaited := pool.awaited b member
        cases state : s.conn b with
        | pending => exact ⟨.start b, by simp, by simp [step, start, state]⟩
        | opening => exact ⟨.fail b, by simp, by simp [step, fail, state]⟩
        | opened code | failed =>
            rw [state] at open'
            exact absurd rfl open'
        | absent | cancelling | cancelled | closed =>
            rw [state] at awaited
            rcases awaited with live | failed
            · cases live
            · cases failed
  | closing outcome left =>
      cases left with
      | nil =>
          obtain ⟨o, -, -, some_left, -⟩ := sound.closing outcome [] at_phase
          exact absurd rfl some_left
      | cons b left => exact ⟨.exit, by simp, by simp [step, exit, at_phase]⟩
  | returned outcome | raised =>
      rw [at_phase] at running
      cases running

/-! ### Races that are over -/

/-- Once a race has returned or raised, it stays so. -/
theorem phase_step {a : Act B} (ended : s.phase.running = false) (taken : s.step a = some s') :
    s'.phase = s.phase := by
  rcases step_cases taken with ⟨b, c, c', moved, -⟩ | ⟨done, woken⟩ | closed | abandoned
  · exact moved.phase
  · unfold wake at woken
    split at woken
    · rename_i at_wait
      rw [at_wait.1] at ended
      cases ended
    · cases woken
  · unfold exit at closed
    split at closed
    · rename_i at_exit
      rw [at_exit] at ended
      cases ended
    · cases closed
  · unfold abandon at abandoned
    rw [ended] at abandoned
    cases abandoned

/-- A race of nobody does nothing. -/
theorem step_init_nil (a : Act B) : (init []).step a = none := by
  cases taken : (init []).step a with
  | none => rfl
  | some s' =>
      have sound : (init ([] : List B)).Sound [] := sound_init List.nodup_nil
      rcases step_cases taken with ⟨b, c, c', moved, -⟩ | ⟨done, woken⟩ | closed | abandoned
      · have member := sound.mem (moved.was ▸ moved.moves.source.1)
        cases member
      · cases woken
      · cases closed
      · cases abandoned

theorem conn_harvest (s : Race B) (done : List B) : (s.harvest done).1.conn = s.conn := by
  induction done generalizing s with
  | nil => rfl
  | cons b done ih =>
      unfold harvest
      dsimp only
      split
      · rfl
      · exact ih _

/-- The connections of the tasks in `l` have not been opened, and no others are yet to be. -/
structure Unopened (s : Race B) (l : List B) : Prop where
  nodup : l.Nodup
  conn : ∀ b ∈ l, (s.conn b).unopened = true
  mem : ∀ b, s.conn b = .pending → b ∈ l

theorem unopened_init (distinct : candidates.Nodup) : (init candidates).Unopened candidates := by
  refine ⟨distinct, fun b member => ?_, fun b pending => ?_⟩
  · simp [init, member, Connection.unopened]
  · by_contra none
    simp [init, none] at pending

theorem Unopened.moved {l : List B} {c c' : Connection} (unopened : s.Unopened l)
    (moved : Moved s s' b c c') (begun : c ≠ .pending) : s'.Unopened l := by
  refine ⟨unopened.nodup, fun x member => ?_, fun x pending => ?_⟩
  · rw [moved.conn, Function.update_apply]
    split
    · rename_i same
      have was := unopened.conn x member
      rw [same, moved.was] at was
      cases moved.moves with
      | start => exact absurd rfl begun
      | respond | fail => cases was
      | unwind => rfl
    · exact unopened.conn x member
  · rw [moved.conn, Function.update_apply] at pending
    split at pending
    · exact absurd pending moved.moves.target.2
    · exact unopened.mem x pending

theorem Unopened.start {l : List B} (unopened : s.Unopened l) (taken : s.start b = some s') :
    b ∈ l ∧ s'.Unopened (l.erase b) := by
  obtain ⟨was, moved⟩ := Option.ite_none_right_eq_some.mp taken
  cases moved
  have conn : ∀ x, ({ s.setConn b .opening with cms := s.cms ++ [b] } : Race B).conn x =
      if x = b then .opening else s.conn x := fun x => Function.update_apply ..
  refine ⟨unopened.mem b was, unopened.nodup.erase b, fun x member => ?_, fun x pending => ?_⟩
  · obtain ⟨ne, old⟩ := unopened.nodup.mem_erase_iff.mp member
    rw [conn, if_neg ne]
    exact unopened.conn x old
  · rw [conn] at pending
    split at pending
    · cases pending
    · rename_i ne
      exact unopened.nodup.mem_erase_iff.mpr ⟨ne, unopened.mem x pending⟩

/-- No other action calls `client.stream`. -/
theorem Unopened.step {l : List B} {a : Act B} (unopened : s.Unopened l) (other : ∀ b, a ≠ .start b)
    (taken : s.step a = some s') : s'.Unopened l := by
  have same : ∀ {m : Race B}, (∀ x, m.conn x = s.conn x ∨ m.conn x = (s.conn x).cancel ∨
      m.conn x = (s.conn x).exit) → m.Unopened l := by
    intro m conn
    refine ⟨unopened.nodup, fun x member => ?_, fun x pending => unopened.mem x ?_⟩
    · have was := unopened.conn x member
      rcases conn x with same | same | same
      · rwa [same]
      · rw [same]
        exact Connection.unopened_cancel was
      · rwa [same, Connection.exit_of_unopened was]
    · rcases conn x with same | same | same
      · rw [← same, pending]
      · exact absurd (same.symm.trans pending) (Connection.cancel_over _).1
      · exact Connection.exit_eq_pending.mp (same.symm.trans pending)
  rcases step_cases taken with ⟨b, c, c', moved, started⟩ | ⟨done, woken⟩ | closed | abandoned
  · exact unopened.moved moved fun fresh => other b (started fresh)
  · obtain ⟨-, moved⟩ := Option.ite_none_right_eq_some.mp woken
    cases moved
    refine same fun x => ?_
    rw [← conn_harvest s done]
    exact (conn_settle _ x).imp_right .inl
  · unfold exit at closed
    split at closed
    · rename_i outcome b left _
      cases closed
      refine same fun x => ?_
      have conn : (s.setConn b (s.conn b).exit).conn x =
          if x = b then (s.conn b).exit else s.conn x := Function.update_apply ..
      rw [conn_goOn, conn]
      split
      · rename_i here
        rw [here]
        exact .inr (.inr rfl)
      · exact .inl rfl
    · cases closed
  · unfold abandon at abandoned
    split at abandoned
    · cases abandoned
      exact same fun _ => .inl rfl
    · cases abandoned

/-- **What a race leaves.** For every list of distinct candidates and every order of what happens:
when the race has returned a winner, its connection is open, no other connection is or will ever be,
and all others are its losers; when it has returned none, every connection has failed. It is over
after at most `4 n + 1` actions, and until then it can always go on. -/
theorem race_safe (distinct : candidates.Nodup) {as : List (Act B)}
    (reach : Machine.run step (init candidates) as = some s) :
    as.length ≤ 4 * candidates.length + 1 ∧
      (s.phase.running = true → ∃ a, a ≠ .abandon ∧ (s.step a).isSome = true) ∧
      (s.phase = .returned none → ∀ b ∈ candidates, s.conn b = .failed) ∧
      ∀ o, s.phase = .returned (some o) → o.winnerId ∈ candidates ∧
        s.conn o.winnerId = .opened o.winnerResponse ∧
        o.loserIds.Perm (candidates.erase o.winnerId) ∧
        ∀ b ≠ o.winnerId, (s.conn b).live = false := by
  have sound : s.Sound candidates :=
    Machine.run_invariant (fun _ _ _ => sound_step) (sound_init distinct) reach
  have lowers : ∀ (m : Race B) a m', m.Sound candidates → m.step a = some m' →
      m'.Sound candidates ∧ m'.actionsLeft candidates < m.actionsLeft candidates :=
    fun _ _ _ sound taken => ⟨sound_step sound taken, step_lowers sound taken⟩
  have shorter := Machine.run_length_le lowers (sound_init distinct) reach
  have longest : (init candidates).actionsLeft candidates ≤ _ := actionsLeft_init
  refine ⟨by omega, exists_step sound, sound.lost, fun o done => ?_⟩
  obtain ⟨won, none_live⟩ := sound.returned o done
  exact ⟨won.member, won.opened, won.losers, none_live⟩

/-- Two backends respond at once, and the task of a third has just started. -/
def closeRace : List (Act String) :=
  [.start "b0", .start "b1", .start "b2", .respond "b1" 200, .respond "b0" 503, .wake ["b0", "b1"],
    .exit, .unwind "b2", .exit]

theorem race_safe_close :
    ∃ s, Machine.run step (init ["b0", "b1", "b2"]) closeRace = some s ∧ closeRace.length ≤ 13 ∧
      s.phase = .returned (some ⟨"b0", 503, ["b1", "b2"]⟩) ∧ s.conn "b0" = .opened 503 ∧
      ∀ b ≠ "b0", (s.conn b).live = false := by
  obtain ⟨s, reach, returned⟩ : ∃ s, Machine.run step (init ["b0", "b1", "b2"]) closeRace = some s ∧
      s.phase = .returned (some ⟨"b0", 503, ["b1", "b2"]⟩) := ⟨_, rfl, by decide +kernel⟩
  have distinct : ["b0", "b1", "b2"].Nodup := by decide
  obtain ⟨short, -, -, won⟩ := race_safe distinct reach
  obtain ⟨-, opened, -, none_live⟩ := won _ returned
  exact ⟨s, reach, short, returned, opened, none_live⟩

end Race

end Gateway
