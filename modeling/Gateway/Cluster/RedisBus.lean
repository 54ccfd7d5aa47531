import Gateway.Cluster.Wire
import Gateway.Lib.Machine

/-!
The Redis transport (`RedisBus` of `gateway/cluster/bus.py`).

`publish` appends to the outbox and does nothing else. `poll` flushes the outbox, one
event at a time and up to the first call of the client that raises, then reads the
messages that are waiting. The flush takes an event out of the outbox before it calls the
client, and a call that raises ends the loop: the event of that call is in neither place.

The bus does not look into its events. Their type is a parameter, with the encoder, the
decoder (`none` when it raises) and the origin of an event. The client is its answers:
`send n payload` says whether the `n`-th call of `client.publish` in a poll returns.

* `after_ordered`: whatever the client answers, the events handed to it followed by the
  outbox are published events, none of them twice and in the order of publication.
* `complete_iff_sent`: they are all of the published events precisely when no call failed.
* `drain_lost`: a drain that is published while the broker is away reaches nobody.
-/

namespace Gateway

/-- `RedisBus`, without its client. -/
structure RedisBus (E O : Type) where
  replicaId : O
  outbox : List E
  deriving Repr

namespace RedisBus

variable {E O : Type}

/-- `publish(event)`. -/
def publish (bus : RedisBus E O) (ev : E) : RedisBus E O :=
  { bus with outbox := bus.outbox ++ [ev] }

section Poll

variable (toJson : E → String) (decode : String → Option E) (origin : E → O)

/-- The flush of `poll`, from the `n`-th call on: the events whose calls returned, and the
outbox it leaves. -/
def flush (send : Nat → String → Bool) : Nat → List E → List E × List E
  | _, [] => ([], [])
  | n, ev :: outbox =>
      if send n (toJson ev) then
        let (handed, left) := flush send (n + 1) outbox
        (ev :: handed, left)
      -- `break`; `popleft` came before the call.
      else ([], outbox)

variable [DecidableEq O]

/-- The second loop of `poll`: `messages` are the `data` fields of what `get_message`
returns before it has no more. -/
def drainInbound (bus : RedisBus E O) (messages : List (Option String)) : List E :=
  messages.filterMap fun data =>
    match data with
    | none => none
    | some text =>
        if text = "" then none
        else
          match decode text with
          | none => none
          | some ev => if origin ev ≠ bus.replicaId then some ev else none

/-- `poll()`: also the events that were handed to the client. -/
def poll (bus : RedisBus E O) (send : Nat → String → Bool) (messages : List (Option String)) :
    RedisBus E O × List E × List E :=
  let (handed, left) := flush toJson send 0 bus.outbox
  ({ bus with outbox := left }, handed, bus.drainInbound decode origin messages)

end Poll

/-! ### The flush -/

section Flush

variable (toJson : E → String)

/-- The client takes every event of the outbox, from the `n`-th call on. -/
def AllSent (send : Nat → String → Bool) : Nat → List E → Prop
  | _, [] => True
  | n, ev :: outbox => send n (toJson ev) = true ∧ AllSent send (n + 1) outbox

/-- A flush hands over the whole outbox, or it loses the event of the call that failed. -/
theorem flush_cases (send : Nat → String → Bool) (n : Nat) (outbox : List E) :
    (AllSent toJson send n outbox ∧ flush toJson send n outbox = (outbox, [])) ∨
      (¬ AllSent toJson send n outbox ∧ ∃ handed ev left,
        outbox = handed ++ ev :: left ∧ flush toJson send n outbox = (handed, left)) := by
  induction outbox generalizing n with
  | nil => exact .inl ⟨trivial, rfl⟩
  | cons ev outbox ih =>
      by_cases taken : send n (toJson ev) = true
      · rcases ih (n + 1) with ⟨all, flushed⟩ | ⟨failed, handed, lost, left, rfl, flushed⟩
        · exact .inl ⟨⟨taken, all⟩, by simp [flush, taken, flushed]⟩
        · exact .inr ⟨fun all => failed all.2, ev :: handed, lost, left, rfl,
            by simp [flush, taken, flushed]⟩
      · exact .inr ⟨fun all => taken all.1, [], ev, outbox, rfl, by simp [flush, taken]⟩

end Flush

/-! ### Runs -/

/-- The calls of a bus: an event to publish, or what the client does during a poll. -/
inductive Call (E : Type) where
  | publish (ev : E)
  | poll (send : Nat → String → Bool) (messages : List (Option String))

/-- A bus, with an account of every event published on it and of every event handed to the
client. -/
structure Account (E O : Type) where
  bus : RedisBus E O
  published : List E
  handed : List E

namespace Account

/-- `RedisBus(redis_url, channel, replica_id)`. -/
def start (replicaId : O) : Account E O := ⟨⟨replicaId, []⟩, [], []⟩

/-- The events handed to the client, then those still in the outbox. -/
def kept (s : Account E O) : List E := s.handed ++ s.bus.outbox

/-- They are published events, in the order of publication. -/
def Ordered (s : Account E O) : Prop := s.kept.Sublist s.published

/-- They are exactly the published events, in the order of publication. -/
def Complete (s : Account E O) : Prop := s.kept = s.published

section Steps

variable (toJson : E → String) (decode : String → Option E) (origin : E → O)

/-- What a call needs so that nothing is lost: the client takes all of the outbox. -/
def Sent (s : Account E O) : Call E → Prop
  | .publish _ => True
  | .poll send _ => AllSent toJson send 0 s.bus.outbox

variable [DecidableEq O]

/-- One call. -/
def next (s : Account E O) : Call E → Account E O
  | .publish ev => { s with bus := s.bus.publish ev, published := s.published ++ [ev] }
  | .poll send messages =>
      let (bus, handed, _) := s.bus.poll toJson decode origin send messages
      { s with bus := bus, handed := s.handed ++ handed }

/-- The bus after a sequence of calls. -/
def after (replicaId : O) (calls : List (Call E)) : Account E O :=
  calls.foldl (next toJson decode origin) (start replicaId)

/-- What one call does to the account. -/
theorem next_cases (s : Account E O) (call : Call E) :
    (∃ ev, (next toJson decode origin s call).kept = s.kept ++ [ev] ∧
        (next toJson decode origin s call).published = s.published ++ [ev] ∧
        Sent toJson s call) ∨
      ((next toJson decode origin s call).kept = s.kept ∧
        (next toJson decode origin s call).published = s.published ∧ Sent toJson s call) ∨
      (∃ before ev later, s.kept = before ++ ev :: later ∧
        (next toJson decode origin s call).kept = before ++ later ∧
        (next toJson decode origin s call).published = s.published ∧ ¬ Sent toJson s call) := by
  cases call with
  | publish ev =>
      left
      exact ⟨ev, by simp [next, kept, RedisBus.publish], rfl, trivial⟩
  | poll send messages =>
      right
      rcases flush_cases toJson send 0 s.bus.outbox with
        ⟨all, flushed⟩ | ⟨failed, handed, ev, left, outbox, flushed⟩
      · left
        exact ⟨by simp [next, kept, RedisBus.poll, flushed], rfl, all⟩
      · right
        refine ⟨s.handed ++ handed, ev, left, ?_, ?_, rfl, failed⟩
        · simp [kept, outbox]
        · simp [next, kept, RedisBus.poll, flushed]

theorem next_ordered (s : Account E O) (call : Call E) (known : s.Ordered) :
    (next toJson decode origin s call).Ordered := by
  rcases next_cases toJson decode origin s call with
    ⟨ev, kept, published, -⟩ | ⟨kept, published, -⟩ | ⟨before, ev, later, split, kept, published, -⟩
  · rw [Ordered, kept, published]
    exact known.append (List.Sublist.refl [ev])
  · rw [Ordered, kept, published]
    exact known
  · rw [Ordered, kept, published]
    rw [Ordered, split] at known
    have fewer : (before ++ later).Sublist (before ++ ev :: later) :=
      (List.Sublist.refl before).append (List.sublist_cons_self ev later)
    exact fewer.trans known

/-- Nothing is invented, duplicated or reordered, whatever the client answers. -/
theorem after_ordered (replicaId : O) (calls : List (Call E)) :
    (after toJson decode origin replicaId calls).Ordered :=
  Machine.foldl_invariant (next_ordered toJson decode origin) (s := start replicaId)
    (List.Sublist.refl []) calls

/-- A call leaves the account complete precisely when it was and the client takes all. -/
theorem next_complete_iff (s : Account E O) (call : Call E) (known : s.Ordered) :
    (next toJson decode origin s call).Complete ↔ s.Complete ∧ Sent toJson s call := by
  rcases next_cases toJson decode origin s call with
    ⟨ev, kept, published, sent⟩ | ⟨kept, published, sent⟩ |
      ⟨before, ev, later, split, kept, published, failed⟩
  · rw [Complete, kept, published, List.append_left_inj]
    exact (and_iff_left sent).symm
  · rw [Complete, kept, published]
    exact (and_iff_left sent).symm
  · refine iff_of_false (fun complete => ?_) fun ⟨_, sent⟩ => failed sent
    -- What is left is one event shorter than a sublist of the published events.
    have shorter := known.length_le
    rw [← published, ← complete, kept, split] at shorter
    simp at shorter

/-- **Nothing is lost precisely when no call fails.** After any sequence of calls, the
events handed to the client followed by the outbox are the published events in order, if
and only if in every poll of the sequence the client took every event it was given. -/
theorem complete_iff_sent (replicaId : O) (calls : List (Call E)) :
    (after toJson decode origin replicaId calls).Complete ↔
      ∀ done call, done ++ [call] <+: calls →
        Sent toJson (after toJson decode origin replicaId done) call :=
  Machine.foldl_end_iff (next_ordered toJson decode origin) (next_complete_iff toJson decode origin)
    (s := start replicaId) (List.Sublist.refl []) rfl calls

end Steps

/-- A drain is published, and the poll that flushes it finds the broker away. The next poll
has nothing to send. -/
theorem drain_lost :
    let py : Numerals Empty := ⟨fun _ => none, fun x => x.elim, fun x => x.elim⟩
    let lib := Json.compact Empty
    let drain : WireEvent := .drainEvent "r0" 1 1 "b0" true
    let s := after (WireEvent.toJson lib) (WireEvent.decodeEvent py lib) Event.origin "r0"
      [.publish drain, .poll (fun _ _ => false) [], .poll (fun _ _ => true) []]
    s.published = [drain] ∧ s.handed = [] ∧ s.bus.outbox = [] ∧ ¬ s.Complete :=
  ⟨rfl, rfl, rfl, (List.cons_ne_nil _ _).symm⟩

end Account

end RedisBus

end Gateway
