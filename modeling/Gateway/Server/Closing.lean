import Gateway.Server.Routing

/-!
How the body of a request comes to be closed.

A body is closed (`await final_cm.__aexit__(...)`) after its stream has ended or has been
cancelled. `Unclosed` says that no body begins to close; all other spans are of that kind
(`unclosed_perform`).
-/

namespace Gateway

/-- A body at `await final_cm.__aexit__(...)`: its request and status. -/
def Phase.closing? : Phase → Option (Request × Nat)
  | .closing req _ code _ => some (req, code)
  | _ => none

/-- A body that is being streamed: its request and status. -/
def Phase.streaming? : Phase → Option (Request × Nat)
  | .streaming req _ code _ => some (req, code)
  | _ => none

namespace Server

/-- No body begins to close. -/
structure Unclosed (s s' : Server) : Prop where
  closing : ∀ j x, (s'.phase j).closing? = some x → (s.phase j).closing? = some x

variable {su : Setup} {s s' : Server} {i : Nat} {req : Request} {now : ℚ} {fault : Option Stretch}

theorem Unclosed.of_eq (same : s'.phase = s.phase) : Unclosed s s' where
  closing := by
    intro j x closing
    rwa [same] at closing

/-- One request moves on, and its body does not close. -/
theorem Unclosed.move {p : Phase} (moved : s'.phase = Function.update s.phase i p)
    (streams : p.closing? = none) : Unclosed s s' where
  closing := by
    intro j x closing
    rw [moved] at closing
    by_cases here : j = i
    · subst here
      rw [Function.update_self, streams] at closing
      cases closing
    · rwa [Function.update_of_ne here] at closing

theorem Unclosed.trans {s'' : Server} (first : Unclosed s s') (second : Unclosed s' s'') :
    Unclosed s s'' :=
  ⟨fun j x closing => first.closing j x (second.closing j x closing)⟩

theorem unclosed_attempt (allOpen : Bool) (remaining : List String) (left : Nat) :
    Unclosed s (s.attempt su i req allOpen remaining left now fault) := by
  unfold attempt
  split
  · exact .move rfl rfl
  split
  · exact .move rfl rfl
  split
  · exact .move rfl rfl
  dsimp only
  split
  · exact .move rfl rfl
  split
  · exact .move rfl rfl
  · exact .move rfl rfl

theorem unclosed_dispatch (allOpen : Bool) (remaining : List String) :
    Unclosed s (s.dispatch su i req allOpen remaining now fault) := by
  unfold dispatch
  split
  · exact .move rfl rfl
  split
  · split
    · exact .move rfl rfl
    · split
      · exact .move rfl rfl
      · exact .move rfl rfl
  · exact unclosed_attempt ..

theorem unclosed_arrive (semanticHit : Bool) :
    Unclosed s (s.arrive su req semanticHit now fault) := by
  obtain ⟨limiter, sessions, router, routed⟩ := route_frame su s req semanticHit now fault
  have same : (s.route su req semanticHit now fault).1.phase = s.phase := by rw [routed]
  have numbered : ∀ allOpen remaining, Unclosed s
      ((s.route su req semanticHit now fault).1.acquireSlot req allOpen remaining).1 := by
    intro allOpen remaining
    refine (Unclosed.of_eq same).trans (Unclosed.move rfl ?_)
    split <;> rfl
  unfold arrive
  dsimp only
  split
  · exact .of_eq same
  · split
    · exact (numbered _ _).trans (unclosed_dispatch ..)
    · exact numbered _ _

theorem unclosed_resume (taken : s.resume su i now fault = some s') : Unclosed s s' := by
  unfold resume at taken
  split at taken
  · cases taken
    exact .move rfl rfl
  · cases taken
    exact .move rfl rfl
  · cases taken
    exact (Unclosed.move rfl rfl).trans (unclosed_dispatch ..)
  · cases taken

theorem unclosed_respond {r : RouteResult} {code : Nat} :
    Unclosed s (s.respond i req r code fault) := by
  unfold respond
  dsimp only
  split
  · exact .move rfl rfl
  · exact .move rfl rfl

theorem unclosed_connected {code : Nat} (taken : s.connected i code fault = some s') :
    Unclosed s s' := by
  unfold connected at taken
  split at taken
  · cases taken
    exact unclosed_respond
  · cases taken

theorem unclosed_refused (taken : s.refused su i now fault = some s') : Unclosed s s' := by
  unfold refused at taken
  split at taken
  · rename_i req allOpen r remaining left _
    cases taken
    have marked : Unclosed s (s.markFailed i req r now) := .move rfl rfl
    split
    · exact marked.trans (.move rfl rfl)
    · exact marked.trans (unclosed_attempt ..)
  · cases taken

theorem unclosed_opened {b : String} (taken : s.opened i b now = some s') : Unclosed s s' := by
  unfold opened at taken
  split at taken
  · split at taken
    · cases taken
      exact .move rfl rfl
    · cases taken
  · cases taken

theorem unclosed_won {b : String} {code : Nat} (taken : s.won i b code now fault = some s') :
    Unclosed s s' := by
  unfold won at taken
  split at taken
  · rename_i req allOpen topk unopened _
    split at taken
    · cases taken
      have dispatched : ∀ r, Unclosed s (s.dispatchTo req r now) := fun _ => .of_eq rfl
      split
      · exact .move rfl rfl
      · exact (dispatched _).trans unclosed_respond
    · cases taken
  · cases taken

theorem unclosed_lost (taken : s.lost su i fault = some s') : Unclosed s s' := by
  unfold lost at taken
  split at taken
  · cases taken
    exact .move rfl rfl
  · cases taken

theorem unclosed_closed (taken : s.closed su i now fault = some s') : Unclosed s s' := by
  unfold closed at taken
  split at taken
  · cases taken
    split
    · exact .move rfl rfl
    · split
      · exact .move rfl rfl
      · exact .move rfl rfl
  · cases taken

/-- The span ends the stream of a body. -/
def Act.ends (s : Server) : Act → Option (Nat × Request × Nat)
  | .stop i | .cancel i => (s.phase i).streaming?.map fun x => (i, x)
  | _ => none

/-- A span that cancels a request whose body is not being streamed. -/
theorem unclosed_cancel (early : (s.phase i).streaming? = none) (taken : s.cancel i = some s') :
    Unclosed s s' := by
  unfold cancel at taken
  split at taken
  · split at taken
    · cases taken
      exact .of_eq rfl
    · cases taken
      exact .move rfl rfl
  · cases taken
    exact .move rfl rfl
  · cases taken
    exact .move rfl rfl
  · cases taken
    exact .move rfl rfl
  · rename_i phase
    rw [phase] at early
    cases early
  · cases taken
    exact .move rfl rfl
  · cases taken
  · cases taken

/-- **Only the end of its stream makes a body close.** -/
theorem unclosed_perform {act : Act} (goes_on : act.ends s = none)
    (taken : s.perform su now act = some s') : Unclosed s s' := by
  cases act with
  | arrive req semanticHit fault =>
      cases taken
      exact unclosed_arrive semanticHit
  | resume i fault => exact unclosed_resume taken
  | connected i code fault => exact unclosed_connected taken
  | refused i fault => exact unclosed_refused taken
  | opened i b => exact unclosed_opened taken
  | won i b code fault => exact unclosed_won taken
  | lost i fault => exact unclosed_lost taken
  | start i | chunk i events =>
      dsimp only [perform, start, chunk] at taken
      split at taken
      · cases taken
        exact .move rfl rfl
      · cases taken
  | stop i =>
      dsimp only [perform, stop] at taken
      split at taken
      · rename_i phase
        simp [Act.ends, phase, Phase.streaming?] at goes_on
      · cases taken
  | closed i fault => exact unclosed_closed taken
  | cancel i =>
      refine unclosed_cancel ?_ taken
      simpa [Act.ends] using goes_on
  | adminAdd b url model =>
      cases taken
      unfold adminAdd
      split <;> exact .of_eq rfl
  | adminRemove b =>
      cases taken
      unfold adminRemove
      split <;> exact .of_eq rfl
  | adminDrain b draining =>
      cases taken
      exact .of_eq rfl
  | scrape b health =>
      cases taken
      cases health <;> exact .of_eq rfl

/-- The end of a stream: its body begins to close, and nothing else moves. -/
theorem ends_perform {act : Act} {code : Nat} (ends : act.ends s = some (i, req, code))
    (taken : s.perform su now act = some s') :
    (s'.phase i).closing? = some (req, code) ∧ ∀ j, j ≠ i → s'.phase j = s.phase j := by
  have moves : ∀ r out, (s.setPhase i (.closing req r code out)) = s' →
      (s'.phase i).closing? = some (req, code) ∧ ∀ j, j ≠ i → s'.phase j = s.phase j := by
    rintro r out rfl
    refine ⟨?_, fun j other => Function.update_of_ne other ..⟩
    simp [setPhase, Phase.closing?]
  cases act with
  | stop k | cancel k =>
      obtain ⟨x, streaming, same⟩ := Option.map_eq_some_iff.mp ends
      cases same
      cases phase : s.phase i with
      | streaming req' r code' out =>
          rw [phase] at streaming
          cases streaming
          simp only [perform, stop, cancel, phase, Option.some.injEq] at taken
          exact moves r out taken
      | _ =>
          rw [phase] at streaming
          cases streaming
  | _ => cases ends

end Server

end Gateway
