import Gateway.Race
import Gateway.Server.Charges
import Gateway.Server.Failover

/-!
The chat handler with the races of its speculative requests carried out.

`Gateway.Server.Chat` takes a race as its outcome: a connection is opened, one has won, all have
failed. Here a request that races has a `Race` of its own, whose tasks run between the spans of
all other requests, and the handler hears from it when `race` returns or raises.

* `racing_refines`: every run of this gateway is a run of the gateway of `Gateway.Server.Chat`, and
  whatever the order of the tasks, a request that has its response holds no connection to another
  backend, and never will.
-/

namespace Gateway

/-- The server, and the race of each of its requests. -/
structure RacingServer where
  server : Server
  race : Nat → Race String

namespace Phase

/-- The route of a request that has its response. -/
def route? : Phase → Option RouteResult
  | .returned _ r _ | .streaming _ r _ _ | .closing _ r _ _ => some r
  | _ => none

/-- The request is at `await race(...)`. -/
def isRacing : Phase → Bool
  | .racing _ _ _ _ => true
  | _ => false

/-- Candidates are distinct, and a race starts with all of them unopened. -/
def Fresh : Phase → Prop
  | .waiting _ remaining _ _ => remaining.Nodup
  | .racing _ _ topk unopened =>
      unopened = topk.backendIds ∧ topk.backendIds.Nodup ∧ topk.backendIds ≠ []
  | _ => True

end Phase

namespace RacingServer

open Server

variable (su : Setup)

/-- What the handler does when it hears from the race of request `i`. -/
def hear (s : Server) (i : Nat) (now : ℚ) (a : Race.Act String) (r : RacePhase String)
    (fault : Option Stretch) : Server :=
  match s.phase i with
  | .racing req allOpen topk unopened =>
      match r with
      | .returned (some o) =>
          let route : RouteResult :=
            ⟨o.winnerId, topk.hashes, topk.tokens, topk.matchBlocks.getD o.winnerId 0, topk.hashMode⟩
          let s := { s with clock := now }.dispatchTo req route now
          if fault = some .dispatched then s.finish i req .raised
          else s.respond i req route o.winnerResponse fault
      | .returned none => { s with clock := now }.unreachable su i req fault
      | .raised => { s with clock := now }.finish i req .raised
      | .waiting | .closing _ _ =>
          match a with
          -- `client.stream` is called
          | .start b =>
              ({ s with clock := now }.record req b now).setPhase i
                (.racing req allOpen topk (unopened.erase b))
          | _ => s
  | _ => s

/-- The race of a request in phase `p`, which was in phase `before`. -/
def enter (before p : Phase) (race : Race String) : Race String :=
  match p with
  | .racing _ _ topk _ => if before.isRacing then race else .init topk.backendIds
  | _ => race

/-- A span that is an action of a race here. -/
def ofRace (s : Server) : Server.Act → Bool
  | .opened _ _ | .won _ _ _ _ | .lost _ _ => true
  | .cancel i => (s.phase i).isRacing
  | _ => false

inductive Act where
  | span (span : Span)
  | race (i : Nat) (now : ℚ) (act : Race.Act String) (fault : Option Stretch)

def step (w : RacingServer) : Act → Option RacingServer
  | .span span =>
      if ofRace w.server span.act then none
      else (w.server.step su span).map fun s =>
        ⟨s, fun i => enter (w.server.phase i) (s.phase i) (w.race i)⟩
  | .race i now a fault =>
      if w.server.clock ≤ now then
        ((w.race i).step a).map fun r =>
          ⟨hear su w.server i now a r.phase fault, Function.update w.race i r⟩
      else none

/-- No request has raced. -/
def init (s : Server) : RacingServer := ⟨s, fun _ => .init []⟩

end RacingServer

/-! ### Where a span takes its request -/

namespace Server

variable {su : Setup} {s s' : Server} {i : Nat} {req : Request} {now : ℚ} {fault : Option Stretch}

theorem fresh_attempt (allOpen : Bool) (remaining : List String) (left : Nat) :
    ((s.attempt su i req allOpen remaining left now fault).phase i).Fresh := by
  have ended : ∀ (m : Server) reply, ((m.finish i req reply).phase i).Fresh := by
    intro m reply
    have phase : (m.finish i req reply).phase i = .ended := Function.update_self ..
    rw [phase]
    trivial
  unfold attempt
  split
  · exact ended _ _
  split
  · exact ended _ _
  split
  · exact ended _ _
  dsimp only
  split
  · exact ended _ _
  split
  · exact ended _ _
  · simp [setPhase, Phase.Fresh]

theorem fresh_dispatch {allOpen : Bool} {remaining : List String} (nodup : remaining.Nodup) :
    ((s.dispatch su i req allOpen remaining now fault).phase i).Fresh := by
  unfold dispatch
  split
  · simp [finish, Phase.Fresh]
  split
  · rename_i races
    split
    · simp [finish, Phase.Fresh]
    · rename_i topk ranked
      split
      · simp [finish, Phase.Fresh]
      · have several : 1 < remaining.length := by
          simp only [Bool.and_eq_true, decide_eq_true_eq] at races
          exact races.2
        have some_left : remaining ≠ [] := List.ne_nil_of_length_pos (by omega)
        have width : 0 < topk.backendIds.length := by
          rw [length_ranked ranked some_left]
          exact one_le_raceWidth
        simp only [setPhase, Function.update_self]
        exact ⟨rfl, nodup_ranked ranked nodup, List.ne_nil_of_length_pos width⟩
  · exact fresh_attempt ..

/-- What a span that is none of a race does to its request. -/
inductive Goes : Phase → Phase → Prop where
  | stays (p : Phase) : Goes p p
  /-- A request without a response goes on. -/
  | forward {p p' : Phase} : p.route? = none → p ≠ .ended → p.isRacing = false → p'.Fresh →
      Goes p p'
  /-- A request with a response goes on. -/
  | streams {p p' : Phase} {r : RouteResult} : p.route? = some r → p'.route? = some r → Goes p p'
  | ends {p : Phase} {r : RouteResult} : p.route? = some r → Goes p .ended

theorem goes_finish {reply : Reply} {r : RouteResult} (had : (s.phase i).route? = some r)
    (m : Server) : Goes (s.phase i) ((m.finish i req reply).phase i) := by
  have phase : (m.finish i req reply).phase i = .ended := Function.update_self ..
  rw [phase]
  exact .ends had

theorem goes_resume (nodup : ∀ req remaining allOpen mustCancel,
      s.phase i = .waiting req remaining allOpen mustCancel → remaining.Nodup)
    (taken : s.resume su i now fault = some s') : Goes (s.phase i) (s'.phase i) := by
  unfold resume at taken
  split at taken
  · rename_i phase _
    cases taken
    rw [phase]
    exact .forward rfl Phase.noConfusion rfl (by simp [finish, Phase.Fresh])
  · rename_i phase _
    cases taken
    rw [phase]
    exact .forward rfl Phase.noConfusion rfl (by simp [finish, Phase.Fresh])
  · rename_i req remaining allOpen phase _
    cases taken
    have distinct : remaining.Nodup := nodup _ _ _ _ phase
    rw [phase]
    exact .forward rfl Phase.noConfusion rfl (fresh_dispatch distinct)
  · cases taken

theorem goes_connected {code : Nat} (taken : s.connected i code fault = some s') :
    Goes (s.phase i) (s'.phase i) := by
  unfold connected respond at taken
  split at taken
  · rename_i phase
    cases taken
    rw [phase]
    refine .forward rfl Phase.noConfusion rfl ?_
    dsimp only
    split
    · simp [finish, Phase.Fresh]
    · simp [setPhase, Phase.Fresh]
  · cases taken

theorem goes_refused (taken : s.refused su i now fault = some s') :
    Goes (s.phase i) (s'.phase i) := by
  unfold refused at taken
  split at taken
  · rename_i phase
    cases taken
    rw [phase]
    refine .forward rfl Phase.noConfusion rfl ?_
    split
    · simp [finish, Phase.Fresh]
    · exact fresh_attempt ..
  · cases taken

theorem goes_stream {act : Act} (stream : act = .start i ∨ (∃ events, act = .chunk i events) ∨
    act = .stop i) (taken : s.perform su now act = some s') : Goes (s.phase i) (s'.phase i) := by
  obtain rfl | ⟨events, rfl⟩ | rfl := stream
  all_goals
    simp only [perform, start, chunk, stop] at taken
    split at taken
    · rename_i req r code _ phase
      cases taken
      rw [phase]
      refine .streams rfl ?_
      simp [setPhase, Phase.route?]
    · cases taken

theorem goes_closed (taken : s.closed su i now fault = some s') : Goes (s.phase i) (s'.phase i) := by
  unfold closed at taken
  split at taken
  · rename_i req r code out phase
    cases taken
    have had : (s.phase i).route? = some r := by rw [phase]; rfl
    dsimp only
    split
    · exact goes_finish had _
    · exact goes_finish had _
  · cases taken

theorem goes_cancel (quiet : (s.phase i).isRacing = false) (nodup : ∀ req remaining allOpen mustCancel,
      s.phase i = .waiting req remaining allOpen mustCancel → remaining.Nodup)
    (taken : s.cancel i = some s') : Goes (s.phase i) (s'.phase i) := by
  unfold cancel at taken
  split at taken
  · rename_i req remaining allOpen mustCancel phase
    split at taken
    · cases taken
      exact .stays _
    · cases taken
      have kept := nodup _ _ _ _ phase
      rw [phase]
      exact .forward rfl Phase.noConfusion rfl (by simpa [setPhase, Phase.Fresh] using kept)
  · rename_i phase
    rw [phase] at quiet
    cases quiet
  · rename_i phase
    cases taken
    rw [phase]
    exact .forward rfl Phase.noConfusion rfl (by simp [finish, Phase.Fresh])
  · rename_i req r code phase
    cases taken
    exact goes_finish (r := r) (by rw [phase]; rfl) _
  · rename_i req r code out phase
    cases taken
    rw [phase]
    exact .streams rfl (by simp [setPhase, Phase.route?])
  · rename_i req r code out phase
    cases taken
    exact goes_finish (r := r) (by rw [phase]; rfl) _
  · cases taken
  · cases taken

/-- **A span of request `i`.** -/
theorem goes_perform {act : Act} (own : act.request = some i)
    (other : RacingServer.ofRace s act = false) (nodup : ∀ req remaining allOpen mustCancel,
      s.phase i = .waiting req remaining allOpen mustCancel → remaining.Nodup)
    (taken : s.perform su now act = some s') : Goes (s.phase i) (s'.phase i) := by
  cases act with
  | arrive | adminAdd | adminRemove | adminDrain | scrape => cases own
  | opened | won | lost => cases other
  | resume j fault =>
      cases own
      exact goes_resume nodup taken
  | connected j code fault =>
      cases own
      exact goes_connected taken
  | refused j fault =>
      cases own
      exact goes_refused taken
  | start j =>
      cases own
      exact goes_stream (.inl rfl) taken
  | chunk j events =>
      cases own
      exact goes_stream (.inr (.inl ⟨events, rfl⟩)) taken
  | stop j =>
      cases own
      exact goes_stream (.inr (.inr rfl)) taken
  | closed j fault =>
      cases own
      exact goes_closed taken
  | cancel j =>
      cases own
      exact goes_cancel other nodup taken

/-- A request that arrives. -/
theorem fresh_arrive (idle : s.phase s.next = .ended) (semanticHit : Bool) :
    ((s.arrive su req semanticHit now fault).phase s.next).Fresh := by
  have kept : ∀ remaining, (s.route su req semanticHit now fault).2 = .ok remaining →
      remaining.Nodup := fun _ => nodup_route
  obtain ⟨limiter, sessions, router, frame⟩ := route_frame su s req semanticHit now fault
  unfold arrive
  generalize s.route su req semanticHit now fault = result at frame kept ⊢
  obtain ⟨routed, outcome⟩ := result
  dsimp only at frame kept ⊢
  subst frame
  cases outcome with
  | error reply =>
      dsimp only
      rw [idle]
      trivial
  | ok remaining =>
      dsimp only
      split
      · exact fresh_dispatch (kept _ rfl)
      · simp only [acquireSlot, Function.update_self]
        split
        · trivial
        · exact kept _ rfl

end Server

/-! ### The refinement -/

namespace RacingServer

open Server

variable {su : Setup} {w w' : RacingServer} {i : Nat} {now : ℚ} {fault : Option Stretch}

/-- A request and its race. -/
def Agrees : Phase → Race String → Prop
  | .running _, r | .connecting _ _ _ _ _, r => r = .init []
  | .waiting _ remaining _ _, r => remaining.Nodup ∧ r = .init []
  | .racing _ _ topk unopened, r =>
      r.Sound topk.backendIds ∧ r.phase.running = true ∧ r.Unopened unopened
  | .returned _ route _, r | .streaming _ route _ _, r | .closing _ route _ _, r =>
      r = .init [] ∨ ∃ candidates o, r.Sound candidates ∧ r.phase = .returned (some o) ∧
        o.winnerId = route.backendId
  | .ended, _ => True

/-- What holds in every state. -/
structure Sound (w : RacingServer) : Prop where
  idle : ∀ j, w.server.next ≤ j → w.server.phase j = .ended ∧ w.race j = .init []
  agrees : ∀ j, Agrees (w.server.phase j) (w.race j)

theorem agrees_route {p : Phase} {r : RouteResult} (had : p.route? = some r) {race : Race String} :
    Agrees p race ↔ race = .init [] ∨ ∃ candidates o, race.Sound candidates ∧
      race.phase = .returned (some o) ∧ o.winnerId = r.backendId := by
  cases p with
  | returned | streaming | closing =>
      cases had
      rfl
  | _ => cases had

theorem agrees_early {p : Phase} {race : Race String} (agrees : Agrees p race)
    (none : p.route? = none) (busy : p ≠ .ended) (quiet : p.isRacing = false) :
    race = .init [] := by
  cases p with
  | running | connecting => exact agrees
  | waiting => exact agrees.2
  | racing => cases quiet
  | returned | streaming | closing => cases none
  | ended => exact absurd rfl busy

/-- A request without a response goes on, and may enter a race. -/
theorem agrees_fresh {p p' : Phase} (quiet : p.isRacing = false) (fresh : p'.Fresh) :
    Agrees p' (enter p p' (.init [])) := by
  cases p' with
  | running | connecting => rfl
  | waiting => exact ⟨fresh, rfl⟩
  | racing req allOpen topk unopened =>
      obtain ⟨rfl, distinct, some_candidate⟩ := fresh
      have entered : enter p (.racing req allOpen topk topk.backendIds) (.init []) =
          .init topk.backendIds := by
        simp [enter, quiet]
      rw [entered]
      refine ⟨Race.sound_init distinct, ?_, Race.unopened_init distinct⟩
      simp [Race.init, some_candidate, RacePhase.running]
  | returned | streaming | closing => exact .inl rfl
  | ended => trivial

theorem enter_self (p : Phase) (race : Race String) : enter p p race = race := by
  cases p with
  | racing => rfl
  | _ => rfl

theorem enter_of_route {p p' : Phase} {r : RouteResult} (had : p'.route? = some r)
    (race : Race String) : enter p p' race = race := by
  cases p' with
  | racing => cases had
  | _ => rfl

/-- A span that is none of a race. -/
theorem agrees_goes {p p' : Phase} {race : Race String} (agrees : Agrees p race)
    (goes : Goes p p') : Agrees p' (enter p p' race) := by
  cases goes with
  | stays =>
      rw [enter_self]
      exact agrees
  | forward none busy quiet fresh =>
      rw [agrees_early agrees none busy quiet]
      exact agrees_fresh quiet fresh
  | streams had has =>
      rw [enter_of_route has]
      exact (agrees_route has).mpr ((agrees_route had).mp agrees)
  | ends had => trivial

theorem Sound.nodup (sound : w.Sound) {req : Request} {remaining : List String}
    {allOpen mustCancel : Bool} (phase : w.server.phase i = .waiting req remaining allOpen mustCancel) :
    remaining.Nodup := by
  have agrees := sound.agrees i
  rw [phase] at agrees
  exact agrees.1

/-- A request arrives, and time has passed since the last span. -/
theorem sound_arrive (sound : w.Sound) {m : Server} (phase : m.phase = w.server.phase)
    (next : m.next = w.server.next) {req : Request} {semanticHit : Bool} :
    Sound ⟨m.arrive su req semanticHit now fault, fun i =>
      enter (w.server.phase i) ((m.arrive su req semanticHit now fault).phase i) (w.race i)⟩ := by
  obtain ⟨ended, nobody⟩ := sound.idle m.next (Nat.le_of_eq next.symm)
  have idle : m.phase m.next = .ended := phase ▸ ended
  have charged : Charged su req (m.admission su req now) m (m.arrive su req semanticHit now fault) :=
    arrive_charged idle semanticHit now fault
  have fresh : ((m.arrive su req semanticHit now fault).phase m.next).Fresh :=
    fresh_arrive idle semanticHit
  generalize m.arrive su req semanticHit now fault = s' at charged fresh
  have others : ∀ j, j ≠ m.next → s'.phase j = w.server.phase j := fun j ne =>
    (charged.others j ne).trans (congrFun phase j)
  constructor
  · intro j later
    have same : s'.phase j = w.server.phase j := by
      rcases charged.next with ⟨-, kept⟩ | numbered
      · by_cases here : j = m.next
        · rw [here, kept, phase]
        · exact others j here
      · exact others j (by dsimp only at later; omega)
    have bound : w.server.next ≤ j := by
      dsimp only at later
      rcases charged.next with ⟨kept, -⟩ | numbered
      · omega
      · omega
    dsimp only
    rw [same, enter_self]
    exact sound.idle j bound
  · intro j
    dsimp only
    by_cases here : j = m.next
    · have quiet : (w.server.phase m.next).isRacing = false := by rw [ended]; rfl
      rw [here, nobody]
      exact agrees_fresh quiet fresh
    · rw [others j here, enter_self]
      exact sound.agrees j

/-- **A span that is none of a race.** -/
theorem sound_span (sound : w.Sound) {span : Span} (other : ofRace w.server span.act = false)
    {s : Server} (taken : w.server.step su span = some s) :
    Sound ⟨s, fun i => enter (w.server.phase i) (s.phase i) (w.race i)⟩ := by
  unfold Server.step at taken
  split at taken
  · obtain ⟨now, act⟩ := span
    dsimp only at other taken
    cases own : act.request with
    | some i =>
        obtain ⟨req, held, follows⟩ := perform_follows own taken
        have quiet : ofRace { w.server with clock := now } act = false := other
        have goes := goes_perform own quiet (fun _ _ _ _ => sound.nodup) taken
        have bound : i < w.server.next := by
          by_contra later
          rw [(sound.idle i (by omega)).1] at held
          cases held
        constructor
        · intro j later
          rw [follows.next] at later
          obtain ⟨ended, nobody⟩ := sound.idle j later
          have ne : j ≠ i := by
            have : w.server.next ≤ j := later
            omega
          have same : s.phase j = w.server.phase j := follows.others j ne
          refine ⟨same.trans ended, ?_⟩
          dsimp only
          rw [same, enter_self, nobody]
        · intro j
          by_cases here : j = i
          · rw [here]
            exact agrees_goes (sound.agrees i) goes
          · have same : s.phase j = w.server.phase j := follows.others j here
            dsimp only
            rw [same, enter_self]
            exact sound.agrees j
    | none =>
        by_cases arrives : ∃ req semanticHit fault, act = .arrive req semanticHit fault
        · obtain ⟨req, semanticHit, fault, rfl⟩ := arrives
          cases taken
          have phase : { w.server with clock := now }.phase = w.server.phase := rfl
          exact sound_arrive sound phase rfl
        · push Not at arrives
          obtain ⟨phase, next, -⟩ := perform_other own arrives taken
          constructor
          · intro j later
            rw [next] at later
            dsimp only
            rw [phase, enter_self]
            exact sound.idle j later
          · intro j
            dsimp only
            rw [phase, enter_self]
            exact sound.agrees j
  · cases taken

/-- A race with an action belongs to a request. -/
theorem Sound.lt_next (sound : w.Sound) {a : Race.Act String} {r : Race String}
    (taken : (w.race i).step a = some r) : i < w.server.next := by
  by_contra later
  rw [(sound.idle i (by omega)).2, Race.step_init_nil] at taken
  cases taken

/-- Request `i` and its race go on, and no other ones do. -/
theorem Sound.goes_on (sound : w.Sound) {s : Server} {r : Race String} (bound : i < w.server.next)
    (others : ∀ j ≠ i, s.phase j = w.server.phase j) (next : s.next = w.server.next)
    (agrees : Agrees (s.phase i) r) : Sound ⟨s, Function.update w.race i r⟩ := by
  constructor
  · intro j later
    dsimp only at later ⊢
    have ne : j ≠ i := by omega
    rw [others j ne, Function.update_of_ne ne]
    exact sound.idle j (by omega)
  · intro j
    by_cases here : j = i
    · subst here
      dsimp only
      rw [Function.update_self]
      exact agrees
    · dsimp only
      rw [others j here, Function.update_of_ne here]
      exact sound.agrees j

/-- What the handler hears is a run of the plain gateway. -/
def Heard (su : Setup) (w : RacingServer) (i : Nat) (s : Server) (r : Race String) : Prop :=
  Sound ⟨s, Function.update w.race i r⟩ ∧
    ∃ spans, Machine.run (Server.step su) w.server spans = some s

/-- The handler does not hear of an action. -/
theorem heard_nothing (sound : w.Sound) {r : Race String} (bound : i < w.server.next)
    (agrees : Agrees (w.server.phase i) r) : Heard su w i w.server r :=
  ⟨sound.goes_on bound (fun _ _ => rfl) rfl agrees, [], rfl⟩

/-- The handler hears, in one span of the plain gateway. -/
theorem heard_span (sound : w.Sound) {r : Race String} (bound : i < w.server.next) {act : Server.Act}
    {s : Server} (own : act.request = some i) (le : w.server.clock ≤ now)
    (performed : { w.server with clock := now }.perform su now act = some s)
    (agrees : Agrees (s.phase i) r) : Heard su w i s r := by
  obtain ⟨req, -, follows⟩ := perform_follows own performed
  refine ⟨sound.goes_on bound follows.others follows.next agrees, [⟨now, act⟩], ?_⟩
  have stepped : w.server.step su ⟨now, act⟩ = some s := by
    rw [Server.step, if_pos le]
    exact performed
  exact Machine.run_cons_eq_some.mpr ⟨s, stepped, rfl⟩

section Hearing

variable {a : Race.Act String} {r : Race String} {req : Request} {allOpen : Bool}
  {topk : Router.TopK} {unopened : List String} (sound : w.Sound) (le : w.server.clock ≤ now)
  (phase : w.server.phase i = .racing req allOpen topk unopened)
  (taken : (w.race i).step a = some r)
include sound le phase taken

theorem hear_won (kept : r.Sound topk.backendIds) (opened : r.Unopened unopened)
    {o : RaceOutcome String} (won : r.phase = .returned (some o)) :
    Heard su w i (hear su w.server i now a r.phase fault) r := by
  obtain ⟨winner, none_live⟩ := kept.returned o won
  have not_unopened : o.winnerId ∉ unopened := by
    intro member
    have never := opened.conn o.winnerId member
    rw [winner.opened] at never
    cases never
  have performed : { w.server with clock := now }.perform su now
      (.won i o.winnerId o.winnerResponse fault) =
        some (hear su w.server i now a r.phase fault) := by
    simp only [perform, Server.won, phase, hear, won]
    rw [if_pos ⟨winner.member, not_unopened⟩]
  refine heard_span sound (sound.lt_next taken) rfl le performed ?_
  simp only [hear, phase, won]
  split
  · simp [finish, Agrees]
  · unfold respond
    dsimp only
    split
    · simp [finish, Agrees]
    · simp only [setPhase, Function.update_self]
      exact .inr ⟨_, o, kept, won, rfl⟩

theorem hear_lost (kept : r.Sound topk.backendIds) (opened : r.Unopened unopened)
    (lost : r.phase = .returned none) :
    Heard su w i (hear su w.server i now a r.phase fault) r := by
  have all : unopened = [] := by
    rw [List.eq_nil_iff_forall_not_mem]
    intro b member
    have never := opened.conn b member
    have present : r.conn b ≠ .absent := by
      intro absent
      rw [absent] at never
      cases never
    rw [kept.lost lost b (kept.mem present)] at never
    cases never
  have performed : { w.server with clock := now }.perform su now (.lost i fault) =
      some (hear su w.server i now a r.phase fault) := by
    simp only [perform, Server.lost, phase, all, hear, lost]
  refine heard_span sound (sound.lt_next taken) rfl le performed ?_
  simp [hear, phase, lost, unreachable, finish, Agrees]

theorem hear_raised (raised : r.phase = .raised) :
    Heard su w i (hear su w.server i now a r.phase fault) r := by
  have performed : { w.server with clock := now }.perform su now (.cancel i) =
      some (hear su w.server i now a r.phase fault) := by
    simp only [perform, Server.cancel, phase, hear, raised]
  refine heard_span sound (sound.lt_next taken) rfl le performed ?_
  simp [hear, phase, raised, finish, Agrees]

theorem hear_start {b : String} (kept : r.Sound topk.backendIds) (opens : b ∈ unopened)
    (opened : r.Unopened (unopened.erase b)) (running : r.phase.running = true) :
    Heard su w i (hear su w.server i now (.start b) r.phase fault) r := by
  have goes : hear su w.server i now (.start b) r.phase fault =
      ({ w.server with clock := now }.record req b now).setPhase i
        (.racing req allOpen topk (unopened.erase b)) := by
    unfold hear
    rw [phase]
    cases at_phase : r.phase with
    | waiting | closing => rfl
    | returned | raised =>
        rw [at_phase] at running
        cases running
  have performed : { w.server with clock := now }.perform su now (.opened i b) =
      some (hear su w.server i now (.start b) r.phase fault) := by
    simp only [perform, Server.opened, phase]
    rw [if_pos opens, goes]
  refine heard_span sound (sound.lt_next taken) rfl le performed ?_
  rw [goes]
  simp only [setPhase, Function.update_self]
  exact ⟨kept, running, opened⟩

omit le in
theorem hear_silent (other : ∀ b, a ≠ .start b) (kept : r.Sound topk.backendIds)
    (opened : r.Unopened unopened) (running : r.phase.running = true) :
    Heard su w i (hear su w.server i now a r.phase fault) r := by
  have goes : hear su w.server i now a r.phase fault = w.server := by
    unfold hear
    rw [phase]
    cases at_phase : r.phase with
    | waiting | closing =>
        cases a with
        | start b => exact absurd rfl (other b)
        | _ => rfl
    | returned | raised =>
        rw [at_phase] at running
        cases running
  rw [goes]
  refine heard_nothing sound (sound.lt_next taken) ?_
  rw [phase]
  exact ⟨kept, running, opened⟩

/-- A request that races. -/
theorem hear_racing : Heard su w i (hear su w.server i now a r.phase fault) r := by
  have agrees := sound.agrees i
  rw [phase] at agrees
  obtain ⟨kept, running, opened⟩ := agrees
  have kept' : r.Sound topk.backendIds := Race.sound_step kept taken
  by_cases starts : ∃ b, a = .start b
  · obtain ⟨b, rfl⟩ := starts
    obtain ⟨member, opened'⟩ := opened.start taken
    have running' : r.phase.running = true := by
      obtain ⟨was, moved⟩ := Option.ite_none_right_eq_some.mp taken
      cases moved
      exact running
    exact hear_start sound le phase taken kept' member opened' running'
  · push Not at starts
    have opened' : r.Unopened unopened := opened.step starts taken
    cases ended : r.phase.running with
    | true => exact hear_silent sound phase taken starts kept' opened' ended
    | false =>
        cases at_phase : r.phase with
        | waiting | closing =>
            rw [at_phase] at ended
            cases ended
        | raised =>
            rw [← at_phase]
            exact hear_raised sound le phase taken at_phase
        | returned outcome =>
            rw [← at_phase]
            cases outcome with
            | none => exact hear_lost sound le phase taken kept' opened' at_phase
            | some o => exact hear_won sound le phase taken kept' opened' at_phase

end Hearing

/-- The tasks of a race that is over. -/
theorem hear_over (sound : w.Sound) (quiet : (w.server.phase i).isRacing = false)
    {a : Race.Act String} {r : Race String} (taken : (w.race i).step a = some r) :
    Heard su w i (hear su w.server i now a r.phase fault) r := by
  have goes : hear su w.server i now a r.phase fault = w.server := by
    unfold hear
    cases at_phase : w.server.phase i with
    | racing =>
        rw [at_phase] at quiet
        cases quiet
    | _ => rfl
  rw [goes]
  refine heard_nothing sound (sound.lt_next taken) ?_
  have agrees := sound.agrees i
  cases had : (w.server.phase i).route? with
  | none =>
      by_cases ended : w.server.phase i = .ended
      · rw [ended]
        trivial
      · rw [agrees_early agrees had ended quiet, Race.step_init_nil] at taken
        cases taken
  | some route =>
      rcases (agrees_route had).mp agrees with nobody | ⟨candidates, o, kept, done, same⟩
      · rw [nobody, Race.step_init_nil] at taken
        cases taken
      · have stays : r.phase = (w.race i).phase := Race.phase_step (by rw [done]; rfl) taken
        exact (agrees_route had).mpr
          (.inr ⟨candidates, o, Race.sound_step kept taken, stays.trans done, same⟩)

/-- **One step.** -/
theorem step_refines {act : Act} (sound : w.Sound) (taken : w.step su act = some w') :
    w'.Sound ∧ ∃ spans, Machine.run (Server.step su) w.server spans = some w'.server := by
  cases act with
  | span span =>
      simp only [step] at taken
      split at taken
      · cases taken
      · rename_i other
        obtain ⟨s, stepped, rfl⟩ := Option.map_eq_some_iff.mp taken
        refine ⟨sound_span sound (Bool.eq_false_iff.mpr other) stepped, [span], ?_⟩
        exact Machine.run_cons_eq_some.mpr ⟨s, stepped, rfl⟩
  | race i now a fault =>
      obtain ⟨le, moved⟩ := Option.ite_none_right_eq_some.mp taken
      obtain ⟨r, acted, rfl⟩ := Option.map_eq_some_iff.mp moved
      cases at_phase : w.server.phase i with
      | racing req allOpen topk unopened => exact hear_racing sound le at_phase acted
      | _ => exact hear_over sound (by rw [at_phase]; rfl) acted

theorem sound_init {s : Server} (idle : ∀ j, s.phase j = .ended) : (init s).Sound := by
  refine ⟨fun j _ => ⟨idle j, rfl⟩, fun j => ?_⟩
  have ended : (init s).server.phase j = .ended := idle j
  rw [ended]
  trivial

/-- **Races beside everything else.** Every run in which the races are carried out is a run of the
plain gateway. In whatever order the tasks of the races run, a request that has its response holds no
connection that a race opened to another backend, and none will be. -/
theorem racing_refines {registry : BackendRegistry String}
    {backendCacheBlocks circuitFailThreshold : Int} {circuitCooldown : ℚ}
    {sessions : SessionAffinity String} {predictor : Option (List ℚ → Option ℚ)}
    {scheduler : Option (Int × Dict String ℚ × ℚ × ℚ)} {acts : List Act}
    (reach : Machine.run (step su) (init (Server.init su registry backendCacheBlocks
      circuitFailThreshold circuitCooldown sessions predictor scheduler)) acts = some w) :
    (∃ spans, Machine.run (Server.step su) (Server.init su registry backendCacheBlocks
      circuitFailThreshold circuitCooldown sessions predictor scheduler) spans = some w.server) ∧
    ∀ i r, (w.server.phase i).route? = some r →
      ∀ b ≠ r.backendId, ((w.race i).conn b).live = false := by
  obtain ⟨sound, refined⟩ := Machine.run_refines (fun _ _ _ => step_refines)
    (sound_init fun _ => rfl) reach
  refine ⟨refined, fun i r had b ne => ?_⟩
  rcases (agrees_route had).mp (sound.agrees i) with nobody | ⟨candidates, o, kept, done, same⟩
  · rw [nobody]
    rfl
  · exact (kept.returned o done).2 b (same ▸ ne)

/-- Two backends and the speculative strategy. -/
def speculating : Setup := { cfg := { strategy := .speculative } }

/-- The second backend responds first, and the task of the first one is cancelled. Meanwhile the
first backend is drained. -/
def secondWins : List Act :=
  [.span ⟨0, .arrive plainRequest false none⟩, .race 0 0 (.start "b0") none,
    .race 0 0 (.start "b1") none, .span ⟨1, .adminDrain "b0" true⟩, .race 0 2 (.respond "b1" 200) none,
    .race 0 2 (.wake ["b1"]) none, .race 0 2 (.unwind "b0") none, .race 0 2 .exit none,
    .span ⟨3, .start 0⟩]

theorem racing_refines_second :
    ∃ (w : RacingServer) (spans : List Span) (r : RouteResult),
      Machine.run (Server.step speculating) (Server.init speculating
        (.init "mock-model" [("b0", "http://b0"), ("b1", "http://b1")]) 2000 3 5 (.init 10000 1800)
        none none) spans = some w.server ∧
      (w.server.phase 0).route? = some r ∧ r.backendId = "b1" ∧
      ((w.race 0).conn "b0").live = false := by
  obtain ⟨w, reach, served⟩ : ∃ w : RacingServer,
      Machine.run (step speculating) (init (Server.init speculating
        (.init "mock-model" [("b0", "http://b0"), ("b1", "http://b1")]) 2000 3 5 (.init 10000 1800)
        none none)) secondWins = some w ∧
      (w.server.phase 0).route?.map RouteResult.backendId = some "b1" :=
    Machine.exists_run (by decide +kernel)
  obtain ⟨r, had, winner⟩ := Option.map_eq_some_iff.mp served
  obtain ⟨⟨spans, plain⟩, released⟩ := racing_refines reach
  exact ⟨w, spans, r, plain, had, winner, released 0 r had "b0" (by rw [winner]; decide)⟩

end RacingServer

end Gateway
