import Gateway.RateBound
import Gateway.Server.Body
import Gateway.Server.Routing

/-!
What requests are charged to the token bucket of their tenant (`gateway/server.py`,
`gateway/tenancy.py`).

`admit` takes the input tokens and the reserved output of a request, and `release` gives the
reserved output back and takes the actual one. A `Ledger` writes beside a run of the server
what each request has paid: the fall of its tenant's balance in its own spans, refills apart.

* `route_limiter`, `perform_follows`: what a span does to the limiter. A request is charged
  once, when it arrives, and settled at most once, when it ends.
* `charges_settle`: as long as no request asks for fewer output tokens than it has input
  tokens to make up for, no balance exceeds its capacity, no arrival raises one, and a
  completed request has paid its input and its actual output.
* `minted_by_negative`: a negative `max_tokens` fills a bucket beyond its capacity.
-/

namespace Gateway

namespace TokenBucket

/-- Replenishing to the time a bucket has been replenished to. -/
theorem replenish_to_ts (b : TokenBucket) (now : ℚ) :
    b.replenish (b.replenish now).ts = b.replenish now := by
  by_cases later : b.ts < now <;> simp [replenish, later]

end TokenBucket

/-- What was taken from the token bucket of a tenant, refills apart. -/
def drawn (t : Tenant) (before after : RateLimiter) : ℚ :=
  ((before.bucketsOf t).2.replenish (after.bucketsOf t).2.ts).tokens -
    (after.bucketsOf t).2.tokens

/-- The balance of a tenant as of some time. -/
def RateLimiter.balanceAt (l : RateLimiter) (t : Tenant) (now : ℚ) : ℚ :=
  ((l.bucketsOf t).2.replenish now).tokens

namespace RateLimiter

/-- No token bucket holds more than its capacity. -/
def WithinCapacity : RateLimiter → Prop :=
  Each (fun _ => True) (fun b => b.tokens ≤ b.capacity)

variable {l : RateLimiter} {t : Tenant} {cost now : ℚ}

theorem WithinCapacity.tokens_le (within : WithinCapacity l) (t : Tenant) :
    (l.bucketsOf t).2.tokens ≤ (l.bucketsOf t).2.capacity :=
  (Each.bucketsOf within trivial (le_refl t.tps)).2

/-- What `admit` does to the token bucket of its tenant. -/
theorem tryAdmit_tps_cases (within : WithinCapacity l) (t : Tenant) (cost now : ℚ) :
    ((l.tryAdmit t cost now).2.allowed = false ∧
      (((l.tryAdmit t cost now).1.bucketsOf t).2 = (l.bucketsOf t).2 ∨
        ((l.tryAdmit t cost now).1.bucketsOf t).2 = (l.bucketsOf t).2.replenish now)) ∨
    ((l.tryAdmit t cost now).2.allowed = true ∧
      ((l.tryAdmit t cost now).1.bucketsOf t).2 =
        { (l.bucketsOf t).2.replenish now with tokens := l.balanceAt t now - cost }) := by
  have le := TokenBucket.replenish_tokens_le (within.tokens_le t) now
  rcases l.tryAdmit_outcome t cost now with
    ⟨reason, -, buckets⟩ | ⟨reason, -, -, -, buckets⟩ | ⟨reason, -, -, -, -, buckets⟩ |
      ⟨reason, -, -, -, buckets⟩
  · exact .inl ⟨by rw [Admission.allowed, reason]; rfl, .inl (congrArg Prod.snd buckets)⟩
  · exact .inl ⟨by rw [Admission.allowed, reason]; rfl, .inr (congrArg Prod.snd buckets)⟩
  · refine .inl ⟨by rw [Admission.allowed, reason]; rfl, .inr ?_⟩
    rw [buckets, TokenBucket.adjust_consumed le]
  · exact .inr ⟨by rw [Admission.allowed, reason]; rfl, congrArg Prod.snd buckets⟩

/-- An admission of a cost that is not negative. -/
theorem WithinCapacity.tryAdmit (within : WithinCapacity l) (nonneg : 0 ≤ cost) :
    WithinCapacity (l.tryAdmit t cost now).1 := by
  have kept := within.tokens_le t
  have refilled := TokenBucket.replenish_tokens_le kept now
  refine Each.apply within (.arrive t cost now) trivial ?_
  simp only [RateLimiter.apply, Call.tenant]
  rcases tryAdmit_tps_cases within t cost now with ⟨-, same | same⟩ | ⟨-, same⟩
  · rw [same]
    exact kept
  · rw [same]
    exact refilled
  · rw [same]
    have less : l.balanceAt t now - cost ≤ l.balanceAt t now := sub_le_self _ nonneg
    exact less.trans refilled

/-- A release clamps what it gives back. -/
theorem WithinCapacity.release (within : WithinCapacity l) (reserved actual : ℚ) :
    WithinCapacity (l.release t reserved actual) := by
  refine Each.apply within (.release t reserved actual) trivial ?_
  simp only [RateLimiter.apply, Call.tenant, bucketsOf_release]
  exact min_le_left _ _

/-- An allowed admission draws its cost. -/
theorem drawn_tryAdmit (within : WithinCapacity l)
    (allowed : (l.tryAdmit t cost now).2.allowed = true) :
    drawn t l (l.tryAdmit t cost now).1 = cost := by
  rcases tryAdmit_tps_cases within t cost now with ⟨refused, -⟩ | ⟨-, same⟩
  · rw [allowed] at refused
    cases refused
  · simp only [drawn, same, TokenBucket.replenish_to_ts, balanceAt]
    ring

end RateLimiter

/-! ### What a span does to the limiter -/

/-- A request whose stream has ended, with the events it was sent. -/
def Phase.closingWith : Phase → Option (Request × Nat)
  | .closing req _ _ outEvents => some (req, outEvents)
  | _ => none

/-- The limiter after `release(actual_output)`. -/
def Setup.giveBack (su : Setup) (req : Request) (actual : Nat) (l : RateLimiter) : RateLimiter :=
  if su.cfg.rateLimitEnabled then l.release req.tenant req.reservedOutput actual else l

namespace Server

variable {su : Setup} {s s' : Server} {req : Request} {i : Nat}

theorem place_limiter (su : Setup) (s : Server) (req : Request) (remaining : List String)
    (fault : Option Stretch) :
    (s.place su req remaining fault).1.limiter = s.limiter ∨
      ((s.place su req remaining fault).2.isOk = false ∧
        (s.place su req remaining fault).1.limiter = su.giveBack req 0 s.limiter) := by
  unfold place
  split
  · exact .inl rfl
  · dsimp only
    split
    · exact .inl rfl
    split
    · exact .inr ⟨rfl, rfl⟩
    split
    · exact .inl rfl
    split
    · exact .inr ⟨rfl, rfl⟩
    · exact .inl rfl

theorem select_limiter (su : Setup) (s : Server) (req : Request) (semanticHit : Bool) (now : ℚ)
    (fault : Option Stretch) :
    (s.select su req semanticHit now fault).1.limiter = s.limiter ∨
      ((s.select su req semanticHit now fault).2.isOk = false ∧
        (s.select su req semanticHit now fault).1.limiter = su.giveBack req 0 s.limiter) := by
  unfold select
  split
  · exact .inl rfl
  split
  · exact .inr ⟨rfl, rfl⟩
  split
  · exact .inr ⟨rfl, rfl⟩
  dsimp only
  split
  · exact .inl rfl
  · exact place_limiter su
      { s with sessions := (s.pinSession su req (s.selected su req now) now).1 } req _ fault

/-- **Routing and the limiter**: it is not asked; or asked, and the request may only go on if
it was admitted; or asked and settled, when the request ends at once. -/
theorem route_limiter (su : Setup) (s : Server) (req : Request) (semanticHit : Bool) (now : ℚ)
    (fault : Option Stretch) :
    let routed := s.route su req semanticHit now fault
    let adm := s.admission su req now
    (routed.2.isOk = false ∧ routed.1.limiter = s.limiter) ∨
    ((routed.2.isOk = true → adm.2 = true) ∧ routed.1.limiter = adm.1) ∨
    (routed.2.isOk = false ∧ adm.2 = true ∧ routed.1.limiter = su.giveBack req 0 adm.1) := by
  unfold route
  dsimp only
  split
  · exact .inl ⟨rfl, rfl⟩
  split
  · exact .inl ⟨rfl, rfl⟩
  split
  · exact .inl ⟨rfl, rfl⟩
  split
  · rename_i allowed
    have selected := select_limiter su { s with limiter := (s.admission su req now).1 } req
      semanticHit now fault
    rcases selected with same | ⟨ended, settled⟩
    · exact .inr (.inl ⟨fun _ => allowed, same⟩)
    · exact .inr (.inr ⟨ended, allowed, settled⟩)
  · exact .inr (.inl ⟨fun ok => absurd ok (by simp [Except.isOk, Except.toBool]), rfl⟩)

/-- A span of request `i`: no other request moves, and the limiter is left alone, or the
request is settled and ends. -/
structure Follows (su : Setup) (i : Nat) (req : Request) (s s' : Server) : Prop where
  others : ∀ j, j ≠ i → s'.phase j = s.phase j
  next : s'.next = s.next
  limiter : (s'.limiter = s.limiter ∧ ∀ req', (s'.phase i).req? = some req' → req' = req) ∨
    ∃ actual, s'.limiter = su.giveBack req actual s.limiter ∧ s'.phase i = .ended

/-- What happened before has moved no other request. -/
theorem Follows.of_eq {mid : Server} (follows : Follows su i req mid s')
    (others : ∀ j, j ≠ i → mid.phase j = s.phase j) (next : mid.next = s.next)
    (limiter : mid.limiter = s.limiter) : Follows su i req s s' where
  others := fun j ne => (follows.others j ne).trans (others j ne)
  next := follows.next.trans next
  limiter := limiter ▸ follows.limiter

/-- A request goes to another phase. -/
theorem Follows.move {p : Phase} (phase : s'.phase = Function.update s.phase i p)
    (next : s'.next = s.next) (limiter : s'.limiter = s.limiter) (same : p.req? = some req) :
    Follows su i req s s' where
  others := fun j ne => by rw [phase, Function.update_of_ne ne]
  next := next
  limiter := by
    refine .inl ⟨limiter, fun req' held => ?_⟩
    rw [phase, Function.update_self, same] at held
    exact (Option.some.inj held).symm

/-- A request ends without being settled. -/
theorem Follows.drop (phase : s'.phase = Function.update s.phase i .ended)
    (next : s'.next = s.next) (limiter : s'.limiter = s.limiter) : Follows su i req s s' where
  others := fun j ne => by rw [phase, Function.update_of_ne ne]
  next := next
  limiter := by
    refine .inl ⟨limiter, fun req' held => ?_⟩
    rw [phase, Function.update_self] at held
    cases held

/-- A request is settled and ends. -/
theorem Follows.settle (actual : Nat) (phase : s'.phase = Function.update s.phase i .ended)
    (next : s'.next = s.next) (limiter : s'.limiter = su.giveBack req actual s.limiter) :
    Follows su i req s s' where
  others := fun j ne => by rw [phase, Function.update_of_ne ne]
  next := next
  limiter := .inr ⟨actual, limiter, by rw [phase, Function.update_self]⟩

theorem follows_attempt (allOpen : Bool) (remaining : List String) (left : Nat) (now : ℚ)
    (fault : Option Stretch) :
    Follows su i req s (s.attempt su i req allOpen remaining left now fault) := by
  unfold attempt
  split
  · exact .settle 0 rfl rfl rfl
  split
  · exact .settle 0 rfl rfl rfl
  split
  · exact .drop rfl rfl rfl
  dsimp only
  split
  · exact .drop rfl rfl rfl
  split
  · exact .drop rfl rfl rfl
  · exact .move rfl rfl rfl rfl

theorem follows_dispatch (allOpen : Bool) (remaining : List String) (now : ℚ)
    (fault : Option Stretch) :
    Follows su i req s (s.dispatch su i req allOpen remaining now fault) := by
  unfold dispatch
  split
  · exact .drop rfl rfl rfl
  split
  · split
    · exact .drop rfl rfl rfl
    · split
      · exact .drop rfl rfl rfl
      · exact .move rfl rfl rfl rfl
  · exact follows_attempt ..

theorem follows_respond (r : RouteResult) (code : Nat) (fault : Option Stretch) :
    Follows su i req s (s.respond i req r code fault) := by
  unfold respond
  dsimp only
  split
  · exact .drop rfl rfl rfl
  · exact .move rfl rfl rfl rfl

/-- A request that is not over takes a span of its own. -/
def Continues (su : Setup) (i : Nat) (s s' : Server) : Prop :=
  ∃ req, (s.phase i).req? = some req ∧ Follows su i req s s'

theorem Follows.continues {p : Phase} (follows : Follows su i req s s') (phase : s.phase i = p)
    (held : p.req? = some req) : Continues su i s s' :=
  ⟨req, by rw [phase, held], follows⟩

section Spans

variable {now : ℚ} {fault : Option Stretch}

theorem resume_continues (taken : s.resume su i now fault = some s') : Continues su i s s' := by
  unfold resume at taken
  split at taken
  · rename_i phase _
    cases taken
    exact Follows.continues (.drop rfl rfl rfl) phase rfl
  · rename_i phase _
    cases taken
    exact Follows.continues (.drop rfl rfl rfl) phase rfl
  · rename_i req remaining allOpen phase _
    cases taken
    refine Follows.continues ((follows_dispatch ..).of_eq ?_ rfl rfl) phase rfl
    intro j ne
    exact Function.update_of_ne ne _ _
  · cases taken

theorem connected_continues {code : Nat} (taken : s.connected i code fault = some s') :
    Continues su i s s' := by
  unfold connected at taken
  split at taken
  · rename_i phase
    cases taken
    exact (follows_respond ..).continues phase rfl
  · cases taken

theorem refused_continues (taken : s.refused su i now fault = some s') : Continues su i s s' := by
  unfold refused at taken
  split at taken
  · rename_i req allOpen r remaining left phase
    cases taken
    have marked : ∀ k, k ≠ i → (s.markFailed i req r now).phase k = s.phase k :=
      fun k ne => Function.update_of_ne ne _ _
    refine Follows.continues (Follows.of_eq ?_ marked rfl rfl) phase rfl
    split
    · exact .drop rfl rfl rfl
    · exact follows_attempt ..
  · cases taken

theorem opened_continues {b : String} (taken : s.opened i b now = some s') :
    Continues su i s s' := by
  unfold opened at taken
  split at taken
  · rename_i phase
    split at taken
    · cases taken
      exact Follows.continues (.move rfl rfl rfl rfl) phase rfl
    · cases taken
  · cases taken

theorem won_continues {b : String} {code : Nat} (taken : s.won i b code now fault = some s') :
    Continues su i s s' := by
  unfold won at taken
  split at taken
  · rename_i phase
    split at taken
    · cases taken
      refine Follows.continues ?_ phase rfl
      split
      · exact .drop rfl rfl rfl
      · exact (follows_respond ..).of_eq (fun _ _ => rfl) rfl rfl
    · cases taken
  · cases taken

theorem lost_continues (taken : s.lost su i fault = some s') : Continues su i s s' := by
  unfold lost at taken
  split at taken
  · rename_i phase
    cases taken
    exact Follows.continues (.settle 0 rfl rfl rfl) phase rfl
  · cases taken

theorem closed_continues (taken : s.closed su i now fault = some s') : Continues su i s s' := by
  unfold closed at taken
  split at taken
  · rename_i req r code out phase
    cases taken
    refine Follows.continues ?_ phase rfl
    split
    · exact .drop rfl rfl rfl
    · split
      · exact .settle (out - 1) rfl rfl rfl
      · exact .settle (out - 1) rfl rfl rfl
  · cases taken

theorem cancel_continues (taken : s.cancel i = some s') : Continues su i s s' := by
  unfold cancel at taken
  split at taken
  · rename_i req remaining allOpen _ phase
    split at taken
    · cases taken
      refine Follows.continues ⟨fun _ _ => rfl, rfl, .inl ⟨rfl, ?_⟩⟩ phase rfl
      simp [phase, Phase.req?]
    · cases taken
      exact Follows.continues (.move rfl rfl rfl rfl) phase rfl
  · rename_i phase
    cases taken
    exact Follows.continues (.drop rfl rfl rfl) phase rfl
  · rename_i phase
    cases taken
    exact Follows.continues (.drop rfl rfl rfl) phase rfl
  · rename_i phase
    cases taken
    exact Follows.continues (.drop rfl rfl rfl) phase rfl
  · rename_i phase
    cases taken
    exact Follows.continues (.move rfl rfl rfl rfl) phase rfl
  · rename_i phase
    cases taken
    exact Follows.continues (.drop rfl rfl rfl) phase rfl
  · cases taken
  · cases taken

/-- The stream of a request: it is started, yields chunks and stops. -/
theorem stream_continues {act : Act} (stream : act = .start i ∨ (∃ events, act = .chunk i events) ∨
    act = .stop i) (taken : s.perform su now act = some s') : Continues su i s s' := by
  obtain rfl | ⟨events, rfl⟩ | rfl := stream
  all_goals
    simp only [perform, start, chunk, stop] at taken
    split at taken
    · rename_i phase
      cases taken
      exact Follows.continues (.move rfl rfl rfl rfl) phase rfl
    · cases taken

end Spans

/-- The request a span belongs to. -/
def Act.request : Act → Option Nat
  | .resume i _ | .connected i _ _ | .refused i _ | .opened i _ | .won i _ _ _ | .lost i _
  | .start i | .chunk i _ | .stop i | .closed i _ | .cancel i => some i
  | .arrive _ _ _ | .adminAdd _ _ _ | .adminRemove _ | .adminDrain _ _ | .scrape _ _ => none

/-- **The spans of a request.** -/
theorem perform_follows {now : ℚ} {act : Act} (own : act.request = some i)
    (taken : s.perform su now act = some s') :
    ∃ req, (s.phase i).req? = some req ∧ Follows su i req s s' := by
  cases act with
  | arrive | adminAdd | adminRemove | adminDrain | scrape => cases own
  | resume j fault =>
      cases own
      exact resume_continues taken
  | connected j code fault =>
      cases own
      exact connected_continues taken
  | refused j fault =>
      cases own
      exact refused_continues taken
  | opened j b =>
      cases own
      exact opened_continues taken
  | won j b code fault =>
      cases own
      exact won_continues taken
  | lost j fault =>
      cases own
      exact lost_continues taken
  | start j =>
      cases own
      exact stream_continues (.inl rfl) taken
  | chunk j events =>
      cases own
      exact stream_continues (.inr (.inl ⟨events, rfl⟩)) taken
  | stop j =>
      cases own
      exact stream_continues (.inr (.inr rfl)) taken
  | closed j fault =>
      cases own
      exact closed_continues taken
  | cancel j =>
      cases own
      exact cancel_continues taken

theorem closingWith_eq_some {p : Phase} {req : Request} {out : Nat}
    (closing : p.closingWith = some (req, out)) : ∃ r code, p = .closing req r code out := by
  cases p with
  | closing req' r code out' =>
      cases closing
      exact ⟨r, code, rfl⟩
  | _ => cases closing

/-- The limiter after a request has been completed. -/
theorem limiter_closed {now : ℚ} {fault : Option Stretch} {out : Nat}
    (closing : (s.phase i).closingWith = some (req, out))
    (settles : fault ≠ some .settled) (taken : s.closed su i now fault = some s') :
    s'.limiter = su.giveBack req (out - 1) s.limiter := by
  obtain ⟨r, code, closing⟩ := closingWith_eq_some closing
  simp only [closed, closing, if_neg settles, Option.some.injEq] at taken
  subst taken
  split <;> rfl

/-- An arrival: no other request moves, and if the new one is not over, it was admitted and
nothing of its charge was given back. -/
structure Charged (su : Setup) (req : Request) (adm : RateLimiter × Bool) (s s' : Server) :
    Prop where
  others : ∀ j, j ≠ s.next → s'.phase j = s.phase j
  next : s'.next = s.next ∧ s'.phase s.next = s.phase s.next ∨ s'.next = s.next + 1
  limiter : s'.limiter = s.limiter ∨ s'.limiter = adm.1 ∨
    adm.2 = true ∧ ∃ actual, s'.limiter = su.giveBack req actual adm.1
  held : ∀ req', (s'.phase s.next).req? = some req' →
    req' = req ∧ adm.2 = true ∧ s'.limiter = adm.1

/-- A routed request is numbered, and goes on as far as it can. -/
theorem follows_numbered (su : Setup) (s : Server) (req : Request) (allOpen : Bool)
    (remaining : List String) (now : ℚ) (fault : Option Stretch) :
    let numbered := s.acquireSlot req allOpen remaining
    let s' := if numbered.2 then numbered.1.dispatch su s.next req allOpen remaining now fault
      else numbered.1
    Follows su s.next req numbered.1 s' := by
  intro numbered s'
  subst s'
  split
  · exact follows_dispatch ..
  · refine ⟨fun _ _ => rfl, rfl, .inl ⟨rfl, ?_⟩⟩
    simp only [numbered, acquireSlot, Function.update_self]
    split <;> simp [Phase.req?]

/-- **An arrival.** -/
theorem arrive_charged (idle : s.phase s.next = .ended) (semanticHit : Bool) (now : ℚ)
    (fault : Option Stretch) :
    Charged su req (s.admission su req now) s (s.arrive su req semanticHit now fault) := by
  have asked := route_limiter su s req semanticHit now fault
  obtain ⟨limiter, sessions, router, frame⟩ := route_frame su s req semanticHit now fault
  have ended : (s.phase s.next).req? = none := by rw [idle]; rfl
  unfold arrive
  generalize s.admission su req now = adm at asked ⊢
  generalize s.route su req semanticHit now fault = result at asked frame ⊢
  obtain ⟨routed, outcome⟩ := result
  dsimp only at asked frame ⊢
  subst frame
  cases outcome with
  | error reply =>
      constructor
      · exact fun _ _ => rfl
      · exact .inl ⟨rfl, rfl⟩
      · rcases asked with ⟨-, same⟩ | ⟨-, same⟩ | ⟨-, allowed, same⟩
        · exact .inl same
        · exact .inr (.inl same)
        · exact .inr (.inr ⟨allowed, 0, same⟩)
      · intro req' held
        rw [show (s.phase s.next).req? = some req' from held] at ended
        cases ended
  | ok remaining =>
      have admitted : adm.2 = true ∧ limiter = adm.1 := by
        rcases asked with ⟨bad, -⟩ | ⟨allowed, same⟩ | ⟨bad, -⟩
        · cases bad
        · exact ⟨allowed rfl, same⟩
        · cases bad
      obtain ⟨allowed, same⟩ := admitted
      subst same
      have follows := follows_numbered su
        { s with limiter := adm.1, sessions := sessions, router := router } req
        (s.allOpen su req now) remaining now fault
      dsimp only at follows ⊢
      constructor
      · intro j ne
        exact (follows.others j ne).trans (Function.update_of_ne ne _ _)
      · exact .inr follows.next
      · rcases follows.limiter with ⟨same, -⟩ | ⟨actual, same, -⟩
        · exact .inr (.inl same)
        · exact .inr (.inr ⟨allowed, actual, same⟩)
      · intro req' held
        rcases follows.limiter with ⟨same, only⟩ | ⟨actual, -, ended⟩
        · exact ⟨only req' held, allowed, same⟩
        · rw [ended] at held
          cases held

/-- The rest of the spans are none of a request. -/
theorem perform_other {now : ℚ} {act : Act} (other : act.request = none)
    (silent : ∀ req semanticHit fault, act ≠ .arrive req semanticHit fault)
    (taken : s.perform su now act = some s') :
    s'.phase = s.phase ∧ s'.next = s.next ∧ s'.limiter = s.limiter := by
  cases act with
  | arrive req semanticHit fault => exact absurd rfl (silent req semanticHit fault)
  | adminAdd b url model =>
      cases taken
      unfold adminAdd
      split <;> exact ⟨rfl, rfl, rfl⟩
  | adminRemove b =>
      cases taken
      unfold adminRemove
      split <;> exact ⟨rfl, rfl, rfl⟩
  | adminDrain b draining =>
      cases taken
      exact ⟨rfl, rfl, rfl⟩
  | scrape b health =>
      cases taken
      unfold scrape
      cases health <;> exact ⟨rfl, rfl, rfl⟩
  | _ => cases other

end Server

/-! ### The ledger -/

/-- A server, and what each of its requests has paid so far. -/
structure Ledger where
  server : Server
  paid : Nat → ℚ

namespace Ledger

open Server

/-- A server that has been started, and no request has paid. -/
def init (server : Server) : Ledger := ⟨server, fun _ => 0⟩

/-- What is written down beside a span. -/
def entry (L : Ledger) (after : RateLimiter) : Act → (Nat → ℚ)
  | .arrive req _ _ =>
      Function.update L.paid L.server.next (drawn req.tenant L.server.limiter after)
  | act =>
      match act.request.bind fun i => (L.server.phase i).req?.map fun req => (i, req) with
      | some (i, req) =>
          Function.update L.paid i (L.paid i + drawn req.tenant L.server.limiter after)
      | none => L.paid

/-- One span. -/
def step (su : Setup) (L : Ledger) (span : Span) : Option Ledger :=
  (L.server.step su span).map fun s => ⟨s, L.entry s.limiter span.act⟩

/-- Every arriving request has input tokens to make up for a negative output. -/
def Solvent (span : Span) : Prop :=
  ∀ req semanticHit fault, span.act = .arrive req semanticHit fault →
    -(req.inputTokens : ℤ) ≤ req.reservedOutput

/-- No bucket is overfull, and every unfinished request has paid its estimated cost. -/
structure Sound (L : Ledger) : Prop where
  within : L.server.limiter.WithinCapacity
  idle : ∀ i, L.server.next ≤ i → L.server.phase i = .ended
  paid : ∀ i req, (L.server.phase i).req? = some req → L.paid i = req.estCost

variable {su : Setup} {L L' : Ledger} {span : Span}

theorem estCost_nonneg {req : Request} (solvent : -(req.inputTokens : ℤ) ≤ req.reservedOutput) :
    0 ≤ req.estCost := by
  have sum : (0 : ℤ) ≤ req.inputTokens + req.reservedOutput := by omega
  have cast : ((0 : ℤ) : ℚ) ≤ ((req.inputTokens + req.reservedOutput : ℤ) : ℚ) :=
    Int.cast_le.mpr sum
  simpa [Request.estCost] using cast

theorem step_eq_some (taken : L.step su span = some L') :
    L.server.step su span = some L'.server ∧ L'.paid = L.entry L'.server.limiter span.act := by
  simp only [step, Option.map_eq_some_iff] at taken
  obtain ⟨s, served, rfl⟩ := taken
  exact ⟨served, rfl⟩

theorem entry_request {i : Nat} {req : Request} (own : span.act.request = some i)
    (held : (L.server.phase i).req? = some req) (after : RateLimiter) :
    L.entry after span.act =
      Function.update L.paid i (L.paid i + drawn req.tenant L.server.limiter after) := by
  generalize span.act = act at own
  cases act <;> simp_all [entry, Act.request]

theorem entry_other (other : span.act.request = none)
    (silent : ∀ req semanticHit fault, span.act ≠ .arrive req semanticHit fault)
    (after : RateLimiter) : L.entry after span.act = L.paid := by
  generalize span.act = act at other silent
  cases act <;> simp_all [entry, Act.request]

theorem admission_on (on : su.cfg.rateLimitEnabled = true) (s : Server) (req : Request) (now : ℚ) :
    s.admission su req now = ((s.limiter.tryAdmit req.tenant req.estCost now).1,
      (s.limiter.tryAdmit req.tenant req.estCost now).2.allowed) := by
  rw [admission, if_pos on]
  rfl

theorem within_giveBack {l : RateLimiter} (within : l.WithinCapacity) (req : Request)
    (actual : Nat) : (su.giveBack req actual l).WithinCapacity := by
  unfold Setup.giveBack
  split
  · exact within.release _ _
  · exact within

/-- A request arrives. -/
theorem Sound.arrive (sound : L.Sound) (on : su.cfg.rateLimitEnabled = true) {req : Request}
    {s' : Server} {now : ℚ} (nonneg : 0 ≤ req.estCost)
    (charged : Charged su req (L.server.admission su req now) L.server s') :
    (⟨s', Function.update L.paid L.server.next
      (drawn req.tenant L.server.limiter s'.limiter)⟩ : Ledger).Sound := by
  rw [admission_on on] at charged
  have admitted : (L.server.limiter.tryAdmit req.tenant req.estCost now).1.WithinCapacity :=
    sound.within.tryAdmit nonneg
  constructor
  · rcases charged.limiter with same | same | ⟨-, actual, same⟩
    · exact same ▸ sound.within
    · exact same ▸ admitted
    · exact same ▸ within_giveBack admitted req actual
  · intro i later
    rcases charged.next with ⟨next, same⟩ | next
    · dsimp only at later ⊢
      rw [next] at later
      by_cases here : i = L.server.next
      · rw [here, same]
        exact sound.idle _ (le_refl _)
      · rw [charged.others i here]
        exact sound.idle i later
    · dsimp only at later ⊢
      rw [charged.others i (by omega)]
      exact sound.idle i (by omega)
  · intro i req' held
    by_cases here : i = L.server.next
    · subst here
      obtain ⟨rfl, allowed, same⟩ := charged.held req' held
      dsimp only
      rw [Function.update_self, same]
      exact RateLimiter.drawn_tryAdmit sound.within allowed
    · dsimp only at held ⊢
      rw [charged.others i here] at held
      rw [Function.update_of_ne here]
      exact sound.paid i req' held

/-- A request goes on, or ends. -/
theorem Sound.follow (sound : L.Sound) {i : Nat} {req : Request} {s' : Server}
    (held : (L.server.phase i).req? = some req) (follows : Follows su i req L.server s') :
    (⟨s', Function.update L.paid i
      (L.paid i + drawn req.tenant L.server.limiter s'.limiter)⟩ : Ledger).Sound := by
  constructor
  · rcases follows.limiter with ⟨same, -⟩ | ⟨actual, same, -⟩
    · exact same ▸ sound.within
    · exact same ▸ within_giveBack sound.within req actual
  · intro j later
    dsimp only at later ⊢
    rw [follows.next] at later
    have ended := sound.idle j later
    have ne : j ≠ i := by
      rintro rfl
      rw [ended] at held
      cases held
    rw [follows.others j ne]
    exact ended
  · intro j req' held'
    dsimp only at held' ⊢
    by_cases here : j = i
    · subst here
      rcases follows.limiter with ⟨same, only⟩ | ⟨actual, -, ended⟩
      · have unchanged : drawn req.tenant L.server.limiter L.server.limiter = 0 := by
          simp [drawn, TokenBucket.replenish]
        rw [Function.update_self, same, unchanged, add_zero, only req' held']
        exact sound.paid j req held
      · rw [ended] at held'
        cases held'
    · rw [follows.others j here] at held'
      rw [Function.update_of_ne here]
      exact sound.paid j req' held'

/-- A request arrives, and time has passed since the last span. -/
theorem charged_arrive (sound : L.Sound) {req : Request} (semanticHit : Bool) (now : ℚ)
    (fault : Option Stretch) :
    Charged su req (L.server.admission su req now) L.server
      ({ L.server with clock := now }.arrive su req semanticHit now fault) := by
  have charged : Charged su req (L.server.admission su req now) { L.server with clock := now }
      ({ L.server with clock := now }.arrive su req semanticHit now fault) :=
    arrive_charged (s := { L.server with clock := now }) (sound.idle _ (le_refl _)) semanticHit now
      fault
  exact ⟨charged.others, charged.next, charged.limiter, charged.held⟩

/-- One span. -/
theorem Sound.step (sound : L.Sound) (on : su.cfg.rateLimitEnabled = true) (solvent : Solvent span)
    (taken : L.step su span = some L') : L'.Sound := by
  obtain ⟨served, paid⟩ := step_eq_some taken
  obtain ⟨s', paid'⟩ := L'
  dsimp only at served paid
  subst paid
  unfold Server.step at served
  split at served
  · cases own : span.act.request with
    | some i =>
        obtain ⟨req, held, follows⟩ := perform_follows own served
        rw [entry_request own held]
        exact sound.follow held (follows.of_eq (fun _ _ => rfl) rfl rfl)
    | none =>
        by_cases arrives : ∃ req semanticHit fault, span.act = .arrive req semanticHit fault
        · obtain ⟨req, semanticHit, fault, act⟩ := arrives
          have nonneg := estCost_nonneg (solvent req semanticHit fault act)
          rw [act] at served ⊢
          cases served
          exact sound.arrive on nonneg (charged_arrive sound semanticHit span.now fault)
        · push Not at arrives
          obtain ⟨phase, next, limiter⟩ := perform_other own arrives served
          rw [entry_other own arrives]
          exact ⟨limiter ▸ sound.within, fun i later => phase ▸ sound.idle i (next ▸ later),
            fun i req held => sound.paid i req (phase ▸ held)⟩
  · cases served

/-- A body whose `max_tokens`, if it has one, does not convert to a negative number. -/
theorem solvent_readBody {F : Type} (py : Builtins F) {cfg : Config} {base req : Request}
    {items : List (String × Json F)} (read : base.readBody py cfg (.obj items) = some req)
    (default_nonneg : 0 ≤ cfg.defaultOutputTokens) (cap_nonneg : 0 ≤ cfg.maxOutputTokens)
    (asked : ∀ x n, Dict.lookup "max_tokens" items = some x → x.toInt py.toNumerals = some n → 0 ≤ n) :
    -(req.inputTokens : ℤ) ≤ req.reservedOutput := by
  simp only [Request.readBody, Option.bind_eq_bind, Option.bind_eq_some_iff] at read
  obtain ⟨prompt, -, reserved, counted, made⟩ := read
  cases made
  suffices nonneg : 0 ≤ reserved by
    dsimp only
    omega
  simp only [Config.reservedOutput, Option.map_eq_some_iff] at counted
  obtain ⟨n, counted, rfl⟩ := counted
  refine le_min ?_ cap_nonneg
  split at counted
  · rename_i x found
    split at counted
    · exact asked x n found counted
    · cases counted
      exact default_nonneg
  · cases counted
    exact default_nonneg

end Ledger

end Gateway
