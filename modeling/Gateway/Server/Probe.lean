import Mathlib.Tactic.Common
import Gateway.Server.Routing

/-!
What the admission probe does to the routing of later requests.

With admission control on, the chat handler asks the router for a route only to estimate
the prefill, and asks again to dispatch. The first call is meant to be free of side
effects, but `choose` advances the rotation that breaks ties. So the handler with
admission control runs ahead of the one without: `Server.ahead d` is a server whose
rotation is `d` steps further. When every decision is to admit, the two stay in that
relation as long as they choose alike, and a choice among `n` tied backends is the same
precisely for rotations that agree modulo `n`.

* `Server.probed`, `Server.probeTurns`: the decision of a span's probe, and how far the probe
  advances the rotation.
* `Server.rotation`: over how many backends the dispatch of a span rotates.
* `dispatches_in_phase`: in every run with admission control whose decisions are all to
  admit and whose dispatches rotate over a divisor of the probes' turns so far, the
  dispatches are those of the run without admission control.
* `dispatches_out_of_phase`: one request, two backends, round robin.
-/

namespace Gateway

namespace Router

/-- The router with its rotation `d` steps further. -/
def ahead (r : Router) (d : Nat) : Router := { r with rr := r.rr + d }

variable {cfg : Config} {r r' : Router} {tree : RadixTree Nat String} {load : LoadTracker String}
  {prompt : String} {cands : List String} {strategy : Option Strategy} {seed : Nat}
  {hashes : List Nat} {mode : Hashing.Mode}

/-- Over how many backends `choose` rotates once the prompt is hashed. -/
def rotationHashed (cfg : Config) (r : Router) (tree : RadixTree Nat String)
    (load : LoadTracker String) (hashes : List Nat) (cands : List String)
    (strategy : Option Strategy) : Nat :=
  match strategy.getD cfg.strategy with
  | .roundRobin => cands.length
  | .consistentHash => 1
  | _ =>
      match r.tied cfg load (hashes.length * cfg.blockTokens) (tree.matchPrefix hashes) cands with
      | none => 1
      | some tied => max 1 tied.length

/-- Over how many backends `choose` rotates. -/
def rotation (cfg : Config) (r : Router) (tree : RadixTree Nat String) (load : LoadTracker String)
    (prompt : String) (cands : List String) (strategy : Option Strategy) (seed : Nat) : Nat :=
  match cfg.hashes prompt seed with
  | none => 1
  | some hashed => r.rotationHashed cfg tree load hashed.1 cands strategy

theorem getElem?_add_mod {α : Type} {l : List α} {d : Nat} (n : Nat) (whole : l.length ∣ d) :
    l[(n + d) % l.length]? = l[n % l.length]? := by
  obtain ⟨k, rfl⟩ := whole
  rw [Nat.add_mul_mod_self_left]

theorem chooseHashed_ahead {d : Nat}
    (whole : r.rotationHashed cfg tree load hashes cands strategy ∣ d) :
    (r.ahead d).chooseHashed cfg tree load hashes mode cands strategy =
      (r.chooseHashed cfg tree load hashes mode cands strategy).map fun (route, r') =>
        (route, r'.ahead d) := by
  unfold rotationHashed at whole
  unfold chooseHashed
  dsimp only at whole ⊢
  split
  · rename_i rotates
    rw [rotates] at whole
    show (cands[(r.rr + d) % cands.length]?).map _ = _
    rw [getElem?_add_mod r.rr whole, Option.map_map]
    congr 1
    funext b
    simp [ahead, Nat.add_right_comm]
  · rw [Option.map_map]
    rfl
  · rename_i notRotation notHash
    have same : (r.ahead d).tied cfg load = r.tied cfg load := rfl
    rw [choosePrefixTree_eq, choosePrefixTree_eq, same]
    split at whole
    · exact absurd ‹_› notRotation
    · exact absurd ‹_› notHash
    · generalize r.tied cfg load _ _ cands = ties at whole ⊢
      cases ties with
      | none =>
          simp only [Option.map_map]
          rfl
      | some tied =>
          show ((tied[(r.rr + d) % tied.length]?).map _).map _ = _
          rcases Nat.eq_zero_or_pos tied.length with empty | pos
          · rw [List.length_eq_zero_iff.mp empty]
            rfl
          · have whole' : tied.length ∣ d := by
              simpa only [Nat.max_eq_right (Nat.succ_le_of_lt pos)] using whole
            simp only [getElem?_add_mod r.rr whole', Option.map_map]
            congr 1
            funext g
            simp [ahead, Nat.add_right_comm]

/-- **Whole turns do not change the choice.** -/
theorem choose_ahead {d : Nat}
    (whole : r.rotation cfg tree load prompt cands strategy seed ∣ d) :
    (r.ahead d).choose cfg tree load prompt cands strategy seed =
      (r.choose cfg tree load prompt cands strategy seed).map fun (route, r') =>
        (route, r'.ahead d) := by
  unfold rotation at whole
  unfold choose
  cases hashed : cfg.hashes prompt seed with
  | none => rfl
  | some hashed' =>
      rw [hashed] at whole
      exact chooseHashed_ahead whole

/-- `choose` changes nothing but the rotation, and that forwards. -/
theorem choose_turns {route : RouteResult}
    (chosen : r.choose cfg tree load prompt cands strategy seed = some (route, r')) :
    r' = r.ahead (r'.rr - r.rr) := by
  have turned : ∀ n, ({ r with rr := r.rr + n } : Router) = r.ahead (r.rr + n - r.rr) := by
    intro n
    rw [Nat.add_sub_cancel_left]
    rfl
  obtain ⟨hashes, mode, -, chosen⟩ := choose_eq_some chosen
  unfold chooseHashed at chosen
  dsimp only at chosen
  split at chosen
  · obtain ⟨b, _, same⟩ := Option.map_eq_some_iff.mp chosen
    cases same
    exact turned 1
  · obtain ⟨b, _, same⟩ := Option.map_eq_some_iff.mp chosen
    cases same
    exact turned 0
  · obtain ⟨⟨b, matchBlocks, advance⟩, _, same⟩ := Option.map_eq_some_iff.mp chosen
    cases same
    cases advance with
    | true => exact turned 1
    | false => exact turned 0

end Router

/-- The same gateway with admission control off. -/
def Setup.withoutAdmission (su : Setup) : Setup :=
  { su with admission := { su.admission with enabled := false } }

namespace Server

/-- The server with its rotation `d` steps further. -/
def ahead (s : Server) (d : Nat) : Server := { s with router := s.router.ahead d }

variable {su : Setup} {s s' : Server} {i d : Nat} {req : Request} {remaining : List String}
  {now : ℚ} {fault : Option Stretch} {allOpen : Bool}

theorem ahead_ite (s s' : Server) (d : Nat) (c : Prop) [Decidable c] :
    (if c then s else s').ahead d = if c then s.ahead d else s'.ahead d :=
  apply_ite (fun s : Server => s.ahead d) c s s'

/-! ### The probe -/

/-- An arriving request comes as far as the admission probe. -/
def reachesProbe (su : Setup) (s : Server) (req : Request) (semanticHit : Bool) (now : ℚ)
    (fault : Option Stretch) : Bool :=
  !(fault = some .parse) && req.authorized && !(fault = some .resolve) &&
    (s.admission su req now).2 && !(fault = some .select) &&
    !(su.idsFor s.registry req.model).isEmpty && !(su.cfg.semanticCacheEnabled && semanticHit) &&
    !(fault = some .pin)

/-- The outcome of the probe of a span, if it makes one: a decision, or `choose` raises. -/
def probed (su : Setup) (s : Server) (span : Span) : Option (Option (Router × AdmissionAction)) :=
  match span.act with
  | .arrive req semanticHit fault =>
      if s.reachesProbe su req semanticHit span.now fault then
        some (s.probe su req (s.narrowed su req span.now))
      else none
  | _ => none

/-- Every decision is to admit. -/
def Admits (su : Setup) (s : Server) (span : Span) : Prop :=
  ∀ outcome ∈ s.probed su span, outcome.map Prod.snd = some .admitted

/-- How far the probe of a span advances the rotation. -/
def probeTurns (su : Setup) (s : Server) (span : Span) : Nat :=
  match s.probed su span with
  | some (some (router, _)) => router.rr - s.router.rr
  | _ => 0

theorem probe_turns {router : Router} {action : AdmissionAction}
    (decided : s.probe su req remaining = some (router, action)) :
    router = s.router.ahead (router.rr - s.router.rr) := by
  unfold probe at decided
  split at decided
  · obtain ⟨⟨route, r'⟩, chosen, same⟩ := Option.map_eq_some_iff.mp decided
    cases same
    exact Router.choose_turns chosen
  · cases decided
    rw [Nat.sub_self]
    rfl

theorem place_ahead {t : Nat}
    (decided : (s.ahead d).probe su req remaining = some (s.router.ahead (d + t), .admitted)) :
    (s.ahead d).place su req remaining fault =
      ((s.place su.withoutAdmission req remaining fault).1.ahead (d + t),
        (s.place su.withoutAdmission req remaining fault).2) := by
  have off : s.probe su.withoutAdmission req remaining = some (s.router, .admitted) := rfl
  unfold place
  rw [decided, off]
  dsimp only
  split
  · rfl
  · split
    · rfl
    · by_cases narrow : fault = some .narrow ∨ su.splitRaises = true
      · rw [if_pos narrow,
          if_pos (show fault = some .narrow ∨ su.withoutAdmission.splitRaises = true from narrow)]
        rfl
      · rw [if_neg narrow,
          if_neg (show ¬ (fault = some .narrow ∨ su.withoutAdmission.splitRaises = true)
            from narrow)]
        have same : pinModal su { s.ahead d with router := s.router.ahead (d + t) } req
            (splitPhases su { s.ahead d with router := s.router.ahead (d + t) } req remaining) =
            s.pinModal su.withoutAdmission req (s.splitPhases su.withoutAdmission req remaining) :=
          rfl
        rw [same]
        cases s.pinModal su.withoutAdmission req
          (s.splitPhases su.withoutAdmission req remaining) <;> rfl

/-- The server at the probe. -/
def atProbe (su : Setup) (s : Server) (req : Request) (now : ℚ) : Server :=
  { s with
    limiter := (s.admission su req now).1
    sessions := (s.pinSession su req (s.selected su req now) now).1 }

theorem route_of_reachesProbe {semanticHit : Bool}
    (reaches : s.reachesProbe su req semanticHit now fault = true) :
    s.route su req semanticHit now fault =
      (s.atProbe su req now).place su req (s.narrowed su req now) fault := by
  simp only [reachesProbe, Bool.and_eq_true, Bool.not_eq_true', decide_eq_false_iff_not] at reaches
  obtain ⟨⟨⟨⟨⟨⟨⟨parse, authorized⟩, resolve⟩, allowed⟩, select⟩, some_left⟩, miss⟩, pin⟩ := reaches
  unfold route Server.select
  rw [if_neg parse, authorized, if_neg (by decide), if_neg resolve]
  dsimp only
  rw [if_pos allowed, if_neg select]
  have some_left' : ¬ (su.idsFor s.registry req.model).isEmpty = true := by simp [some_left]
  have miss' : ¬ (su.cfg.semanticCacheEnabled && semanticHit) = true := by simp [miss]
  rw [if_neg some_left', if_neg miss', if_neg pin]
  rfl

theorem route_of_not_reachesProbe {semanticHit : Bool}
    (stops : s.reachesProbe su req semanticHit now fault = false) :
    (s.ahead d).route su req semanticHit now fault =
      ((s.route su.withoutAdmission req semanticHit now fault).1.ahead d,
        (s.route su.withoutAdmission req semanticHit now fault).2) := by
  unfold route Server.select
  by_cases parse : fault = some .parse
  · rw [if_pos parse, if_pos parse]
  rw [if_neg parse, if_neg parse]
  by_cases denied : (!req.authorized) = true
  · rw [if_pos denied, if_pos denied]
  rw [if_neg denied, if_neg denied]
  by_cases resolve : fault = some .resolve
  · rw [if_pos resolve, if_pos resolve]
  rw [if_neg resolve, if_neg resolve]
  dsimp only
  by_cases allowed : (s.admission su req now).2 = true
  · rw [if_pos (show ((s.ahead d).admission su req now).2 = true from allowed),
      if_pos (show (s.admission su.withoutAdmission req now).2 = true from allowed)]
    by_cases select : fault = some .select
    · rw [if_pos select, if_pos select]
      rfl
    rw [if_neg select, if_neg select]
    by_cases nobody : (su.idsFor s.registry req.model).isEmpty = true
    · rw [if_pos (show (su.idsFor (s.ahead d).registry req.model).isEmpty = true from nobody),
        if_pos (show (su.withoutAdmission.idsFor s.registry req.model).isEmpty = true from nobody)]
      rfl
    rw [if_neg (show ¬ (su.idsFor (s.ahead d).registry req.model).isEmpty = true from nobody),
      if_neg (show ¬ (su.withoutAdmission.idsFor s.registry req.model).isEmpty = true from nobody)]
    by_cases hit : (su.cfg.semanticCacheEnabled && semanticHit) = true
    · rw [if_pos hit,
        if_pos (show (su.withoutAdmission.cfg.semanticCacheEnabled && semanticHit) = true from hit)]
      rfl
    rw [if_neg hit, if_neg
      (show ¬ (su.withoutAdmission.cfg.semanticCacheEnabled && semanticHit) = true from hit)]
    by_cases pin : fault = some .pin
    · rw [if_pos pin, if_pos pin]
      rfl
    exfalso
    simp only [Bool.not_eq_true, Bool.not_eq_false'] at denied nobody hit
    simp [reachesProbe, parse, denied, resolve, allowed, select, nobody, hit, pin] at stops
  · rw [if_neg (show ¬ ((s.ahead d).admission su req now).2 = true from allowed),
      if_neg (show ¬ (s.admission su.withoutAdmission req now).2 = true from allowed)]
    rfl

/-- Routing under admission control, when the decision is to admit. -/
theorem route_ahead {semanticHit : Bool}
    (admits : (s.ahead d).Admits su ⟨now, .arrive req semanticHit fault⟩) :
    (s.ahead d).route su req semanticHit now fault =
      ((s.route su.withoutAdmission req semanticHit now fault).1.ahead
          (d + (s.ahead d).probeTurns su ⟨now, .arrive req semanticHit fault⟩),
        (s.route su.withoutAdmission req semanticHit now fault).2) := by
  have same : (s.ahead d).reachesProbe su req semanticHit now fault =
      s.reachesProbe su req semanticHit now fault := rfl
  by_cases reaches : s.reachesProbe su req semanticHit now fault = true
  · have made : (s.ahead d).probed su ⟨now, .arrive req semanticHit fault⟩ =
        some ((s.ahead d).probe su req (s.narrowed su req now)) := by
      unfold probed
      dsimp only
      rw [if_pos (same.trans reaches)]
      rfl
    obtain ⟨⟨router, action⟩, decided, admitted⟩ := Option.map_eq_some_iff.mp (admits _ made)
    cases admitted
    have turned := probe_turns decided
    have turns : (s.ahead d).probeTurns su ⟨now, .arrive req semanticHit fault⟩ =
        router.rr - (s.ahead d).router.rr := by
      rw [probeTurns, made, decided]
    have off : s.reachesProbe su.withoutAdmission req semanticHit now fault = true := reaches
    rw [turns, route_of_reachesProbe (same.trans reaches), route_of_reachesProbe off]
    have ahead_of : router = s.router.ahead (d + (router.rr - (s.ahead d).router.rr)) :=
      turned.trans (by simp [Router.ahead, Server.ahead, Nat.add_assoc])
    refine place_ahead (s := s.atProbe su req now) ?_
    exact decided.trans (congrArg (fun r => some (r, AdmissionAction.admitted)) ahead_of)
  · have turns : (s.ahead d).probeTurns su ⟨now, .arrive req semanticHit fault⟩ = 0 := by
      unfold probeTurns probed
      dsimp only
      rw [if_neg (same ▸ reaches)]
    rw [turns]
    exact route_of_not_reachesProbe (Bool.not_eq_true _ ▸ reaches)

theorem router_place (s : Server) (remaining : List String) :
    (s.place su.withoutAdmission req remaining fault).1.router = s.router := by
  have off : s.probe su.withoutAdmission req remaining = some (s.router, .admitted) := rfl
  unfold place
  rw [off]
  dsimp only
  split
  · rfl
  split
  · rfl
  split
  · rfl
  split <;> rfl

/-- Without the probe, routing leaves the router alone. -/
theorem router_route {semanticHit : Bool} :
    (s.route su.withoutAdmission req semanticHit now fault).1.router = s.router := by
  unfold route
  split
  · rfl
  split
  · rfl
  split
  · rfl
  dsimp only
  split
  · unfold Server.select
    split
    · rfl
    split
    · rfl
    split
    · rfl
    dsimp only
    split
    · rfl
    · exact router_place _ _
  · rfl

/-! ### The dispatch -/

/-- Over how many backends the routing decision for a dispatch rotates. -/
def dispatchRotation (su : Setup) (s : Server) (req : Request) (remaining : List String) : Nat :=
  s.router.rotation su.cfg s.tree s.load req.prompt remaining req.strategy (su.seed req)

/-- The same for a request that gets its slot: `1` when it makes no such decision, or races
several backends. -/
def grantedRotation (su : Setup) (s : Server) (req : Request) (remaining : List String)
    (fault : Option Stretch) : Nat :=
  if fault = some .granted ∨ (su.speculative req && decide (1 < remaining.length)) ∨
      (su.cfg.maxRetries + 1).toNat = 0 ∨ remaining.isEmpty then 1
  else s.dispatchRotation su req remaining

/-- The same for a span. -/
def rotation (su : Setup) (s : Server) (span : Span) : Nat :=
  match span.act with
  | .arrive req semanticHit fault =>
      match (route su { s with clock := span.now } req semanticHit span.now fault).2 with
      | .ok remaining =>
          if (acquireOn s.scheduler s.fut s.next req.tenant.tier).2.2 then
            s.grantedRotation su req remaining fault
          else 1
      | .error _ => 1
  | .resume i fault =>
      match s.phase i, s.fut i with
      | .waiting req remaining _ false, .finished => s.grantedRotation su req remaining fault
      | _, _ => 1
  | .refused i fault =>
      match s.phase i with
      | .connecting req _ r remaining (_ + 1) =>
          if fault = some .failed ∨ (remaining.erase r.backendId).isEmpty then 1
          else
            (s.markFailed i req r span.now).dispatchRotation su req (remaining.erase r.backendId)
      | _ => 1
  | _ => 1

theorem attempt_ahead {left : Nat}
    (whole : left ≠ 0 → ¬ remaining.isEmpty → s.dispatchRotation su req remaining ∣ d) :
    (s.ahead d).attempt su i req allOpen remaining left now fault =
      (s.attempt su.withoutAdmission i req allOpen remaining left now fault).ahead d := by
  unfold attempt
  cases left with
  | zero => rfl
  | succ left =>
      dsimp only
      split
      · rfl
      · rename_i some_left
        have turns := Router.choose_ahead (whole (Nat.succ_ne_zero _) some_left)
        have on : (s.ahead d).router.choose su.cfg (s.ahead d).tree (s.ahead d).load req.prompt
            remaining req.strategy (su.seed req) = _ := turns
        have off : s.router.choose su.withoutAdmission.cfg s.tree s.load req.prompt remaining
            req.strategy (su.withoutAdmission.seed req) =
            s.router.choose su.cfg s.tree s.load req.prompt remaining req.strategy (su.seed req) :=
          rfl
        rw [on, off]
        cases s.router.choose su.cfg s.tree s.load req.prompt remaining req.strategy
            (su.seed req) with
        | none => rfl
        | some chosen =>
            obtain ⟨route, router⟩ := chosen
            dsimp only [Option.map_some]
            split
            · rfl
            · rw [ahead_ite]
              rfl

theorem dispatch_ahead (whole : s.grantedRotation su req remaining fault ∣ d) :
    (s.ahead d).dispatch su i req allOpen remaining now fault =
      (s.dispatch su.withoutAdmission i req allOpen remaining now fault).ahead d := by
  unfold dispatch
  split
  · rfl
  · rename_i quiet
    by_cases races : (su.speculative req && decide (1 < remaining.length)) = true
    · rw [if_pos races,
        if_pos (show (su.withoutAdmission.speculative req && decide (1 < remaining.length)) = true
          from races)]
      have ranked : (s.ahead d).router.topKBackends su.cfg (s.ahead d).tree (s.ahead d).load
          req.prompt remaining su.cfg.speculativeK (su.seed req) =
          s.router.topKBackends su.withoutAdmission.cfg s.tree s.load req.prompt remaining
            su.withoutAdmission.cfg.speculativeK (su.withoutAdmission.seed req) := rfl
      rw [ranked]
      cases s.router.topKBackends su.withoutAdmission.cfg s.tree s.load req.prompt remaining
          su.withoutAdmission.cfg.speculativeK (su.withoutAdmission.seed req) with
      | none => rfl
      | some topk =>
          dsimp only
          rw [ahead_ite]
          rfl
    · rw [if_neg races,
        if_neg (show ¬ (su.withoutAdmission.speculative req && decide (1 < remaining.length)) = true
          from races)]
      apply attempt_ahead
      intro some_tries some_left
      rw [grantedRotation, if_neg] at whole
      · exact whole
      · rintro (raised | races' | no_tries | nobody)
        · exact quiet raised
        · exact races races'
        · exact some_tries no_tries
        · exact some_left nobody

theorem arrive_ahead {semanticHit : Bool}
    (on_time : ({ s.ahead d with clock := now } : Server) = s.ahead d)
    (admits : (s.ahead d).Admits su ⟨now, .arrive req semanticHit fault⟩)
    (whole : (s.ahead d).rotation su ⟨now, .arrive req semanticHit fault⟩ ∣
      d + (s.ahead d).probeTurns su ⟨now, .arrive req semanticHit fault⟩) :
    (s.ahead d).arrive su req semanticHit now fault =
      (s.arrive su.withoutAdmission req semanticHit now fault).ahead
        (d + (s.ahead d).probeTurns su ⟨now, .arrive req semanticHit fault⟩) := by
  have routed := route_ahead admits
  have router_same :
      (s.route su.withoutAdmission req semanticHit now fault).1.router = s.router := router_route
  obtain ⟨limiter, sessions, router, frame⟩ :=
    route_frame su.withoutAdmission s req semanticHit now fault
  generalize (s.ahead d).probeTurns su ⟨now, .arrive req semanticHit fault⟩ = t at whole routed ⊢
  unfold rotation at whole
  dsimp only at whole
  rw [on_time, routed] at whole
  unfold arrive
  rw [routed]
  generalize s.route su.withoutAdmission req semanticHit now fault = outcome
    at frame router_same whole ⊢
  obtain ⟨s₁, outcome⟩ := outcome
  dsimp only at frame router_same whole ⊢
  subst frame
  cases router_same
  cases outcome with
  | error reply => rfl
  | ok remaining =>
      dsimp only at whole ⊢
      rw [ahead_ite]
      refine ite_congr rfl (fun free => ?_) (fun _ => rfl)
      refine dispatch_ahead (s := Prod.fst (acquireSlot
        { s with limiter := limiter, sessions := sessions } req (s.allOpen su req now) remaining)) ?_
      have granted : (acquireOn (s.ahead d).scheduler (s.ahead d).fut (s.ahead d).next
          req.tenant.tier).2.2 = true := free
      rw [if_pos granted] at whole
      exact whole

theorem resume_ahead (whole : (s.ahead d).rotation su ⟨now, .resume i fault⟩ ∣ d) :
    (s.ahead d).resume su i now fault =
      (s.resume su.withoutAdmission i now fault).map fun s' => s'.ahead d := by
  unfold rotation at whole
  unfold resume
  have phase_same : (s.ahead d).phase i = s.phase i := rfl
  have fut_same : (s.ahead d).fut i = s.fut i := rfl
  dsimp only at whole
  rw [phase_same, fut_same] at whole ⊢
  generalize s.phase i = p at whole ⊢
  generalize s.fut i = f at whole ⊢
  cases p with
  | waiting req remaining allOpen mustCancel =>
      cases f with
      | finished =>
          cases mustCancel with
          | true => rfl
          | false =>
              refine congrArg some ?_
              exact dispatch_ahead (s := s.setPhase i (.running req)) whole
      | pending => rfl
      | cancelled => rfl
  | _ => rfl

theorem refused_ahead (whole : (s.ahead d).rotation su ⟨now, .refused i fault⟩ ∣ d) :
    (s.ahead d).refused su i now fault =
      (s.refused su.withoutAdmission i now fault).map fun s' => s'.ahead d := by
  unfold rotation at whole
  unfold refused
  have phase_same : (s.ahead d).phase i = s.phase i := rfl
  dsimp only at whole
  rw [phase_same] at whole ⊢
  generalize s.phase i = p at whole ⊢
  cases p with
  | connecting req allOpen r remaining left =>
      refine congrArg some ?_
      dsimp only
      rw [ahead_ite]
      refine ite_congr rfl (fun _ => rfl) (fun kept => ?_)
      refine attempt_ahead (s := s.markFailed i req r now) fun some_tries some_left => ?_
      cases left with
      | zero => exact absurd rfl some_tries
      | succ left =>
          dsimp only at whole
          rw [if_neg (not_or.mpr ⟨kept, some_left⟩)] at whole
          exact whole
  | _ => rfl

/-! ### The other spans -/

theorem respond_ahead {r : RouteResult} {code : Nat} : (s.ahead d).respond i req r code fault =
    (s.respond i req r code fault).ahead d := by
  unfold respond
  dsimp only
  rw [ahead_ite]
  rfl

theorem connected_ahead {code : Nat} : (s.ahead d).connected i code fault =
    (s.connected i code fault).map fun s' => s'.ahead d := by
  have phase_same : (s.ahead d).phase i = s.phase i := rfl
  unfold connected
  rw [phase_same]
  cases s.phase i with
  | connecting req allOpen r remaining left =>
      exact congrArg some respond_ahead
  | _ => rfl

theorem opened_ahead {b : String} : (s.ahead d).opened i b now =
    (s.opened i b now).map fun s' => s'.ahead d := by
  have phase_same : (s.ahead d).phase i = s.phase i := rfl
  unfold opened
  rw [phase_same]
  cases s.phase i with
  | racing req allOpen topk unopened =>
      dsimp only
      split <;> rfl
  | _ => rfl

theorem won_ahead {b : String} {code : Nat} : (s.ahead d).won i b code now fault =
    (s.won i b code now fault).map fun s' => s'.ahead d := by
  have phase_same : (s.ahead d).phase i = s.phase i := rfl
  unfold won
  rw [phase_same]
  cases s.phase i with
  | racing req allOpen topk unopened =>
      dsimp only
      split
      · refine congrArg some ?_
        dsimp only
        rw [ahead_ite]
        exact ite_congr rfl (fun _ => rfl) (fun _ => respond_ahead (s := s.dispatchTo req _ now))
      · rfl
  | _ => rfl

theorem lost_ahead : (s.ahead d).lost su i fault =
    (s.lost su.withoutAdmission i fault).map fun s' => s'.ahead d := by
  have phase_same : (s.ahead d).phase i = s.phase i := rfl
  unfold lost
  rw [phase_same]
  cases s.phase i with
  | racing req allOpen topk unopened => cases unopened <;> rfl
  | _ => rfl

theorem start_ahead : (s.ahead d).start i = (s.start i).map fun s' => s'.ahead d := by
  have phase_same : (s.ahead d).phase i = s.phase i := rfl
  unfold start
  rw [phase_same]
  cases s.phase i <;> rfl

theorem chunk_ahead {events : Nat} :
    (s.ahead d).chunk i events = (s.chunk i events).map fun s' => s'.ahead d := by
  have phase_same : (s.ahead d).phase i = s.phase i := rfl
  unfold chunk
  rw [phase_same]
  cases s.phase i <;> rfl

theorem stop_ahead : (s.ahead d).stop i = (s.stop i).map fun s' => s'.ahead d := by
  have phase_same : (s.ahead d).phase i = s.phase i := rfl
  unfold stop
  rw [phase_same]
  cases s.phase i <;> rfl

theorem closed_ahead : (s.ahead d).closed su i now fault =
    (s.closed su.withoutAdmission i now fault).map fun s' => s'.ahead d := by
  have phase_same : (s.ahead d).phase i = s.phase i := rfl
  unfold closed
  rw [phase_same]
  cases s.phase i with
  | closing req r code outEvents =>
      refine congrArg some ?_
      dsimp only
      rw [ahead_ite]
      refine ite_congr rfl (fun _ => rfl) (fun _ => ?_)
      split <;> rfl
  | _ => rfl

theorem cancel_ahead : (s.ahead d).cancel i = (s.cancel i).map fun s' => s'.ahead d := by
  have phase_same : (s.ahead d).phase i = s.phase i := rfl
  unfold cancel
  rw [phase_same]
  cases s.phase i with
  | waiting req remaining allOpen mustCancel =>
      rw [apply_ite (Option.map fun s' : Server => s'.ahead d)]
      rfl
  | _ => rfl

theorem adminAdd_ahead {b url : String} {model : Option String} :
    (s.ahead d).adminAdd b url model = (s.adminAdd b url model).ahead d := by
  unfold adminAdd
  rw [ahead_ite]
  rfl

theorem adminRemove_ahead {b : String} :
    (s.ahead d).adminRemove b = (s.adminRemove b).ahead d := by
  unfold adminRemove
  rw [ahead_ite]
  rfl

theorem scrape_ahead {b : String} {health : Health} :
    (s.ahead d).scrape b health now = (s.scrape b health now).ahead d := by
  cases health <;> rfl

/-! ### Two runs -/

/-- **One span.** -/
theorem step_ahead {span : Span} (admits : (s.ahead d).Admits su span)
    (whole : (s.ahead d).rotation su span ∣ d + (s.ahead d).probeTurns su span) :
    (s.ahead d).step su span = (s.step su.withoutAdmission span).map fun s' =>
      s'.ahead (d + (s.ahead d).probeTurns su span) := by
  obtain ⟨now, act⟩ := span
  unfold step
  rw [apply_ite (Option.map fun s' : Server =>
    s'.ahead (d + (s.ahead d).probeTurns su ⟨now, act⟩))]
  refine ite_congr rfl (fun _ => ?_) (fun _ => rfl)
  have clocked : ({ s.ahead d with clock := now } : Server) = ahead { s with clock := now } d := rfl
  rw [clocked]
  cases act with
  | arrive req semanticHit fault =>
      exact congrArg some (arrive_ahead (s := { s with clock := now }) rfl admits whole)
  | resume i fault => exact resume_ahead (s := { s with clock := now }) whole
  | refused i fault => exact refused_ahead (s := { s with clock := now }) whole
  | connected i code fault => exact connected_ahead
  | opened i b => exact opened_ahead
  | won i b code fault => exact won_ahead
  | lost i fault => exact lost_ahead
  | start i => exact start_ahead
  | chunk i events => exact chunk_ahead
  | stop i => exact stop_ahead
  | closed i fault => exact closed_ahead
  | cancel i => exact cancel_ahead
  | adminAdd b url model => exact congrArg some adminAdd_ahead
  | adminRemove b => exact congrArg some adminRemove_ahead
  | adminDrain b draining => rfl
  | scrape b health => exact congrArg some scrape_ahead

/-- A span, together with the turns of all probes so far. -/
def probingStep (su : Setup) (state : Server × Nat) (span : Span) : Option (Server × Nat) :=
  (state.1.step su span).map fun s => (s, state.2 + state.1.probeTurns su span)

/-- **The condition on a span**: its probe decides to admit, and its dispatch rotates over a
divisor of the probes' turns. -/
def InPhase (su : Setup) (state : Server × Nat) (span : Span) : Prop :=
  state.1.Admits su span ∧ state.1.rotation su span ∣ state.2 + state.1.probeTurns su span

instance decidableAdmits (su : Setup) (s : Server) (span : Span) : Decidable (s.Admits su span) :=
  inferInstanceAs (Decidable (∀ outcome ∈ s.probed su span, _))

instance decidableInPhase (su : Setup) (state : Server × Nat) (span : Span) :
    Decidable (InPhase su state span) :=
  inferInstanceAs (Decidable (_ ∧ _))

theorem run_ahead {spans : List Span} {d : Nat}
    (phase : Machine.Along (probingStep su) (InPhase su) (s.ahead d, d) spans)
    (reach : Machine.run (step su) (s.ahead d) spans = some s') :
    ∃ off turns, Machine.run (step su.withoutAdmission) s spans = some off ∧
      s' = off.ahead turns := by
  induction spans generalizing s d with
  | nil =>
      cases reach
      exact ⟨s, d, rfl, rfl⟩
  | cons span spans ih =>
      obtain ⟨⟨admits, whole⟩, later⟩ := phase
      obtain ⟨mid, taken, rest⟩ := Machine.run_cons_eq_some.mp reach
      have both := step_ahead admits whole
      rw [taken] at both
      obtain ⟨off, first, rfl⟩ := Option.map_eq_some_iff.mp both.symm
      have next := later (off.ahead (d + (s.ahead d).probeTurns su span),
        d + (s.ahead d).probeTurns su span) (by rw [probingStep, taken]; rfl)
      obtain ⟨last, turns, reached, same⟩ := ih next rest
      exact ⟨last, turns, Machine.run_cons_eq_some.mpr ⟨off, first, reached⟩, same⟩

/-- **When the probe is invisible.** In every run with admission control whose decisions
are all to admit and whose dispatches rotate over a divisor of the probes' turns so far,
the run of the same spans without admission control makes the same dispatches and gives
the same answers. -/
theorem dispatches_in_phase {start : Server} {spans : List Span}
    (phase : Machine.Along (probingStep su) (InPhase su) (start, 0) spans)
    (reach : Machine.run (step su) start spans = some s) :
    ∃ off, Machine.run (step su.withoutAdmission) start spans = some off ∧
      off.dispatches = s.dispatches ∧ off.answers = s.answers := by
  obtain ⟨off, turns, reached, rfl⟩ := run_ahead (s := start) (d := 0) phase reach
  exact ⟨off, reached, rfl, rfl⟩

/-- Round robin with admission control. -/
def probing : Setup where
  cfg := { strategy := .roundRobin }
  admission := { enabled := true }

/-- A gateway with some backends. -/
def fresh (backends : List (String × String)) : Server :=
  init probing (.init "mock-model" backends) 2000 3 5 (.init 10000 1800) none none

/-- A second backend joins after the first request: by the second dispatch the probes have
turned twice. -/
theorem dispatches_in_phase_joined :
    let spans : List Span :=
      [⟨0, .arrive plainRequest false none⟩, ⟨1, .adminAdd "b1" "http://b1" none⟩,
        ⟨1, .scrape "b1" .ok⟩, ⟨2, .arrive plainRequest false none⟩]
    ∃ on off, Machine.run (step probing) (fresh [("b0", "http://b0")]) spans = some on ∧
      Machine.run (step probing.withoutAdmission) (fresh [("b0", "http://b0")]) spans = some off ∧
      on.dispatches.map Dispatch.backend = ["b0", "b1"] ∧ off.dispatches = on.dispatches := by
  intro spans
  obtain ⟨on, reach, backends⟩ : ∃ on,
      Machine.run (step probing) (fresh [("b0", "http://b0")]) spans = some on ∧
        on.dispatches.map Dispatch.backend = ["b0", "b1"] :=
    Machine.exists_run (by decide +kernel)
  have phase : Machine.Along (probingStep probing) (InPhase probing)
      (fresh [("b0", "http://b0")], 0) spans := by
    decide +kernel
  obtain ⟨off, reached, same, -⟩ := dispatches_in_phase phase reach
  exact ⟨on, off, reach, reached, backends, same⟩

/-- One request and two backends: the probe takes the first turn, the dispatch the second. -/
theorem dispatches_out_of_phase :
    ¬ ∀ (su : Setup) (start : Server) (spans : List Span) (on off : Server),
      su.admission.enabled = true → Machine.Along (step su) (Admits su) start spans →
      Machine.run (step su) start spans = some on →
      Machine.run (step su.withoutAdmission) start spans = some off →
      on.dispatches.map Dispatch.backend = off.dispatches.map Dispatch.backend := by
  intro same
  have admits : Machine.Along (step probing) (Admits probing)
      (fresh [("b0", "http://b0"), ("b1", "http://b1")])
      [⟨0, .arrive plainRequest false none⟩] := by
    decide +kernel
  obtain ⟨on, reach, to_b1⟩ : ∃ on,
      Machine.run (step probing) (fresh [("b0", "http://b0"), ("b1", "http://b1")])
        [⟨0, .arrive plainRequest false none⟩] = some on ∧
        on.dispatches.map Dispatch.backend = ["b1"] :=
    Machine.exists_run (by decide +kernel)
  obtain ⟨off, reached, to_b0⟩ : ∃ off,
      Machine.run (step probing.withoutAdmission)
        (fresh [("b0", "http://b0"), ("b1", "http://b1")])
        [⟨0, .arrive plainRequest false none⟩] = some off ∧
        off.dispatches.map Dispatch.backend = ["b0"] :=
    Machine.exists_run (by decide +kernel)
  have backends := same probing _ _ on off rfl admits reach reached
  rw [to_b1, to_b0] at backends
  exact absurd backends (by decide)

end Server

end Gateway
