import Gateway.Server.Chat

/-!
The failover loop of the chat handler, run to its end.

`Server.failover` drives the loop of one request while nothing else runs: a table of
outcomes says for every attempt whether the backend accepts the connection, and with which
status, or refuses it. Every refusal takes one candidate and one attempt away
(`failoverFrom_refused`), so the induction is on the attempts left.

* **`failover_ending`.** Where the router can choose, whatever the outcomes, the attempts go
  to distinct candidates, no more than the retries and the candidates allow, and end with the
  first accepted one or with one of the two used up. The load has gained the one accepted
  dispatch and nothing else, and every refusing backend one circuit failure and the mark of
  being unhealthy.
* `failover_raises`: where it cannot, the loop ends with neither used up.
-/

namespace Gateway

namespace LoadTracker

variable {B : Type} [DecidableEq B]

/-- Two trackers that count the same requests and tokens. -/
def Counts (l l' : LoadTracker B) : Prop :=
  ∀ b, l'.inflightOf b = l.inflightOf b ∧ l'.inflightTokens.getD b 0 = l.inflightTokens.getD b 0

/-- Taking a dispatch back undoes it. -/
theorem counts_onComplete_onDispatch (l : LoadTracker B) (b : B) (tokens : Nat) :
    l.Counts ((l.onDispatch b tokens).onComplete b tokens) := by
  intro b'
  by_cases same : b' = b
  · subst same
    simp [onDispatch, onComplete, inflightOf, Dict.getD_set]
  · simp [onDispatch, onComplete, inflightOf, Dict.getD_set, same]

end LoadTracker

namespace Server

variable (su : Setup) (outcome : Nat → String → Option Nat) (now : Nat → ℚ) (i : Nat)

/-- The rest of the loop from attempt `k` on: the backend accepts, or the next attempt is
made. -/
def drive : Nat → Nat → Server → Server
  | 0, _, s => s
  | left + 1, k, s =>
      match s.phase i with
      | .connecting _ _ r _ _ =>
          match outcome k r.backendId with
          | some code => (s.connected i code none).getD s
          | none => drive left (k + 1) ((s.refused su i (now (k + 1)) none).getD s)
      | _ => s

/-- The loop from attempt `k` on, with `left` attempts left. -/
def failoverFrom (req : Request) (allOpen : Bool) (left k : Nat) (remaining : List String)
    (s : Server) : Server :=
  drive su outcome now i left k (s.attempt su i req allOpen remaining left (now k) none)

/-- The failover loop. -/
def failover (s : Server) (req : Request) (allOpen : Bool) (cands : List String) : Server :=
  s.failoverFrom su outcome now i req allOpen (su.cfg.maxRetries + 1).toNat 0 cands

variable {su outcome now i} {req : Request} {allOpen : Bool} {left k : Nat} {remaining : List String}
  {s : Server}

/-! ### One attempt -/

/-- The state in which attempt `k` to the backend of `r` is awaited. -/
def awaiting (s : Server) (i : Nat) (req : Request) (allOpen : Bool) (r : RouteResult)
    (router : Router) (remaining : List String) (left : Nat) (now : ℚ) : Server :=
  ({ s with router := router }.dispatchTo req r now).setPhase i
    (.connecting req allOpen r remaining left)

/-- No attempt or no candidate is left. -/
theorem failoverFrom_exhausted (used : left = 0 ∨ remaining = []) :
    s.failoverFrom su outcome now i req allOpen left k remaining = s.unreachable su i req none := by
  cases left with
  | zero => rfl
  | succ left =>
      obtain rfl : remaining = [] := by simpa using used
      simp [failoverFrom, attempt, drive, unreachable, finish]

section Chosen

variable {r : RouteResult} {router : Router}

theorem attempt_of_choose (some_left : remaining ≠ [])
    (chosen : s.router.choose su.cfg s.tree s.load req.prompt remaining req.strategy
      (su.seed req) = some (r, router))
    (known : (s.registry.url r.backendId).isSome = true) (now : ℚ) :
    s.attempt su i req allOpen remaining (left + 1) now none =
      s.awaiting i req allOpen r router remaining left now := by
  have url : (s.registry.url r.backendId).isNone = false := by
    rw [← Option.not_isSome, known, Bool.not_true]
  simp [attempt, awaiting, some_left, chosen, dispatchTo, record, url]

/-- The backend accepts. -/
theorem failoverFrom_accepted (some_left : remaining ≠ [])
    (chosen : s.router.choose su.cfg s.tree s.load req.prompt remaining req.strategy
      (su.seed req) = some (r, router))
    (known : (s.registry.url r.backendId).isSome = true) {code : Nat}
    (accepted : outcome k r.backendId = some code) :
    s.failoverFrom su outcome now i req allOpen (left + 1) k remaining =
      (s.awaiting i req allOpen r router remaining left (now k)).respond i req r code none := by
  rw [failoverFrom, attempt_of_choose some_left chosen known]
  simp [drive, awaiting, setPhase, accepted, connected]

/-- The backend refuses: the rest of the loop goes on without it. -/
theorem failoverFrom_refused (some_left : remaining ≠ [])
    (chosen : s.router.choose su.cfg s.tree s.load req.prompt remaining req.strategy
      (su.seed req) = some (r, router))
    (known : (s.registry.url r.backendId).isSome = true)
    (refusal : outcome k r.backendId = none) :
    s.failoverFrom su outcome now i req allOpen (left + 1) k remaining =
      ((s.awaiting i req allOpen r router remaining left (now k)).markFailed i req r
        (now (k + 1))).failoverFrom su outcome now i req allOpen left (k + 1)
          (remaining.erase r.backendId) := by
  rw [failoverFrom, attempt_of_choose some_left chosen known]
  simp [drive, awaiting, setPhase, refusal, refused, failoverFrom]

end Chosen

/-! ### The whole loop -/

/-- What the refused attempts `failed`, each with the time of its refusal, have in common
and leave behind. -/
structure Refusals (outcome : Nat → String → Option Nat) (k left : Nat) (cands : List String)
    (failed : List (String × ℚ)) (s s' : Server) : Prop where
  distinct : (failed.map Prod.fst).Nodup
  candidates : ∀ b ∈ failed.map Prod.fst, b ∈ cands
  bound : failed.length ≤ min left cands.length
  refused : ∀ j f, failed[j]? = some f → outcome (k + j) f.1 = none
  registry : ∀ b, s'.registry.get b =
    if b ∈ failed.map Prod.fst then (s.registry.get b).map fun be => { be with healthy := false }
    else s.registry.get b

/-- The breaker after some refusals. -/
def struck (breaker : CircuitBreaker String) (failed : List (String × ℚ)) : CircuitBreaker String :=
  failed.foldl (fun c f => c.recordFailure f.1 f.2) breaker

/-- How the loop ends after the refused attempts `failed`. -/
inductive Ending (su : Setup) (outcome : Nat → String → Option Nat) (i : Nat) (req : Request)
    (k left : Nat) (cands : List String) (failed : List (String × ℚ)) (s s' : Server) : Prop where
  /-- A backend accepts the next attempt. -/
  | accepted (r : RouteResult) (code : Nat)
      (candidate : r.backendId ∈ cands) (fresh : r.backendId ∉ failed.map Prod.fst)
      (room : failed.length < min left cands.length)
      (accepts : outcome (k + failed.length) r.backendId = some code)
      (tokens : (su.cfg.hashes req.prompt (su.seed req)).map
        (fun hashed => hashed.1.length * su.cfg.blockTokens) = some r.tokens)
      (attempts : s'.dispatches.map Dispatch.backend =
        s.dispatches.map Dispatch.backend ++ failed.map Prod.fst ++ [r.backendId])
      (load : (s.load.onDispatch r.backendId r.tokens).Counts s'.load)
      (breaker : s'.breaker = (struck s.breaker failed).recordSuccess r.backendId)
      (phase : s'.phase i = .returned req r code)
  /-- The attempts or the candidates are used up. -/
  | exhausted (used : failed.length = min left cands.length)
      (attempts : s'.dispatches.map Dispatch.backend =
        s.dispatches.map Dispatch.backend ++ failed.map Prod.fst)
      (load : s.load.Counts s'.load) (breaker : s'.breaker = struck s.breaker failed)
      (answer : s'.answers = s.answers ++ [(req, .status 502)])

theorem Refusals.nil {s s' : Server} (same : s'.registry = s.registry) :
    Refusals outcome k left remaining [] s s' where
  distinct := List.nodup_nil
  candidates := by simp
  bound := Nat.zero_le _
  refused := by simp
  registry := by simp [same]

section Cons

variable {b : String} {time : ℚ} {failed : List (String × ℚ)} {mid s' : Server}

/-- A refusal takes one attempt and one candidate. -/
theorem min_erase (member : b ∈ remaining) :
    min (left + 1) remaining.length = min left (remaining.erase b).length + 1 := by
  have := List.length_pos_of_mem member
  rw [List.length_erase_of_mem member]
  omega

theorem Refusals.cons (distinct : remaining.Nodup) (member : b ∈ remaining)
    (refusal : outcome k b = none) (marked : mid.registry = s.registry.setHealth b false)
    (rest : Refusals outcome (k + 1) left (remaining.erase b) failed mid s') :
    Refusals outcome k (left + 1) remaining ((b, time) :: failed) s s' where
  distinct := by
    rw [List.map_cons, List.nodup_cons]
    exact ⟨fun again => (distinct.mem_erase_iff.mp (rest.candidates b again)).1 rfl, rest.distinct⟩
  candidates := by
    intro b' tried
    rw [List.map_cons, List.mem_cons] at tried
    rcases tried with rfl | tried
    · exact member
    · exact List.mem_of_mem_erase (rest.candidates b' tried)
  bound := by
    have := rest.bound
    rw [min_erase member, List.length_cons]
    omega
  refused := by
    intro j f found
    cases j with
    | zero =>
        cases found
        exact refusal
    | succ j =>
        have later := rest.refused j f found
        rwa [Nat.add_right_comm] at later
  registry := by
    intro b'
    rw [rest.registry, marked, BackendRegistry.get_setHealth]
    by_cases same : b' = b
    · subst same
      have once : b' ∉ failed.map Prod.fst := fun again =>
        (distinct.mem_erase_iff.mp (rest.candidates b' again)).1 rfl
      simp [once]
    · have tried : b' ∈ ((b, time) :: failed).map Prod.fst ↔ b' ∈ failed.map Prod.fst := by
        rw [List.map_cons, List.mem_cons]
        exact or_iff_right same
      simp only [same, if_false, tried]

/-- The trackers still count alike after one more dispatch. -/
theorem counts_onDispatch {l l' : LoadTracker String} (same : l.Counts l') (b : String)
    (tokens : Nat) : (l.onDispatch b tokens).Counts (l'.onDispatch b tokens) := by
  intro b'
  obtain ⟨requests, held⟩ := same b'
  by_cases here : b' = b
  · subst here
    simp only [LoadTracker.inflightOf] at requests
    simp [LoadTracker.onDispatch, LoadTracker.inflightOf, Dict.getD_set, requests, held]
  · simp only [LoadTracker.inflightOf] at requests
    simp [LoadTracker.onDispatch, LoadTracker.inflightOf, Dict.getD_set, here, requests, held]

theorem counts_trans {l l' l'' : LoadTracker String} (first : l.Counts l') (second : l'.Counts l'') :
    l.Counts l'' :=
  fun b => ⟨(second b).1.trans (first b).1, (second b).2.trans (first b).2⟩

theorem Ending.cons (distinct : remaining.Nodup) (member : b ∈ remaining)
    (recorded : mid.dispatches.map Dispatch.backend = s.dispatches.map Dispatch.backend ++ [b])
    (load : s.load.Counts mid.load) (breaker : mid.breaker = s.breaker.recordFailure b time)
    (answers : mid.answers = s.answers)
    (rest : Ending su outcome i req (k + 1) left (remaining.erase b) failed mid s') :
    Ending su outcome i req k (left + 1) remaining ((b, time) :: failed) s s' := by
  have bound : min (left + 1) remaining.length = min left (remaining.erase b).length + 1 :=
    min_erase member
  have attempts : ∀ tail : List String,
      mid.dispatches.map Dispatch.backend ++ failed.map Prod.fst ++ tail =
        s.dispatches.map Dispatch.backend ++ ((b, time) :: failed).map Prod.fst ++ tail := by
    intro tail
    rw [recorded]
    simp
  have strikes : struck mid.breaker failed = struck s.breaker ((b, time) :: failed) := by
    rw [breaker]
    rfl
  cases rest with
  | accepted r code candidate fresh room accepts tokens attempts' load' breaker' phase =>
      apply Ending.accepted r code
      · exact List.mem_of_mem_erase candidate
      · rw [List.map_cons, List.mem_cons, not_or]
        exact ⟨(distinct.mem_erase_iff.mp candidate).1, fresh⟩
      · rw [bound, List.length_cons]
        omega
      · rw [List.length_cons, ← accepts]
        congr 1
        omega
      · exact tokens
      · rw [attempts', attempts]
      · exact counts_trans (counts_onDispatch load r.backendId r.tokens) load'
      · rw [breaker', strikes]
      · exact phase
  | exhausted used attempts' load' breaker' answer =>
      apply Ending.exhausted
      · rw [bound, List.length_cons, used]
      · simpa using attempts'.trans (by simpa using attempts [])
      · exact counts_trans load load'
      · rw [breaker', strikes]
      · rw [answer, answers]

end Cons

/-- A route counts the tokens of the hashed prompt. -/
theorem tokens_choose {router router' : Router} {tree : RadixTree Nat String}
    {load : LoadTracker String} {r : RouteResult} {cfg : Config} {prompt : String}
    {strategy : Option Strategy} {seed : Nat}
    (chosen : router.choose cfg tree load prompt remaining strategy seed = some (r, router')) :
    (cfg.hashes prompt seed).map (fun hashed => hashed.1.length * cfg.blockTokens) =
      some r.tokens := by
  obtain ⟨hashes, mode, hashed, chosen⟩ := Router.choose_eq_some chosen
  rw [hashed, Option.map_some]
  unfold Router.chooseHashed at chosen
  dsimp only at chosen
  split at chosen
  all_goals
    obtain ⟨found, _, same⟩ := Option.map_eq_some_iff.mp chosen
    cases same
    rfl

/-- The registry keeps its urls when a backend is marked. -/
theorem url_setHealth (registry : BackendRegistry String) (b b' : String) (healthy : Bool) :
    (registry.setHealth b healthy).url b' = registry.url b' := by
  have found := registry.get_setHealth b b' healthy
  simp only [BackendRegistry.get] at found
  rw [BackendRegistry.url, BackendRegistry.url, found]
  split
  · rename_i same
    subst same
    cases registry.byId.get? b' <;> rfl
  · rfl

/-- No attempt is left, or no candidate. -/
theorem failoverFrom_exhausted_ending (done : left = 0 ∨ remaining = []) :
    Refusals outcome k left remaining [] s
        (s.failoverFrom su outcome now i req allOpen left k remaining) ∧
      Ending su outcome i req k left remaining [] s
        (s.failoverFrom su outcome now i req allOpen left k remaining) := by
  rw [failoverFrom_exhausted done]
  refine ⟨.nil rfl, .exhausted ?_ ?_ ?_ rfl rfl⟩
  · rcases done with rfl | rfl <;> simp
  · simp [unreachable, release, releaseSlot, finish]
  · exact fun _ => ⟨rfl, rfl⟩

/-- The backend chosen accepts. -/
theorem failoverFrom_accepted_ending {r : RouteResult} {router : Router} {code : Nat}
    (some_left : remaining ≠ [])
    (chosen : s.router.choose su.cfg s.tree s.load req.prompt remaining req.strategy
      (su.seed req) = some (r, router))
    (known : (s.registry.url r.backendId).isSome = true)
    (accepts : outcome k r.backendId = some code) :
    Refusals outcome k (left + 1) remaining [] s
        (s.failoverFrom su outcome now i req allOpen (left + 1) k remaining) ∧
      Ending su outcome i req k (left + 1) remaining [] s
        (s.failoverFrom su outcome now i req allOpen (left + 1) k remaining) := by
  have cands := List.length_pos_iff.mpr some_left
  rw [failoverFrom_accepted some_left chosen known accepts]
  refine ⟨.nil rfl, .accepted r code (Router.choose_mem chosen) (by simp) ?_ accepts
    (tokens_choose chosen) ?_ ?_ rfl ?_⟩
  · rw [List.length_nil]
    omega
  · simp [respond, awaiting, setPhase, dispatchTo, record]
  · exact fun _ => ⟨rfl, rfl⟩
  · simp [respond, setPhase]

/-- The loop from any attempt on. -/
theorem failoverFrom_ending (routes : Router.Routes su.cfg req.prompt req.strategy)
    (distinct : remaining.Nodup)
    (registered : ∀ b ∈ remaining, (s.registry.url b).isSome = true) :
    ∃ failed, Refusals outcome k left remaining failed s
        (s.failoverFrom su outcome now i req allOpen left k remaining) ∧
      Ending su outcome i req k left remaining failed s
        (s.failoverFrom su outcome now i req allOpen left k remaining) := by
  induction left generalizing k remaining s with
  | zero => exact ⟨[], failoverFrom_exhausted_ending (.inl rfl)⟩
  | succ left ih =>
      by_cases none_left : remaining = []
      · exact ⟨[], failoverFrom_exhausted_ending (.inr none_left)⟩
      cases chosen : s.router.choose su.cfg s.tree s.load req.prompt remaining req.strategy
          (su.seed req) with
      | none =>
          have found : (s.router.choose su.cfg s.tree s.load req.prompt remaining req.strategy
              (su.seed req)).isSome = true := Router.choose_isSome routes none_left
          rw [chosen] at found
          cases found
      | some picked =>
          obtain ⟨r, router⟩ := picked
          have member := Router.choose_mem chosen
          have known := registered r.backendId member
          cases decided : outcome k r.backendId with
          | some code => exact ⟨[], failoverFrom_accepted_ending none_left chosen known decided⟩
          | none =>
              rw [failoverFrom_refused none_left chosen known decided]
              obtain ⟨failed, refusals, ending⟩ := ih (k := k + 1)
                (s := (s.awaiting i req allOpen r router remaining left (now k)).markFailed i req r
                  (now (k + 1))) (distinct.erase r.backendId) (by
                    intro b still
                    have before := registered b (List.mem_of_mem_erase still)
                    rwa [← url_setHealth s.registry r.backendId b false] at before)
              refine ⟨(r.backendId, now (k + 1)) :: failed, ?_, ?_⟩
              · exact refusals.cons distinct member decided rfl
              · refine ending.cons distinct member ?_ ?_ ?_ ?_
                · simp [markFailed, awaiting, setPhase, dispatchTo, record]
                · exact s.load.counts_onComplete_onDispatch r.backendId r.tokens
                · rfl
                · rfl

/-- **The failover loop.** Start it with any distinct registered candidates, for a request that
the router can choose for, and let the attempts be accepted and refused in any way, while nothing
else runs. The refused attempts are made to distinct candidates, at most as many as there are
attempts and candidates; each of the backends has got one circuit failure, at the time of its
refusal, and is marked unhealthy, and no other record has changed. The loop ends with the first
accepted attempt, to a candidate not tried before, and then the load counts just that dispatch
more; or it ends with all attempts or all candidates used up, and then the load counts what it
did. -/
theorem failover_ending (su : Setup) (outcome : Nat → String → Option Nat) (now : Nat → ℚ) (i : Nat)
    (s : Server) (req : Request) (allOpen : Bool) (cands : List String)
    (routes : Router.Routes su.cfg req.prompt req.strategy) (distinct : cands.Nodup)
    (registered : ∀ b ∈ cands, (s.registry.url b).isSome = true) :
    ∃ failed,
      Refusals outcome 0 (su.cfg.maxRetries + 1).toNat cands failed s
        (s.failover su outcome now i req allOpen cands) ∧
      Ending su outcome i req 0 (su.cfg.maxRetries + 1).toNat cands failed s
        (s.failover su outcome now i req allOpen cands) :=
  failoverFrom_ending routes distinct registered

/-- A block size of 0: the first choice raises, so the loop fails with no attempt made, although
three are allowed and there is a candidate that would accept. -/
theorem failover_raises :
    let su : Setup := { cfg := { blockChars := 0 } }
    let s := Server.init su (.init "m" [("b0", "u0")]) 8 3 5 (.init 60 10) none none
    let req : Request := ⟨true, ⟨"t", 1, 1, 1, "gold"⟩, none, "hi", none, none, none, none, 1, 1⟩
    let outcome : Nat → String → Option Nat := fun _ _ => some 200
    let s' := s.failover su outcome (fun k => k) 0 req false ["b0"]
    s'.dispatches.length = 0 ∧ s'.answers = [(req, .raised)] ∧
      ¬ ∃ failed, Ending su outcome 0 req 0 3 ["b0"] failed s s' := by
  intro su s req outcome s'
  have answers : s'.answers = [(req, .raised)] := by decide +kernel
  have attempts : s'.dispatches.length = 0 := by decide +kernel
  refine ⟨attempts, answers, ?_⟩
  rintro ⟨failed, ending⟩
  cases ending with
  | accepted r code candidate fresh room accepts tokens made =>
      have one := congrArg List.length made
      simp [attempts] at one
  | exhausted used made load breaker answer =>
      rw [answers] at answer
      cases answer

/-- Three backends and one retry: the first attempt is refused, the second accepted. -/
theorem failover_ending_second :
    let su : Setup := { cfg := { maxRetries := 1 } }
    let s := Server.init su (.init "m" [("b0", "u0"), ("b1", "u1"), ("b2", "u2")]) 8 3 5
      (.init 60 10) none none
    let req : Request := ⟨true, ⟨"t", 1, 1, 1, "gold"⟩, none, "hi", none, none, none, none, 1, 1⟩
    let outcome : Nat → String → Option Nat := fun k _ => if k = 0 then none else some 200
    let s' := s.failover su outcome (fun k => k) 0 req false ["b0", "b1", "b2"]
    s'.dispatches.map Dispatch.backend = ["b0", "b2"] ∧
      ∃ failed, Refusals outcome 0 2 ["b0", "b1", "b2"] failed s s' ∧
        Ending su outcome 0 req 0 2 ["b0", "b1", "b2"] failed s s' := by
  intro su s req outcome s'
  exact ⟨by decide +kernel, failover_ending su outcome (fun k => k) 0 s req false ["b0", "b1", "b2"]
    (by decide +kernel) (by decide) (by decide +kernel)⟩

end Server

end Gateway
