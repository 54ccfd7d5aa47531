import Mathlib.Data.List.Nodup
import Mathlib.Tactic.Common
import Gateway.Server.Routing

/-!
How many backends refuse a request before the gateway answers 502.

The failover loop tries `max_retries + 1` candidates, one after the other. But its
candidates are what the modes before it left: a session, RAG, disaggregation or multi-modal
choice leaves a single one, and a speculative race replaces the loop altogether and is not
repeated.

* `Watched`: the server with bookkeeping. For every request, how many backends were eligible
  when it was routed and which of them refused it since; and the same for every request
  that the gateway answered with a 502 of its own, not one passed on from a backend.
* `Server.pinned`, `Server.raceWidth`: the modes that leave one candidate, and how many
  candidates are raced.
* `refusals_before_502`: in every run in which no pin and no race leaves fewer tries than
  are owed, a 502 is given only after `min(max_retries + 1, n)` distinct backends refused.
* `pinned_session_502`: a session whose backend is down, beside one that is up.
-/

namespace Gateway

/-- What is owed to a request, and what happened to it. -/
structure Trail where
  eligible : Nat
  refused : List String
  deriving DecidableEq, Repr

/-- The server, the trails of its requests, and those it gave up on. -/
structure Watched where
  server : Server
  trail : Nat → Trail
  gaveUp : List Trail

namespace Server

/-- The eligible backends of a request: healthy, not draining, serving its model, circuit not
open. -/
def eligible (su : Setup) (s : Server) (req : Request) (now : ℚ) : List String :=
  (su.idsFor s.registry req.model).filter fun b => s.breaker.allow b now

/-- The backends that refuse a connection in a span. -/
def refusals (s : Server) : Act → List String
  | .refused i _ =>
      match s.phase i with
      | .connecting _ _ r _ _ => [r.backendId]
      | _ => []
  | .lost i _ =>
      match s.phase i with
      | .racing _ _ topk _ => topk.backendIds
      | _ => []
  | _ => []

/-- The request that a span may give up on. -/
def subject (s : Server) : Act → Option Nat
  | .arrive _ _ _ => some s.next
  | .resume i _ | .refused i _ | .lost i _ => some i
  | _ => none

/-- The last span gave one answer, a 502. -/
def GaveUp (before after : Server) : Prop :=
  after.answers.length = before.answers.length + 1 ∧
    after.answers.getLast?.map Prod.snd = some (.status 502)

instance decidableGaveUp (before after : Server) : Decidable (GaveUp before after) :=
  inferInstanceAs (Decidable (_ ∧ _))

end Server

namespace Watched

/-- The trails after a span. -/
def trailAfter (su : Setup) (w : Watched) (after : Server) (span : Server.Span) : Nat → Trail :=
  match span.act with
  | .arrive req _ _ =>
      if after.next = w.server.next then w.trail
      else
        Function.update w.trail w.server.next ⟨(w.server.eligible su req span.now).length, []⟩
  | act =>
      match w.server.subject act with
      | none => w.trail
      | some i =>
          Function.update w.trail i
            { w.trail i with refused := (w.trail i).refused ++ w.server.refusals act }

/-- One span, watched. -/
def step (su : Setup) (w : Watched) (span : Server.Span) : Option Watched :=
  (w.server.step su span).map fun after =>
    let trail := w.trailAfter su after span
    ⟨after, trail,
      match w.server.subject span.act with
      | some i => if w.server.GaveUp after then w.gaveUp ++ [trail i] else w.gaveUp
      | none => w.gaveUp⟩

/-- The start of a run. -/
def init (s : Server) : Watched := ⟨s, fun _ => ⟨0, []⟩, []⟩

/-- Watching changes no run. -/
theorem run_server (su : Setup) (w : Watched) (spans : List Server.Span) :
    (Machine.run (step su) w spans).map server = Machine.run (Server.step su) w.server spans := by
  induction spans generalizing w with
  | nil => rfl
  | cons span spans ih =>
      simp only [Machine.run, step]
      cases w.server.step su span with
      | none => rfl
      | some after => exact ih _

end Watched

/-- Enough distinct backends have refused. -/
def Trail.Exhausted (su : Setup) (t : Trail) : Prop :=
  t.refused.Nodup ∧ min (su.cfg.maxRetries + 1) (t.eligible : Int) ≤ t.refused.length

/-! ### Pins and races -/

namespace Server

variable {su : Setup} {s s' : Server} {i : Nat} {req : Request} {remaining : List String} {now : ℚ}
  {fault : Option Stretch} {allOpen : Bool} {t : Trail}

/-- A session, RAG, disaggregation or multi-modal choice leaves one candidate. -/
def pinned (su : Setup) (s : Server) (req : Request) (now : ℚ) : Bool :=
  (s.sessions.pick (if su.cfg.sessionAffinityEnabled then req.sessionId else none)
      (s.selected su req now) now).2.isSome ||
    ((if su.rag.enabled then req.ragChunks else none).any fun chunks =>
      (chooseRagBackend chunks (s.pinSession su req (s.selected su req now) now).2 s.ragIndex s.load
        su.rag).isSome) ||
    (s.disaggDecision su req (s.narrowed su req now)).isSome ||
    (if su.multimodal.enabled then req.modal else none).isSome

theorem route_unpinned {semanticHit : Bool} (free : s.pinned su req now = false)
    (routed : (s.route su req semanticHit now fault).2 = .ok remaining) :
    remaining = s.selected su req now := by
  simp only [pinned, Bool.or_eq_false_iff, Option.isSome_eq_false_iff, Option.isNone_iff_eq_none]
    at free
  obtain ⟨⟨⟨session, rag⟩, disagg⟩, modal⟩ := free
  have left := route_ok routed
  have unsplit : s.splitPhases su req (s.narrowed su req now) = s.narrowed su req now := by
    rw [splitPhases, disagg]
  have unpinned : (s.pinSession su req (s.selected su req now) now).2 = s.selected su req now := by
    simp only [pinSession]
    rw [session]
  have unranked : s.narrowed su req now = s.selected su req now := by
    unfold narrowed pinRag
    split
    · exact unpinned
    · rename_i chunks given
      rw [given, Option.any_some, Option.isSome_eq_false_iff, Option.isNone_iff_eq_none] at rag
      rw [rag]
      exact unpinned
  rw [unsplit, unranked] at left
  unfold pinModal at left
  rw [modal] at left
  exact (Option.some.inj left).symm

theorem length_eligible_le_selected :
    (s.eligible su req now).length ≤ (s.selected su req now).length := by
  unfold selected eligible
  dsimp only
  split
  · exact List.length_filter_le _ _
  · exact Nat.le_refl _

theorem route_ne_nil {semanticHit : Bool}
    (routed : (s.route su req semanticHit now fault).2 = .ok remaining) : remaining ≠ [] := by
  have left := route_ok routed
  have eligible : su.idsFor s.registry req.model ≠ [] := by
    unfold route Server.select at routed
    split at routed
    · cases routed
    split at routed
    · cases routed
    split at routed
    · cases routed
    dsimp only at routed
    split at routed
    · split at routed
      · cases routed
      split at routed
      · cases routed
      · rename_i some_left
        simpa using some_left
    · cases routed
  have narrowed : s.narrowed su req now ≠ [] := narrowed_ne_nil eligible
  unfold pinModal at left
  split at left
  · cases left
    unfold splitPhases
    split
    · exact List.cons_ne_nil _ _
    · exact narrowed
  · obtain ⟨rr, _, rfl⟩ := Option.map_eq_some_iff.mp left
    exact List.cons_ne_nil _ _

/-- The saturation cutoff of `top_k_backends`. -/
def tooBusy (su : Setup) (s : Server) (b : String) : Bool :=
  decide (su.cfg.kvPressureCutoff < s.load.kvUsageOf b) ||
    decide (su.cfg.maxInflight < s.load.inflightOf b)

/-- How many of some candidates are raced: the `speculative_k` best of those below the
saturation cutoff, or a single one when none is. -/
def raceWidth (su : Setup) (s : Server) (remaining : List String) : Nat :=
  let free := remaining.countP fun b => !s.tooBusy su b
  if free = 0 then 1 else min (max 1 su.cfg.speculativeK).toNat free

theorem raceWidth_congr (load : s'.load = s.load) :
    s'.raceWidth su remaining = s.raceWidth su remaining := by
  unfold raceWidth tooBusy
  rw [load]

theorem one_le_raceWidth : 1 ≤ s.raceWidth su remaining := by
  unfold raceWidth
  dsimp only
  split
  · exact Nat.le_refl _
  · rename_i some_free
    exact Nat.le_min.mpr ⟨by omega, Nat.one_le_iff_ne_zero.mpr some_free⟩

/-- The candidates below the cutoff, by their estimate. -/
def scored (su : Setup) (s : Server) (hashes : List Nat) (remaining : List String) :
    List (ℚ × String) :=
  ((remaining.filter fun b => !s.tooBusy su b).map fun b =>
    (s.router.estTtft su.cfg s.load (hashes.length * su.cfg.blockTokens)
      ((s.tree.matchPrefix hashes).getD b 0) b, b)).insertionSort fun x y => x.1 ≤ y.1

/-- What is raced. -/
theorem ranked_eq {topk : Router.TopK}
    (ranked : s.router.topKBackends su.cfg s.tree s.load req.prompt remaining su.cfg.speculativeK
      (su.seed req) = some topk) :
    ∃ hashes, topk.backendIds =
      if (s.scored su hashes remaining).isEmpty then
        match (remaining.filter (s.tooBusy su)).argmin fun b => toLex (s.load.inflightOf b, b) with
        | some b => [b]
        | none => remaining.take 1
      else ((s.scored su hashes remaining).take (max 1 su.cfg.speculativeK).toNat).map Prod.snd := by
  obtain ⟨hashes, mode, -, rfl⟩ := Router.topKBackends_eq_some ranked
  exact ⟨hashes, rfl⟩

theorem scored_perm {hashes : List Nat} : ((s.scored su hashes remaining).map Prod.snd).Perm
    (remaining.filter fun b => !s.tooBusy su b) := by
  unfold scored
  refine ((List.perm_insertionSort _ _).map Prod.snd).trans ?_
  rw [List.map_map]
  exact List.Perm.of_eq (List.map_id _)

theorem length_scored (hashes : List Nat) : (s.scored su hashes remaining).length =
    remaining.countP fun b => !s.tooBusy su b := by
  rw [← List.length_map (f := Prod.snd), scored_perm.length_eq, List.countP_eq_length_filter]

theorem length_ranked {topk : Router.TopK}
    (ranked : s.router.topKBackends su.cfg s.tree s.load req.prompt remaining su.cfg.speculativeK
      (su.seed req) = some topk) (some_left : remaining ≠ []) :
    topk.backendIds.length = s.raceWidth su remaining := by
  obtain ⟨hashes, ids⟩ := ranked_eq ranked
  rw [ids, raceWidth]
  by_cases nobody : (s.scored su hashes remaining).isEmpty = true
  · have none_free : remaining.countP (fun b => !s.tooBusy su b) = 0 := by
      rw [← length_scored hashes, List.isEmpty_iff.mp nobody]
      rfl
    rw [if_pos nobody, if_pos none_free]
    split
    · rfl
    · cases remaining with
      | nil => exact absurd rfl some_left
      | cons b rest => rfl
  · have some_free : remaining.countP (fun b => !s.tooBusy su b) ≠ 0 := by
      rw [← length_scored hashes]
      exact fun zero => nobody (List.isEmpty_iff.mpr (List.length_eq_zero_iff.mp zero))
    rw [if_neg nobody, if_neg some_free, List.length_map, List.length_take, length_scored]

theorem nodup_ranked {topk : Router.TopK}
    (ranked : s.router.topKBackends su.cfg s.tree s.load req.prompt remaining su.cfg.speculativeK
      (su.seed req) = some topk) (nodup : remaining.Nodup) : topk.backendIds.Nodup := by
  obtain ⟨hashes, ids⟩ := ranked_eq ranked
  rw [ids]
  split
  · split
    · exact List.nodup_singleton _
    · exact nodup.sublist (List.take_sublist _ _)
  · have all : ((s.scored su hashes remaining).map Prod.snd).Nodup :=
      scored_perm.nodup_iff.mpr (nodup.filter _)
    exact all.sublist ((List.take_sublist _ _).map Prod.snd)

/-! ### The failover loop -/

/-- What is known of a request in a phase. -/
def PhaseSound (su : Setup) (t : Trail) : Phase → Prop
  | .waiting _ remaining _ _ =>
      t.refused = [] ∧ remaining.Nodup ∧ remaining ≠ [] ∧
        min (su.cfg.maxRetries + 1) (t.eligible : Int) ≤ remaining.length
  | .racing _ _ topk _ =>
      t.refused = [] ∧ topk.backendIds.Nodup ∧
        min (su.cfg.maxRetries + 1) (t.eligible : Int) ≤ topk.backendIds.length
  | .connecting _ _ r remaining left =>
      (t.refused ++ remaining).Nodup ∧ r.backendId ∈ remaining ∧
        min (su.cfg.maxRetries + 1) (t.eligible : Int) ≤ t.refused.length + remaining.length ∧
        (su.cfg.maxRetries + 1).toNat ≤ t.refused.length + (left + 1)
  | _ => True

/-- What a span does to its request: others stay where they are, and a request is given up
on only when enough backends have refused it. `n` requests are numbered then. -/
structure Handled (su : Setup) (t : Trail) (i n : Nat) (s s' : Server) : Prop where
  next : s'.next = n
  other : ∀ j, j ≠ i → s'.phase j = s.phase j
  phase : PhaseSound su t (s'.phase i)
  exhausted : s.GaveUp s' → t.Exhausted su

theorem not_gaveUp_of_answers (same : s'.answers = s.answers) : ¬ s.GaveUp s' := by
  rintro ⟨one_more, -⟩
  rw [same] at one_more
  omega

theorem not_gaveUp_of_reply {reply : Reply} (same : s'.answers = s.answers ++ [(req, reply)])
    (ne : reply ≠ .status 502) : ¬ s.GaveUp s' := by
  rintro ⟨-, last⟩
  rw [same, List.getLast?_concat, Option.map_some] at last
  exact ne (Option.some.inj last)

section Handling

variable {m : Server} (other : ∀ j, j ≠ i → m.phase j = s.phase j)
  (answers : m.answers = s.answers)
include other

/-- The request is given up on. -/
theorem handled_unreachable (exhausted : t.Exhausted su) :
    Handled su t i m.next s (m.unreachable su i req fault) where
  next := rfl
  other := fun j ne => (Function.update_of_ne ne _ _).trans (other j ne)
  phase := by
    have ended : (m.unreachable su i req fault).phase i = .ended := Function.update_self ..
    rw [ended]
    trivial
  exhausted := fun _ => exhausted

include answers

/-- An exception ends the request. -/
theorem handled_raised : Handled su t i m.next s (m.finish i req .raised) where
  next := rfl
  other := fun j ne => (Function.update_of_ne ne _ _).trans (other j ne)
  phase := by
    have ended : (m.finish i req .raised).phase i = .ended := Function.update_self ..
    rw [ended]
    trivial
  exhausted := by
    have replied : (m.finish i req .raised).answers = s.answers ++ [(req, .raised)] :=
      congrArg (· ++ [(req, Reply.raised)]) answers
    exact fun gaveUp => absurd gaveUp (not_gaveUp_of_reply replied (by simp))

/-- The request goes on, and nothing is answered. -/
theorem handled_setPhase {p : Phase} (sound : PhaseSound su t p) :
    Handled su t i m.next s (m.setPhase i p) where
  next := rfl
  other := fun j ne => (Function.update_of_ne ne _ _).trans (other j ne)
  phase := by
    have here : (m.setPhase i p).phase i = p := Function.update_self ..
    rw [here]
    exact sound
  exhausted := fun gaveUp => absurd gaveUp (not_gaveUp_of_answers answers)

/-- The failover loop from any of its iterations on. -/
theorem handled_attempt {left : Nat} (nodup : (t.refused ++ remaining).Nodup)
    (enough : min (su.cfg.maxRetries + 1) (t.eligible : Int) ≤
      t.refused.length + remaining.length)
    (budget : (su.cfg.maxRetries + 1).toNat ≤ t.refused.length + left) :
    Handled su t i m.next s (m.attempt su i req allOpen remaining left now fault) := by
  have distinct : t.refused.Nodup := nodup.of_append_left
  unfold attempt
  cases left with
  | zero =>
      refine handled_unreachable other ⟨distinct, ?_⟩
      omega
  | succ left =>
      dsimp only
      split
      · rename_i empty
        rw [List.isEmpty_iff.mp empty, List.length_nil] at enough
        refine handled_unreachable other ⟨distinct, ?_⟩
        omega
      · split
        · exact handled_raised other answers
        · rename_i r router chosen
          split
          · exact handled_raised (m := { m with router := router }) other answers
          · split
            · exact handled_raised (m := dispatchTo { m with router := router } req r now) other
                answers
            · exact handled_setPhase (m := dispatchTo { m with router := router } req r now) other
                answers ⟨nodup, Router.choose_mem chosen, enough, by omega⟩

theorem handled_dispatch (fresh : t.refused = []) (nodup : remaining.Nodup)
    (some_left : remaining ≠ [])
    (enough : min (su.cfg.maxRetries + 1) (t.eligible : Int) ≤ remaining.length)
    (wide : su.speculative req = true → 1 < remaining.length →
      min (su.cfg.maxRetries + 1) (t.eligible : Int) ≤ m.raceWidth su remaining) :
    Handled su t i m.next s (m.dispatch su i req allOpen remaining now fault) := by
  unfold dispatch
  split
  · exact handled_raised other answers
  · split
    · rename_i races
      rw [Bool.and_eq_true, decide_eq_true_eq] at races
      split
      · exact handled_raised other answers
      rename_i topk ranked
      split
      · exact handled_raised other answers
      · refine handled_setPhase other answers ⟨fresh, nodup_ranked ranked nodup, ?_⟩
        have width := wide races.1 races.2
        rw [← length_ranked ranked some_left] at width
        exact width
    · apply handled_attempt other answers
      · rw [fresh]
        exact nodup
      · rw [fresh]
        simpa using enough
      · omega

end Handling

/-! ### Arrivals -/

theorem replyAt_ne {stretch : Stretch} {code : Nat} (ne : code ≠ 502) :
    replyAt fault stretch code ≠ .status 502 := by
  unfold replyAt
  split
  · simp
  · simpa using ne

theorem place_reply {reply : Reply} (placed : (s.place su req remaining fault).2 = .error reply) :
    reply ≠ .status 502 := by
  unfold place at placed
  split at placed
  · cases placed
    simp
  · dsimp only at placed
    split at placed
    · cases placed
      simp
    split at placed
    · cases placed
      exact replyAt_ne (by decide)
    split at placed
    · cases placed
      simp
    split at placed
    · cases placed
      exact replyAt_ne (by decide)
    · cases placed

/-- A request that is not routed is not answered 502. -/
theorem route_reply {semanticHit : Bool} {reply : Reply}
    (routed : (s.route su req semanticHit now fault).2 = .error reply) : reply ≠ .status 502 := by
  unfold route at routed
  split at routed
  · cases routed
    simp
  split at routed
  · cases routed
    simp
  split at routed
  · cases routed
    simp
  dsimp only at routed
  split at routed
  · unfold Server.select at routed
    split at routed
    · cases routed
      simp
    split at routed
    · cases routed
      exact replyAt_ne (by decide)
    split at routed
    · cases routed
      exact replyAt_ne (by decide)
    dsimp only at routed
    split at routed
    · cases routed
      simp
    · exact place_reply routed
  · cases routed
    exact replyAt_ne (by decide)

/-- A request is numbered, and runs on or is parked. -/
structure Entered (s : Server) (req : Request) (allOpen : Bool) (remaining : List String)
    (m : Server) (free : Bool) : Prop where
  next : m.next = s.next + 1
  other : ∀ j, j ≠ s.next → m.phase j = s.phase j
  parked : free = false → m.phase s.next = .waiting req remaining allOpen false
  granted : free = (acquireOn s.scheduler s.fut s.next req.tenant.tier).2.2
  answers : m.answers = s.answers
  load : m.load = s.load

theorem entered_acquireSlot (s : Server) (req : Request) (allOpen : Bool)
    (remaining : List String) :
    Entered s req allOpen remaining (s.acquireSlot req allOpen remaining).1
      (s.acquireSlot req allOpen remaining).2 where
  next := rfl
  other := fun j ne => Function.update_of_ne ne _ _
  parked := by
    intro parked
    have busy : (acquireOn s.scheduler s.fut s.next req.tenant.tier).2.2 = false := parked
    simp [acquireSlot, busy]
  granted := rfl
  answers := rfl
  load := rfl

end Server

namespace Watched

open Server

variable {su : Setup} {w w' : Watched}

/-- **The condition on a span**: a pin leaves a request no fewer tries than it is owed, and
neither does a race. -/
def OwedTries (su : Setup) (w : Watched) (span : Span) : Prop :=
  match span.act with
  | .arrive req _ _ =>
      let owed := min (su.cfg.maxRetries + 1) ((w.server.eligible su req span.now).length : Int)
      if w.server.pinned su req span.now then owed ≤ 1
      else
        (acquireOn w.server.scheduler w.server.fut w.server.next req.tenant.tier).2.2 = true →
          su.speculative req = true → 1 < (w.server.selected su req span.now).length →
            owed ≤ w.server.raceWidth su (w.server.selected su req span.now)
  | .resume i _ =>
      match w.server.phase i with
      | .waiting req remaining _ _ =>
          su.speculative req = true → 1 < remaining.length →
            min (su.cfg.maxRetries + 1) ((w.trail i).eligible : Int) ≤
              w.server.raceWidth su remaining
      | _ => True
  | _ => True

/-- Every request is on a sound trail, and every request given up on has been refused by
enough backends. -/
structure Sound (su : Setup) (w : Watched) : Prop where
  phases : ∀ i, PhaseSound su (w.trail i) (w.server.phase i)
  gaveUp : ∀ t ∈ w.gaveUp, t.Exhausted su

/-- A span that gives up on nobody. -/
theorem Sound.keep (sound : w.Sound su) {after : Server}
    (phases : ∀ i, PhaseSound su (w.trail i) (after.phase i)) :
    Sound su ⟨after, w.trail, w.gaveUp⟩ := ⟨phases, sound.gaveUp⟩

/-- A span that handles one request. -/
theorem Sound.handle (sound : w.Sound su) {after : Server} {t : Trail} {i n : Nat}
    (handled : Handled su t i n w.server after) :
    Sound su ⟨after, Function.update w.trail i t,
      if w.server.GaveUp after then w.gaveUp ++ [Function.update w.trail i t i] else w.gaveUp⟩ where
  phases := by
    intro j
    dsimp only
    by_cases here : j = i
    · subst here
      rw [Function.update_self]
      exact handled.phase
    · rw [Function.update_of_ne here, handled.other j here]
      exact sound.phases j
  gaveUp := by
    intro t' member
    dsimp only at member
    split at member
    · rename_i gaveUp
      rcases List.mem_append.mp member with member | member
      · exact sound.gaveUp t' member
      · rw [Function.update_self, List.mem_singleton] at member
        rw [member]
        exact handled.exhausted gaveUp
    · exact sound.gaveUp t' member

section Arrival

variable {req : Request} {semanticHit : Bool} {now : ℚ} {fault : Option Stretch}
  {remaining : List String}

/-- The candidates of an arriving request are enough for its tries, and so is a race of
them. -/
theorem OwedTries.arrive (owed : OwedTries su w ⟨now, .arrive req semanticHit fault⟩)
    (routed : (route su { w.server with clock := now } req semanticHit now fault).2 =
      .ok remaining) :
    min (su.cfg.maxRetries + 1) ((w.server.eligible su req now).length : Int) ≤ remaining.length ∧
      ((acquireOn w.server.scheduler w.server.fut w.server.next req.tenant.tier).2.2 = true →
        su.speculative req = true → 1 < remaining.length →
          min (su.cfg.maxRetries + 1) ((w.server.eligible su req now).length : Int) ≤
            w.server.raceWidth su remaining) := by
  have some_left := List.length_pos_iff.mpr (route_ne_nil routed)
  have race : 1 ≤ w.server.raceWidth su remaining := one_le_raceWidth
  unfold OwedTries at owed
  dsimp only at owed
  split at owed
  · constructor
    · omega
    · intros
      omega
  · rename_i free
    have all := route_unpinned (s := { w.server with clock := now })
      (Bool.not_eq_true _ ▸ free) routed
    have eligible : (w.server.eligible su req now).length ≤ (w.server.selected su req now).length :=
      length_eligible_le_selected
    subst all
    constructor
    · have : (w.server.selected su req now).length =
          (selected su { w.server with clock := now } req now).length := rfl
      omega
    · exact owed

theorem handled_arrive (owed : OwedTries su w ⟨now, .arrive req semanticHit fault⟩)
    (routed : (route su { w.server with clock := now } req semanticHit now fault).2 =
      .ok remaining) :
    Handled su ⟨(w.server.eligible su req now).length, []⟩ w.server.next (w.server.next + 1) w.server
      (arrive su { w.server with clock := now } req semanticHit now fault) := by
  obtain ⟨limiter, sessions, router, frame⟩ :=
    route_frame su { w.server with clock := now } req semanticHit now fault
  obtain ⟨enough, wide⟩ := owed.arrive routed
  have nodup := nodup_route routed
  have some_left := route_ne_nil routed
  unfold Server.arrive
  generalize route su { w.server with clock := now } req semanticHit now fault = outcome
    at frame routed ⊢
  obtain ⟨s₁, outcome⟩ := outcome
  dsimp only at frame routed ⊢
  subst frame routed
  dsimp only
  have entered := entered_acquireSlot
    { w.server with limiter := limiter, sessions := sessions, router := router, clock := now } req
    (allOpen su { w.server with clock := now } req now) remaining
  generalize acquireSlot _ req _ remaining = slot at entered ⊢
  obtain ⟨m, free⟩ := slot
  dsimp only at entered ⊢
  rw [← show m.next = w.server.next + 1 from entered.next]
  split
  · rename_i got
    refine handled_dispatch entered.other entered.answers rfl nodup some_left enough
      fun races several => ?_
    rw [raceWidth_congr (s := w.server) entered.load]
    exact wide (entered.granted.symm.trans got) races several
  · rename_i parked
    refine ⟨rfl, entered.other, ?_,
      fun gaveUp => absurd gaveUp (not_gaveUp_of_answers entered.answers)⟩
    have here := entered.parked (Bool.not_eq_true _ ▸ parked)
    dsimp only at here
    rw [here]
    exact ⟨rfl, nodup, some_left, enough⟩

theorem Sound.arrive (sound : w.Sound su)
    (owed : OwedTries su w ⟨now, .arrive req semanticHit fault⟩) {after : Server}
    (performed : after = Server.arrive su { w.server with clock := now } req semanticHit now fault) :
    Sound su ⟨after, w.trailAfter su after ⟨now, .arrive req semanticHit fault⟩,
      if w.server.GaveUp after then
        w.gaveUp ++ [w.trailAfter su after ⟨now, .arrive req semanticHit fault⟩ w.server.next]
      else w.gaveUp⟩ := by
  cases routed : (route su { w.server with clock := now } req semanticHit now fault).2 with
  | ok remaining =>
      have handled := handled_arrive owed routed
      rw [← performed] at handled
      have numbered : after.next ≠ w.server.next := by
        rw [handled.next]
        omega
      have trail : w.trailAfter su after ⟨now, .arrive req semanticHit fault⟩ = Function.update w.trail
          w.server.next ⟨(w.server.eligible su req now).length, []⟩ := if_neg numbered
      rw [trail]
      exact sound.handle handled
  | error reply =>
      obtain ⟨limiter, sessions, router, frame⟩ :=
        route_frame su { w.server with clock := now } req semanticHit now fault
      have refused := route_reply routed
      unfold Server.arrive at performed
      generalize route su { w.server with clock := now } req semanticHit now fault = outcome
        at frame routed performed
      obtain ⟨s₁, outcome⟩ := outcome
      dsimp only at frame routed performed
      subst frame routed
      dsimp only at performed
      have answers : after.answers = w.server.answers ++ [(req, reply)] := by rw [performed]
      have phases : after.phase = w.server.phase := by rw [performed]
      have next : after.next = w.server.next := by rw [performed]
      have trail : w.trailAfter su after ⟨now, .arrive req semanticHit fault⟩ = w.trail := if_pos next
      rw [trail, if_neg (not_gaveUp_of_reply answers refused)]
      apply sound.keep
      rw [phases]
      exact sound.phases

end Arrival

section Handled

variable {i : Nat} {now : ℚ} {fault : Option Stretch} {after : Server}

/-- The trail of a request whose connections are refused, some or none. -/
theorem Sound.watch (sound : w.Sound su) {act : Act} {n : Nat}
    (subject : w.server.subject act = some i)
    (known : ∀ req semanticHit fault, act ≠ .arrive req semanticHit fault)
    (handled : Handled su { w.trail i with refused := (w.trail i).refused ++ w.server.refusals act } i n
      w.server after) :
    Sound su ⟨after, w.trailAfter su after ⟨now, act⟩,
      match w.server.subject act with
      | some i =>
          if w.server.GaveUp after then w.gaveUp ++ [w.trailAfter su after ⟨now, act⟩ i] else w.gaveUp
      | none => w.gaveUp⟩ := by
  have trail : w.trailAfter su after ⟨now, act⟩ = Function.update w.trail i
      { w.trail i with refused := (w.trail i).refused ++ w.server.refusals act } := by
    unfold trailAfter
    cases act with
    | arrive req semanticHit fault => exact absurd rfl (known req semanticHit fault)
    | _ =>
        dsimp only
        rw [subject]
  rw [trail, subject]
  exact sound.handle handled

theorem handled_resume (sound : w.Sound su) (owed : OwedTries su w ⟨now, .resume i fault⟩)
    (taken : resume su { w.server with clock := now } i now fault = some after) :
    Handled su { w.trail i with refused := (w.trail i).refused ++ [] } i w.server.next w.server
      after := by
  rw [List.append_nil]
  have known := sound.phases i
  unfold OwedTries at owed
  unfold Server.resume at taken
  dsimp only at owed taken
  split at taken
  · cases taken
    exact handled_raised (m := { w.server with clock := now }) (fun _ _ => rfl) rfl
  · cases taken
    exact handled_raised (m := releaseSlot { w.server with clock := now }) (fun _ _ => rfl) rfl
  · rename_i req remaining allOpen at_phase at_fut
    rw [at_phase] at known owed
    obtain ⟨fresh, nodup, some_left, enough⟩ := known
    cases taken
    exact handled_dispatch (m := setPhase { w.server with clock := now } i (.running req))
      (fun _ ne => Function.update_of_ne ne _ _) rfl fresh nodup some_left enough owed
  · cases taken

theorem handled_refused (sound : w.Sound su)
    (taken : refused su { w.server with clock := now } i now fault = some after) :
    Handled su { w.trail i with
      refused := (w.trail i).refused ++ w.server.refusals (.refused i fault) } i w.server.next w.server
      after := by
  have known := sound.phases i
  unfold Server.refused at taken
  dsimp only at taken
  split at taken
  · rename_i req allOpen r remaining left at_phase
    rw [at_phase] at known
    obtain ⟨nodup, member, enough, budget⟩ := known
    have refusals : w.server.refusals (.refused i fault) = [r.backendId] := by
      unfold Server.refusals
      dsimp only
      rw [at_phase]
    have others : ∀ j, j ≠ i →
        (markFailed { w.server with clock := now } i req r now).phase j = w.server.phase j :=
      fun _ ne => Function.update_of_ne ne _ _
    have moved : ((w.trail i).refused ++ [r.backendId] ++ remaining.erase r.backendId).Perm
        ((w.trail i).refused ++ remaining) := by
      rw [List.append_assoc]
      exact (List.perm_cons_erase member).symm.append_left _
    have fewer := List.length_erase_of_mem member
    have some_left := List.length_pos_of_mem member
    rw [refusals]
    split at taken
    · cases taken
      exact handled_raised others rfl
    · cases taken
      apply handled_attempt others rfl
      · exact moved.nodup_iff.mpr nodup
      · simp only [List.length_append, List.length_singleton]
        omega
      · simp only [List.length_append, List.length_singleton]
        omega
  · cases taken

theorem handled_lost (sound : w.Sound su)
    (taken : lost su { w.server with clock := now } i fault = some after) :
    Handled su { w.trail i with
      refused := (w.trail i).refused ++ w.server.refusals (.lost i fault) } i w.server.next w.server
      after := by
  have known := sound.phases i
  unfold Server.lost at taken
  dsimp only at taken
  split at taken
  · rename_i req allOpen topk at_phase
    rw [at_phase] at known
    obtain ⟨fresh, nodup, enough⟩ := known
    have refusals : w.server.refusals (.lost i fault) = topk.backendIds := by
      unfold Server.refusals
      dsimp only
      rw [at_phase]
    cases taken
    rw [fresh, refusals, List.nil_append]
    exact handled_unreachable (m := { w.server with clock := now }) (fun _ _ => rfl) ⟨nodup, enough⟩
  · cases taken

/-! ### The other spans -/

section Quiet

variable {s : Server} {trail : Nat → Trail} (known : ∀ j, PhaseSound su (trail j) (s.phase j))
include known

/-- One request moves on. -/
theorem phases_move {p : Phase} (moved : after.phase = Function.update s.phase i p)
    (sound : PhaseSound su (trail i) p) (j : Nat) : PhaseSound su (trail j) (after.phase j) := by
  rw [moved]
  by_cases here : j = i
  · subst here
    rw [Function.update_self]
    exact sound
  · rw [Function.update_of_ne here]
    exact known j

theorem phases_respond {req : Request} {r : RouteResult} {code : Nat} (j : Nat) :
    PhaseSound su (trail j) ((s.respond i req r code fault).phase j) := by
  unfold respond
  dsimp only
  split
  · exact phases_move known rfl (by trivial) j
  · exact phases_move known rfl (by trivial) j

theorem phases_connected {code : Nat} (taken : s.connected i code fault = some after) (j : Nat) :
    PhaseSound su (trail j) (after.phase j) := by
  unfold connected at taken
  split at taken
  · cases taken
    exact phases_respond known j
  · cases taken

theorem phases_opened {b : String} (taken : s.opened i b now = some after) (j : Nat) :
    PhaseSound su (trail j) (after.phase j) := by
  have racing := known i
  unfold opened at taken
  split at taken
  · rename_i at_phase
    rw [at_phase] at racing
    split at taken
    · cases taken
      exact phases_move known rfl (by exact racing) j
    · cases taken
  · cases taken

theorem phases_won {b : String} {code : Nat} (taken : s.won i b code now fault = some after)
    (j : Nat) : PhaseSound su (trail j) (after.phase j) := by
  unfold won at taken
  split at taken
  · split at taken
    · dsimp only at taken
      cases taken
      split
      · exact phases_move known rfl (by trivial) j
      · exact phases_respond (s := dispatchTo s _ _ now) known j
    · cases taken
  · cases taken

theorem phases_closed (taken : s.closed su i now fault = some after) (j : Nat) :
    PhaseSound su (trail j) (after.phase j) := by
  unfold closed at taken
  split at taken
  · rename_i req r code outEvents at_phase
    dsimp only at taken
    cases taken
    split
    · exact phases_move known rfl (by trivial) j
    · split
      · exact phases_move known rfl (by trivial) j
      · exact phases_move known rfl (by trivial) j
  · cases taken

/-- A parked request stays parked; any other one ends or closes. -/
theorem phases_cancel (taken : s.cancel i = some after) (j : Nat) :
    PhaseSound su (trail j) (after.phase j) := by
  have waiting := known i
  unfold Server.cancel at taken
  split at taken
  case h_1 at_phase =>
    rw [at_phase] at waiting
    split at taken
    · cases taken
      exact known j
    · cases taken
      exact phases_move known rfl (by exact waiting) j
  all_goals
    cases taken
    try exact phases_move known rfl (by trivial) j

/-- A span that gives up on nobody leaves every request on a sound trail. -/
theorem phases_perform {act : Act} (quiet : s.subject act = none)
    (taken : s.perform su now act = some after) (j : Nat) :
    PhaseSound su (trail j) (after.phase j) := by
  cases act with
  | arrive | resume | refused | lost => cases quiet
  | connected i code fault => exact phases_connected known taken j
  | opened i b => exact phases_opened known taken j
  | won i b code fault => exact phases_won known taken j
  | start i | chunk i events | stop i =>
      dsimp only [perform, start, chunk, stop] at taken
      split at taken
      · cases taken
        exact phases_move known rfl (by trivial) j
      · cases taken
  | closed i fault => exact phases_closed known taken j
  | cancel i => exact phases_cancel known taken j
  | adminAdd b url model =>
      cases taken
      unfold Server.adminAdd
      split
      · exact known j
      · exact known j
  | adminRemove b =>
      cases taken
      unfold Server.adminRemove
      split
      · exact known j
      · exact known j
  | adminDrain b draining =>
      cases taken
      exact known j
  | scrape b health =>
      cases taken
      cases health with
      | ok | notOk | failed => exact known j

end Quiet

end Handled

/-- **One span.** -/
theorem step_sound {span : Span} (sound : w.Sound su) (owed : OwedTries su w span)
    (taken : w.step su span = some w') : w'.Sound su := by
  obtain ⟨after, stepped, rfl⟩ := Option.map_eq_some_iff.mp taken
  obtain ⟨now, act⟩ := span
  unfold Server.step at stepped
  split at stepped
  · cases act with
    | arrive req semanticHit fault =>
        cases stepped
        exact sound.arrive owed rfl
    | resume i fault =>
        have handled := handled_resume sound owed stepped
        exact sound.watch rfl (fun _ _ _ => Act.noConfusion) handled
    | refused i fault =>
        have handled := handled_refused sound stepped
        exact sound.watch rfl (fun _ _ _ => Act.noConfusion) handled
    | lost i fault =>
        have handled := handled_lost sound stepped
        exact sound.watch rfl (fun _ _ _ => Act.noConfusion) handled
    | _ => exact sound.keep (phases_perform (s := { w.server with clock := now }) sound.phases rfl
        stepped)
  · cases stepped

/-- **When a 502 is owed to nobody.** In every run in which neither a pin nor a race leaves a
request fewer tries than `min(max_retries + 1, n)`, that many distinct backends have refused
it before the gateway answers 502. -/
theorem refusals_before_502 {registry : BackendRegistry String}
    {backendCacheBlocks circuitFailThreshold : Int} {circuitCooldown : ℚ}
    {sessions : SessionAffinity String} {predictor : Option (List ℚ → Option ℚ)}
    {scheduler : Option (Int × Dict String ℚ × ℚ × ℚ)} {spans : List Span}
    (owed : Machine.Along (step su) (OwedTries su)
      (init (Server.init su registry backendCacheBlocks circuitFailThreshold circuitCooldown sessions
        predictor scheduler)) spans)
    (reach : Machine.run (step su)
      (init (Server.init su registry backendCacheBlocks circuitFailThreshold circuitCooldown sessions
        predictor scheduler)) spans = some w) :
    ∀ t ∈ w.gaveUp, t.refused.Nodup ∧
      min (su.cfg.maxRetries + 1) (t.eligible : Int) ≤ t.refused.length := by
  have start : Sound su (init (Server.init su registry backendCacheBlocks circuitFailThreshold
      circuitCooldown sessions predictor scheduler)) :=
    ⟨fun _ => trivial, fun _ member => by cases member⟩
  have sound : w.Sound su := Machine.run_invariant_along
    (fun _ _ _ sound owed taken => step_sound sound owed taken) start owed reach
  exact sound.gaveUp

instance decidableOwedTries (su : Setup) (w : Watched) :
    (span : Span) → Decidable (OwedTries su w span)
  | ⟨_, .arrive _ _ _⟩ => by
      unfold OwedTries
      dsimp only
      infer_instance
  | ⟨_, .resume i _⟩ => by
      unfold OwedTries
      dsimp only
      exact match w.server.phase i with
        | .waiting _ _ _ _ => inferInstance
        | .running _ | .racing _ _ _ _ | .connecting _ _ _ _ _ | .returned _ _ _
        | .streaming _ _ _ _ | .closing _ _ _ _ | .ended => isTrue trivial
  | ⟨_, .connected _ _ _⟩ | ⟨_, .refused _ _⟩ | ⟨_, .opened _ _⟩ | ⟨_, .won _ _ _ _⟩ | ⟨_, .lost _ _⟩
  | ⟨_, .start _⟩ | ⟨_, .chunk _ _⟩ | ⟨_, .stop _⟩ | ⟨_, .closed _ _⟩ | ⟨_, .cancel _⟩
  | ⟨_, .adminAdd _ _ _⟩ | ⟨_, .adminRemove _⟩ | ⟨_, .adminDrain _ _⟩ | ⟨_, .scrape _ _⟩ =>
      isTrue trivial

/-- Session affinity. -/
def sticky : Setup where
  cfg := { sessionAffinityEnabled := true }

/-- Two backends. -/
def pair : Watched :=
  .init (.init sticky (.init "mock-model" [("b0", "http://b0"), ("b1", "http://b1")]) 2000 3 5
    (.init 10000 1800) none none)

/-- A request of a session. -/
def ofSession : Request := { plainRequest with sessionId := some "chat" }

/-- Both backends refuse a new session. -/
def bothDown : List Span :=
  [⟨0, .arrive ofSession false none⟩, ⟨1, .refused 0 none⟩, ⟨2, .refused 0 none⟩]

theorem refusals_before_502_both :
    ∃ w, Machine.run (step sticky) pair bothDown = some w ∧ w.gaveUp = [⟨2, ["b0", "b1"]⟩] ∧
      ∀ t ∈ w.gaveUp, min 3 (t.eligible : Int) ≤ t.refused.length := by
  obtain ⟨w, reach, refused⟩ : ∃ w,
      Machine.run (step sticky) pair bothDown = some w ∧ w.gaveUp = [⟨2, ["b0", "b1"]⟩] :=
    Machine.exists_run (by decide +kernel)
  have owed : Machine.Along (step sticky) (OwedTries sticky) pair bothDown := by decide +kernel
  exact ⟨w, reach, refused, fun t member => (refusals_before_502 owed reach t member).2⟩

/-- A session is served, and its backend goes down. -/
def itsBackendDown : List Span :=
  [⟨0, .arrive ofSession false none⟩, ⟨0, .connected 0 200 none⟩, ⟨0, .start 0⟩, ⟨1, .stop 0⟩,
    ⟨1, .closed 0 none⟩, ⟨2, .arrive ofSession false none⟩, ⟨3, .refused 1 none⟩]

/-- The session is answered 502 after one refusal, with another backend eligible. -/
theorem pinned_session_502 :
    ¬ ∀ (su : Setup) (registry : BackendRegistry String)
      (backendCacheBlocks circuitFailThreshold : Int) (circuitCooldown : ℚ)
      (sessions : SessionAffinity String) (spans : List Span) (w : Watched),
      Machine.run (step su) (init (Server.init su registry backendCacheBlocks circuitFailThreshold
        circuitCooldown sessions none none)) spans = some w →
      ∀ t ∈ w.gaveUp, t.refused.Nodup ∧
        min (su.cfg.maxRetries + 1) (t.eligible : Int) ≤ t.refused.length := by
  intro enough
  obtain ⟨w, reach, refused⟩ : ∃ w,
      Machine.run (step sticky) pair itsBackendDown = some w ∧ w.gaveUp = [⟨2, ["b0"]⟩] :=
    Machine.exists_run (by decide +kernel)
  have two := enough sticky _ _ _ _ _ itsBackendDown w reach ⟨2, ["b0"]⟩ (by simp [refused])
  exact absurd two.2 (by decide)

end Watched

end Gateway
