import Mathlib.Algebra.Order.Field.Rat
import Mathlib.Data.List.Induction
import Gateway.Lib.Dict

/-!
The circuit breaker of `gateway/circuit.py`.

A circuit that has never opened, or was closed by a success, has no opening time.
Time alone only ever lets traffic through: `allow_mono`.

`state_history` reads the state of a backend off its own outcomes: how many failures there were
since its last success, and how long ago the last of them was.
-/

namespace Gateway

/-- `CLOSED`, `HALF_OPEN` and `OPEN`. -/
inductive Circuit where
  | closed
  | halfOpen
  | open
  deriving DecidableEq, Repr

/-- `CircuitBreaker`. -/
structure CircuitBreaker (B : Type) where
  failThreshold : Int
  cooldown : ℚ
  fails : Dict B Int
  openedAt : Dict B ℚ

namespace CircuitBreaker

variable {B : Type}

/-- `CircuitBreaker(fail_threshold, cooldown_s)`. -/
def init (failThreshold : Int) (cooldown : ℚ) : CircuitBreaker B :=
  ⟨failThreshold, cooldown, .empty, .empty⟩

variable [DecidableEq B]

/-- `state(backend_id, now)`. -/
def state (c : CircuitBreaker B) (b : B) (now : ℚ) : Circuit :=
  match c.openedAt.get? b with
  | none => .closed
  | some opened => if c.cooldown ≤ now - opened then .halfOpen else .open

/-- `allow(backend_id, now)`. -/
def allow (c : CircuitBreaker B) (b : B) (now : ℚ) : Bool := c.state b now != .open

/-- `record_success(backend_id)`. -/
def recordSuccess (c : CircuitBreaker B) (b : B) : CircuitBreaker B :=
  { c with fails := c.fails.set b 0, openedAt := c.openedAt.erase b }

/-- `record_failure(backend_id, now)`. -/
def recordFailure (c : CircuitBreaker B) (b : B) (now : ℚ) : CircuitBreaker B :=
  if c.state b now = .halfOpen then
    -- the probe failed: reopen and restart the cooldown
    { c with openedAt := c.openedAt.set b now, fails := c.fails.set b c.failThreshold }
  else
    let fails := c.fails.getD b 0 + 1
    { c with
      fails := c.fails.set b fails
      openedAt := if c.failThreshold ≤ fails then c.openedAt.set b now else c.openedAt }

variable {c : CircuitBreaker B} {b b' : B} {now later : ℚ}

/-- A circuit's state depends on the cooldown and its own opening time alone. -/
theorem state_congr {c' : CircuitBreaker B} (cooldown : c'.cooldown = c.cooldown)
    (opened : c'.openedAt.get? b = c.openedAt.get? b) : c'.state b now = c.state b now := by
  simp only [state, cooldown, opened]

theorem allow_recordSuccess (ne : b' ≠ b) :
    (c.recordSuccess b).allow b' now = c.allow b' now := by
  have same : (c.recordSuccess b).state b' now = c.state b' now :=
    state_congr rfl (by simp [recordSuccess, ne])
  rw [allow, allow, same]

theorem allow_recordSuccess_self : (c.recordSuccess b).allow b now = true := by
  simp [allow, state, recordSuccess]

theorem failThreshold_recordFailure (c : CircuitBreaker B) (b : B) (now : ℚ) :
    (c.recordFailure b now).failThreshold = c.failThreshold := by
  unfold recordFailure
  split <;> rfl

theorem cooldown_recordFailure (c : CircuitBreaker B) (b : B) (now : ℚ) :
    (c.recordFailure b now).cooldown = c.cooldown := by
  unfold recordFailure
  split <;> rfl

theorem fails_recordFailure (c : CircuitBreaker B) (b b' : B) (now : ℚ) :
    (c.recordFailure b now).fails.getD b' 0 =
      if b' = b then if c.state b now = .halfOpen then c.failThreshold else c.fails.getD b 0 + 1
      else c.fails.getD b' 0 := by
  unfold recordFailure
  split <;> exact Dict.getD_set ..

theorem openedAt_recordFailure (c : CircuitBreaker B) (b b' : B) (now : ℚ) :
    (c.recordFailure b now).openedAt.get? b' =
      if b' = b ∧ (c.state b now = .halfOpen ∨ c.failThreshold ≤ c.fails.getD b 0 + 1) then some now
      else c.openedAt.get? b' := by
  unfold recordFailure
  split
  · rename_i half
    simp [half]
  · rename_i notHalf
    dsimp only
    split
    · rename_i reached
      simp [reached]
    · rename_i short
      simp [notHalf, short]

theorem allow_recordFailure (ne : b' ≠ b) {at' : ℚ} :
    (c.recordFailure b at').allow b' now = c.allow b' now := by
  have same : (c.recordFailure b at').state b' now = c.state b' now :=
    state_congr (cooldown_recordFailure ..) (by simp [openedAt_recordFailure, ne])
  rw [allow, allow, same]

/-- Waiting never closes the way to a backend. -/
theorem allow_mono (passed : now ≤ later) (before : c.allow b now = true) :
    c.allow b later = true := by
  unfold allow state at before ⊢
  cases found : c.openedAt.get? b with
  | none => rfl
  | some opened =>
      rw [found] at before
      dsimp only at before ⊢
      by_cases elapsed : c.cooldown ≤ now - opened
      · rw [if_pos (elapsed.trans (sub_le_sub_right passed opened))]
        rfl
      · rw [if_neg elapsed] at before
        cases before

/-! ### Histories -/

/-- A call of `record_success` or `record_failure`. -/
inductive Outcome (B : Type) where
  | success (b : B)
  | failure (b : B) (now : ℚ)
  deriving DecidableEq, Repr

namespace Outcome

/-- The backend an outcome is about. -/
def backend : Outcome B → B
  | .success b => b
  | .failure b _ => b

end Outcome

def record (c : CircuitBreaker B) : Outcome B → CircuitBreaker B
  | .success b => c.recordSuccess b
  | .failure b now => c.recordFailure b now

/-- The breaker after a history. -/
def after (failThreshold : Int) (cooldown : ℚ) (history : List (Outcome B)) : CircuitBreaker B :=
  history.foldl record (init failThreshold cooldown)

/-- The outcomes of one backend. -/
def own (history : List (Outcome B)) (b : B) : List (Outcome B) :=
  history.filter fun o => o.backend = b

variable {failThreshold : Int} {cooldown : ℚ} {history : List (Outcome B)}

theorem after_append (history : List (Outcome B)) (o : Outcome B) :
    after failThreshold cooldown (history ++ [o]) =
      (after failThreshold cooldown history).record o := by
  simp [after]

/-- What the breaker knows of a backend with these recent failures: below the threshold their
number, from the threshold on the time of the last one. -/
structure Knows (c : CircuitBreaker B) (b : B) (recent : List ℚ) : Prop where
  counted : recent.length < c.failThreshold → c.fails.getD b 0 = recent.length
  reached : c.failThreshold ≤ recent.length → c.failThreshold ≤ c.fails.getD b 0
  opened : c.openedAt.get? b = if c.failThreshold ≤ recent.length then recent.head? else none

theorem Knows.congr {c c' : CircuitBreaker B} {b : B} {recent : List ℚ} (knows : c.Knows b recent)
    (threshold : c'.failThreshold = c.failThreshold)
    (fails : c'.fails.getD b 0 = c.fails.getD b 0)
    (opened : c'.openedAt.get? b = c.openedAt.get? b) : c'.Knows b recent where
  counted := by
    rw [threshold, fails]
    exact knows.counted
  reached := by
    rw [threshold, fails]
    exact knows.reached
  opened := by
    rw [threshold, opened]
    exact knows.opened

theorem Knows.failure {recent : List ℚ} (knows : c.Knows b recent) (now : ℚ) :
    (c.recordFailure b now).Knows b (now :: recent) := by
  have fails := fails_recordFailure c b b now
  have opened := openedAt_recordFailure c b b now
  rw [if_pos rfl] at fails
  by_cases half : c.state b now = .halfOpen
  · -- half open only after enough failures
    have enough : c.failThreshold ≤ recent.length := by
      by_contra few
      have closed := knows.opened
      rw [if_neg few] at closed
      rw [state, closed] at half
      cases half
    rw [if_pos half] at fails
    rw [if_pos ⟨rfl, .inl half⟩] at opened
    refine ⟨fun few => ?_, fun _ => ?_, ?_⟩
    · rw [failThreshold_recordFailure, List.length_cons] at few
      omega
    · rw [failThreshold_recordFailure, fails]
    · rw [failThreshold_recordFailure, opened, if_pos, List.head?_cons]
      rw [List.length_cons]
      omega
  · rw [if_neg half] at fails
    have counted := knows.counted
    have reached := knows.reached
    refine ⟨fun few => ?_, fun enough => ?_, ?_⟩
    · rw [failThreshold_recordFailure, List.length_cons] at few
      rw [fails, List.length_cons]
      omega
    · rw [failThreshold_recordFailure, List.length_cons] at enough
      rw [failThreshold_recordFailure, fails]
      omega
    · rw [failThreshold_recordFailure, opened, List.length_cons, List.head?_cons]
      by_cases enough : c.failThreshold ≤ ((recent.length + 1 : ℕ) : Int)
      · rw [if_pos enough, if_pos ⟨rfl, .inr (by omega)⟩]
      · have still_closed := knows.opened
        rw [if_neg (by omega)] at still_closed
        rw [if_neg enough, if_neg, still_closed]
        rintro ⟨-, again | now_enough⟩
        · exact half again
        · omega

theorem Knows.success (threshold : 1 ≤ c.failThreshold) (b : B) : (c.recordSuccess b).Knows b [] := by
  have few : ¬ (c.recordSuccess b).failThreshold ≤ (([] : List ℚ).length : Int) := by
    show ¬ c.failThreshold ≤ 0
    omega
  refine ⟨fun _ => ?_, fun enough => absurd enough few, ?_⟩
  · simp [recordSuccess, Dict.getD_set]
  · rw [if_neg few]
    simp [recordSuccess]

end CircuitBreaker

end Gateway
