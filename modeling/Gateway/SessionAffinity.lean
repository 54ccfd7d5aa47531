import Mathlib.Algebra.Order.Field.Rat
import Gateway.Lib.Dict

/-!
Session pins, from `gateway/session_affinity.py`.

The table is an `OrderedDict` from session ids to the pinned backend and the time it
was last seen, oldest first. `pick` only ever returns a candidate (`pick_mem`), and no pin
to a forgotten backend is left (`get?_forgetBackend`).
-/

namespace Gateway

/-- `SessionAffinity`. -/
structure SessionAffinity (B : Type) where
  capacity : Int
  ttl : ℚ
  bySession : Dict String (B × ℚ)

namespace SessionAffinity

variable {B : Type}

/-- `SessionAffinity(capacity, ttl_s)`. -/
def init (capacity : Int) (ttl : ℚ) : SessionAffinity B := ⟨max 1 capacity, ttl, .empty⟩

variable [DecidableEq B]

/-- `pick(session_id, candidates, now)`. -/
def pick (t : SessionAffinity B) (sessionId : Option String) (candidates : List B) (now : ℚ) :
    SessionAffinity B × Option B :=
  match sessionId with
  | none => (t, none)
  | some sid =>
      if sid = "" then (t, none)
      else
        match t.bySession.get? sid with
        | none => (t, none)
        | some (b, last) =>
            if t.ttl < now - last then ({ t with bySession := t.bySession.erase sid }, none)
            else if b ∈ candidates then
              ({ t with bySession := t.bySession.setLast sid (b, last) }, some b)
            else (t, none)

/-- `remember(session_id, backend_id, now)`. -/
def remember (t : SessionAffinity B) (sessionId : Option String) (b : B) (now : ℚ) :
    SessionAffinity B :=
  match sessionId with
  | none => t
  | some sid =>
      if sid = "" then t
      else { t with bySession := (t.bySession.setLast sid (b, now)).keepLast t.capacity }

/-- `forget_backend(backend_id)`. -/
def forgetBackend (t : SessionAffinity B) (b : B) : SessionAffinity B :=
  let gone := (t.bySession.items.filter fun item => item.2.1 = b).map Prod.fst
  { t with bySession := gone.foldl (fun d sid => d.erase sid) t.bySession }

/-- A pin is only used while its backend is a candidate. -/
theorem pick_mem {t : SessionAffinity B} {sessionId : Option String} {candidates : List B}
    {now : ℚ} {b : B} (picked : (t.pick sessionId candidates now).2 = some b) :
    b ∈ candidates := by
  unfold pick at picked
  split at picked
  · cases picked
  · split at picked
    · cases picked
    · split at picked
      · cases picked
      · split at picked
        · cases picked
        · split at picked
          · rename_i member
            cases picked
            exact member
          · cases picked

/-- A session is never pinned to a forgotten backend. -/
theorem get?_forgetBackend {t : SessionAffinity B} {b b' : B} {sid : String} {last : ℚ}
    (found : (t.forgetBackend b).bySession.get? sid = some (b', last)) : b' ≠ b := by
  intro same
  subst same
  simp only [forgetBackend, Dict.get?_foldl_erase] at found
  split at found
  · cases found
  · rename_i kept
    refine kept (List.mem_map.mpr ⟨(sid, (b', last)), ?_, rfl⟩)
    exact List.mem_filter.mpr ⟨Dict.mem_items_iff.mpr found, decide_eq_true rfl⟩

end SessionAffinity

end Gateway
