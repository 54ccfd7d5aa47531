import Mathlib.Data.List.Induction

/-!
Runs of partial transition functions.

`run step s as` performs the actions `as` one after the other, and is `none` as
soon as an action is not enabled. `Along step ok s as` says that every step of
that run meets `ok`, a condition on the state before the step and the action.

* `run_invariant` is the induction rule: what holds initially and is kept by
  every enabled step holds at the end of every run.
* `run_invariant_along` is the same rule when steps keep the invariant only if
  they meet a condition.
* `run_refines` is the rule for a machine whose steps are runs of another one.
* `run_length_le` bounds the length of runs whose steps lower a measure.
* `run_rel_along` is the rule for two machines: related states whose steps stay related
  have related runs.
* `foldl_good_iff` is the exact form of the invariant rule, for steps that are always
  enabled: if, from a good state, a step ends in a good state precisely when it meets the
  condition, then all states of a run are good precisely when all its steps meet the
  condition. `foldl_end_iff` is about the last state alone, when no step regains what was
  lost.

* `exists_run_iff` says when a run ends, and `skipping_of_run` that a run which ends is
  the one that skips what is not enabled.

A state visited by a run is the end of one of its prefixes, and every prefix of a
run is a run (`run_append`), so a statement about the end of every run is a
statement about every state reached.
-/

namespace Gateway.Machine

variable {S A : Type} (step : S → A → Option S)

/-- Perform a list of actions; `none` when one of them is not enabled. -/
def run : S → List A → Option S
  | s, [] => some s
  | s, a :: as => (step s a).bind fun s' => run s' as

/-- Every step of the run from `s` meets `ok` in the state it starts from. -/
def Along (ok : S → A → Prop) : S → List A → Prop
  | _, [] => True
  | s, a :: as => ok s a ∧ ∀ s', step s a = some s' → Along ok s' as

variable {step}

theorem run_cons_eq_some {s s' : S} {a : A} {as : List A} :
    run step s (a :: as) = some s' ↔ ∃ mid, step s a = some mid ∧ run step mid as = some s' := by
  simp only [run, Option.bind_eq_some_iff]

theorem run_append (s : S) (as bs : List A) :
    run step s (as ++ bs) = (run step s as).bind fun mid => run step mid bs := by
  induction as generalizing s with
  | nil => rfl
  | cons a as ih =>
      simp only [List.cons_append, run]
      cases step s a with
      | none => rfl
      | some mid => exact ih mid

theorem run_append_eq_some {s s' : S} {as bs : List A} :
    run step s (as ++ bs) = some s' ↔
      ∃ mid, run step s as = some mid ∧ run step mid bs = some s' := by
  rw [run_append, Option.bind_eq_some_iff]

/-- **The invariant rule under a step condition.** -/
theorem run_invariant_along {I : S → Prop} {ok : S → A → Prop}
    (keeps : ∀ s a s', I s → ok s a → step s a = some s' → I s')
    {s s' : S} {as : List A} (start : I s) (along : Along step ok s as)
    (reach : run step s as = some s') : I s' := by
  induction as generalizing s with
  | nil =>
      cases reach
      exact start
  | cons a as ih =>
      obtain ⟨mid, first, rest⟩ := run_cons_eq_some.mp reach
      exact ih (keeps s a mid start along.1 first) (along.2 mid first) rest

theorem Along.of_forall {ok : S → A → Prop} {as : List A} (s : S)
    (all : ∀ a ∈ as, ∀ s, ok s a) : Along step ok s as := by
  induction as generalizing s with
  | nil => trivial
  | cons a as ih =>
      constructor
      · exact all a List.mem_cons_self s
      · intro s' _
        exact ih s' fun a' member => all a' (List.mem_cons_of_mem _ member)

/-- **The progress rule.** If typed actions keep the invariant and meet a condition wherever
it holds, every run of them meets the condition. -/
theorem Along.of_invariant {I : S → Prop} {typed : A → Prop} {ok : S → A → Prop}
    (keeps : ∀ s a s', I s → typed a → step s a = some s' → I s')
    (met : ∀ s a, I s → typed a → ok s a)
    {s : S} {as : List A} (start : I s) (all : ∀ a ∈ as, typed a) : Along step ok s as := by
  induction as generalizing s with
  | nil => trivial
  | cons a as ih =>
      rw [List.forall_mem_cons] at all
      exact ⟨met s a start all.1, fun s' taken => ih (keeps s a s' start all.1 taken) all.2⟩

/-- A condition met along a run is met along both of its parts. -/
theorem Along.of_append {ok : S → A → Prop} {s : S} {as bs : List A}
    (along : Along step ok s (as ++ bs)) :
    Along step ok s as ∧ ∀ s', run step s as = some s' → Along step ok s' bs := by
  induction as generalizing s with
  | nil =>
      refine ⟨trivial, fun s' reach => ?_⟩
      cases reach
      exact along
  | cons a as ih =>
      refine ⟨⟨along.1, fun s' taken => (ih (along.2 s' taken)).1⟩, fun s' reach => ?_⟩
      obtain ⟨mid, taken, reach⟩ := run_cons_eq_some.mp reach
      exact (ih (along.2 mid taken)).2 s' reach

/-- Two conditions met by every step are met together. -/
theorem Along.and {ok ok' : S → A → Prop} {s : S} {as : List A} (first : Along step ok s as)
    (second : Along step ok' s as) : Along step (fun s a => ok s a ∧ ok' s a) s as := by
  induction as generalizing s with
  | nil => trivial
  | cons a as ih =>
      exact ⟨⟨first.1, second.1⟩, fun s' taken => ih (first.2 s' taken) (second.2 s' taken)⟩

/-- **The simulation rule under a step condition.** -/
theorem run_rel_along {T : Type} {step' : T → A → Option T} {R : S → T → Prop}
    {ok : S → A → Prop}
    (sim : ∀ s t a, R s t → ok s a → Option.Rel R (step s a) (step' t a))
    {s : S} {t : T} {as : List A} (start : R s t) (along : Along step ok s as) :
    Option.Rel R (run step s as) (run step' t as) := by
  induction as generalizing s t with
  | nil => exact .some start
  | cons a as ih =>
      have first := sim s t a start along.1
      have later := along.2
      simp only [run]
      generalize step s a = one at first later ⊢
      generalize step' t a = other at first ⊢
      cases first with
      | none => exact .none
      | some related => exact ih related (later _ rfl)

/-- **The invariant rule.** -/
theorem run_invariant {I : S → Prop}
    (keeps : ∀ s a s', I s → step s a = some s' → I s')
    {s s' : S} {as : List A} (start : I s) (reach : run step s as = some s') : I s' := by
  have along : Along step (fun _ _ => True) s as := .of_forall s fun _ _ _ => trivial
  exact run_invariant_along (fun s a s' inv _ taken => keeps s a s' inv taken) start along reach

/-- **The refinement rule.** If every step of a machine is a run of another one, so is every run. -/
theorem run_refines {T C : Type} {next : T → C → Option T} {I : S → Prop} {abs : S → T}
    (refines : ∀ s a s', I s → step s a = some s' →
      I s' ∧ ∃ cs, run next (abs s) cs = some (abs s'))
    {s s' : S} {as : List A} (start : I s) (reach : run step s as = some s') :
    I s' ∧ ∃ cs, run next (abs s) cs = some (abs s') := by
  induction as generalizing s with
  | nil =>
      cases reach
      exact ⟨start, [], rfl⟩
  | cons a as ih =>
      obtain ⟨mid, first, rest⟩ := run_cons_eq_some.mp reach
      obtain ⟨kept, cs, done⟩ := refines s a mid start first
      obtain ⟨kept', ds, done'⟩ := ih kept rest
      exact ⟨kept', cs ++ ds, run_append_eq_some.mpr ⟨abs mid, done, done'⟩⟩

/-- **The measure rule.** If every step keeps the invariant and lowers the measure, a run is no
longer than what it takes off the measure. -/
theorem run_length_le {I : S → Prop} {measure : S → Nat}
    (lowers : ∀ s a s', I s → step s a = some s' → I s' ∧ measure s' < measure s)
    {s s' : S} {as : List A} (start : I s) (reach : run step s as = some s') :
    as.length + measure s' ≤ measure s := by
  induction as generalizing s with
  | nil =>
      cases reach
      exact Nat.le_of_eq (Nat.zero_add _)
  | cons a as ih =>
      obtain ⟨mid, first, rest⟩ := run_cons_eq_some.mp reach
      obtain ⟨kept, lower⟩ := lowers s a mid start first
      have shorter := ih kept rest
      rw [List.length_cons]
      omega

/-- Whether a run meets a decidable condition can be evaluated. -/
instance decidableAlong {ok : S → A → Prop} [∀ s a, Decidable (ok s a)] :
    ∀ s as, Decidable (Along step ok s as)
  | _, [] => isTrue trivial
  | s, a :: as =>
      match taken : step s a with
      | none =>
          decidable_of_iff (ok s a)
            ⟨fun met => ⟨met, fun s' reach => by rw [taken] at reach; cases reach⟩, And.left⟩
      | some mid =>
          have : Decidable (Along step ok mid as) := decidableAlong mid as
          decidable_of_iff (ok s a ∧ Along step ok mid as)
            ⟨fun ⟨met, rest⟩ => ⟨met, fun s' reach => by rw [taken] at reach; cases reach; exact rest⟩,
              fun ⟨met, rest⟩ => ⟨met, rest mid taken⟩⟩

/-- **The invariant rule for total steps.** -/
theorem foldl_invariant {next : S → A → S} {I : S → Prop} (keeps : ∀ s a, I s → I (next s a))
    {s : S} (start : I s) (as : List A) : I (as.foldl next s) := by
  induction as generalizing s with
  | nil => exact start
  | cons a as ih => exact ih (keeps s a start)

/-- **The exact condition rule for total steps.** Every state a run visits is good precisely when
every step of it meets the condition in the state it starts from. -/
theorem foldl_good_iff {next : S → A → S} {I good : S → Prop} {ok : S → A → Prop}
    (keeps : ∀ s a, I s → I (next s a))
    (exact_step : ∀ s a, I s → good s → (good (next s a) ↔ ok s a))
    {s : S} (inv : I s) (start : good s) (as : List A) :
    (∀ done, done <+: as → good (done.foldl next s)) ↔
      ∀ done a, done ++ [a] <+: as → ok (done.foldl next s) a := by
  have inv_of : ∀ done : List A, I (done.foldl next s) := foldl_invariant keeps inv
  have earlier : ∀ {done : List A} {a : A}, done ++ [a] <+: as → done <+: as := by
    intro done a visited
    exact (List.prefix_append done [a]).trans visited
  have call : ∀ (done : List A) a, good (done.foldl next s) →
      (good ((done ++ [a]).foldl next s) ↔ ok (done.foldl next s) a) := by
    intro done a before
    rw [List.foldl_append, List.foldl_cons, List.foldl_nil]
    exact exact_step _ a (inv_of done) before
  constructor
  · intro all done a visited
    exact (call done a (all done (earlier visited))).mp (all _ visited)
  · intro met done visited
    induction done using List.reverseRecOn with
    | nil => exact start
    | append_singleton done a ih =>
        exact (call done a (ih (earlier visited))).mpr (met done a visited)

/-- **The exact condition rule for a property that is lost for good.** When no step
regains the property, it holds at the end of a run precisely when every step of the run
meets the condition. -/
theorem foldl_end_iff {next : S → A → S} {I good : S → Prop} {ok : S → A → Prop}
    (keeps : ∀ s a, I s → I (next s a))
    (exact_step : ∀ s a, I s → (good (next s a) ↔ good s ∧ ok s a))
    {s : S} (inv : I s) (start : good s) (as : List A) :
    good (as.foldl next s) ↔ ∀ done a, done ++ [a] <+: as → ok (done.foldl next s) a := by
  have inv_of : ∀ done : List A, I (done.foldl next s) := foldl_invariant keeps inv
  induction as using List.reverseRecOn with
  | nil =>
      refine iff_of_true start fun done a visited => ?_
      exact absurd (List.prefix_nil.mp visited) (by simp)
  | append_singleton as a ih =>
      rw [List.foldl_append, List.foldl_cons, List.foldl_nil]
      refine (exact_step _ a (inv_of as)).trans ((and_congr_left' ih).trans ?_)
      constructor
      · rintro ⟨met, last⟩ done b visited
        rcases List.prefix_concat_iff.mp visited with same | earlier
        · obtain ⟨rfl, rfl⟩ := List.append_inj same (by simpa using congrArg List.length same)
            |>.imp id (fun e => List.singleton_inj.mp e)
          exact last
        · exact met done b earlier
      · intro met
        have earlier : as <+: as ++ [a] := List.prefix_append as [a]
        exact ⟨fun done b visited => met done b (visited.trans earlier), met as a List.prefix_rfl⟩

/-- A run ends precisely when every step of it is enabled. -/
theorem exists_run_iff {ok : S → A → Prop} (enabled : ∀ s a, (∃ s', step s a = some s') ↔ ok s a)
    (s : S) (as : List A) : (∃ s', run step s as = some s') ↔ Along step ok s as := by
  induction as generalizing s with
  | nil => exact iff_of_true ⟨s, rfl⟩ trivial
  | cons a as ih =>
      simp only [run_cons_eq_some]
      constructor
      · rintro ⟨s', mid, taken, reach⟩
        refine ⟨(enabled s a).mp ⟨mid, taken⟩, fun mid' taken' => ?_⟩
        obtain rfl := Option.some.inj (taken.symm.trans taken')
        exact (ih mid).mp ⟨s', reach⟩
      · rintro ⟨met, rest⟩
        obtain ⟨mid, taken⟩ := (enabled s a).mpr met
        obtain ⟨s', reach⟩ := (ih mid).mpr (rest mid taken)
        exact ⟨s', mid, taken, reach⟩

/-- Perform the actions that are enabled, and skip the others. -/
def skipping (step : S → A → Option S) (s : S) (as : List A) : S :=
  as.foldl (fun s a => (step s a).getD s) s

/-- A run that ends skips nothing. -/
theorem skipping_of_run {s s' : S} {as : List A} (reach : run step s as = some s') :
    skipping step s as = s' := by
  induction as generalizing s with
  | nil => exact Option.some.inj reach
  | cons a as ih =>
      obtain ⟨mid, taken, reach⟩ := run_cons_eq_some.mp reach
      have first : skipping step s (a :: as) = skipping step mid as := by
        simp [skipping, taken]
      rw [first, ih reach]

/-- A run that can be evaluated ends in a state with an evaluated property. -/
theorem exists_run {good : S → Prop} [DecidablePred good] {s : S} {as : List A}
    (found : (run step s as).any (fun s' => decide (good s')) = true) :
    ∃ s', run step s as = some s' ∧ good s' := by
  obtain ⟨s', reach, holds⟩ := (Option.any_eq_true _ _).mp found
  exact ⟨s', reach, of_decide_eq_true holds⟩

end Gateway.Machine
