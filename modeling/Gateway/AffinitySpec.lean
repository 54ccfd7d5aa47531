import Gateway.AffinityRouting
import Gateway.Lib.Recency

/-!
What the affinity indices remember.

`record` touches all the ids of a batch and only then evicts. The ids cached for a backend
are nevertheless those of a cache that evicts after every id: the last distinct ones of
everything recorded for that backend (`recordAll_cached`).
-/

namespace Gateway

/-- Touching keys moves them behind the others, in the order of their last touches. -/
theorem Dict.keys_foldl_setLast {K V : Type} [DecidableEq K] (v : V) (ks : List K)
    (d : Dict K V) : (ks.foldl (fun d k => d.setLast k v) d).keys = (d.keys ++ ks).dedup := by
  induction ks generalizing d with
  | nil =>
      have distinct : d.keys.Nodup := d.nodup
      rw [List.foldl_nil, List.append_nil, distinct.dedup]
  | cons k ks ih =>
      rw [List.foldl_cons, ih, keys_setLast, keys_erase, List.append_assoc,
        List.singleton_append, dedup_filter_ne_append]

namespace AffinityIndex

/-- The ids cached for a backend, least recently used first. -/
def cached (x : AffinityIndex) (b : String) : List Nat := (x.byBackend.getD b .empty).keys

/-- A sequence of `record` calls. -/
def recordAll (x : AffinityIndex) (calls : List (String × List Nat)) : AffinityIndex :=
  calls.foldl (fun x call => x.record call.1 call.2) x

/-- The batches recorded for a backend, one after the other. -/
def served (b : String) (calls : List (String × List Nat)) : List Nat :=
  (calls.filter fun call => call.1 = b).flatMap Prod.snd

theorem isCached_iff {x : AffinityIndex} {b : String} {id : Nat} :
    x.isCached b id = true ↔ id ∈ x.cached b := by
  rw [isCached, cached, Dict.getD]
  cases x.byBackend.get? b with
  | none => simp [Dict.empty, Dict.keys]
  | some c => rw [Dict.mem_keys_iff]; rfl

theorem cached_record (x : AffinityIndex) (b b' : String) (ids : List Nat) :
    (x.record b ids).cached b' =
      if b' = b then recent x.capacity.toNat (x.cached b ++ ids) else x.cached b' := by
  rw [record, cached, Dict.getD_set]
  split
  · rw [Dict.keys_keepLast, Dict.keys_foldl_setLast]
    rfl
  · rfl

@[simp] theorem capacity_recordAll (x : AffinityIndex) (calls : List (String × List Nat)) :
    (x.recordAll calls).capacity = x.capacity := by
  induction calls generalizing x with
  | nil => rfl
  | cons call calls ih => exact ih (x.record call.1 call.2)

/-- Whatever the calls were, a backend has the last distinct ids of its own batches. -/
theorem cached_recordAll (capacity : Int) (calls : List (String × List Nat)) (b : String) :
    ((init capacity).recordAll calls).cached b = recent capacity.toNat (served b calls) := by
  -- on the last call: what the earlier ones dropped is not missed
  induction calls using List.reverseRecOn with
  | nil =>
      have nothing : recent capacity.toNat ([] : List Nat) = [] := by simp [recent]
      exact nothing.symm
  | append_singleton calls call ih =>
      rw [recordAll, List.foldl_concat, ← recordAll, cached_record, capacity_recordAll]
      by_cases same : b = call.1
      · subst same
        have more : served call.1 (calls ++ [call]) = served call.1 calls ++ call.2 := by
          simp [served]
        rw [if_pos rfl, ih, more]
        exact recent_append _ _ _
      · have others : served b (calls ++ [call]) = served b calls := by
          simp [served, Ne.symm same]
        rw [if_neg same, ih, others]

/-- Both indices, after any calls: the cached ids of a backend, that other backends do
not touch them, and what `overlap` counts. -/
theorem recordAll_cached (capacity : Nat) (calls : List (String × List Nat)) (b : String) :
    ((init capacity).recordAll calls).cached b = recent capacity (served b calls) ∧
      (∀ b' ids, b' ≠ b → (((init capacity).recordAll calls).record b' ids).cached b =
        ((init capacity).recordAll calls).cached b) ∧
      ∀ ids, ((init capacity).recordAll calls).overlap b ids =
        ids.countP fun id => id ∈ recent capacity (served b calls) := by
  have exact_ids : ((init capacity).recordAll calls).cached b = recent capacity (served b calls) :=
    cached_recordAll capacity calls b
  refine ⟨exact_ids, ?_, ?_⟩
  · intro b' ids other
    rw [cached_record, if_neg other.symm]
  · intro ids
    refine List.countP_congr fun id _ => ?_
    rw [isCached_iff, exact_ids, decide_eq_true_iff]

/-- A batch longer than the capacity, with a repetition. -/
example : ((init 2).recordAll [("a", [1, 2, 3, 2]), ("b", [7]), ("a", [3, 4])]).cached "a" =
    [3, 4] := by decide

end AffinityIndex

end Gateway
