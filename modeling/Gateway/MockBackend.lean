import Gateway.Lib.Dict
import Gateway.Lib.Recency

/-!
The prefix cache of a backend, from `mock_backend/app.py`.

The node keeps the hashes of the blocks it has computed, least recently used first, and drops
the oldest when there are more than `cap_blocks`. `process` counts the leading blocks of a
prompt that are warm, and then touches all of them.

* `cached_processAll`: after any prompts the node has the `cap_blocks` hashes used last.
* `le_hits`: at least `k` blocks are warm as soon as the first `k` hashes are cached.
-/

namespace Gateway

/-- The variables `cap_blocks` and `cache` of `create_app`. -/
structure MockBackend (H : Type) where
  capBlocks : Int
  cache : Dict H Unit

namespace MockBackend

variable {H : Type} [DecidableEq H]

/-- A node that has served nothing. -/
def init (capBlocks : Int) : MockBackend H := ⟨capBlocks, .empty⟩

/-- The first loop of `process`: the leading hashes that are cached. -/
def hits (m : MockBackend H) : List H → Nat
  | [] => 0
  | h :: rest => if m.cache.contains h then m.hits rest + 1 else 0

/-- One round of the second loop of `process`. -/
def keep (m : MockBackend H) (h : H) : MockBackend H :=
  if m.cache.contains h then
    { m with cache := m.cache.setLast h () }
  else
    let cache := m.cache.set h ()
    { m with cache := if m.capBlocks < cache.keys.length then cache.popFirst else cache }

/-- `process(hashes)`: the warm blocks, and the node afterwards. -/
def process (m : MockBackend H) (hashes : List H) : Nat × MockBackend H :=
  (m.hits hashes, hashes.foldl keep m)

/-- The prompts a node has served, one after the other. -/
def processAll (m : MockBackend H) (prompts : List (List H)) : MockBackend H :=
  prompts.foldl (fun m hashes => (m.process hashes).2) m

/-! ### What a node has cached -/

theorem capBlocks_keep (m : MockBackend H) (h : H) : (m.keep h).capBlocks = m.capBlocks := by
  unfold keep
  split <;> rfl

/-- One block: the last `cap_blocks` of the keys and the block. -/
theorem keys_keep {m : MockBackend H} (fits : m.cache.keys.length ≤ m.capBlocks.toNat) (h : H) :
    (m.keep h).cache.keys = recent m.capBlocks.toNat (m.cache.keys ++ [h]) := by
  have distinct : m.cache.keys.Nodup := m.cache.nodup
  have touched : (m.cache.keys ++ [h]).dedup = m.cache.keys.filter (· ≠ h) ++ [h] := by
    rw [dedup_append_eq, dedup_filter, distinct.dedup]
    simp
  rw [recent, touched, List.rtake, keep, Dict.contains]
  by_cases member : h ∈ m.cache.keys
  · have again : (m.cache.setLast h ()).keys.length = m.cache.keys.length :=
      Dict.length_keys_setLast member ()
    rw [Dict.keys_setLast, Dict.keys_erase] at again
    rw [if_pos (Dict.mem_keys_iff.mp member), again, Nat.sub_eq_zero_of_le fits, List.drop_zero,
      Dict.keys_setLast, Dict.keys_erase]
  · have others : m.cache.keys.filter (· ≠ h) = m.cache.keys := by
      refine List.filter_eq_self.mpr fun k inside => decide_eq_true ?_
      rintro rfl
      exact member inside
    have absent : ¬ (m.cache.get? h).isSome = true := fun found => member (Dict.mem_keys_iff.mpr found)
    rw [if_neg absent, others]
    dsimp only
    rw [Dict.keys_set_of_notMem member]
    split
    · rename_i full
      -- one too many: the oldest goes
      have excess : (m.cache.keys ++ [h]).length - m.capBlocks.toNat = 1 := by
        rw [List.length_append, List.length_singleton] at full ⊢
        push_cast at full
        omega
      rw [excess, Dict.keys_popFirst, Dict.keys_set_of_notMem member, List.drop_one]
    · rename_i room
      have under : (m.cache.keys ++ [h]).length - m.capBlocks.toNat = 0 := by
        omega
      rw [under, List.drop_zero, Dict.keys_set_of_notMem member]

theorem length_recent_le (n : ℕ) (trace : List H) : (recent n trace).length ≤ n := by
  rw [recent, List.rtake, List.length_drop]
  omega

/-- All the blocks of a prompt. -/
theorem keys_foldl_keep {m : MockBackend H} {trace : List H}
    (before : m.cache.keys = recent m.capBlocks.toNat trace) (hashes : List H) :
    (hashes.foldl keep m).capBlocks = m.capBlocks ∧
      (hashes.foldl keep m).cache.keys = recent m.capBlocks.toNat (trace ++ hashes) := by
  induction hashes generalizing m trace with
  | nil =>
      rw [List.append_nil]
      exact ⟨rfl, before⟩
  | cons h rest ih =>
      have fits : m.cache.keys.length ≤ m.capBlocks.toNat := by
        rw [before]
        exact length_recent_le _ _
      have first : (m.keep h).cache.keys = recent (m.keep h).capBlocks.toNat (trace ++ [h]) := by
        rw [keys_keep fits, before, recent_append, capBlocks_keep]
      obtain ⟨cap, keys⟩ := ih first
      rw [capBlocks_keep] at cap keys
      rw [List.foldl_cons, cap, keys, List.append_assoc, List.singleton_append]
      exact ⟨rfl, rfl⟩

/-- **A node has the blocks used last.** -/
theorem cached_processAll (capBlocks : Int) (prompts : List (List H)) :
    ((init capBlocks).processAll prompts).cache.keys = recent capBlocks.toNat prompts.flatten := by
  have all : ((init capBlocks).processAll prompts).capBlocks = capBlocks ∧
      ((init capBlocks).processAll prompts).cache.keys =
        recent capBlocks.toNat prompts.flatten := by
    induction prompts using List.reverseRecOn with
    | nil => exact ⟨rfl, by simp [processAll, init, Dict.empty, Dict.keys, recent, List.rtake]⟩
    | append_singleton prompts hashes ih =>
        rw [processAll, List.foldl_concat, ← processAll, List.flatten_concat]
        generalize (init capBlocks).processAll prompts = m at ih ⊢
        obtain ⟨rfl, keys⟩ := ih
        exact keys_foldl_keep keys hashes
  exact all.2

/-! ### Counting the warm blocks -/

theorem hits_le_length (m : MockBackend H) (hashes : List H) : m.hits hashes ≤ hashes.length := by
  induction hashes with
  | nil => exact Nat.le_refl _
  | cons h rest ih =>
      rw [hits, List.length_cons]
      split
      · exact Nat.succ_le_succ ih
      · exact Nat.zero_le _

/-- Cached hashes at the front are counted. -/
theorem le_hits {m : MockBackend H} {hashes : List H} {k : Nat} (short : k ≤ hashes.length)
    (cached : ∀ h ∈ hashes.take k, h ∈ m.cache.keys) : k ≤ m.hits hashes := by
  induction hashes generalizing k with
  | nil => exact short
  | cons h rest ih =>
      cases k with
      | zero => exact Nat.zero_le _
      | succ k =>
          rw [List.take_succ_cons, List.forall_mem_cons] at cached
          rw [hits, Dict.contains, if_pos (Dict.mem_keys_iff.mp cached.1)]
          exact Nat.succ_le_succ (ih (Nat.le_of_succ_le_succ short) cached.2)

/-- What is counted is cached. -/
theorem mem_of_hits {m : MockBackend H} {hashes : List H} {h : H}
    (counted : h ∈ hashes.take (m.hits hashes)) : h ∈ m.cache.keys := by
  induction hashes with
  | nil => cases counted
  | cons first rest ih =>
      rw [hits, Dict.contains] at counted
      split at counted
      · rename_i warm
        rw [List.take_succ_cons] at counted
        rcases List.mem_cons.mp counted with rfl | counted
        · exact Dict.mem_keys_iff.mpr warm
        · exact ih counted
      · cases counted

end MockBackend

end Gateway
