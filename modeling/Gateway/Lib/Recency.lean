import Mathlib.Data.Finset.Card
import Mathlib.Data.List.Dedup
import Mathlib.Data.List.DropRight
import Mathlib.Data.List.Nodup
import Mathlib.Data.List.Sublists

/-!
Orders of recent use.

A table lists its keys from the least to the most recently touched; `trace` is the list of all
touches, in order. `Recency keys trace` says that what stands behind a key was touched since. It is
kept when a key is touched (`Recency.touch`) and when keys are dropped (`Recency.sublist`).

`Recency.mem_drop`: so a key with few others touched since is among the last keys of the table.

`recent n trace` is the whole table of a cache of capacity `n`: `recent_append` says that what was
dropped from it earlier makes no difference later, so dropping may wait.

`Trails table trace` is about tables that drop more than they have to: their keys are the ones touched
last. It is kept when keys are touched (`Trails.touch`) and when the oldest are dropped
(`Trails.drop`), and what such a table has, every cache of at least its size has (`Trails.mem_recent`).
-/

namespace Gateway

variable {K : Type} [DecidableEq K]

/-- The keys touched since the last touch of a key, the latest first. -/
def touchedSince (trace : List K) (s : K) : List K := trace.reverse.takeWhile fun k => k ≠ s

theorem touchedSince_of_ne (trace : List K) {s k : K} (other : k ≠ s) :
    touchedSince (trace ++ [k]) s = k :: touchedSince trace s := by
  simp [touchedSince, other]

/-- What stands behind a key was touched after it. -/
def Recency (keys trace : List K) : Prop :=
  ∀ s k, [s, k].Sublist keys → k ∈ touchedSince trace s

namespace Recency

variable {keys keys' trace : List K}

theorem nil (trace : List K) : Recency [] trace := by
  intro s k behind
  cases behind

theorem sublist (recency : Recency keys trace) (sub : keys'.Sublist keys) : Recency keys' trace :=
  fun s k behind => recency s k (behind.trans sub)

theorem touch (recency : Recency keys trace) {s : K} (fresh : s ∉ keys) :
    Recency (keys ++ [s]) (trace ++ [s]) := by
  intro a k behind
  obtain ⟨first, second, parts, front, back⟩ := List.sublist_append_iff.mp behind
  -- the last key of the pair is the one touched now, or both were there before
  rcases List.sublist_singleton.mp back with rfl | rfl
  · rw [List.append_nil] at parts
    subst parts
    have other : s ≠ a := by
      rintro rfl
      exact fresh (front.subset List.mem_cons_self)
    rw [touchedSince_of_ne trace other]
    exact List.mem_cons_of_mem _ (recency a k front)
  · obtain ⟨rfl, last⟩ := List.append_inj' (show [a] ++ [k] = first ++ [s] from parts) rfl
    obtain rfl := List.singleton_inj.mp last
    have other : k ≠ a := by
      rintro rfl
      exact fresh (front.subset List.mem_cons_self)
    rw [touchedSince_of_ne trace other]
    exact List.mem_cons_self

/-- **A key with fewer than `n` others touched since** is among the last `n` keys. -/
theorem mem_drop (recency : Recency keys trace) (nodup : keys.Nodup) {s : K} (member : s ∈ keys)
    {n : ℕ} (few : (touchedSince trace s).toFinset.card < n) :
    s ∈ keys.drop (keys.length - n) := by
  obtain ⟨before, after, rfl⟩ := List.append_of_mem member
  have behind : after.toFinset ⊆ (touchedSince trace s).toFinset := by
    intro k inside
    rw [List.mem_toFinset] at inside ⊢
    apply recency s k
    have pair : [s, k].Sublist (s :: after) := (List.singleton_sublist.mpr inside).cons_cons s
    exact pair.trans (List.sublist_append_right before _)
  have distinct : after.Nodup := (List.nodup_cons.mp (List.nodup_append.mp nodup).2.1).2
  have short : after.length < n := by
    rw [← List.toFinset_card_of_nodup distinct]
    exact (Finset.card_le_card behind).trans_lt few
  have kept : (before ++ s :: after).length - n ≤ before.length := by
    rw [List.length_append, List.length_cons]
    omega
  rw [List.drop_append_of_le_length kept]
  exact List.mem_append_right _ List.mem_cons_self

end Recency

/-! ### The keys of a bounded table -/

/-- The `n` keys touched last, in the order of their last touches. -/
def recent (n : ℕ) (trace : List K) : List K := trace.dedup.rtake n

omit [DecidableEq K] in
theorem rtake_append_of_le_length {front back : List K} {n : ℕ} (enough : n ≤ back.length) :
    (front ++ back).rtake n = back.rtake n := by
  have skipped : (front ++ back).length - n = front.length + (back.length - n) := by
    rw [List.length_append]
    omega
  rw [List.rtake, List.rtake, skipped, List.drop_length_add_append]

/-- Only the last touches matter. -/
theorem dedup_dedup_append (xs ys : List K) : (xs.dedup ++ ys).dedup = (xs ++ ys).dedup := by
  induction xs with
  | nil => rfl
  | cons x xs ih =>
      by_cases again : x ∈ xs
      · rw [List.dedup_cons_of_mem again, ih, List.cons_append,
          List.dedup_cons_of_mem (List.mem_append_left ys again)]
      · rw [List.dedup_cons_of_notMem again, List.cons_append, List.cons_append]
        by_cases later : x ∈ ys
        · rw [List.dedup_cons_of_mem (List.mem_append_right _ later), ih,
            List.dedup_cons_of_mem (List.mem_append_right _ later)]
        · have fresh : x ∉ xs.dedup ++ ys := by simp [again, later]
          have fresh' : x ∉ xs ++ ys := by simp [again, later]
          rw [List.dedup_cons_of_notMem fresh, ih, List.dedup_cons_of_notMem fresh']

/-- Nor do earlier touches of a key matter. -/
theorem dedup_filter_ne_append (k : K) (xs ys : List K) :
    (xs.filter (· ≠ k) ++ k :: ys).dedup = (xs ++ k :: ys).dedup := by
  induction xs with
  | nil => rfl
  | cons x xs ih =>
      rw [List.cons_append]
      by_cases same : x = k
      · have again : x ∈ xs ++ k :: ys := by simp [same]
        rw [List.filter_cons_of_neg (by simp [same]), ih, List.dedup_cons_of_mem again]
      · have members : x ∈ xs.filter (· ≠ k) ++ k :: ys ↔ x ∈ xs ++ k :: ys := by simp [same]
        rw [List.filter_cons_of_pos (by simp [same]), List.cons_append, List.dedup_cons,
          List.dedup_cons, ih]
        simp only [members]

/-- Keys that were dropped before are not missed. -/
theorem recent_append (n : ℕ) (xs ys : List K) :
    recent n (recent n xs ++ ys) = recent n (xs ++ ys) := by
  unfold recent
  rw [← dedup_dedup_append xs]
  have nodup := xs.nodup_dedup
  generalize xs.dedup = table at nodup
  by_cases short : table.length ≤ n
  · have whole : table.rtake n = table := by
      rw [List.rtake, Nat.sub_eq_zero_of_le short, List.drop_zero]
    rw [whole]
  · -- the dropped keys stand before at least `n` others
    have parts : table = table.take (table.length - n) ++ table.rtake n :=
      (List.take_append_drop _ _).symm
    have kept : (table.rtake n).length = n := by
      rw [List.rtake, List.length_drop]
      omega
    have distinct : (table.rtake n).Nodup := (List.drop_sublist _ _).nodup nodup
    have enough : n ≤ (table.rtake n ++ ys).dedup.length := by
      have inside : table.rtake n ⊆ (table.rtake n ++ ys).dedup :=
        fun k member => List.mem_dedup.mpr (List.mem_append_left _ member)
      calc n = (table.rtake n).length := kept.symm
        _ ≤ (table.rtake n ++ ys).dedup.length := (distinct.subperm inside).length_le
    obtain ⟨front, whole⟩ : (table.rtake n ++ ys).dedup <:+ (table ++ ys).dedup := by
      conv_rhs => rw [parts, List.append_assoc, List.dedup_append]
      exact List.suffix_union_right _ _
    rw [← whole, rtake_append_of_le_length enough]

theorem nodup_recent (n : ℕ) (trace : List K) : (recent n trace).Nodup :=
  (List.drop_sublist _ _).nodup trace.nodup_dedup

theorem length_recent_le (n : ℕ) (trace : List K) : (recent n trace).length ≤ n := by
  rw [recent, List.rtake, List.length_drop]
  omega

/-- A new key is put behind the others, before the oldest is dropped. -/
theorem rtake_recent_concat {n : ℕ} {trace : List K} {k : K} (fresh : k ∉ recent n trace) :
    (recent n trace ++ [k]).rtake n = recent n (trace ++ [k]) := by
  have distinct : (recent n trace ++ [k]).Nodup := by
    rw [← List.concat_eq_append, List.nodup_concat]
    exact ⟨fresh, nodup_recent n trace⟩
  rw [← recent_append n trace [k]]
  show _ = (recent n trace ++ [k]).dedup.rtake n
  rw [distinct.dedup]

/-- A key of the table is put behind the others. -/
theorem recent_touch {n : ℕ} {trace : List K} {k : K} (member : k ∈ recent n trace) :
    (recent n trace).erase k ++ [k] = recent n (trace ++ [k]) := by
  have distinct := nodup_recent n trace
  have moved : (recent n trace ++ [k]).dedup = (recent n trace).erase k ++ [k] := by
    rw [← dedup_filter_ne_append, distinct.erase_eq_filter]
    have apart : ((recent n trace).filter (· ≠ k) ++ [k]).Nodup := by
      rw [← List.concat_eq_append, List.nodup_concat]
      exact ⟨by simp, distinct.filter _⟩
    rw [apart.dedup]
    exact congrArg (· ++ [k]) (List.filter_congr fun x _ => by simp [bne, beq_eq_decide])
  have short : ((recent n trace).erase k ++ [k]).length ≤ n := by
    rw [List.length_append, List.length_erase_of_mem member, List.length_singleton]
    have some_key := List.length_pos_of_mem member
    have fits := length_recent_le n trace
    omega
  rw [← recent_append n trace [k]]
  show _ = (recent n trace ++ [k]).dedup.rtake n
  rw [moved, List.rtake, Nat.sub_eq_zero_of_le short, List.drop_zero]

/-! ### Tables that drop more -/

/-- The keys of the table are the ones touched last. A table may list a key again. -/
def Trails (table trace : List K) : Prop := table.dedup <:+ trace.dedup

theorem dedup_filter (p : K → Bool) (xs : List K) : (xs.filter p).dedup = xs.dedup.filter p := by
  induction xs with
  | nil => rfl
  | cons x xs ih =>
      by_cases again : x ∈ xs
      · rw [List.dedup_cons_of_mem again]
        by_cases kept : p x = true
        · rw [List.filter_cons_of_pos kept,
            List.dedup_cons_of_mem (List.mem_filter.mpr ⟨again, kept⟩), ih]
        · rw [List.filter_cons_of_neg kept, ih]
      · rw [List.dedup_cons_of_notMem again]
        by_cases kept : p x = true
        · have fresh : x ∉ xs.filter p := fun inside => again (List.mem_filter.mp inside).1
          rw [List.filter_cons_of_pos kept, List.dedup_cons_of_notMem fresh,
            List.filter_cons_of_pos kept, ih]
        · rw [List.filter_cons_of_neg kept, List.filter_cons_of_neg kept, ih]

/-- Touched keys go behind the others. -/
theorem dedup_append_eq (xs ys : List K) :
    (xs ++ ys).dedup = (xs.filter fun x => decide (x ∉ ys)).dedup ++ ys.dedup := by
  induction xs with
  | nil => rfl
  | cons x xs ih =>
      rw [List.cons_append]
      by_cases later : x ∈ ys
      · rw [List.dedup_cons_of_mem (List.mem_append_right xs later), ih,
          List.filter_cons_of_neg (by simpa using later)]
      · have kept : decide (x ∉ ys) = true := decide_eq_true later
        rw [List.filter_cons_of_pos (p := fun x => decide (x ∉ ys)) kept]
        by_cases again : x ∈ xs
        · rw [List.dedup_cons_of_mem (List.mem_append_left ys again), ih,
            List.dedup_cons_of_mem (List.mem_filter.mpr ⟨again, kept⟩)]
        · have fresh : x ∉ xs.filter fun x => decide (x ∉ ys) :=
            fun inside => again (List.mem_filter.mp inside).1
          have new : x ∉ xs ++ ys := by simp [again, later]
          rw [List.dedup_cons_of_notMem new, ih, List.dedup_cons_of_notMem fresh, List.cons_append]

namespace Trails

variable {table table' trace : List K}

theorem nil (trace : List K) : Trails [] trace := List.nil_suffix

/-- Touching `ys` may move any of them, wherever they stood. -/
theorem touch (trails : Trails table trace) {ys : List K}
    (others : (table'.filter fun x => decide (x ∉ ys)) = table.filter fun x => decide (x ∉ ys)) :
    Trails (table' ++ ys) (trace ++ ys) := by
  obtain ⟨older, parts⟩ := trails
  refine ⟨older.filter fun x => decide (x ∉ ys), ?_⟩
  rw [dedup_append_eq table', dedup_append_eq trace, others, ← List.append_assoc, dedup_filter,
    dedup_filter, ← parts, List.filter_append]

theorem drop (trails : Trails table trace) (older : table' <:+ table) : Trails table' trace := by
  obtain ⟨front, rfl⟩ := older
  refine List.IsSuffix.trans ?_ trails
  rw [dedup_append_eq]
  exact List.suffix_append _ _

/-- **What the table has, a cache of its size has.** -/
theorem mem_recent (trails : Trails table trace) {n : ℕ} (small : table.length ≤ n) {k : K}
    (member : k ∈ table) : k ∈ recent n trace := by
  obtain ⟨older, parts⟩ := trails
  have short : table.dedup.length ≤ n := (List.dedup_sublist table).length_le.trans small
  have kept : (older ++ table.dedup).length - n ≤ older.length := by
    rw [List.length_append]
    omega
  rw [recent, ← parts, List.rtake, List.drop_append_of_le_length kept]
  exact List.mem_append_right _ (List.mem_dedup.mpr member)

end Trails

end Gateway
