import Mathlib.Data.Finset.Card
import Mathlib.Order.Bounds.Basic
import Gateway.RadixTree.Runs

/-!
The prefix tree refines a naive table of sequences.

The naive model keeps, for each backend, the list of sequences inserted for it
since it was last removed (`sequences`). Matching a query against it means
comparing the query with every such sequence. As long as the distinct non-empty
prefixes of a backend's sequences (`prefixesOf`) fit in the cap, no eviction
fires, and the path-compressed tree answers every query as the naive table does
(`runOps_refines_sequences`), whatever edges the inserts split and in whatever
order they came.
-/

namespace Gateway.RadixTree

open Gateway.Trie

variable {H B : Type} [DecidableEq H] [DecidableEq B]

/-- One call on the naive table. -/
def sequencesStep (b : B) (seqs : List (List H)) : Op H B → List (List H)
  | .insert h b' => if b' = b then seqs ++ [h] else seqs
  | .remove b' => if b' = b then [] else seqs

/-- The sequences inserted for `b` since its last removal, in order. -/
def sequences (ops : List (Op H B)) (b : B) : List (List H) := ops.foldl (sequencesStep b) []

/-- The distinct non-empty prefixes of some sequences. -/
def prefixesOf (seqs : List (List H)) : Finset (List H) :=
  (seqs.flatMap List.inits).toFinset.erase []

theorem mem_prefixesOf {seqs : List (List H)} {p : List H} :
    p ∈ prefixesOf seqs ↔ p ≠ [] ∧ ∃ s ∈ seqs, p <+: s := by
  simp [prefixesOf]

omit [DecidableEq H] in
@[simp] theorem sequences_snoc (ops : List (Op H B)) (op : Op H B) (b : B) :
    sequences (ops ++ [op]) b = sequencesStep b (sequences ops b) op := by
  simp [sequences]

/-- The tree holds exactly the prefixes of the sequences of the naive table. -/
def HoldsSequences (t : RadixTree H B) (path : NodeId → List H) (ops : List (Op H B)) : Prop :=
  ∀ b p, Held t path b p ↔ p ≠ [] ∧ ∃ s ∈ sequences ops b, p <+: s

theorem HoldsSequences.heldBlocks {t : RadixTree H B} {path : NodeId → List H}
    {ops : List (Op H B)} (inv : Inv t path) (holds : HoldsSequences t path ops) (b : B) :
    t.heldBlocks b = (prefixesOf (sequences ops b)).card := by
  rw [inv.heldBlocks_eq]
  congr 1
  ext p
  rw [inv.mem_heldSet, holds, mem_prefixesOf]

theorem HoldsSequences.touch {t : RadixTree H B} {path : NodeId → List H}
    {ops : List (Op H B)} (inv : Inv t path) (holds : HoldsSequences t path ops)
    (h : List H) (b : B) :
    ∃ path', Inv (t.touch h b) path' ∧
      HoldsSequences (t.touch h b) path' (ops ++ [.insert h b]) := by
  obtain ⟨path', inv', held⟩ := inv.touch h b
  refine ⟨path', inv', fun b' p => ?_⟩
  rw [held, holds, sequences_snoc]
  by_cases same : b' = b
  · subst same
    simp only [sequencesStep, if_true, List.mem_append, List.mem_singleton]
    constructor
    · rintro (⟨nonempty, s, member, on⟩ | ⟨_, nonempty, on⟩)
      · exact ⟨nonempty, s, .inl member, on⟩
      · exact ⟨nonempty, h, .inr rfl, on⟩
    · rintro ⟨nonempty, s, member | rfl, on⟩
      · exact .inl ⟨nonempty, s, member, on⟩
      · exact .inr ⟨trivial, nonempty, on⟩
  · simp [sequencesStep, same, Ne.symm same]

/-- A call evicts nothing: after an insert the blocks of its backend fit in the cap. -/
def Spares (t : RadixTree H B) : Op H B → Prop
  | .insert h b => h = [] ∨ ((t.touch h b).heldBlocks b : Int) ≤ t.cap
  | .remove _ => True

/-- A call evicts nothing if the prefixes of the naive table fit. -/
theorem HoldsSequences.spares {t : RadixTree H B} {path : NodeId → List H} {ops : List (Op H B)}
    (inv : Inv t path) (holds : HoldsSequences t path ops) (op : Op H B)
    (fits : ∀ b, ((prefixesOf (sequences (ops ++ [op]) b)).card : Int) ≤ t.cap) : t.Spares op := by
  cases op with
  | insert h b =>
      obtain ⟨path', inv', holds'⟩ := holds.touch inv h b
      right
      rw [holds'.heldBlocks inv']
      exact fits b
  | remove b => trivial

/-- One call that evicts nothing keeps the correspondence. -/
theorem HoldsSequences.apply {t : RadixTree H B} {path : NodeId → List H}
    {ops : List (Op H B)} (inv : Inv t path) (holds : HoldsSequences t path ops) (op : Op H B)
    (spares : t.Spares op) :
    ∃ path', Inv (t.apply op) path' ∧ HoldsSequences (t.apply op) path' (ops ++ [op]) := by
  cases op with
  | insert h b =>
      obtain ⟨path', inv', holds'⟩ := holds.touch inv h b
      by_cases empty : h.isEmpty = true
      · have nil : h = [] := List.isEmpty_iff.mp empty
        subst nil
        refine ⟨path, inv, fun b' p => ?_⟩
        show Held t path b' p ↔ _
        rw [holds, sequences_snoc]
        by_cases same : b' = b
        · subst same
          simp only [sequencesStep, if_true, List.mem_append, List.mem_singleton]
          refine and_congr_right fun nonempty => ⟨fun ⟨s, member, on⟩ => ⟨s, .inl member, on⟩, ?_⟩
          rintro ⟨s, member | rfl, on⟩
          · exact ⟨s, member, on⟩
          · exact absurd (List.prefix_nil.mp on) nonempty
        · simp [sequencesStep, Ne.symm same]
      · have kept : (t.touch h b).evict b = t.touch h b := by
          refine evict_eq_self ?_
          rw [cap_touch]
          exact spares.resolve_left fun nil => empty (List.isEmpty_iff.mpr nil)
        refine ⟨path', ?_, ?_⟩
        · simpa [RadixTree.apply, RadixTree.insert, empty, kept] using inv'
        · simpa [RadixTree.apply, RadixTree.insert, empty, kept] using holds'
  | remove b =>
      refine ⟨path, inv.removeBackend b, fun b' p => ?_⟩
      show Held (t.removeBackend b) path b' p ↔ _
      rw [held_removeBackend, holds, sequences_snoc]
      by_cases same : b' = b
      · simp [sequencesStep, same]
      · simp [sequencesStep, same, Ne.symm same]

/-- At no point of the run do the prefixes of a backend's sequences exceed the cap. -/
def Fits (cap : Int) (ops : List (Op H B)) : Prop :=
  ∀ done, done <+: ops → ∀ b, ((prefixesOf (sequences done b)).card : Int) ≤ cap

theorem runOps_holdsSequences {cap : Int} {ops : List (Op H B)} (fits : Fits cap ops) :
    ∃ path, Inv (runOps cap ops) path ∧ HoldsSequences (runOps cap ops) path ops := by
  induction ops using List.reverseRecOn with
  | nil =>
      refine ⟨_, init_inv cap, fun b p => ?_⟩
      simp [sequences, Held, runOps, init]
  | append_singleton ops op ih =>
      obtain ⟨path, inv, holds⟩ := ih fun done earlier =>
        fits done (earlier.trans (List.prefix_append _ _))
      rw [runOps_snoc]
      refine holds.apply inv op (holds.spares inv op fun b => ?_)
      rw [cap_runOps]
      exact fits _ (List.prefix_refl _) b

/-- Matching when exactly the prefixes of some sequences are held. -/
theorem HoldsSequences.matchPrefix {t : RadixTree H B} {path : NodeId → List H}
    {ops : List (Op H B)} (inv : Inv t path) (holds : HoldsSequences t path ops)
    (q : List H) (b : B) (k : Nat) :
    (t.matchPrefix q).get? b = some k ↔
      0 < k ∧ (∃ s ∈ sequences ops b, commonLen q s = k) ∧
        ∀ s ∈ sequences ops b, commonLen q s ≤ k := by
  obtain ⟨m, longest, value⟩ := inv.matchPrefix q b
  have bound : ∀ s ∈ sequences ops b, commonLen q s ≤ m := by
    intro s member
    by_contra longer
    have short : m < q.length := lt_of_lt_of_le (not_le.mp longer) (commonLen_le_left q s)
    refine longest.stop short ((holds b _).mpr ⟨?_, s, member, ?_⟩)
    · cases q with
      | nil => simp at short
      | cons x q => simp
    · have := take_commonLen q s
      rw [List.nil_append]
      exact (List.take_prefix_take_left (not_le.mp longer)).trans this
  have reached : 0 < m → ∃ s ∈ sequences ops b, commonLen q s = m := by
    intro pos
    obtain ⟨-, s, member, on⟩ := (holds b _).mp (longest.held m pos (Nat.le_refl _))
    refine ⟨s, member, Nat.le_antisymm (bound s member) ?_⟩
    have taken := List.take_prefix m q
    have := le_commonLen taken (by simpa using on)
    rwa [List.length_take, Nat.min_eq_left longest.le] at this
  rw [value]
  constructor
  · intro h
    split at h
    · rename_i pos
      cases h
      exact ⟨pos, reached pos, bound⟩
    · cases h
  · rintro ⟨pos, ⟨s, member, rfl⟩, greatest⟩
    have pos_m : 0 < m := Nat.lt_of_lt_of_le pos (bound s member)
    obtain ⟨s', member', rfl⟩ := reached pos_m
    rw [if_pos pos_m, Nat.le_antisymm (greatest s' member') (bound s member)]

/-- Two trees that hold the prefixes of the same sequences answer alike. -/
theorem HoldsSequences.matchPrefix_congr {t t' : RadixTree H B} {path path' : NodeId → List H}
    {ops ops' : List (Op H B)} (inv : Inv t path) (holds : HoldsSequences t path ops)
    (inv' : Inv t' path') (holds' : HoldsSequences t' path' ops') {b : B}
    (same : ∀ s, s ∈ sequences ops b ↔ s ∈ sequences ops' b) (q : List H) :
    (t.matchPrefix q).get? b = (t'.matchPrefix q).get? b := by
  refine Option.ext fun k => ?_
  rw [holds.matchPrefix inv, holds'.matchPrefix inv']
  simp only [same]

theorem commonLen_pos_iff {q s : List H} :
    0 < commonLen q s ↔ ∃ p, p ≠ [] ∧ p <+: q ∧ p <+: s := by
  constructor
  · intro pos
    refine ⟨q.take (commonLen q s), ?_, List.take_prefix _ _, take_commonLen q s⟩
    have := commonLen_le_left q s
    rw [← List.length_pos_iff, List.length_take]
    omega
  · rintro ⟨p, nonempty, pq, ps⟩
    exact Nat.lt_of_lt_of_le (List.length_pos_iff.mpr nonempty) (le_commonLen pq ps)

theorem HoldsSequences.mem_matchPrefix {t : RadixTree H B} {path : NodeId → List H}
    {ops : List (Op H B)} (inv : Inv t path) (holds : HoldsSequences t path ops)
    (q : List H) (b : B) :
    b ∈ (t.matchPrefix q).keys ↔ ∃ s ∈ sequences ops b, ∃ p, p ≠ [] ∧ p <+: q ∧ p <+: s := by
  rw [Dict.mem_keys_iff]
  constructor
  · intro entry
    obtain ⟨k, entry⟩ := Option.isSome_iff_exists.mp entry
    obtain ⟨pos, ⟨s, member, rfl⟩, -⟩ := (holds.matchPrefix inv q b k).mp entry
    exact ⟨s, member, commonLen_pos_iff.mp pos⟩
  · rintro ⟨s, member, shared⟩
    have pos := commonLen_pos_iff.mpr shared
    obtain ⟨m, longest, value⟩ := inv.matchPrefix q b
    have pos_m : 0 < m := by
      by_contra zero
      have zero : m = 0 := Nat.le_zero.mp (not_lt.mp zero)
      subst zero
      have short := Nat.lt_of_lt_of_le pos (commonLen_le_left q s)
      refine longest.stop short ((holds b _).mpr ⟨?_, s, member, ?_⟩)
      · rw [List.nil_append, ← List.length_pos_iff, List.length_take]
        omega
      · exact (List.take_prefix_take_left pos).trans (take_commonLen q s)
    simp [value, pos_m]

/-- **Refinement of the naive table.** On a run in which no eviction fires: a
backend is in `match(q)` exactly when some sequence inserted for it since its last
removal shares a non-empty prefix with `q`; its entry is then the greatest common
prefix length with any such sequence; and `held_blocks` counts the distinct
non-empty prefixes of those sequences. Hence two runs that leave a backend with
the same sequences, in any order and after any edge splits, answer alike. -/
theorem runOps_refines_sequences (cap : Int) (ops : List (Op H B)) (fits : Fits cap ops) :
    (∀ q b, b ∈ ((runOps cap ops).matchPrefix q).keys ↔
        ∃ s ∈ sequences ops b, ∃ p, p ≠ [] ∧ p <+: q ∧ p <+: s) ∧
      (∀ q b k, ((runOps cap ops).matchPrefix q).get? b = some k →
        IsGreatest {n | ∃ s ∈ sequences ops b, n = commonLen q s} k) ∧
      (∀ b, (runOps cap ops).heldBlocks b = (prefixesOf (sequences ops b)).card) ∧
      (∀ ops', Fits cap ops' → ∀ b, (∀ s, s ∈ sequences ops b ↔ s ∈ sequences ops' b) →
        (∀ q, ((runOps cap ops).matchPrefix q).get? b =
            ((runOps cap ops').matchPrefix q).get? b) ∧
          (runOps cap ops).heldBlocks b = (runOps cap ops').heldBlocks b) := by
  obtain ⟨path, inv, holds⟩ := runOps_holdsSequences fits
  refine ⟨?_, ?_, fun b => holds.heldBlocks inv b, ?_⟩
  · exact fun q b => holds.mem_matchPrefix inv q b
  · intro q b k entry
    obtain ⟨-, ⟨s, member, same⟩, greatest⟩ := (holds.matchPrefix inv q b k).mp entry
    refine ⟨⟨s, member, same.symm⟩, ?_⟩
    rintro n ⟨s', member', rfl⟩
    exact greatest s' member'
  · intro ops' fits' b same
    obtain ⟨path', inv', holds'⟩ := runOps_holdsSequences fits'
    refine ⟨holds.matchPrefix_congr inv inv' holds' same, ?_⟩
    · refine inv.heldBlocks_congr inv' b b fun p => ?_
      rw [holds, holds']
      simp only [same]

/-- A run with a split, a shared node and a removal, within its cap. -/
theorem runOps_refines_sequences_split :
    let ops : List (Op Nat String) :=
      [.insert [1, 2, 3] "b1", .insert [1, 2, 9] "b2", .insert [7] "b1", .remove "b2",
        .insert [1, 5] "b2"]
    Fits 4 ops ∧ (runOps 4 ops).heldBlocks "b1" = (prefixesOf (sequences ops "b1")).card ∧
      ((runOps 4 ops).matchPrefix [1, 2, 8]).get? "b1" = some 2 ∧
      ((runOps 4 ops).matchPrefix [1, 2, 8]).get? "b2" = some 1 := by
  intro ops
  have at_b1 : ∀ done ∈ ops.inits, ((prefixesOf (sequences done "b1")).card : Int) ≤ 4 := by
    decide
  have at_b2 : ∀ done ∈ ops.inits, ((prefixesOf (sequences done "b2")).card : Int) ≤ 4 := by
    decide
  have fits : Fits 4 ops := by
    intro done earlier b
    have member := (List.mem_inits done ops).mpr earlier
    by_cases h1 : b = "b1"
    · exact h1 ▸ at_b1 done member
    · by_cases h2 : b = "b2"
      · exact h2 ▸ at_b2 done member
      · have none : sequences done b = [] := by
          simp only [ops, List.inits, List.map_cons, List.map_nil, List.mem_cons,
            List.not_mem_nil, or_false] at member
          rcases member with rfl | rfl | rfl | rfl | rfl | rfl <;>
            simp [sequences, sequencesStep, Ne.symm h1, Ne.symm h2]
        simp [none, prefixesOf]
  exact ⟨fits, (runOps_refines_sequences 4 ops fits).2.2.1 "b1", by decide, by decide⟩

end Gateway.RadixTree
