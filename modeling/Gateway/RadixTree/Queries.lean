import Gateway.RadixTree.Memory
import Gateway.RadixTree.Survival

/-!
When two queries match alike.

A gateway fills its tree with sequences of one kind, and looks prefixes up by sequences of
another. `matches_alike_iff` says when that makes no difference, in any tree: the one query
is a prefix of the other, and nothing that may be inserted goes on along the longer one.
-/

namespace Gateway.RadixTree

variable {H B : Type} [DecidableEq H] [DecidableEq B]

/-- Every sequence inserted by the calls is of a kind. -/
def OfKind (kind : List H → Prop) (ops : List (Op H B)) : Prop := ∀ h ∈ inserted ops, kind h

/-- Two queries are credited alike, for every backend. -/
def MatchesAlike (t : RadixTree H B) (as bs : List H) : Prop :=
  ∀ b, (t.matchPrefix as).getD b 0 = (t.matchPrefix bs).getD b 0

/-- Whatever may be inserted leaves `as` no later than `bs` ends. -/
def LeadsNowhere (kind : List H → Prop) (as bs : List H) : Prop :=
  bs <+: as ∧ ∀ h, kind h → as.take (bs.length + 1) <+: h → as.length ≤ bs.length

variable {kind : List H → Prop} {as bs : List H}

/-- The match in a tree into which one sequence was inserted. -/
theorem longestPrefix_singleton (h : List H) (b : B) (q : List H) :
    LongestPrefix [h] q
      (((runOps (blocksOf [h]).card [.insert h b]).matchPrefix q).getD b 0) := by
  have only : insertedFor [(h, b)] b = [h] := by simp [insertedFor]
  have spec := longestPrefix_inserts (blocksOf [h]).card [(h, b)] b (by rw [only]) q
  rwa [only] at spec

omit [DecidableEq H] in
theorem take_eq_of_part (part : bs <+: as) {i : Nat} (within : i ≤ bs.length) :
    as.take i = bs.take i := by
  obtain ⟨rest, rfl⟩ := part
  exact List.take_append_of_le_length within

/-- Every tree that the calls can build credits the queries alike. -/
theorem LeadsNowhere.matchesAlike (nowhere : LeadsNowhere kind as bs) (cap : Int)
    {ops : List (Op H B)} (own : OfKind kind ops) : MatchesAlike (runOps cap ops) as bs := by
  intro b
  obtain ⟨part, ending⟩ := nowhere
  obtain ⟨path, inv, stored⟩ := runOps_stored cap ops
  obtain ⟨m, longest, entry⟩ := inv.matchPrefix as b
  obtain ⟨m', longest', entry'⟩ := inv.matchPrefix bs b
  rw [getD_matchPrefix entry, getD_matchPrefix entry']
  have shorter := part.length_le
  have le := longest.le
  have le' := longest'.le
  rcases Nat.lt_trichotomy m m' with less | same | less
  · -- a block of `bs` is one of `as`
    have held := longest'.held (m + 1) (Nat.succ_pos m) less
    rw [List.nil_append, ← take_eq_of_part part (by omega)] at held
    exact absurd held (longest.stop (by omega))
  · exact same
  · have held := longest.held (m' + 1) (Nat.succ_pos m') less
    rw [List.nil_append] at held
    rcases le'.lt_or_eq with inside | whole
    · rw [take_eq_of_part part (by omega)] at held
      exact absurd held (longest'.stop inside)
    · -- a block of `as` beyond `bs` was inserted
      rw [whole] at held
      obtain ⟨c, -, covers⟩ := held
      obtain ⟨-, h, member, along⟩ := (stored _).mp ⟨c, covers⟩
      have := ending h (own h member) along
      omega

/-- **When two queries match alike in every tree**, provided one of them may be inserted. -/
theorem matches_alike_iff [Nonempty B] (possible : kind bs) :
    (∀ cap (ops : List (Op H B)), OfKind kind ops → MatchesAlike (runOps cap ops) as bs) ↔
      LeadsNowhere kind as bs := by
  constructor
  · intro alike
    obtain ⟨b⟩ := ‹Nonempty B›
    have after (h : List H) (may : kind h) : ∃ m, LongestPrefix [h] as m ∧
        LongestPrefix [h] bs m := by
      have here := longestPrefix_singleton h b as
      rw [alike _ [.insert h b] (by simpa [OfKind, inserted] using may) b] at here
      exact ⟨_, here, longestPrefix_singleton h b bs⟩
    constructor
    · obtain ⟨m, left, right⟩ := after bs possible
      have all : bs.length ≤ m :=
        right.longest bs.length (Nat.le_refl _) ⟨bs, List.mem_singleton_self _, by simp⟩
      have le := left.le
      rcases left.held with none | ⟨h, member, part⟩
      · rw [List.length_eq_zero_iff.mp (by omega : bs.length = 0)]
        exact List.nil_prefix
      · rw [List.mem_singleton.mp member] at part
        have length := part.length_le
        rw [List.length_take, Nat.min_eq_left le] at length
        have same := part.eq_of_length (by rw [List.length_take]; omega)
        rw [← same]
        exact List.take_prefix m as
    · intro h may along
      obtain ⟨m, left, right⟩ := after h may
      by_contra longer
      have further := left.longest (bs.length + 1) (by omega)
        ⟨h, List.mem_singleton_self h, along⟩
      have := right.le
      omega
  · intro nowhere cap ops own
    exact nowhere.matchesAlike cap own

end Gateway.RadixTree
