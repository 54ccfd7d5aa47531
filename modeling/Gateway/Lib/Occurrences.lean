import Mathlib.Algebra.GroupWithZero.Nat
import Mathlib.Data.List.Infix

/-!
Occurrences of a mark in a sequence that arrives in chunks.

`occurrences` counts the places where a mark begins, overlapping ones too. A mark may be cut
by the end of a chunk, and it may stand elsewhere than at the beginning of a line.

* `occurrences_flatten`: what is counted chunk by chunk misses exactly the marks that are cut.
* `leading_add_inside`: the lines that begin with the mark, and the marks that begin no line,
  are all of them.
-/

namespace Gateway.Occurrences

variable {α : Type} [DecidableEq α] (mark : List α)

/-- How often the mark occurs. -/
def occurrences : List α → Nat
  | [] => 0
  | a :: rest => (if mark.isPrefixOf (a :: rest) then 1 else 0) + occurrences rest

/-! ### Chunks -/

/-- How many marks begin in a chunk and end after it. -/
def cut (after : List α) : List α → Nat
  | [] => 0
  | a :: rest =>
      (if mark.isPrefixOf (a :: rest ++ after) && !mark.isPrefixOf (a :: rest) then 1 else 0) +
        cut after rest

/-- How many marks are cut by the end of a chunk. -/
def straddling : List (List α) → Nat
  | [] => 0
  | chunk :: chunks => cut mark chunks.flatten chunk + straddling chunks

theorem occurrences_append (l after : List α) :
    occurrences mark (l ++ after) = occurrences mark l + cut mark after l + occurrences mark after := by
  induction l with
  | nil => simp [occurrences, cut]
  | cons a rest ih =>
      have longer : mark.isPrefixOf (a :: rest) = true →
          mark.isPrefixOf (a :: rest ++ after) = true := by
        simp only [List.isPrefixOf_iff_prefix]
        intro found
        exact found.trans (List.prefix_append _ _)
      simp only [List.cons_append, occurrences, cut, ih] at longer ⊢
      cases here : mark.isPrefixOf (a :: rest) with
      | true =>
          simp only [longer here, Bool.not_true, Bool.and_false, if_true, Bool.false_eq_true, if_false]
          omega
      | false =>
          simp only [Bool.not_false, Bool.and_true, Bool.false_eq_true, if_false]
          omega

/-- **Counting chunk by chunk.** -/
theorem occurrences_flatten (chunks : List (List α)) :
    occurrences mark chunks.flatten =
      (chunks.map (occurrences mark)).sum + straddling mark chunks := by
  induction chunks with
  | nil => rfl
  | cons chunk chunks ih =>
      simp only [List.flatten_cons, occurrences_append, List.map_cons, List.sum_cons, straddling, ih]
      omega

/-- Cut into single elements, no mark of two or more is left. -/
theorem occurrences_singletons (long : 2 ≤ mark.length) (l : List α) :
    ((l.map fun a => [a]).map (occurrences mark)).sum = 0 := by
  induction l with
  | nil => rfl
  | cons a rest ih =>
      have short : mark.isPrefixOf [a] = false := by
        rw [← Bool.not_eq_true, List.isPrefixOf_iff_prefix]
        intro found
        have := found.length_le
        simp only [List.length_singleton] at this
        omega
      simpa [occurrences, short] using ih

/-! ### Lines -/

variable (eol : α → Bool)

/-- How many lines begin with the mark. -/
def leading (l : List α) : Nat := (l.splitOnP eol).countP fun line => mark.isPrefixOf line

/-- How many marks do not begin a line; `fresh` tells whether a line begins here. -/
def insideFrom : Bool → List α → Nat
  | _, [] => 0
  | fresh, a :: rest =>
      (if !fresh && mark.isPrefixOf (a :: rest) then 1 else 0) + insideFrom (eol a) rest

/-- How many marks do not begin a line. -/
def inside (l : List α) : Nat := insideFrom mark eol true l

variable {mark eol}

/-- A mark that fits in a line is a prefix of what follows exactly if it is one of the line. -/
theorem isPrefixOf_takeWhile (plain : ∀ a ∈ mark, eol a = false) (l : List α) :
    mark.isPrefixOf (l.takeWhile fun a => !eol a) = mark.isPrefixOf l := by
  rw [Bool.eq_iff_iff, List.isPrefixOf_iff_prefix, List.isPrefixOf_iff_prefix]
  constructor
  · intro found
    exact found.trans <| List.takeWhile_prefix _
  · rintro ⟨rest, rfl⟩
    rw [List.takeWhile_append_of_pos]
    · exact List.prefix_append _ _
    · intro a member
      simp [plain a member]

/-- A mark at the beginning of a line is not inside one. -/
theorem insideFrom_false (some_mark : mark ≠ []) (l : List α) :
    insideFrom mark eol false l =
      (if mark.isPrefixOf l then 1 else 0) + insideFrom mark eol true l := by
  cases l with
  | nil =>
      have none_left : mark.isPrefixOf [] = false := by
        rw [← Bool.not_eq_true, List.isPrefixOf_iff_prefix, List.prefix_nil]
        exact some_mark
      simp [insideFrom, none_left]
  | cons a rest => simp [insideFrom]

/-- The first line of a sequence, the others, and the marks that begin none of these. -/
theorem lines_cons (plain : ∀ a ∈ mark, eol a = false) (some_mark : mark ≠ []) (l : List α) :
    ∃ lines, l.splitOnP eol = l.takeWhile (fun a => !eol a) :: lines ∧
      occurrences mark l = lines.countP (fun line => mark.isPrefixOf line) +
        insideFrom mark eol false l := by
  induction l with
  | nil => exact ⟨[], rfl, rfl⟩
  | cons a rest ih =>
      obtain ⟨lines, split, counted⟩ := ih
      rw [List.splitOnP_cons_eq_if_modifyHead, split]
      cases ends : eol a with
      | true =>
          refine ⟨rest.takeWhile (fun a => !eol a) :: lines, by simp [ends], ?_⟩
          rw [insideFrom_false some_mark] at counted
          simp only [List.countP_cons, isPrefixOf_takeWhile plain, occurrences, insideFrom, ends,
            counted, Bool.not_false, Bool.true_and]
          omega
      | false =>
          refine ⟨lines, by simp [ends], ?_⟩
          simp only [occurrences, insideFrom, ends, counted, Bool.not_false, Bool.true_and]
          omega

/-- **Marks and lines.** -/
theorem leading_add_inside (plain : ∀ a ∈ mark, eol a = false) (some_mark : mark ≠ [])
    (l : List α) : leading mark eol l + inside mark eol l = occurrences mark l := by
  obtain ⟨lines, split, counted⟩ := lines_cons plain some_mark l
  rw [insideFrom_false some_mark] at counted
  simp only [leading, inside, split, List.countP_cons, isPrefixOf_takeWhile plain, counted]
  omega

end Gateway.Occurrences
