import Mathlib.Data.List.Basic

/-!
The string methods the sources use, by their documented behaviour.
-/

namespace Gateway.Text

/-- The characters `str.strip` removes. -/
def isSpace (c : Char) : Bool :=
  let n := c.toNat
  (9 ≤ n && n ≤ 13) || (28 ≤ n && n ≤ 32) || n == 0x85 || n == 0xA0 || n == 0x1680 ||
    (0x2000 ≤ n && n ≤ 0x200A) || n == 0x2028 || n == 0x2029 || n == 0x202F || n == 0x205F ||
    n == 0x3000

/-- `s.strip()`, on the characters of a string. -/
def strip (cs : List Char) : List Char :=
  ((cs.dropWhile isSpace).reverse.dropWhile isSpace).reverse

/-- `s.strip() or None`. -/
def stripOr (cs : List Char) : Option String :=
  match strip cs with
  | [] => none
  | stripped => some (String.ofList stripped)

/-- `s.isascii()`. -/
def isAscii (s : String) : Bool := s.toList.all fun c => c.toNat < 128

/-- `s.lower()`, on the characters of a string; `unicode` is what it makes of a string that
is not ASCII. -/
def lower (unicode : List Char → List Char) (cs : List Char) : List Char :=
  if cs.all fun c => c.toNat < 128 then cs.map Char.toLower else unicode cs

/-! ### Trimming by any characters -/

/-- Remove the characters at both ends that satisfy a predicate. -/
def stripBy (p : Char → Bool) (cs : List Char) : List Char :=
  ((cs.dropWhile p).reverse.dropWhile p).reverse

section Trimming

variable {p q : Char → Bool} {cs : List Char}

theorem dropWhile_eq_self_iff : cs.dropWhile p = cs ↔ ∀ c ∈ cs.head?, p c = false := by
  cases cs with
  | nil => simp
  | cons c cs =>
      by_cases dropped : p c = true
      · have shorter : ((c :: cs).dropWhile p).length ≤ cs.length := by
          rw [List.dropWhile_cons_of_pos dropped]
          exact (List.dropWhile_sublist p).length_le
        refine iff_of_false (fun same => ?_) (by simpa using dropped)
        rw [same, List.length_cons] at shorter
        omega
      · refine iff_of_true (List.dropWhile_cons_of_neg dropped) ?_
        simpa using dropped

/-- What is left as it is has nothing to remove at its ends. -/
theorem stripBy_eq_self_iff :
    stripBy p cs = cs ↔ (∀ c ∈ cs.head?, p c = false) ∧ ∀ c ∈ cs.getLast?, p c = false := by
  constructor
  · intro same
    have front : cs.dropWhile p = cs := by
      have shorter : (stripBy p cs).length ≤ (cs.dropWhile p).length := by
        rw [stripBy, List.length_reverse]
        exact Nat.le_trans (List.dropWhile_sublist p).length_le (Nat.le_of_eq List.length_reverse)
      rw [same] at shorter
      exact (List.dropWhile_sublist p).eq_of_length_le shorter
    have back : cs.reverse.dropWhile p = cs.reverse := by
      rw [stripBy, front] at same
      rw [← List.reverse_reverse (cs.reverse.dropWhile p), same]
    refine ⟨dropWhile_eq_self_iff.mp front, ?_⟩
    rw [← List.head?_reverse]
    exact dropWhile_eq_self_iff.mp back
  · rintro ⟨front, back⟩
    rw [← List.head?_reverse] at back
    rw [stripBy, dropWhile_eq_self_iff.mpr front, dropWhile_eq_self_iff.mpr back,
      List.reverse_reverse]

/-- A text between two that are left as they are. -/
theorem stripBy_append {a b : List Char} (front : stripBy p a = a) (back : stripBy p b = b)
    (some_front : a ≠ []) (some_back : b ≠ []) (mid : List Char) :
    stripBy p (a ++ mid ++ b) = a ++ mid ++ b := by
  rw [stripBy_eq_self_iff] at front back ⊢
  constructor
  · rw [List.append_assoc, List.head?_append_of_ne_nil _ some_front]
    exact front.1
  · rw [List.getLast?_append_of_ne_nil _ some_back]
    exact back.2

/-- Only the characters of the text matter. -/
theorem stripBy_congr (same : ∀ c ∈ cs, p c = q c) : stripBy p cs = stripBy q cs := by
  have drop : ∀ l : List Char, (∀ c ∈ l, p c = q c) → l.dropWhile p = l.dropWhile q := by
    intro l same
    induction l with
    | nil => rfl
    | cons c l ih =>
        obtain ⟨here, later⟩ := List.forall_mem_cons.mp same
        rw [List.dropWhile_cons, List.dropWhile_cons, here, ih later]
  have inner : (cs.dropWhile p).reverse.dropWhile p = (cs.dropWhile p).reverse.dropWhile q :=
    drop _ fun c member =>
      same c ((List.dropWhile_sublist p).subset (List.mem_reverse.mp member))
  rw [stripBy, stripBy, inner, drop cs same]

end Trimming

end Gateway.Text
