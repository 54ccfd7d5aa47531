import Mathlib.Data.List.Nodup
import Mathlib.Data.Nat.Digits.Defs

/-!
JSON documents, and libraries that write and read them.

A document is a value; objects keep their items in order. Floats are left open: `F`
is their type. `JsonLib` is what a program may assume of its JSON library: reading back
what was written gives the same document, for documents without floats whose objects
have pairwise distinct keys (`Json.Plain`).

`compact` is such a library, with the separators `,` and `:` and no spaces
(`parse_print` is its round trip). It escapes only quotes and backslashes, which is all
that printable ASCII text needs.
-/

namespace Gateway

/-- A JSON document. -/
inductive Json (F : Type) where
  | null
  | bool (b : Bool)
  | int (n : Int)
  | float (x : F)
  | str (s : String)
  | list (items : List (Json F))
  | obj (items : List (String × Json F))

namespace Json

variable {F : Type}

/-! ### Plain documents -/

mutual

/-- No floats, and pairwise distinct keys in every object. -/
def Plain : Json F → Prop
  | .float _ => False
  | .list items => PlainList items
  | .obj items => (items.map Prod.fst).Nodup ∧ PlainItems items
  | _ => True

def PlainList : List (Json F) → Prop
  | [] => True
  | j :: rest => Plain j ∧ PlainList rest

def PlainItems : List (String × Json F) → Prop
  | [] => True
  | (_, j) :: rest => Plain j ∧ PlainItems rest

end

theorem plainList_of_forall {items : List (Json F)} (all : ∀ j ∈ items, j.Plain) :
    PlainList items := by
  induction items with
  | nil => trivial
  | cons j rest ih =>
      simp only [List.forall_mem_cons] at all
      exact ⟨all.1, ih all.2⟩

theorem plainItems_of_forall {items : List (String × Json F)} (all : ∀ i ∈ items, i.2.Plain) :
    PlainItems items := by
  induction items with
  | nil => trivial
  | cons item rest ih =>
      simp only [List.forall_mem_cons] at all
      exact ⟨all.1, ih all.2⟩

/-! ### Translating the floats -/

variable {G : Type}

mutual

/-- The document with its floats translated; `none` if one of them has no translation. -/
def mapFloats (f : F → Option G) : Json F → Option (Json G)
  | .null => some .null
  | .bool b => some (.bool b)
  | .int n => some (.int n)
  | .float x => (f x).map .float
  | .str s => some (.str s)
  | .list items => (mapFloatsList f items).map .list
  | .obj items => (mapFloatsItems f items).map .obj

def mapFloatsList (f : F → Option G) : List (Json F) → Option (List (Json G))
  | [] => some []
  | j :: rest => do
      let j ← mapFloats f j
      let rest ← mapFloatsList f rest
      some (j :: rest)

def mapFloatsItems (f : F → Option G) : List (String × Json F) → Option (List (String × Json G))
  | [] => some []
  | (k, j) :: rest => do
      let j ← mapFloats f j
      let rest ← mapFloatsItems f rest
      some ((k, j) :: rest)

end

end Json

/-- A JSON library that reads back what it wrote. -/
structure JsonLib (F : Type) where
  dumps : Json F → String
  loads : String → Option (Json F)
  loads_dumps : ∀ j, j.Plain → loads (dumps j) = some j

namespace Json

variable {F : Type}

/-! ### Writing -/

/-- The decimal digits of a number, most significant first. -/
def printNat (n : Nat) : List Char :=
  if n = 0 then ['0'] else ((Nat.digits 10 n).map Nat.digitChar).reverse

def printInt : Int → List Char
  | .ofNat n => printNat n
  | .negSucc n => '-' :: printNat (n + 1)

/-- The characters of a string between its quotes. -/
def escape : List Char → List Char
  | [] => []
  | c :: rest => if c = '"' ∨ c = '\\' then '\\' :: c :: escape rest else c :: escape rest

def printStr (s : String) : List Char := '"' :: (escape s.toList ++ ['"'])

mutual

/-- The compact text of a document. Floats have no text of their own here. -/
def print : Json F → List Char
  | .null => ['n', 'u', 'l', 'l']
  | .bool true => ['t', 'r', 'u', 'e']
  | .bool false => ['f', 'a', 'l', 's', 'e']
  | .int n => printInt n
  | .float _ => []
  | .str s => printStr s
  | .list items => '[' :: (printList items ++ [']'])
  | .obj items => '\x7b' :: (printItems items ++ ['\x7d'])

def printList : List (Json F) → List Char
  | [] => []
  | [j] => print j
  | j :: rest => print j ++ ',' :: printList rest

def printItems : List (String × Json F) → List Char
  | [] => []
  | [(k, j)] => printStr k ++ ':' :: print j
  | (k, j) :: rest => printStr k ++ ':' :: (print j ++ ',' :: printItems rest)

end

/-! ### Reading -/

def digitVal (c : Char) : Nat := c.toNat - 48

/-- The number spelled by the leading digits, of which there must be one. -/
def parseNat (text : List Char) : Option (Nat × List Char) :=
  match text.takeWhile Char.isDigit with
  | [] => none
  | digits => some (digits.foldl (fun n c => n * 10 + digitVal c) 0, text.dropWhile Char.isDigit)

/-- A string up to its closing quote. -/
def parseStr : List Char → Option (List Char × List Char)
  | [] => none
  | '"' :: rest => some ([], rest)
  | ['\\'] => none
  | '\\' :: c :: rest => (parseStr rest).map fun (cs, rest) => (c :: cs, rest)
  | c :: rest => (parseStr rest).map fun (cs, rest) => (c :: cs, rest)

mutual

/-- A document at the start of a text, and what follows it. -/
def parse : Nat → List Char → Option (Json F × List Char)
  | 0, _ => none
  | _ + 1, 'n' :: 'u' :: 'l' :: 'l' :: rest => some (.null, rest)
  | _ + 1, 't' :: 'r' :: 'u' :: 'e' :: rest => some (.bool true, rest)
  | _ + 1, 'f' :: 'a' :: 'l' :: 's' :: 'e' :: rest => some (.bool false, rest)
  | _ + 1, '"' :: rest => (parseStr rest).map fun (cs, rest) => (.str (String.ofList cs), rest)
  | _ + 1, '[' :: ']' :: rest => some (.list [], rest)
  | fuel + 1, '[' :: rest => (parseList fuel rest).map fun (items, rest) => (.list items, rest)
  | _ + 1, '\x7b' :: '\x7d' :: rest => some (.obj [], rest)
  | fuel + 1, '\x7b' :: rest => (parseItems fuel rest).map fun (items, rest) => (.obj items, rest)
  | _ + 1, '-' :: rest => (parseNat rest).map fun (n, rest) => (.int (-n), rest)
  | _ + 1, rest => (parseNat rest).map fun (n, rest) => (.int n, rest)

/-- The values of an array, up to its closing bracket. -/
def parseList : Nat → List Char → Option (List (Json F) × List Char)
  | 0, _ => none
  | fuel + 1, text =>
      match parse fuel text with
      | some (j, ']' :: rest) => some ([j], rest)
      | some (j, ',' :: rest) => (parseList fuel rest).map fun (items, rest) => (j :: items, rest)
      | _ => none

/-- The items of an object, up to its closing brace. -/
def parseItems : Nat → List Char → Option (List (String × Json F) × List Char)
  | 0, _ => none
  | fuel + 1, '"' :: text =>
      match parseStr text with
      | some (k, ':' :: rest) =>
          match parse fuel rest with
          | some (j, '\x7d' :: rest) => some ([(String.ofList k, j)], rest)
          | some (j, ',' :: rest) =>
              (parseItems fuel rest).map fun (items, rest) => ((String.ofList k, j) :: items, rest)
          | _ => none
      | _ => none
  | _ + 1, _ => none

end

/-! ### Numbers read back -/

/-- What follows does not continue a number. -/
def Stops (rest : List Char) : Prop := ∀ c ∈ rest.head?, c.isDigit = false

theorem isDigit_digitChar {d : Nat} (small : d < 10) : (Nat.digitChar d).isDigit = true := by
  revert d
  decide

theorem digitVal_digitChar {d : Nat} (small : d < 10) : digitVal (Nat.digitChar d) = d := by
  revert d
  decide

theorem isDigit_printNat (n : Nat) : ∀ c ∈ printNat n, c.isDigit = true := by
  unfold printNat
  split
  · intro c member
    rw [List.mem_singleton.mp member]
    rfl
  · intro c member
    rw [List.mem_reverse, List.mem_map] at member
    obtain ⟨d, digit, rfl⟩ := member
    exact isDigit_digitChar (Nat.digits_lt_base (by decide) digit)

theorem printNat_ne_nil (n : Nat) : printNat n ≠ [] := by
  unfold printNat
  split
  · simp
  · rename_i pos
    simpa [Nat.digits_eq_nil_iff_eq_zero] using pos

theorem foldl_printNat (n : Nat) :
    (printNat n).foldl (fun n c => n * 10 + digitVal c) 0 = n := by
  unfold printNat
  split
  · rename_i zero
    rw [zero]
    rfl
  · rw [List.foldl_reverse, List.foldr_map]
    conv_rhs => rw [← Nat.ofDigits_digits 10 n]
    have small : ∀ d ∈ Nat.digits 10 n, d < 10 := fun d => Nat.digits_lt_base (by decide)
    generalize Nat.digits 10 n = digits at small
    induction digits with
    | nil => rfl
    | cons d rest ih =>
        simp only [List.forall_mem_cons] at small
        rw [List.foldr_cons, ih small.2, digitVal_digitChar small.1, Nat.ofDigits_cons]
        show _ = d + 10 * _
        omega

theorem parseNat_printNat (n : Nat) {rest : List Char} (stops : Stops rest) :
    parseNat (printNat n ++ rest) = some (n, rest) := by
  have digits := isDigit_printNat n
  have none_left : rest.takeWhile Char.isDigit = [] ∧ rest.dropWhile Char.isDigit = rest := by
    cases rest with
    | nil => exact ⟨rfl, rfl⟩
    | cons c rest =>
        have := stops c rfl
        simp [this]
  have taken : (printNat n ++ rest).takeWhile Char.isDigit = printNat n := by
    rw [List.takeWhile_append_of_pos digits, none_left.1, List.append_nil]
  have left : (printNat n ++ rest).dropWhile Char.isDigit = rest := by
    rw [List.dropWhile_append_of_pos digits, none_left.2]
  unfold parseNat
  rw [taken, left]
  have nonempty := printNat_ne_nil n
  have value := foldl_printNat n
  generalize printNat n = text at nonempty value
  cases text with
  | nil => exact absurd rfl nonempty
  | cons c text => simp only [value]

/-- The first character of a number is no other token. -/
theorem parse_digits (fuel : Nat) {text : List Char} {c : Char} {more : List Char}
    (start : text = c :: more) (digit : c.isDigit = true) :
    (parse (fuel + 1) text : Option (Json F × List Char)) =
      (parseNat text).map fun (n, rest) => (.int n, rest) := by
  subst start
  have other : c ≠ 'n' ∧ c ≠ 't' ∧ c ≠ 'f' ∧ c ≠ '"' ∧ c ≠ '[' ∧ c ≠ '\x7b' ∧ c ≠ '-' := by
    refine ⟨?_, ?_, ?_, ?_, ?_, ?_, ?_⟩ <;> (rintro rfl; cases digit)
  rw [parse]
  all_goals (intro rest; simp [other])

theorem parse_printInt (fuel : Nat) (n : Int) {rest : List Char} (stops : Stops rest) :
    (parse (fuel + 1) (printInt n ++ rest) : Option (Json F × List Char)) =
      some (.int n, rest) := by
  cases n with
  | ofNat n =>
      obtain ⟨c, text, start⟩ := List.exists_cons_of_ne_nil (printNat_ne_nil n)
      have digit := isDigit_printNat n c (by simp [start])
      have begins : printNat n ++ rest = c :: (text ++ rest) := by
        rw [start]
        rfl
      rw [printInt, parse_digits fuel begins digit, parseNat_printNat n stops]
      rfl
  | negSucc n =>
      rw [printInt, List.cons_append, parse, parseNat_printNat (n + 1) stops]
      rfl

/-! ### Strings read back -/

theorem parseStr_escape (cs rest : List Char) :
    parseStr (escape cs ++ '"' :: rest) = some (cs, rest) := by
  induction cs with
  | nil => rfl
  | cons c cs ih =>
      simp only [escape]
      split
      · rename_i special
        rw [List.cons_append, List.cons_append, parseStr, ih]
        rfl
      · rename_i plain
        rw [not_or] at plain
        rw [List.cons_append, parseStr, ih]
        · rfl
        · exact plain.1
        · intro same
          exact absurd same plain.2
        · intro _ _ same
          exact absurd same plain.2

/-! ### Documents read back -/

theorem stops_cons {c : Char} (rest : List Char) (other : c.isDigit = false) :
    Stops (c :: rest) := by
  intro c' head
  cases head
  exact other

/-- No document starts like the end of an array. -/
theorem print_head (j : Json F) (plain : j.Plain) (rest : List Char) :
    ∃ c more, print j ++ rest = c :: more ∧ c ≠ ']' := by
  cases j with
  | null => exact ⟨_, _, rfl, by decide⟩
  | bool b => cases b <;> exact ⟨_, _, rfl, by decide⟩
  | int n =>
      cases n with
      | ofNat n =>
          obtain ⟨c, text, start⟩ := List.exists_cons_of_ne_nil (printNat_ne_nil n)
          have digit := isDigit_printNat n c (by simp [start])
          refine ⟨c, text ++ rest, by simp [print, printInt, start], ?_⟩
          rintro rfl
          cases digit
      | negSucc n => exact ⟨_, _, rfl, by decide⟩
  | float x => exact absurd plain (by simp [Plain])
  | str s => exact ⟨_, _, rfl, by decide⟩
  | list items => exact ⟨_, _, rfl, by decide⟩
  | obj items => exact ⟨_, _, rfl, by decide⟩

theorem length_print_pos (j : Json F) (plain : j.Plain) : 0 < (print j).length := by
  obtain ⟨c, more, start, -⟩ := print_head j plain []
  rw [List.append_nil] at start
  rw [start]
  exact Nat.succ_pos _

theorem printList_head (j : Json F) (items : List (Json F)) (plain : j.Plain)
    (rest : List Char) : ∃ c more, printList (j :: items) ++ rest = c :: more ∧ c ≠ ']' := by
  cases items with
  | nil => exact print_head j plain rest
  | cons k items =>
      have := print_head j plain (',' :: (printList (k :: items) ++ rest))
      simpa [printList] using this

/-- An object that is not empty starts with a key. -/
theorem printItems_head (item : String × Json F) (items : List (String × Json F))
    (rest : List Char) : ∃ more, printItems (item :: items) ++ rest = '"' :: more := by
  cases items with
  | nil => exact ⟨_, rfl⟩
  | cons next items => simp [printItems, printStr]

theorem printList_cons_cons (j k : Json F) (rest : List (Json F)) :
    printList (j :: k :: rest) = print j ++ ',' :: printList (k :: rest) := by
  rw [printList]
  simp

theorem printItems_cons_cons (k : String) (j : Json F) (item : String × Json F)
    (rest : List (String × Json F)) :
    printItems ((k, j) :: item :: rest) =
      printStr k ++ ':' :: (print j ++ ',' :: printItems (item :: rest)) := by
  rw [printItems]
  simp

mutual

/-- **A document reads back from its text**, whatever follows it. -/
theorem parse_print (j : Json F) (plain : j.Plain) {fuel : Nat} {rest : List Char}
    (enough : (print j).length ≤ fuel) (stops : Stops rest) :
    parse fuel (print j ++ rest) = some (j, rest) := by
  obtain ⟨fuel, rfl⟩ :=
    Nat.exists_eq_add_one_of_ne_zero (Nat.ne_of_gt ((length_print_pos j plain).trans_le enough))
  cases j with
  | null => simp [print, parse]
  | bool b => cases b <;> simp [print, parse]
  | int n => exact parse_printInt fuel n stops
  | float x => exact absurd plain (by simp [Plain])
  | str s =>
      have closed : print (.str s : Json F) ++ rest = '"' :: (escape s.toList ++ '"' :: rest) := by
        simp [print, printStr]
      rw [closed, parse, parseStr_escape]
      simp
  | list items =>
      cases items with
      | nil => simp [print, printList, parse]
      | cons j items =>
          have closed : print (.list (j :: items)) ++ rest =
              '[' :: (printList (j :: items) ++ ']' :: rest) := by
            simp [print]
          have bound : (printList (j :: items)).length < fuel := by
            simp only [print, List.length_cons, List.length_append, List.length_nil] at enough
            omega
          obtain ⟨c, more, start, other⟩ := printList_head j items plain.1 (']' :: rest)
          rw [closed, parse, parse_printList (j :: items) (by simp) plain bound]
          · rfl
          · rw [start]
            simp [other]
  | obj items =>
      cases items with
      | nil => simp [print, printItems, parse]
      | cons item items =>
          have closed : print (.obj (item :: items)) ++ rest =
              '\x7b' :: (printItems (item :: items) ++ '\x7d' :: rest) := by
            simp [print]
          have bound : (printItems (item :: items)).length < fuel := by
            simp only [print, List.length_cons, List.length_append, List.length_nil] at enough
            omega
          obtain ⟨more, start⟩ := printItems_head item items ('\x7d' :: rest)
          rw [closed, parse, parse_printItems (item :: items) (by simp) plain.2 bound]
          · rfl
          · rw [start]
            simp

theorem parse_printList (items : List (Json F)) (nonempty : items ≠ []) (plain : PlainList items)
    {fuel : Nat} {rest : List Char} (enough : (printList items).length < fuel) :
    parseList fuel (printList items ++ ']' :: rest) = some (items, rest) := by
  cases fuel with
  | zero => omega
  | succ fuel =>
      match items, nonempty, plain with
      | [j], _, plain =>
          rw [printList] at enough ⊢
          rw [parseList, parse_print j plain.1 (by omega) (stops_cons _ rfl)]
          simp only
      | j :: k :: items, _, plain =>
          rw [printList_cons_cons] at enough ⊢
          simp only [List.length_append, List.length_cons] at enough
          rw [List.append_assoc, List.cons_append, parseList,
            parse_print j plain.1 (by omega) (stops_cons _ rfl)]
          simp only
          rw [parse_printList (k :: items) (by simp) plain.2 (by omega)]
          rfl

theorem parse_printItems (items : List (String × Json F)) (nonempty : items ≠ [])
    (plain : PlainItems items) {fuel : Nat} {rest : List Char}
    (enough : (printItems items).length < fuel) :
    parseItems fuel (printItems items ++ '\x7d' :: rest) = some (items, rest) := by
  cases fuel with
  | zero => omega
  | succ fuel =>
      match items, nonempty, plain with
      | [(k, j)], _, plain =>
          rw [printItems] at enough ⊢
          simp only [printStr, List.length_append, List.length_cons, List.cons_append,
            List.append_assoc, List.nil_append] at enough ⊢
          rw [parseItems, parseStr_escape]
          simp only
          rw [parse_print j plain.1 (by omega) (stops_cons _ rfl)]
          simp
      | (k, j) :: item :: items, _, plain =>
          rw [printItems_cons_cons] at enough ⊢
          simp only [printStr, List.length_append, List.length_cons, List.cons_append,
            List.append_assoc, List.nil_append] at enough ⊢
          rw [parseItems, parseStr_escape]
          simp only
          rw [parse_print j plain.1 (by omega) (stops_cons _ rfl)]
          simp only
          rw [parse_printItems (item :: items) (by simp) plain.2 (by omega)]
          simp

end

/-- The compact rendering as a library. -/
def compact (F : Type) : JsonLib F where
  dumps := fun j => String.ofList (print j)
  loads := fun text =>
    match parse text.toList.length text.toList with
    | some (j, []) => some j
    | _ => none
  loads_dumps := by
    intro j plain
    have back : parse (print j).length (print j ++ []) = some (j, []) :=
      parse_print j plain (Nat.le_refl _) (by simp [Stops])
    rw [List.append_nil] at back
    simp only [String.toList_ofList, back]

end Json

end Gateway
