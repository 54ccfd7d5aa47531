import Mathlib.Algebra.Order.BigOperators.Group.List
import Mathlib.Data.List.Basic
import Mathlib.Tactic.Linarith
import Gateway.Lib.Dict

/-!
The Prometheus text format.

`decode` reads a text line by line: comments, `# TYPE` lines and samples, each sample with a
name, labels in braces, a value and perhaps a timestamp. In a label value a backslash, a
quote and a line feed are written `\\`, `\"` and `\n`, and no other backslash is allowed.
Samples of a declared histogram are put together again. How a number is read is left open,
and what a `# HELP` line says is not returned.

* `readSample_plain`: a sample whose label values need no escaping is read back as written.
* `weight_le`: whatever a text is decoded to, its label values have been written with
  backslashes, one for each quote and line feed and two for each backslash. So a text has
  at least as many backslashes as that.
-/

namespace Gateway.Exposition

/-- The type of a metric. -/
inductive Kind where
  | counter
  | gauge
  | histogram
  | summary
  | untyped
  deriving DecidableEq, Repr

/-- How a type is written. -/
def Kind.word : Kind → String
  | .counter => "counter"
  | .gauge => "gauge"
  | .histogram => "histogram"
  | .summary => "summary"
  | .untyped => "untyped"

/-- A sample. -/
structure Sample (F : Type) where
  name : String
  labels : List (String × String)
  value : F
  deriving DecidableEq

/-- A line. -/
inductive Line (F : Type) where
  | comment
  | type (name : String) (kind : Kind)
  | sample (x : Sample F)

/-! ### Lines -/

def isBlank (c : Char) : Bool := c = ' ' || c = '\t'

/-- The next word of a line, and what follows it. -/
def word (cs : List Char) : List Char × List Char :=
  ((cs.dropWhile isBlank).takeWhile fun c => !isBlank c,
    (cs.dropWhile isBlank).dropWhile fun c => !isBlank c)

/-- A letter or underscore. -/
def isLetter (c : Char) : Bool := ('a' ≤ c && c ≤ 'z') || ('A' ≤ c && c ≤ 'Z') || c = '_'

/-- The characters of a label name. -/
def isLabelChar (c : Char) : Bool := isLetter c || c.isDigit

/-- The characters of a metric name. -/
def isNameChar (c : Char) : Bool := isLabelChar c || c = ':'

/-- The characters of a number, among them those of `+Inf` and `NaN`. -/
def isNumberChar (c : Char) : Bool := isLabelChar c || c = '+' || c = '-' || c = '.'

/-- Some allowed characters, and the first of them no digit. -/
def legal (allowed : Char → Bool) : List Char → Bool
  | [] => false
  | c :: rest => !c.isDigit && (c :: rest).all allowed

/-- A label value, up to its closing quote. -/
def readValue : List Char → Option (List Char × List Char)
  | [] => none
  | '"' :: rest => some ([], rest)
  | '\\' :: '\\' :: rest => (readValue rest).map fun (v, rest) => ('\\' :: v, rest)
  | '\\' :: '"' :: rest => (readValue rest).map fun (v, rest) => ('"' :: v, rest)
  | '\\' :: 'n' :: rest => (readValue rest).map fun (v, rest) => ('\n' :: v, rest)
  | '\\' :: _ | '\n' :: _ => none
  | c :: rest => (readValue rest).map fun (v, rest) => (c :: v, rest)

/-- A label, up to what follows its closing quote. -/
def readLabel (cs : List Char) : Option ((String × String) × List Char) :=
  let name := (cs.dropWhile isBlank).takeWhile isLabelChar
  if legal isLabelChar name then
    match ((cs.dropWhile isBlank).dropWhile isLabelChar).dropWhile isBlank with
    | '=' :: rest =>
        match rest.dropWhile isBlank with
        | '"' :: rest =>
            (readValue rest).map fun (v, rest) => ((String.ofList name, String.ofList v), rest)
        | _ => none
    | _ => none
  else none

/-- The labels up to the closing brace. There may be a comma before it. -/
def readLabels : Nat → List Char → Option (List (String × String) × List Char)
  | 0, _ => none
  | fuel + 1, cs =>
      match cs.dropWhile isBlank with
      | '\x7d' :: rest => some ([], rest)
      | _ =>
          (readLabel cs).bind fun (label, rest) =>
            match rest.dropWhile isBlank with
            | ',' :: rest =>
                (readLabels fuel rest).map fun (labels, rest) => (label :: labels, rest)
            | '\x7d' :: rest => some ([label], rest)
            | _ => none

/-- The labels, if there are any. -/
def readBlock (cs : List Char) : Option (List (String × String) × List Char) :=
  match cs.dropWhile isBlank with
  | '\x7b' :: rest => readLabels (rest.length + 1) rest
  | _ => some ([], cs)

/-- Nothing, or a timestamp. -/
def isTimestamp (cs : List Char) : Bool :=
  (word cs).1.isEmpty ||
    ((String.ofList (word cs).1).toInt?.isSome && (word (word cs).2).1.isEmpty)

section Reader

variable {F : Type} (read : String → Option F)

/-- A sample. No label is named twice. -/
def readSample (cs : List Char) : Option (Sample F) :=
  let name := cs.takeWhile isNameChar
  if legal isNameChar name then
    (readBlock (cs.dropWhile isNameChar)).bind fun (labels, rest) =>
      if (labels.map Prod.fst).Nodup ∧ isTimestamp (word rest).2 then
        (read (String.ofList (word rest).1)).map fun value => ⟨String.ofList name, labels, value⟩
      else none
  else none

def readKind (cs : List Char) : Option Kind :=
  [Kind.counter, .gauge, .histogram, .summary, .untyped].find? fun kind => kind.word.toList = cs

/-- What follows a `#`. -/
def readComment (cs : List Char) : Option (Line F) :=
  let (name, rest) := word (word cs).2
  if (word cs).1 = ['H', 'E', 'L', 'P'] then if legal isNameChar name then some .comment else none
  else if (word cs).1 = ['T', 'Y', 'P', 'E'] then
    if legal isNameChar name ∧ (word (word rest).2).1.isEmpty then
      (readKind (word rest).1).map fun kind => .type (String.ofList name) kind
    else none
  else some .comment

/-- A line. -/
def readLine (cs : List Char) : Option (Line F) :=
  match cs.dropWhile isBlank with
  | [] => some .comment
  | '#' :: rest => readComment rest
  | cs => (readSample read cs).map .sample

/-! ### Series -/

/-- A histogram, as far as it was read: the buckets with their bounds. -/
structure Histogram (F : Type) where
  name : String
  labels : List (String × String)
  buckets : List (F × F)
  sum : Option F
  count : Option F
  deriving DecidableEq

/-- A series: a sample with the type of its metric, or a histogram. -/
inductive Series (F : Type) where
  | single (kind : Kind) (x : Sample F)
  | histogram (h : Histogram F)
  deriving DecidableEq

def Series.name : Series F → String
  | .single _ x => x.name
  | .histogram h => h.name

/-- The samples of a histogram. -/
inductive Part where
  | bucket
  | sum
  | count
  deriving DecidableEq, Repr

def Part.suffix : Part → List Char
  | .bucket => ['_', 'b', 'u', 'c', 'k', 'e', 't']
  | .sum => ['_', 's', 'u', 'm']
  | .count => ['_', 'c', 'o', 'u', 'n', 't']

/-- The declared types and the series so far. -/
structure State (F : Type) where
  types : List (String × Kind)
  series : List (Series F)

/-- The histogram and the part a sample name stands for. -/
def owner (types : List (String × Kind)) (name : String) : Option (String × Part) :=
  [Part.bucket, .sum, .count].findSome? fun part =>
    if part.suffix <:+ name.toList then
      let base := String.ofList (name.toList.take (name.toList.length - part.suffix.length))
      if Dict.lookup base types = some .histogram then some (base, part) else none
    else none

/-- Change a histogram, which is a new one if there is none of its name and labels. -/
def amend (name : String) (labels : List (String × String)) (f : Histogram F → Histogram F) :
    List (Series F) → List (Series F)
  | [] => [.histogram (f ⟨name, labels, [], none, none⟩)]
  | .histogram h :: rest =>
      if h.name = name ∧ h.labels = labels then .histogram (f h) :: rest
      else .histogram h :: amend name labels f rest
  | .single kind x :: rest => .single kind x :: amend name labels f rest

/-- The histograms after a sample of one of them. A bucket has its bound as a label. -/
def receivePart (series : List (Series F)) (name : String) (x : Sample F) :
    Part → Option (List (Series F))
  | .bucket =>
      ((Dict.lookup "le" x.labels).bind read).map fun bound =>
        amend name (x.labels.filter fun label => label.1 ≠ "le")
          (fun h => { h with buckets := h.buckets ++ [(bound, x.value)] }) series
  | .sum => some (amend name x.labels (fun h => { h with sum := some x.value }) series)
  | .count => some (amend name x.labels (fun h => { h with count := some x.value }) series)

/-- A sample is received. -/
def receiveSample (st : State F) (x : Sample F) : Option (List (Series F)) :=
  match Dict.lookup x.name st.types with
  | some .histogram | some .summary => none
  | some kind => some (st.series ++ [.single kind x])
  | none =>
      match owner st.types x.name with
      | some (name, part) => receivePart read st.series name x part
      | none => some (st.series ++ [.single .untyped x])

/-- A line is received. A type is declared once, before the samples of its metric. -/
def receive (st : State F) : Line F → Option (State F)
  | .comment => some st
  | .type name kind =>
      if name ∈ st.types.map Prod.fst ∨ name ∈ st.series.map Series.name then none
      else some { st with types := st.types ++ [(name, kind)] }
  | .sample x => (receiveSample read st x).map fun series => { st with series := series }

/-- A line is read and received. -/
def receiveLine (st : State F) (cs : List Char) : Option (State F) :=
  (readLine read cs).bind (receive read st)

/-- Read a text. Its last line ends with a line feed. -/
def decode (text : String) : Option (List (Series F)) :=
  let pieces := text.toList.splitOn '\n'
  if pieces.getLast? = some [] then (pieces.foldlM (receiveLine read) ⟨[], []⟩).map State.series
  else none

end Reader

/-! ### Backslashes -/

/-- The backslashes it takes to write a label value. -/
def escapes (v : List Char) : Nat := v.count '"' + v.count '\n' + 2 * v.count '\\'

/-- The backslashes it takes to write the values of some labels. -/
def labelWeight (labels : List (String × String)) : Nat :=
  (labels.map fun label => escapes label.2.toList).sum

theorem readValue_weight {cs v rest : List Char} (value : readValue cs = some (v, rest)) :
    escapes v + rest.count '\\' ≤ cs.count '\\' := by
  fun_induction readValue cs generalizing v rest with
  | case1 | case6 | case7 => cases value
  | case2 rest' =>
      cases value
      simp [escapes]
  | case3 cs ih | case4 cs ih | case5 cs ih =>
      -- a backslash and what it stands for
      obtain ⟨⟨v', rest'⟩, inner, same⟩ := Option.map_eq_some_iff.mp value
      cases same
      have := ih inner
      simp [escapes] at this ⊢
      omega
  | case8 c cs quote _ _ _ slash feed ih =>
      obtain ⟨⟨v', rest'⟩, inner, same⟩ := Option.map_eq_some_iff.mp value
      cases same
      have := ih inner
      have plain : c ≠ '"' ∧ c ≠ '\n' ∧ c ≠ '\\' :=
        ⟨by simpa using quote, by simpa using feed, by simpa using slash⟩
      simp [escapes, plain] at this ⊢
      omega

theorem count_dropWhile_le (p : Char → Bool) (cs : List Char) (c : Char) :
    (cs.dropWhile p).count c ≤ cs.count c :=
  (List.dropWhile_sublist p).count_le c

theorem readLabel_weight {cs rest : List Char} {label : String × String}
    (found : readLabel cs = some (label, rest)) :
    escapes label.2.toList + rest.count '\\' ≤ cs.count '\\' := by
  unfold readLabel at found
  dsimp only at found
  split at found
  · split at found
    · rename_i afterEq equals
      split at found
      · rename_i inside quoted
        obtain ⟨⟨v, rest'⟩, value, same⟩ := Option.map_eq_some_iff.mp found
        cases same
        have counted := readValue_weight value
        have inner : ('"' :: inside).count '\\' ≤ afterEq.count '\\' := by
          rw [← quoted]
          exact count_dropWhile_le _ _ _
        have outer : ('=' :: afterEq).count '\\' ≤ cs.count '\\' := by
          rw [← equals]
          exact Nat.le_trans (count_dropWhile_le _ _ _)
            (Nat.le_trans (count_dropWhile_le _ _ _) (count_dropWhile_le _ _ _))
        simp only [List.count_cons, String.toList_ofList] at inner outer ⊢
        omega
      · cases found
    · cases found
  · cases found

theorem readLabels_weight {fuel : Nat} {cs rest : List Char} {labels : List (String × String)}
    (found : readLabels fuel cs = some (labels, rest)) :
    labelWeight labels + rest.count '\\' ≤ cs.count '\\' := by
  induction fuel generalizing cs labels rest with
  | zero => cases found
  | succ fuel ih =>
      unfold readLabels at found
      split at found
      · rename_i after closed
        cases found
        have counted := count_dropWhile_le isBlank cs '\\'
        rw [closed, List.count_cons] at counted
        simp only [labelWeight, List.map_nil, List.sum_nil]
        omega
      · obtain ⟨⟨label, rest'⟩, first, found⟩ := Option.bind_eq_some_iff.mp found
        have one := readLabel_weight first
        have skipped := count_dropWhile_le isBlank rest' '\\'
        dsimp only at found
        split at found
        · rename_i after comma
          obtain ⟨⟨labels', rest''⟩, others, same⟩ := Option.map_eq_some_iff.mp found
          cases same
          have counted := ih others
          rw [comma, List.count_cons] at skipped
          simp only [labelWeight, List.map_cons, List.sum_cons] at counted ⊢
          omega
        · rename_i after closed
          cases found
          rw [closed, List.count_cons] at skipped
          simp only [labelWeight, List.map_cons, List.sum_cons, List.map_nil, List.sum_nil]
          omega
        · cases found

theorem readSample_weight {F : Type} {read : String → Option F} {cs : List Char} {x : Sample F}
    (found : readSample read cs = some x) : labelWeight x.labels ≤ cs.count '\\' := by
  unfold readSample at found
  dsimp only at found
  split at found
  · obtain ⟨⟨labels, rest⟩, block, found⟩ := Option.bind_eq_some_iff.mp found
    have counted : labelWeight labels ≤ (cs.dropWhile isNameChar).count '\\' := by
      unfold readBlock at block
      split at block
      · rename_i inside opened
        have skipped := count_dropWhile_le isBlank (cs.dropWhile isNameChar) '\\'
        rw [opened, List.count_cons] at skipped
        have inner := readLabels_weight block
        omega
      · cases block
        exact Nat.zero_le _
    dsimp only at found
    split at found
    · obtain ⟨value, -, rfl⟩ := Option.map_eq_some_iff.mp found
      exact Nat.le_trans counted (count_dropWhile_le _ _ _)
    · cases found
  · cases found

def Series.labels {F : Type} : Series F → List (String × String)
  | .single _ x => x.labels
  | .histogram h => h.labels

/-- The samples a series is written with. -/
def Series.samples {F : Type} : Series F → Nat
  | .single _ _ => 1
  | .histogram h => h.buckets.length + h.sum.toList.length + h.count.toList.length

/-- The backslashes it takes to write a series: its labels stand in every sample. -/
def Series.weight {F : Type} (x : Series F) : Nat := x.samples * labelWeight x.labels

/-- The backslashes it takes to write some series. -/
def seriesWeight {F : Type} (series : List (Series F)) : Nat := (series.map Series.weight).sum

/-- A histogram that gets one more sample takes its labels once more. -/
theorem seriesWeight_amend {F : Type} {name : String} {labels : List (String × String)}
    {f : Histogram F → Histogram F}
    (one : ∀ h : Histogram F,
      (Series.histogram (f h)).weight ≤ (Series.histogram h).weight + labelWeight h.labels)
    (series : List (Series F)) :
    seriesWeight (amend name labels f series) ≤ seriesWeight series + labelWeight labels := by
  induction series with
  | nil =>
      have := one ⟨name, labels, [], none, none⟩
      simpa [seriesWeight, amend, Series.weight, Series.samples, Series.labels] using this
  | cons x rest ih =>
      cases x with
      | single kind x =>
          simp only [amend, seriesWeight, List.map_cons, List.sum_cons] at ih ⊢
          omega
      | histogram h =>
          simp only [amend]
          split
          · rename_i same
            have := one h
            rw [same.2] at this
            simp only [seriesWeight, List.map_cons, List.sum_cons]
            omega
          · simp only [seriesWeight, List.map_cons, List.sum_cons] at ih ⊢
            omega

section Reader

variable {F : Type} {read : String → Option F}

theorem labelWeight_filter_le (p : String × String → Bool) (labels : List (String × String)) :
    labelWeight (labels.filter p) ≤ labelWeight labels := by
  unfold labelWeight
  exact (List.filter_sublist.map _).sum_le_sum fun _ _ => Nat.zero_le _

theorem receivePart_weight {series series' : List (Series F)} {name : String} {x : Sample F}
    {part : Part} (received : receivePart read series name x part = some series') :
    seriesWeight series' ≤ seriesWeight series + labelWeight x.labels := by
  cases part with
  | bucket =>
      obtain ⟨bound, -, rfl⟩ := Option.map_eq_some_iff.mp received
      refine Nat.le_trans (seriesWeight_amend ?_ _)
        (Nat.add_le_add_left (labelWeight_filter_le _ _) _)
      intro h
      simp only [Series.weight, Series.samples, Series.labels, List.length_append,
        List.length_singleton]
      linarith
  | sum =>
      cases received
      refine seriesWeight_amend ?_ _
      intro h
      simp only [Series.weight, Series.samples, Series.labels, Option.toList_some,
        List.length_singleton]
      nlinarith [Nat.zero_le (h.sum.toList.length * labelWeight h.labels)]
  | count =>
      cases received
      refine seriesWeight_amend ?_ _
      intro h
      simp only [Series.weight, Series.samples, Series.labels, Option.toList_some,
        List.length_singleton]
      nlinarith [Nat.zero_le (h.count.toList.length * labelWeight h.labels)]

theorem receiveSample_weight {st : State F} {series : List (Series F)} {x : Sample F}
    (received : receiveSample read st x = some series) :
    seriesWeight series ≤ seriesWeight st.series + labelWeight x.labels := by
  have single : ∀ kind, seriesWeight (st.series ++ [.single kind x]) =
      seriesWeight st.series + labelWeight x.labels := by
    intro kind
    simp [seriesWeight, Series.weight, Series.samples, Series.labels]
  unfold receiveSample at received
  split at received
  · cases received
  · cases received
  · cases received
    exact Nat.le_of_eq (single _)
  · split at received
    · exact receivePart_weight received
    · cases received
      exact Nat.le_of_eq (single _)

theorem readLine_sample {cs : List Char} {x : Sample F}
    (found : readLine read cs = some (.sample x)) :
    readSample read (cs.dropWhile isBlank) = some x := by
  unfold readLine at found
  split at found
  · cases found
  · unfold readComment at found
    dsimp only at found
    split at found
    · split at found <;> cases found
    · split at found
      · split at found
        · obtain ⟨kind, -, same⟩ := Option.map_eq_some_iff.mp found
          cases same
        · cases found
      · cases found
  · obtain ⟨y, sample, same⟩ := Option.map_eq_some_iff.mp found
    cases same
    exact sample

theorem receiveLine_weight {st st' : State F} {cs : List Char}
    (received : receiveLine read st cs = some st') :
    seriesWeight st'.series ≤ seriesWeight st.series + cs.count '\\' := by
  obtain ⟨line, found, received⟩ := Option.bind_eq_some_iff.mp received
  cases line with
  | comment =>
      cases received
      exact Nat.le_add_right _ _
  | type name kind =>
      simp only [receive] at received
      split at received
      · cases received
      · cases received
        exact Nat.le_add_right _ _
  | sample x =>
      obtain ⟨series, taken, rfl⟩ := Option.map_eq_some_iff.mp received
      have written := readSample_weight (readLine_sample found)
      exact Nat.le_trans (receiveSample_weight taken)
        (Nat.add_le_add_left (Nat.le_trans written (count_dropWhile_le _ _ _)) _)

theorem count_intercalate {sep d : Char} (other : sep ≠ d) (ls : List (List Char)) :
    ([sep].intercalate ls).count d = (ls.map fun l => l.count d).sum := by
  induction ls with
  | nil => rfl
  | cons l rest ih =>
      cases rest with
      | nil => simp
      | cons next rest =>
          rw [List.intercalate_cons_cons, List.count_append, List.count_append, ih]
          simp [other]

theorem foldlM_receiveLine_weight {pieces : List (List Char)} {st st' : State F}
    (received : pieces.foldlM (receiveLine read) st = some st') :
    seriesWeight st'.series ≤ seriesWeight st.series + (pieces.map fun l => l.count '\\').sum := by
  induction pieces generalizing st with
  | nil =>
      cases received
      exact Nat.le_add_right _ _
  | cons piece rest ih =>
      obtain ⟨mid, first, others⟩ := Option.bind_eq_some_iff.mp received
      have one := receiveLine_weight first
      have more := ih others
      rw [List.map_cons, List.sum_cons]
      omega

/-- **Whatever a text is decoded to has been written with backslashes.** -/
theorem weight_le {text : String} {series : List (Series F)}
    (decoded : decode read text = some series) :
    seriesWeight series ≤ text.toList.count '\\' := by
  unfold decode at decoded
  dsimp only at decoded
  split at decoded
  · obtain ⟨st, received, rfl⟩ := Option.map_eq_some_iff.mp decoded
    have counted := foldlM_receiveLine_weight received
    rw [← count_intercalate (show '\n' ≠ '\\' by decide), List.intercalate_splitOn] at counted
    simpa [seriesWeight] using counted
  · cases decoded

/-! ### Plain lines -/

/-- A text that needs no escaping. -/
def Plain (v : List Char) : Prop := ∀ c ∈ v, c ≠ '"' ∧ c ≠ '\\' ∧ c ≠ '\n'

instance decidablePlain (v : List Char) : Decidable (Plain v) := List.decidableBAll _ v

theorem readValue_plain {v : List Char} (plain : Plain v) (rest : List Char) :
    readValue (v ++ '"' :: rest) = some (v, rest) := by
  induction v with
  | nil => rfl
  | cons c v ih =>
      obtain ⟨quote, slash, feed⟩ := plain c List.mem_cons_self
      rw [List.cons_append]
      rw [readValue.eq_8 _ _ (by simpa using quote) (by simp [slash]) (by simp [slash])
        (by simp [slash]) (by simpa using slash) (by simpa using feed)]
      rw [ih fun c member => plain c (List.mem_cons_of_mem _ member)]
      rfl

/-- A label with its value between quotes. -/
def labelText (label : String × String) : List Char :=
  label.1.toList ++ '=' :: '"' :: (label.2.toList ++ ['"'])

/-- Labels between braces; nothing if there are none. -/
def blockText (labels : List (String × String)) : List Char :=
  if labels = [] then []
  else '\x7b' :: ([','].intercalate (labels.map labelText) ++ ['\x7d'])

/-- A sample with the text of its value. -/
def sampleText (name : String) (labels : List (String × String)) (value : String) : List Char :=
  name.toList ++ (blockText labels ++ ' ' :: value.toList)

/-- A label with a legal name, and a value that needs no escaping. -/
def PlainLabel (label : String × String) : Prop :=
  legal isLabelChar label.1.toList = true ∧ Plain label.2.toList

theorem legal_cons {allowed : Char → Bool} {cs : List Char} (ok : legal allowed cs = true) :
    ∃ c rest, cs = c :: rest ∧ c.isDigit = false ∧ ∀ c ∈ cs, allowed c = true := by
  cases cs with
  | nil => cases ok
  | cons c rest =>
      simp only [legal, Bool.and_eq_true, Bool.not_eq_true', List.all_eq_true] at ok
      exact ⟨c, rest, rfl, ok.1, ok.2⟩

theorem isBlank_of_isNameChar {c : Char} (allowed : isNameChar c = true) : isBlank c = false := by
  by_contra blank
  simp only [isBlank, Bool.or_eq_false_iff, decide_eq_false_iff_not, not_and_or, not_not] at blank
  rcases blank with rfl | rfl
  · exact absurd allowed (by decide)
  · exact absurd allowed (by decide)

theorem isNameChar_of_isLabelChar {c : Char} (allowed : isLabelChar c = true) :
    isNameChar c = true := by
  rw [isNameChar, allowed, Bool.true_or]

theorem readLabel_plain {label : String × String} (plain : PlainLabel label) (rest : List Char) :
    readLabel (labelText label ++ rest) = some (label, rest) := by
  obtain ⟨name, value⟩ := label
  obtain ⟨ok, plain⟩ := plain
  obtain ⟨c, more, first, -, all⟩ := legal_cons ok
  have start : isBlank c = false :=
    isBlank_of_isNameChar (isNameChar_of_isLabelChar (all c (by rw [first]; exact List.mem_cons_self)))
  have unblank : (labelText (name, value) ++ rest).dropWhile isBlank =
      name.toList ++ '=' :: '"' :: (value.toList ++ '"' :: rest) := by
    simp [labelText, first, start]
  have stop : isLabelChar '=' = false := by decide
  have shown : isBlank '=' = false := by decide
  have shown' : isBlank '"' = false := by decide
  unfold readLabel
  simp only [unblank]
  rw [List.takeWhile_append_of_pos all, List.dropWhile_append_of_pos all,
    List.takeWhile_cons_of_neg (by simp [stop]), List.dropWhile_cons_of_neg (by simp [stop]),
    List.dropWhile_cons_of_neg (by simp [shown]), List.append_nil, if_pos ok]
  simp only [List.dropWhile_cons, shown', Bool.false_eq_true, if_false]
  rw [readValue_plain plain]
  simp

/-- A label and what follows it. -/
theorem readLabels_next {label : String × String} (plain : PlainLabel label) (fuel : Nat)
    (rest : List Char) :
    readLabels (fuel + 1) (labelText label ++ ',' :: rest) =
        (readLabels fuel rest).map (fun (labels, rest) => (label :: labels, rest)) ∧
      readLabels (fuel + 1) (labelText label ++ '\x7d' :: rest) = some ([label], rest) := by
  have comma : isBlank ',' = false := by decide
  have brace : isBlank '\x7d' = false := by decide
  obtain ⟨c, more, start, -, all⟩ := legal_cons plain.1
  have allowed := all c (by rw [start]; exact List.mem_cons_self)
  have shown := isBlank_of_isNameChar (isNameChar_of_isLabelChar allowed)
  -- a label does not begin with the closing brace
  have opens : ∀ text after, (labelText label ++ text).dropWhile isBlank ≠ '\x7d' :: after := by
    intro text after
    rw [labelText, start, List.append_assoc, List.cons_append,
      List.dropWhile_cons_of_neg (by simp [shown])]
    intro same
    cases same
    exact absurd allowed (by decide)
  constructor
  · rw [readLabels]
    split
    · rename_i after closed
      exact absurd closed (opens _ _)
    · rw [readLabel_plain plain, Option.bind_some]
      simp only [List.dropWhile_cons, comma, Bool.false_eq_true, if_false]
  · rw [readLabels]
    split
    · rename_i after closed
      exact absurd closed (opens _ _)
    · rw [readLabel_plain plain, Option.bind_some]
      simp only [List.dropWhile_cons, brace, Bool.false_eq_true, if_false]

theorem readLabels_plain {labels : List (String × String)} (some_label : labels ≠ [])
    (plain : ∀ label ∈ labels, PlainLabel label) (rest : List Char) {fuel : Nat}
    (enough : labels.length ≤ fuel) :
    readLabels fuel ([','].intercalate (labels.map labelText) ++ '\x7d' :: rest) =
      some (labels, rest) := by
  induction labels generalizing fuel with
  | nil => exact absurd rfl some_label
  | cons label others ih =>
      obtain ⟨fuel, rfl⟩ : ∃ fuel', fuel = fuel' + 1 :=
        Nat.exists_eq_succ_of_ne_zero (by simp at enough; omega)
      have next := readLabels_next (plain label List.mem_cons_self) fuel
      cases others with
      | nil =>
          rw [List.map_singleton, List.intercalate_singleton]
          exact (next rest).2
      | cons label' others =>
          rw [List.map_cons, List.map_cons, List.intercalate_cons_cons, List.append_assoc,
            List.append_assoc, List.singleton_append, (next _).1, ← List.map_cons,
            ih (by simp) (fun l member => plain l (List.mem_cons_of_mem _ member))
              (by simpa using enough)]
          rfl

theorem length_le_intercalate (labels : List (String × String)) :
    labels.length ≤ ([','].intercalate (labels.map labelText)).length := by
  induction labels with
  | nil => exact Nat.zero_le _
  | cons label others ih =>
      have one : 1 ≤ (labelText label).length := by simp [labelText]; omega
      cases others with
      | nil => simpa using one
      | cons label' others =>
          rw [List.map_cons, List.map_cons, List.intercalate_cons_cons, ← List.map_cons,
            List.length_cons, List.length_append, List.length_append]
          omega

theorem readBlock_plain {labels : List (String × String)}
    (plain : ∀ label ∈ labels, PlainLabel label) {rest : List Char}
    (follows : ∀ after, rest.dropWhile isBlank ≠ '\x7b' :: after) :
    readBlock (blockText labels ++ rest) = some (labels, rest) := by
  by_cases some_label : labels = []
  · rw [blockText, if_pos some_label, List.nil_append, some_label, readBlock]
    split
    · rename_i after opened
      exact absurd opened (follows after)
    · rfl
  · rw [blockText, if_neg some_label, readBlock, List.cons_append,
      List.dropWhile_cons_of_neg (by decide), List.append_assoc]
    refine readLabels_plain some_label plain rest ?_
    have short := length_le_intercalate labels
    rw [List.length_append]
    omega

/-- The characters at the beginning that meet a condition, and what follows them. -/
theorem takeWhile_dropWhile_append {p : Char → Bool} {w rest : List Char}
    (all : ∀ c ∈ w, p c = true) (stops : ∀ c ∈ rest.head?, p c = false) :
    (w ++ rest).takeWhile p = w ∧ (w ++ rest).dropWhile p = rest := by
  rw [List.takeWhile_append_of_pos all, List.dropWhile_append_of_pos all]
  cases rest with
  | nil => simp
  | cons c rest =>
      have stop := stops c rfl
      simp [stop]

/-- The next word, after a blank. -/
theorem word_blank {w rest : List Char} (shown : ∀ c ∈ w, isBlank c = false) (some_char : w ≠ [])
    (stops : ∀ c ∈ rest.head?, isBlank c = true) : word (' ' :: (w ++ rest)) = (w, rest) := by
  obtain ⟨c, more, rfl⟩ := List.exists_cons_of_ne_nil some_char
  have first := shown c List.mem_cons_self
  have unblank : (' ' :: (c :: more ++ rest)).dropWhile isBlank = c :: more ++ rest := by
    rw [List.dropWhile_cons_of_pos (by decide), List.cons_append,
      List.dropWhile_cons_of_neg (by simp [first])]
  obtain ⟨taken, dropped⟩ := takeWhile_dropWhile_append (p := fun c => !isBlank c)
    (fun c member => by rw [shown c member]; rfl)
    (fun c member => by rw [stops c member]; rfl)
  rw [word, unblank, taken, dropped]

/-- Some other characters are not those of a number. -/
theorem ne_of_isNumberChar {c d : Char} (allowed : isNumberChar c = true)
    (other : isNumberChar d = false) : c ≠ d := by
  rintro rfl
  rw [allowed] at other
  cases other

theorem isBlank_of_isNumberChar {c : Char} (allowed : isNumberChar c = true) :
    isBlank c = false := by
  have space := ne_of_isNumberChar allowed (d := ' ') (by decide)
  have tab := ne_of_isNumberChar allowed (d := '\t') (by decide)
  simp [isBlank, space, tab]

/-- **A plain sample is read back as written.** -/
theorem readSample_plain {name value : String} {labels : List (String × String)}
    (named : legal isNameChar name.toList = true) (plain : ∀ label ∈ labels, PlainLabel label)
    (distinct : (labels.map Prod.fst).Nodup)
    (valued : ∀ c ∈ value.toList, isNumberChar c = true) (some_char : value.toList ≠ []) :
    readSample read (sampleText name labels value) =
      (read value).map fun v => ⟨name, labels, v⟩ := by
  obtain ⟨-, -, -, -, all⟩ := legal_cons named
  have shown : ∀ c ∈ value.toList, isBlank c = false :=
    fun c member => isBlank_of_isNumberChar (valued c member)
  have spaced : word (' ' :: value.toList) = (value.toList, []) := by
    have found : word (' ' :: (value.toList ++ [])) = (value.toList, []) :=
      word_blank shown some_char (by simp)
    rwa [List.append_nil] at found
  have stop : ∀ c ∈ (blockText labels ++ ' ' :: value.toList).head?, isNameChar c = false := by
    unfold blockText
    split
    · simp only [List.nil_append, List.head?_cons, Option.mem_some_iff]
      rintro c rfl
      decide
    · simp only [List.cons_append, List.head?_cons, Option.mem_some_iff]
      rintro c rfl
      decide
  have follows : ∀ after, (' ' :: value.toList).dropWhile isBlank ≠ '\x7b' :: after := by
    intro after opened
    obtain ⟨c, more, same⟩ := List.exists_cons_of_ne_nil some_char
    have allowed := valued c (by rw [same]; exact List.mem_cons_self)
    rw [List.dropWhile_cons_of_pos (by decide), same,
      List.dropWhile_cons_of_neg (by simp [isBlank_of_isNumberChar allowed])] at opened
    cases opened
    exact absurd allowed (by decide)
  obtain ⟨taken, dropped⟩ := takeWhile_dropWhile_append all stop
  unfold readSample sampleText
  simp only [taken, dropped]
  rw [if_pos named, readBlock_plain plain follows, Option.bind_some]
  simp only [spaced]
  rw [if_pos ⟨distinct, rfl⟩]
  simp

/-- A line that begins with a metric name is a sample. -/
theorem readLine_sampleText {name value : String} {labels : List (String × String)}
    (named : legal isNameChar name.toList = true) :
    readLine read (sampleText name labels value) =
      (readSample read (sampleText name labels value)).map .sample := by
  obtain ⟨c, more, first, -, all⟩ := legal_cons named
  have allowed := all c (by rw [first]; exact List.mem_cons_self)
  have unblank : (sampleText name labels value).dropWhile isBlank =
      sampleText name labels value := by
    rw [sampleText, first, List.cons_append,
      List.dropWhile_cons_of_neg (by simp [isBlank_of_isNameChar allowed])]
  unfold readLine
  rw [unblank]
  split
  · rename_i none
    simp [sampleText, first] at none
  · rename_i after comment
    rw [sampleText, first, List.cons_append] at comment
    cases comment
    exact absurd allowed (by decide)
  · rfl

theorem readKind_word (kind : Kind) : readKind kind.word.toList = some kind := by
  cases kind <;> decide +kernel

/-- `# TYPE` and a type. -/
def typeText (name : String) (kind : Kind) : List Char :=
  '#' :: ' ' :: (['T', 'Y', 'P', 'E'] ++ ' ' :: (name.toList ++ ' ' :: kind.word.toList))

theorem isLetter_word (kind : Kind) {c : Char} (member : c ∈ kind.word.toList) :
    isLetter c = true := by
  have letters : kind.word.toList.all isLetter = true := by cases kind <;> decide +kernel
  exact List.all_eq_true.mp letters c member

/-- A character that is foreign to metric names and to words. -/
theorem notMem_typeText {c : Char} {name : String} (kind : Kind) (unnamed : c ∉ name.toList)
    (letter : isLetter c = false) (blank : c ≠ ' ') (hash : c ≠ '#') :
    c ∉ typeText name kind := by
  have inWord : c ∉ kind.word.toList := by
    intro member
    rw [isLetter_word kind member] at letter
    cases letter
  have inType : c ∉ ['T', 'Y', 'P', 'E'] := by
    have letters : ['T', 'Y', 'P', 'E'].all isLetter = true := by decide +kernel
    intro member
    rw [List.all_eq_true.mp letters c member] at letter
    cases letter
  simp only [typeText, List.mem_cons, List.mem_append, not_or]
  simp only [List.mem_cons, not_or] at inType
  exact ⟨hash, blank, inType, blank, unnamed, blank, inWord⟩

/-- `# HELP` and a text. -/
def helpText (name help : String) : List Char :=
  '#' :: ' ' :: (['H', 'E', 'L', 'P'] ++ ' ' :: (name.toList ++ ' ' :: help.toList))

/-- The words of a comment: its first word, the metric name, and what follows. -/
theorem word_comment {first rest : List Char} {name : String} (shown : ∀ c ∈ first, isBlank c = false)
    (some_char : first ≠ []) (named : legal isNameChar name.toList = true) :
    word (' ' :: (first ++ ' ' :: (name.toList ++ ' ' :: rest))) =
        (first, ' ' :: (name.toList ++ ' ' :: rest)) ∧
      word (' ' :: (name.toList ++ ' ' :: rest)) = (name.toList, ' ' :: rest) := by
  have blank : ∀ (cs : List Char), ∀ c ∈ (' ' :: cs).head?, isBlank c = true := by
    intro cs c member
    cases member
    decide
  obtain ⟨c, more, start, -, all⟩ := legal_cons named
  constructor
  · exact word_blank shown some_char (blank _)
  · refine word_blank (fun c member => isBlank_of_isNameChar (all c member)) ?_ (blank _)
    rw [start]
    exact List.cons_ne_nil _ _

theorem readLine_comment (rest : List Char) :
    readLine read ('#' :: rest) = readComment rest := by
  rw [readLine, List.dropWhile_cons_of_neg (by decide)]
  rfl

theorem readLine_typeText {name : String} (named : legal isNameChar name.toList = true)
    (kind : Kind) : readLine read (typeText name kind) = some (.type name kind) := by
  have shown : ∀ c ∈ ['T', 'Y', 'P', 'E'], isBlank c = false := by simp [isBlank]
  have third : word (' ' :: kind.word.toList) = (kind.word.toList, []) := by
    cases kind <;> decide +kernel
  rw [typeText, readLine_comment, readComment]
  simp only [word_comment shown (List.cons_ne_nil _ _) named, third]
  rw [if_neg (by decide), if_pos trivial, if_pos ⟨named, rfl⟩, readKind_word]
  simp

theorem readLine_helpText {name : String} (named : legal isNameChar name.toList = true)
    (help : String) : readLine read (helpText name help) = some .comment := by
  have shown : ∀ c ∈ ['H', 'E', 'L', 'P'], isBlank c = false := by simp [isBlank]
  rw [helpText, readLine_comment, readComment]
  simp only [word_comment shown (List.cons_ne_nil _ _) named]
  rw [if_pos trivial, if_pos named]

/-! ### Receiving -/

/-- No suffix of a histogram's samples is the end of another. -/
theorem suffix_iff {part part' : Part} {base : List Char} :
    part'.suffix <:+ base ++ part.suffix ↔ part' = part := by
  rw [← List.reverse_prefix, List.reverse_append]
  cases part <;> cases part' <;> simp [Part.suffix]

/-- A sample of a declared histogram belongs to it. -/
theorem owner_suffix {types : List (String × Kind)} {name : String}
    (declared : Dict.lookup name types = some .histogram) (part : Part) :
    owner types (String.ofList (name.toList ++ part.suffix)) = some (name, part) := by
  unfold owner
  simp only [String.toList_ofList, suffix_iff]
  cases part <;> simp [declared]

/-- There is no histogram of this name with these labels. -/
def Fresh (name : String) (labels : List (String × String)) (series : List (Series F)) : Prop :=
  ∀ h, Series.histogram h ∈ series → ¬ (h.name = name ∧ h.labels = labels)

theorem amend_fresh {name : String} {labels : List (String × String)} {series : List (Series F)}
    (fresh : Fresh name labels series) (f : Histogram F → Histogram F) (more : List (Series F)) :
    amend name labels f (series ++ more) = series ++ amend name labels f more := by
  induction series with
  | nil => rfl
  | cons x series ih =>
      have rest := ih fun h member => fresh h (List.mem_cons_of_mem _ member)
      cases x with
      | single kind x => simp only [List.cons_append, amend, rest]
      | histogram h =>
          rw [List.cons_append, amend, if_neg (fresh h List.mem_cons_self), rest]
          rfl

/-- A sample that is read back as written. -/
structure PlainSample (read : String → Option F) (name : String) (labels : List (String × String))
    (text : String) (value : F) : Prop where
  named : legal isNameChar name.toList = true
  plain : ∀ label ∈ labels, PlainLabel label
  distinct : (labels.map Prod.fst).Nodup
  valued : ∀ c ∈ text.toList, isNumberChar c = true
  some_char : text.toList ≠ []
  reads : read text = some value

variable {name text : String} {labels : List (String × String)} {value : F} {st : State F}

theorem PlainSample.readLine (x : PlainSample read name labels text value) :
    readLine read (sampleText name labels text) = some (.sample ⟨name, labels, value⟩) := by
  rw [readLine_sampleText x.named,
    readSample_plain x.named x.plain x.distinct x.valued x.some_char, x.reads]
  rfl

/-- A counter or gauge is received. -/
theorem receiveLine_single {kind : Kind} (x : PlainSample read name labels text value)
    (declared : Dict.lookup name st.types = some kind) (single : kind = .counter ∨ kind = .gauge) :
    receiveLine read st (sampleText name labels text) =
      some { st with series := st.series ++ [.single kind ⟨name, labels, value⟩] } := by
  rw [receiveLine, x.readLine, Option.bind_some, receive, receiveSample, declared]
  rcases single with rfl | rfl <;> rfl

/-- A sample of a histogram is received. -/
theorem receiveLine_part {part : Part}
    (x : PlainSample read (String.ofList (name.toList ++ part.suffix)) labels text value)
    (declared : Dict.lookup name st.types = some .histogram)
    (undeclared : Dict.lookup (String.ofList (name.toList ++ part.suffix)) st.types = none) :
    receiveLine read st (sampleText (String.ofList (name.toList ++ part.suffix)) labels text) =
      (receivePart read st.series name
        ⟨String.ofList (name.toList ++ part.suffix), labels, value⟩ part).map
        fun series => { st with series := series } := by
  rw [receiveLine, x.readLine, Option.bind_some, receive, receiveSample]
  simp only [undeclared, owner_suffix declared part]

theorem legal_append {allowed : Char → Bool} {cs ds : List Char} (ok : legal allowed cs = true)
    (more : ∀ c ∈ ds, allowed c = true) : legal allowed (cs ++ ds) = true := by
  obtain ⟨c, rest, rfl, digit, all⟩ := legal_cons ok
  simp only [List.cons_append, legal, Bool.and_eq_true, Bool.not_eq_true', List.all_eq_true]
  refine ⟨digit, ?_⟩
  intro d member
  rcases List.mem_append.mp ((List.cons_append ..).symm ▸ member) with old | new
  · exact all d old
  · exact more d new

end Reader

end Gateway.Exposition
