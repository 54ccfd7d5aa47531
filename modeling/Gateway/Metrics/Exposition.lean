import Gateway.Metrics.Collector

/-!
The exposition of a collector, read back.

`decode` of `Gateway.Lib.Exposition` is the reader of the format. The names, kinds, help texts
and bucket bounds of the calls are as the format wants them (`Legal`). Label values are written
between quotes as they are, so the exposition is read back precisely if none of them has a
quote, a backslash or a line feed (`decode_render_iff`).

That plain values are read back is an induction over the lines (`Reads`). For the converse the
backslashes are counted: all those of the text stand in label values (`count_render`), and a
reader needs one for each quote and line feed it returns and two for each backslash
(`weight_le`).
-/

namespace Gateway

open Exposition

namespace MetricsCollector

variable {F : Type} {num : Floats F}

/-! ### Lines as texts -/

theorem toList_fmtLabels (labels extra : List (String × String)) :
    (fmtLabels labels extra).toList = blockText (labels ++ extra) := by
  unfold fmtLabels blockText
  dsimp only
  by_cases none : labels ++ extra = []
  · rw [if_pos none, none]
    rfl
  · rw [if_neg none, if_neg (by simpa using none)]
    have texts : ∀ p : String × String, (p.1 ++ "=\"" ++ p.2 ++ "\"").toList = labelText p := by
      intro p
      simp [labelText]
    simp [String.toList_intercalate, texts, Function.comp_def]

theorem toList_sample (name : String) (labels extra : List (String × String)) (text : String) :
    (name ++ fmtLabels labels extra ++ " " ++ text).toList =
      sampleText name (labels ++ extra) text := by
  simp [sampleText, toList_fmtLabels]

theorem toList_help (name help : String) :
    ("# HELP " ++ name ++ " " ++ help).toList = helpText name help := by
  simp [helpText]

theorem toList_type (name : String) (kind : Kind) :
    ("# TYPE " ++ name ++ " " ++ kind.word).toList = typeText name kind := by
  simp [typeText]

/-- The names of the samples of a histogram. -/
theorem append_suffix (name : String) :
    name ++ "_bucket" = String.ofList (name.toList ++ Part.bucket.suffix) ∧
      name ++ "_sum" = String.ofList (name.toList ++ Part.sum.suffix) ∧
      name ++ "_count" = String.ofList (name.toList ++ Part.count.suffix) := by
  simp [Part.suffix]

/-! ### Reading plain series back -/

/-- A key as the format wants it: legal names, and one kind for the metric, whose help text
is a line without backslashes. -/
structure LegalKey (c : MetricsCollector F) (kind : Kind) (k : MetricKey) : Prop where
  named : legal isNameChar k.1.toList = true
  labels : ∀ label ∈ k.2, legal isLabelChar label.1.toList = true
  distinct : (k.2.map Prod.fst).Nodup
  info : ∃ help, c.info.get? k.1 = some (kind, help) ∧ '\n' ∉ help.toList ∧ '\\' ∉ help.toList

/-- A histogram as the format wants it: no label of its own called `le`, bounds that are read
back as written, and no metric with the name of one of its samples. -/
structure LegalHistogram (num : Floats F) (c : MetricsCollector F) (k : MetricKey)
    (h : HistogramData F) : Prop where
  key : LegalKey c .histogram k
  unbounded : "le" ∉ k.2.map Prod.fst
  bounds : ∀ ub ∈ h.buckets, num.read (fmtLe num ub) = some ub
  parts : ∀ part : Part, c.info.get? (String.ofList (k.1.toList ++ part.suffix)) = none

/-- No label value needs escaping. -/
def PlainKey (k : MetricKey) : Prop := ∀ label ∈ k.2, Plain label.2.toList

/-- What a page reads as. -/
structure Reads (num : Floats F) (c : MetricsCollector F) (page : Page) (st : State F) : Prop where
  feeds : ∀ line ∈ page.lines, '\n' ∉ line.toList
  received : (page.lines.map String.toList).foldlM (receiveLine num.read) ⟨[], []⟩ = some st
  emitted : st.types.map Prod.fst = page.emitted
  distinct : page.emitted.Nodup
  kinds : ∀ name kind, (name, kind) ∈ st.types → ∃ help, c.info.get? name = some (kind, help)
  names : ∀ x ∈ st.series, x.name ∈ page.emitted

variable {c : MetricsCollector F} {page : Page} {st : State F}

theorem Reads.nil : Reads num c ⟨[], []⟩ ⟨[], []⟩ := by
  refine ⟨?_, rfl, rfl, List.nodup_nil, ?_, ?_⟩ <;> simp

/-- More lines that only add series. -/
theorem Reads.append {lines : List String} {series : List (Series F)} (reads : Reads num c page st)
    (feeds : ∀ line ∈ lines, '\n' ∉ line.toList)
    (received : (lines.map String.toList).foldlM (receiveLine num.read) st =
      some { st with series := series })
    (names : ∀ x ∈ series, x.name ∈ page.emitted) :
    Reads num c { page with lines := page.lines ++ lines } { st with series := series } := by
  refine ⟨?_, ?_, reads.emitted, reads.distinct, reads.kinds, names⟩
  · intro line member
    rcases List.mem_append.mp member with old | new
    · exact reads.feeds line old
    · exact feeds line new
  · rw [List.map_append, List.foldlM_append, reads.received]
    exact received

theorem Reads.lookup_iff {name : String} {kind : Kind} (reads : Reads num c page st) :
    Dict.lookup name st.types = some kind ↔ (name, kind) ∈ st.types := by
  have distinct : (st.types.map Prod.fst).Nodup := by
    rw [reads.emitted]
    exact reads.distinct
  let declared : Dict String Kind := ⟨st.types, distinct⟩
  have found : (name, kind) ∈ declared.items ↔ declared.get? name = some kind := Dict.mem_items_iff
  exact found.symm

theorem notMem_of_legal {allowed : Char → Bool} {cs : List Char} {d : Char}
    (ok : legal allowed cs = true) (other : allowed d = false) : d ∉ cs := by
  intro member
  obtain ⟨-, -, -, -, all⟩ := legal_cons ok
  rw [all d member] at other
  cases other

/-- A `# HELP` line, if there is one, is passed over. -/
theorem Reads.help {name help : String} (reads : Reads num c page st)
    (named : legal isNameChar name.toList = true) (feed : '\n' ∉ help.toList) :
    Reads num c { page with lines := page.lines ++ (if help = "" then [] else
      ["# HELP " ++ name ++ " " ++ help]) } st := by
  have unnamed := notMem_of_legal named (show isNameChar '\n' = false by decide)
  split
  · rw [List.append_nil]
    exact reads
  · refine reads.append (fun line member => ?_) ?_ reads.names
    · rw [List.mem_singleton.mp member, toList_help]
      simp [helpText, unnamed, feed]
    · simp only [List.map_singleton, toList_help, List.foldlM_cons, List.foldlM_nil]
      rw [receiveLine, readLine_helpText named]
      rfl

/-- A `# TYPE` line declares a metric that was not declared before. -/
theorem Reads.declare {name help : String} {kind : Kind} (reads : Reads num c page st)
    (named : legal isNameChar name.toList = true) (info : c.info.get? name = some (kind, help))
    (new : name ∉ page.emitted) :
    Reads num c ⟨page.emitted ++ [name], page.lines ++ ["# TYPE " ++ name ++ " " ++ kind.word]⟩
      ⟨st.types ++ [(name, kind)], st.series⟩ := by
  have unnamed := notMem_of_legal named (show isNameChar '\n' = false by decide)
  have typed : receiveLine num.read st (typeText name kind) =
      some ⟨st.types ++ [(name, kind)], st.series⟩ := by
    have fresh : ¬ (name ∈ st.types.map Prod.fst ∨ name ∈ st.series.map Series.name) := by
      rintro (declared | named')
      · exact new (reads.emitted ▸ declared)
      · obtain ⟨x, member, rfl⟩ := List.mem_map.mp named'
        exact new (reads.names x member)
    rw [receiveLine, readLine_typeText named, Option.bind_some, receive, if_neg fresh]
  refine ⟨?_, ?_, ?_, ?_, ?_, ?_⟩
  · intro line member
    rcases List.mem_append.mp member with old | added
    · exact reads.feeds line old
    · rw [List.mem_singleton.mp added, toList_type]
      exact notMem_typeText kind unnamed (by decide) (by decide) (by decide)
  · rw [List.map_append, List.foldlM_append, reads.received, Option.bind_eq_bind, Option.bind_some,
      List.map_singleton, toList_type, List.foldlM_cons, typed]
    rfl
  · simp [reads.emitted]
  · exact List.nodup_append.mpr ⟨reads.distinct, List.nodup_singleton _, by
      intro a old b single same
      rw [List.mem_singleton] at single
      exact new (single ▸ same ▸ old)⟩
  · intro name' kind' member
    rcases List.mem_append.mp member with old | added
    · exact reads.kinds _ _ old
    · cases List.mem_singleton.mp added
      exact ⟨help, info⟩
  · intro x member
    exact List.mem_append_left _ (reads.names x member)

/-- A header declares the kind of its metric, unless that is declared already. -/
theorem Reads.header {name help : String} {kind : Kind} (reads : Reads num c page st)
    (named : legal isNameChar name.toList = true) (info : c.info.get? name = some (kind, help))
    (feed : '\n' ∉ help.toList) :
    ∃ types, Reads num c (c.header page name) ⟨types, st.series⟩ ∧
      Dict.lookup name types = some kind ∧ name ∈ (c.header page name).emitted := by
  unfold MetricsCollector.header
  split
  · rename_i member
    have typed := member
    rw [← reads.emitted] at typed
    obtain ⟨⟨name', kind'⟩, declared, rfl⟩ := List.mem_map.mp typed
    obtain ⟨help', info'⟩ := reads.kinds _ _ declared
    rw [info] at info'
    cases info'
    exact ⟨st.types, reads, reads.lookup_iff.mpr declared, member⟩
  · rename_i new
    have known : c.info.getD name (.untyped, "") = (kind, help) := by rw [Dict.getD, info]; rfl
    simp only [known]
    have declared := (reads.help named feed).declare named info new
    refine ⟨st.types ++ [(name, kind)], declared, ?_, ?_⟩
    · exact declared.lookup_iff.mpr (List.mem_append_right _ (List.mem_singleton_self _))
    · exact List.mem_append_right _ (List.mem_singleton_self _)

theorem LegalKey.plain {k : MetricKey} {kind : Kind} (ok : LegalKey c kind k) (plain : PlainKey k) :
    ∀ label ∈ k.2, PlainLabel label :=
  fun label member => ⟨ok.labels label member, plain label member⟩

/-- How often a character stands in the label values. -/
def countValues (d : Char) (labels : List (String × String)) : Nat :=
  (labels.map fun label => label.2.toList.count d).sum

/-- A character that names, numbers and punctuation do not have. -/
def Foreign (d : Char) : Prop :=
  isNameChar d = false ∧ isNumberChar d = false ∧ d ∉ ['=', '"', ',', '\x7b', '\x7d', ' ']

theorem count_labels {d : Char} (foreign : Foreign d) {labels : List (String × String)}
    (named : ∀ label ∈ labels, legal isLabelChar label.1.toList = true) :
    ([','].intercalate (labels.map labelText)).count d = countValues d labels := by
  obtain ⟨unnamed, -, marks⟩ := foreign
  have unlabelled : isLabelChar d = false := by
    by_contra allowed
    rw [isNameChar_of_isLabelChar (by simpa using allowed)] at unnamed
    cases unnamed
  simp only [List.mem_cons, List.not_mem_nil, or_false, not_or] at marks
  rw [count_intercalate (Ne.symm marks.2.2.1), List.map_map]
  refine congrArg List.sum (List.map_congr_left fun label member => ?_)
  have absent := List.count_eq_zero.mpr (notMem_of_legal (named label member) unlabelled)
  simp [labelText, absent, Ne.symm marks.1, Ne.symm marks.2.1]

/-- A foreign character of a sample line stands in a label value. -/
theorem count_sampleText {d : Char} (foreign : Foreign d) {name text : String}
    {labels : List (String × String)} (named : legal isNameChar name.toList = true)
    (labelled : ∀ label ∈ labels, legal isLabelChar label.1.toList = true)
    (numeral : Numeral text) : (sampleText name labels text).count d = countValues d labels := by
  have inName := List.count_eq_zero.mpr (notMem_of_legal named foreign.1)
  have inText : text.toList.count d = 0 := by
    refine List.count_eq_zero.mpr fun member => ?_
    exact ne_of_isNumberChar (numeral.2 d member) foreign.2.1 rfl
  have inLabels := count_labels foreign labelled
  obtain ⟨-, -, marks⟩ := foreign
  simp only [List.mem_cons, List.not_mem_nil, or_false, not_or] at marks
  unfold sampleText blockText
  split
  · rename_i none
    simp [none, inName, inText, countValues, Ne.symm marks.2.2.2.2.2]
  · simp [inName, inText, inLabels, Ne.symm marks.2.2.2.1, Ne.symm marks.2.2.2.2.1,
      Ne.symm marks.2.2.2.2.2]

theorem foreign_feed : Foreign '\n' := ⟨by decide, by decide, by decide⟩

theorem foreign_slash : Foreign '\\' := ⟨by decide, by decide, by decide⟩

theorem PlainKey.countValues {k : MetricKey} (plain : PlainKey k) : countValues '\n' k.2 = 0 := by
  refine List.sum_eq_zero fun n member => ?_
  obtain ⟨label, found, rfl⟩ := List.mem_map.mp member
  exact List.count_eq_zero.mpr fun feed => (plain label found _ feed).2.2 rfl

/-- A counter or gauge is written and read back. -/
theorem Reads.single {kind : Kind} (single : kind = .counter ∨ kind = .gauge)
    {item : MetricKey × F} (reads : Reads num c page st) (ok : LegalKey c kind item.1)
    (plain : PlainKey item.1) :
    ∃ types, Reads num c (c.renderSingle num page item)
      ⟨types, st.series ++ [singleSeries kind item]⟩ := by
  obtain ⟨⟨name, labels⟩, val⟩ := item
  obtain ⟨help, info, feed, -⟩ := ok.info
  obtain ⟨types, headed, declared, emitted⟩ := reads.header ok.named info feed
  have sample : PlainSample num.read name labels (num.str val) val := by
    refine ⟨ok.named, ok.plain plain, ok.distinct, (num.numeral_str val).2,
      (num.numeral_str val).1, num.read_str val⟩
  refine ⟨types, headed.append ?_ ?_ ?_⟩
  · intro line member
    rw [List.mem_singleton.mp member, toList_sample, List.append_nil, ← List.count_eq_zero,
      count_sampleText foreign_feed ok.named ok.labels (num.numeral_str val)]
    exact plain.countValues
  · simp only [List.map_singleton, toList_sample, List.append_nil, List.foldlM_cons, List.foldlM_nil]
    rw [receiveLine_single sample declared single]
    rfl
  · intro x member
    rcases List.mem_append.mp member with old | new
    · exact headed.names x old
    · rw [List.mem_singleton.mp new]
      exact emitted

/-! ### Histograms -/

theorem numeral_toString (n : Nat) : Numeral (toString n) := by
  rw [show toString n = String.ofList (Nat.toDigits 10 n) from Nat.repr_eq_ofList_toDigits]
  refine ⟨by rw [String.toList_ofList]; exact Nat.toDigits_ne_nil, ?_⟩
  intro c member
  rw [String.toList_ofList] at member
  have digit := Nat.isDigit_of_mem_toDigits (by decide) (by decide) member
  simp [isNumberChar, isLabelChar, digit]

theorem numeral_inf : Numeral "+Inf" := ⟨by decide, List.all_eq_true.mp (by decide)⟩

theorem numeral_fmtLe (ub : F) : Numeral (fmtLe num ub) := by
  unfold fmtLe
  split
  · exact numeral_inf
  · exact num.numeral_general ub

theorem plain_of_numeral {text : String} (numeral : Numeral text) : Plain text.toList := by
  intro c member
  have allowed := numeral.2 c member
  exact ⟨ne_of_isNumberChar allowed (by decide), ne_of_isNumberChar allowed (by decide),
    ne_of_isNumberChar allowed (by decide)⟩

/-- The bucket lines: the text of a bound, the bound and the count. -/
def entries (num : Floats F) (h : HistogramData F) : List (String × F × Nat) :=
  (h.buckets.zip h.counts).map (fun (ub, n) => (fmtLe num ub, ub, n)) ++ [("+Inf", num.inf, h.count)]

/-- The text of a sample of a histogram. -/
def partText (name : String) (part : Part) (labels : List (String × String)) (text : String) :
    List Char :=
  sampleText (String.ofList (name.toList ++ part.suffix)) labels text

/-- The text of a bucket line. -/
def bucketText (name : String) (labels : List (String × String)) (entry : String × F × Nat) :
    List Char :=
  partText name .bucket (labels ++ [("le", entry.1)]) (toString entry.2.2)

theorem toList_histogramLines (name : String) (labels : List (String × String))
    (h : HistogramData F) :
    (histogramLines num name labels h).map String.toList =
      (entries num h).map (bucketText name labels) ++
        [partText name .sum labels (num.str h.sum),
          partText name .count labels (toString h.count)] := by
  obtain ⟨bucket, sum, count⟩ := append_suffix name
  unfold histogramLines entries bucketText partText
  rw [bucket, sum, count]
  simp only [List.map_append, List.map_map, List.map_cons, List.map_nil, toList_sample,
    List.append_nil, List.append_assoc, List.cons_append, List.nil_append]
  refine congrArg (· ++ _) (List.map_congr_left ?_)
  rintro ⟨ub, n⟩ -
  simp only [Function.comp_apply, toList_sample]

/-- A histogram whose buckets are being read. -/
def begun (name : String) (labels : List (String × String)) (buckets : List (F × F)) :
    List (Series F) :=
  if buckets = [] then [] else [.histogram ⟨name, labels, buckets, none, none⟩]

theorem amend_begun (name : String) (labels : List (String × String)) (buckets : List (F × F))
    (bucket : F × F) :
    amend name labels (fun h => { h with buckets := h.buckets ++ [bucket] })
      (begun name labels buckets) = begun name labels (buckets ++ [bucket]) := by
  cases buckets <;> simp [begun, amend]

/-- The samples of a legal histogram are plain. -/
theorem LegalHistogram.sample {k : MetricKey} {h : HistogramData F} {extra : List (String × String)}
    {text : String} {value : F} (ok : LegalHistogram num c k h) (plain : PlainKey k) (part : Part)
    (bounded : extra = [] ∨ ∃ bound, extra = [("le", bound)] ∧ Numeral bound)
    (numeral : Numeral text) (reads : num.read text = some value) :
    PlainSample num.read (String.ofList (k.1.toList ++ part.suffix)) (k.2 ++ extra) text value := by
  have own := ok.key.plain plain
  refine ⟨?_, ?_, ?_, numeral.2, numeral.1, reads⟩
  · rw [String.toList_ofList]
    refine legal_append ok.key.named ?_
    cases part <;> exact List.all_eq_true.mp (by decide)
  · intro label member
    rcases List.mem_append.mp member with old | new
    · exact own label old
    · rcases bounded with rfl | ⟨bound, rfl, numeral'⟩
      · cases new
      · rw [List.mem_singleton.mp new]
        have named : legal isLabelChar "le".toList = true := by decide +kernel
        exact ⟨named, plain_of_numeral numeral'⟩
  · rcases bounded with rfl | ⟨bound, rfl, -⟩
    · rw [List.append_nil]
      exact ok.key.distinct
    · rw [List.map_append]
      refine List.nodup_append.mpr ⟨ok.key.distinct, List.nodup_singleton _, ?_⟩
      intro a old b single same
      have named : b = "le" := List.mem_singleton.mp single
      rw [same, named] at old
      exact ok.unbounded old

/-- The bound of a bucket and the labels of its histogram. -/
theorem split_bound {labels : List (String × String)} (absent : "le" ∉ labels.map Prod.fst)
    (text : String) :
    Dict.lookup "le" (labels ++ [("le", text)]) = some text ∧
      (labels ++ [("le", text)]).filter (fun label => label.1 ≠ "le") = labels := by
  induction labels with
  | nil => simp [Dict.lookup]
  | cons label rest ih =>
      rw [List.map_cons, List.mem_cons, not_or] at absent
      obtain ⟨found, filtered⟩ := ih absent.2
      have other := Ne.symm absent.1
      rw [List.cons_append, Dict.lookup, if_neg other, List.filter_cons_of_pos (by simp [other]),
        filtered]
      exact ⟨found, rfl⟩

/-- The bucket lines of a histogram are read one after the other. -/
theorem LegalHistogram.receive_buckets {k : MetricKey} {h : HistogramData F}
    (ok : LegalHistogram num c k h) (plain : PlainKey k) {types : List (String × Kind)}
    {series : List (Series F)} (fresh : Fresh k.1 k.2 series)
    (declared : Dict.lookup k.1 types = some .histogram)
    (undeclared : ∀ part : Part,
      Dict.lookup (String.ofList (k.1.toList ++ part.suffix)) types = none)
    {entries : List (String × F × Nat)}
    (bounded : ∀ entry ∈ entries, Numeral entry.1 ∧ num.read entry.1 = some entry.2.1)
    (buckets : List (F × F)) :
    (entries.map (bucketText k.1 k.2)).foldlM (receiveLine num.read)
        ⟨types, series ++ begun k.1 k.2 buckets⟩ =
      some ⟨types, series ++ begun k.1 k.2
        (buckets ++ entries.map fun entry => (entry.2.1, num.ofNat entry.2.2))⟩ := by
  induction entries generalizing buckets with
  | nil => simp
  | cons entry rest ih =>
      obtain ⟨text, ub, n⟩ := entry
      obtain ⟨numeral, reads⟩ := bounded _ List.mem_cons_self
      have sample := ok.sample plain .bucket (.inr ⟨text, rfl, numeral⟩) (numeral_toString n)
        (num.read_nat n)
      obtain ⟨bound, own⟩ := split_bound ok.unbounded text
      have first : receiveLine num.read ⟨types, series ++ begun k.1 k.2 buckets⟩
          (bucketText k.1 k.2 (text, ub, n)) =
          some ⟨types, series ++ begun k.1 k.2 (buckets ++ [(ub, num.ofNat n)])⟩ := by
        unfold bucketText partText
        rw [receiveLine_part sample declared (undeclared .bucket)]
        simp only [receivePart, bound, Option.bind_some, reads, Option.map_some]
        rw [own, amend_fresh fresh, amend_begun]
      rw [List.map_cons, List.foldlM_cons, first, Option.bind_eq_bind, Option.bind_some,
        ih (fun entry member => bounded entry (List.mem_cons_of_mem _ member)), List.map_cons,
        List.append_assoc, List.singleton_append]

theorem LegalHistogram.entries_bounded {k : MetricKey} {h : HistogramData F}
    (ok : LegalHistogram num c k h) :
    ∀ entry ∈ entries num h, Numeral entry.1 ∧ num.read entry.1 = some entry.2.1 := by
  intro entry member
  rcases List.mem_append.mp member with bounded | last
  · obtain ⟨⟨ub, n⟩, paired, rfl⟩ := List.mem_map.mp bounded
    exact ⟨numeral_fmtLe ub, ok.bounds ub (List.of_mem_zip paired).1⟩
  · rw [List.mem_singleton.mp last]
    exact ⟨numeral_inf, num.read_inf⟩

theorem entries_buckets (h : HistogramData F) :
    ((entries num h).map fun entry => (entry.2.1, num.ofNat entry.2.2)) =
      h.buckets.zip (h.counts.map num.ofNat) ++ [(num.inf, num.ofNat h.count)] := by
  rw [entries, List.map_append, List.map_map, List.zip_map_right]
  rfl

/-- The lines of a histogram read as the histogram. -/
theorem LegalHistogram.receive_lines {k : MetricKey} {h : HistogramData F}
    (ok : LegalHistogram num c k h) (plain : PlainKey k) {types : List (String × Kind)}
    {series : List (Series F)} (fresh : Fresh k.1 k.2 series)
    (declared : Dict.lookup k.1 types = some .histogram)
    (undeclared : ∀ part : Part,
      Dict.lookup (String.ofList (k.1.toList ++ part.suffix)) types = none) :
    ((histogramLines num k.1 k.2 h).map String.toList).foldlM (receiveLine num.read)
        ⟨types, series⟩ = some ⟨types, series ++ [histogramSeries num (k, h)]⟩ := by
  have buckets := ok.receive_buckets plain fresh declared undeclared ok.entries_bounded []
  rw [begun, if_pos rfl, List.append_nil, List.nil_append, entries_buckets] at buckets
  have sum := ok.sample plain .sum (.inl rfl) (num.numeral_str h.sum) (num.read_str h.sum)
  have count := ok.sample plain .count (.inl rfl) (numeral_toString h.count) (num.read_nat h.count)
  rw [List.append_nil] at sum count
  rw [toList_histogramLines, List.foldlM_append, buckets, Option.bind_eq_bind, Option.bind_some]
  unfold partText
  rw [List.foldlM_cons, receiveLine_part sum declared (undeclared .sum)]
  simp only [receivePart, Option.map_some, Option.bind_eq_bind, Option.bind_some]
  rw [List.foldlM_cons, receiveLine_part count declared (undeclared .count)]
  simp only [receivePart, Option.map_some, Option.bind_eq_bind, Option.bind_some]
  rw [amend_fresh fresh, amend_fresh fresh]
  simp [begun, amend, histogramSeries]

/-- A foreign character of a line of a histogram stands in a label value. -/
theorem LegalHistogram.count_line {k : MetricKey} {h : HistogramData F} {d : Char}
    (foreign : Foreign d) (ok : LegalHistogram num c k h) :
    ∀ line ∈ histogramLines num k.1 k.2 h, line.toList.count d = countValues d k.2 := by
  have named : ∀ part : Part,
      legal isNameChar (String.ofList (k.1.toList ++ part.suffix)).toList = true := by
    intro part
    rw [String.toList_ofList]
    refine legal_append ok.key.named ?_
    cases part <;> exact List.all_eq_true.mp (by decide)
  have bucket : ∀ entry : String × F × Nat, Numeral entry.1 →
      (bucketText k.1 k.2 entry).count d = countValues d k.2 := by
    intro entry numeral
    have absent : entry.1.toList.count d = 0 := by
      refine List.count_eq_zero.mpr fun member => ?_
      exact ne_of_isNumberChar (numeral.2 d member) foreign.2.1 rfl
    rw [bucketText, partText, count_sampleText foreign (named .bucket) ?_ (numeral_toString _)]
    · simp [countValues, absent]
    · intro label member
      rcases List.mem_append.mp member with old | new
      · exact ok.key.labels label old
      · rw [List.mem_singleton.mp new]
        show legal isLabelChar "le".toList = true
        decide +kernel
  intro line member
  have text : line.toList ∈ (histogramLines num k.1 k.2 h).map String.toList :=
    List.mem_map_of_mem member
  rw [toList_histogramLines, List.mem_append, List.mem_map, List.mem_cons,
    List.mem_singleton] at text
  rcases text with ⟨entry, found, same⟩ | same | same
  · rw [← same]
    exact bucket entry (ok.entries_bounded entry found).1
  · rw [same]
    exact count_sampleText foreign (named .sum) ok.key.labels (num.numeral_str _)
  · rw [same]
    exact count_sampleText foreign (named .count) ok.key.labels (numeral_toString _)

/-- A histogram is written and read back. -/
theorem Reads.histogram {item : MetricKey × HistogramData F} (reads : Reads num c page st)
    (ok : LegalHistogram num c item.1 item.2) (plain : PlainKey item.1)
    (fresh : Fresh item.1.1 item.1.2 st.series) :
    ∃ types, Reads num c (c.renderHistogram num page item)
      ⟨types, st.series ++ [histogramSeries num item]⟩ := by
  obtain ⟨⟨name, labels⟩, h⟩ := item
  obtain ⟨help, info, feed, -⟩ := ok.key.info
  obtain ⟨types, headed, declared, emitted⟩ := reads.header ok.key.named info feed
  have undeclared : ∀ part : Part,
      Dict.lookup (String.ofList (name.toList ++ part.suffix)) types = none := by
    intro part
    by_contra found
    obtain ⟨kind, typed⟩ := Option.ne_none_iff_exists'.mp found
    obtain ⟨help', info'⟩ := headed.kinds _ kind (headed.lookup_iff.mp typed)
    rw [ok.parts part] at info'
    cases info'
  refine ⟨types, headed.append ?_ (ok.receive_lines plain fresh declared undeclared) ?_⟩
  · intro line member
    rw [← List.count_eq_zero, ok.count_line foreign_feed line member]
    exact plain.countValues
  · intro x member
    rcases List.mem_append.mp member with old | new
    · exact headed.names x old
    · rw [List.mem_singleton.mp new]
      exact emitted

/-! ### The whole page -/

theorem sortedItems_perm {V : Type} (d : Dict MetricKey V) : (sortedItems d).Perm d.items :=
  List.perm_insertionSort _ _

theorem mem_sortedItems {V : Type} {d : Dict MetricKey V} {item : MetricKey × V} :
    item ∈ sortedItems d ↔ item ∈ d.items :=
  (sortedItems_perm d).mem_iff

/-- A collector as the format wants it. -/
structure LegalState (num : Floats F) (c : MetricsCollector F) : Prop where
  counters : ∀ item ∈ c.counters.items, LegalKey c .counter item.1
  gauges : ∀ item ∈ c.gauges.items, LegalKey c .gauge item.1
  hist : ∀ item ∈ c.hist.items, LegalHistogram num c item.1 item.2

/-- No label value of the collector needs escaping. -/
structure PlainState (c : MetricsCollector F) : Prop where
  counters : ∀ item ∈ c.counters.items, PlainKey item.1
  gauges : ∀ item ∈ c.gauges.items, PlainKey item.1
  hist : ∀ item ∈ c.hist.items, PlainKey item.1

theorem Reads.singles {kind : Kind} (single : kind = .counter ∨ kind = .gauge)
    {items : List (MetricKey × F)} (ok : ∀ item ∈ items, LegalKey c kind item.1)
    (plain : ∀ item ∈ items, PlainKey item.1) (reads : Reads num c page st) :
    ∃ types, Reads num c (items.foldl (c.renderSingle num) page)
      ⟨types, st.series ++ items.map (singleSeries kind)⟩ := by
  induction items generalizing page st with
  | nil =>
      refine ⟨st.types, ?_⟩
      rw [List.map_nil, List.append_nil]
      exact reads
  | cons item rest ih =>
      obtain ⟨types, first⟩ := reads.single single (ok item List.mem_cons_self)
        (plain item List.mem_cons_self)
      obtain ⟨types', others⟩ := ih (fun i member => ok i (List.mem_cons_of_mem _ member))
        (fun i member => plain i (List.mem_cons_of_mem _ member)) first
      refine ⟨types', ?_⟩
      rw [List.append_assoc, List.singleton_append] at others
      exact others

theorem Reads.histograms {items : List (MetricKey × HistogramData F)}
    (ok : ∀ item ∈ items, LegalHistogram num c item.1 item.2)
    (plain : ∀ item ∈ items, PlainKey item.1) (distinct : (items.map Prod.fst).Nodup)
    (fresh : ∀ item ∈ items, Fresh item.1.1 item.1.2 st.series) (reads : Reads num c page st) :
    ∃ types, Reads num c (items.foldl (c.renderHistogram num) page)
      ⟨types, st.series ++ items.map (histogramSeries num)⟩ := by
  induction items generalizing page st with
  | nil =>
      refine ⟨st.types, ?_⟩
      rw [List.map_nil, List.append_nil]
      exact reads
  | cons item rest ih =>
      obtain ⟨types, first⟩ := reads.histogram (ok item List.mem_cons_self)
        (plain item List.mem_cons_self) (fresh item List.mem_cons_self)
      rw [List.map_cons, List.nodup_cons] at distinct
      have still : ∀ i ∈ rest, Fresh i.1.1 i.1.2 (st.series ++ [histogramSeries num item]) := by
        intro i member h found same
        rcases List.mem_append.mp found with old | new
        · exact fresh i (List.mem_cons_of_mem _ member) h old same
        · cases List.mem_singleton.mp new
          have key : item.1 = i.1 := Prod.ext same.1 same.2
          rw [key] at distinct
          exact distinct.1 (List.mem_map_of_mem member)
      obtain ⟨types', others⟩ := ih (fun i member => ok i (List.mem_cons_of_mem _ member))
        (fun i member => plain i (List.mem_cons_of_mem _ member)) distinct.2 still first
      refine ⟨types', ?_⟩
      rw [List.append_assoc, List.singleton_append] at others
      exact others

/-- A plain page reads as the recorded series. -/
theorem reads_page (ok : LegalState num c) (plain : PlainState c) :
    ∃ types, Reads num c (c.page num) ⟨types, c.series num⟩ := by
  obtain ⟨types, first⟩ := (Reads.nil : Reads num c _ _).singles (.inl rfl)
    (fun item member => ok.counters item (mem_sortedItems.mp member))
    (fun item member => plain.counters item (mem_sortedItems.mp member))
  obtain ⟨types', second⟩ := first.singles (.inr rfl)
    (fun item member => ok.gauges item (mem_sortedItems.mp member))
    (fun item member => plain.gauges item (mem_sortedItems.mp member))
  refine second.histograms (fun item member => ok.hist item (mem_sortedItems.mp member))
    (fun item member => plain.hist item (mem_sortedItems.mp member)) ?_ ?_
  · exact ((sortedItems_perm c.hist).map Prod.fst).nodup_iff.mpr c.hist.nodup
  · intro item member h found
    simp [singleSeries] at found

/-- The lines of a rendered text, when no line has a line feed. -/
theorem splitOn_render (feeds : ∀ line ∈ (c.page num).lines, '\n' ∉ line.toList) :
    ((c.render num).toList.splitOn '\n').foldlM (receiveLine num.read) ⟨[], []⟩ =
        ((c.page num).lines.map String.toList).foldlM (receiveLine num.read) ⟨[], []⟩ ∧
      ((c.render num).toList.splitOn '\n').getLast? = some [] := by
  have text : (c.render num).toList =
      ['\n'].intercalate ((c.page num).lines.map String.toList) ++ '\n' :: [] := by
    simp [render, String.toList_intercalate]
  rw [text, List.splitOn_append_cons_self]
  refine ⟨?_, by simp⟩
  cases lines : (c.page num).lines with
  | nil => rfl
  | cons line rest =>
      rw [List.splitOn_intercalate _ ?_ (by simp), List.foldlM_append]
      · cases (List.map String.toList (line :: rest)).foldlM (receiveLine num.read) ⟨[], []⟩ with
        | none => rfl
        | some st => rfl
      · intro l member
        obtain ⟨line', found, rfl⟩ := List.mem_map.mp member
        exact feeds line' (lines ▸ found)

/-- A plain collector is read back. -/
theorem decode_render (ok : LegalState num c) (plain : PlainState c) :
    decode num.read (c.render num) = some (c.series num) := by
  obtain ⟨types, reads⟩ := reads_page ok plain
  obtain ⟨folded, ends⟩ := splitOn_render reads.feeds
  unfold decode
  dsimp only
  rw [if_pos ends, folded, reads.received]
  rfl

/-! ### Backslashes of the page -/

/-- The backslashes of a page. -/
def slashes (page : Page) : Nat := (page.lines.map fun line => line.toList.count '\\').sum

/-- The backslashes in the label values of a series, as often as they are written. -/
def written (x : Series F) : Nat := x.samples * countValues '\\' x.labels

theorem slashes_append (page : Page) (lines : List String) :
    slashes { page with lines := page.lines ++ lines } =
      slashes page + (lines.map fun line => line.toList.count '\\').sum := by
  simp [slashes]

/-- A header has no backslash. -/
theorem LegalKey.slashes_header {kind : Kind} {k : MetricKey} (ok : LegalKey c kind k)
    (page : Page) : slashes (c.header page k.1) = slashes page := by
  obtain ⟨help, info, -, slash⟩ := ok.info
  have unnamed := notMem_of_legal ok.named foreign_slash.1
  have inName := List.count_eq_zero.mpr unnamed
  have inHelp := List.count_eq_zero.mpr slash
  unfold header
  split
  · rfl
  · have known : c.info.getD k.1 (.untyped, "") = (kind, help) := by rw [Dict.getD, info]; rfl
    have typed : ("# TYPE " ++ k.1 ++ " " ++ kind.word).toList.count '\\' = 0 := by
      rw [toList_type, List.count_eq_zero]
      exact notMem_typeText kind unnamed (by decide) (by decide) (by decide)
    have helped : ("# HELP " ++ k.1 ++ " " ++ help).toList.count '\\' = 0 := by
      rw [toList_help]
      simp [helpText, inName, inHelp]
    simp only [known, slashes, List.map_append, List.sum_append, List.map_singleton,
      List.sum_singleton, typed]
    split
    · rfl
    · rw [List.map_singleton, List.sum_singleton, helped]
      rfl

theorem LegalKey.slashes_single {kind : Kind} {item : MetricKey × F}
    (ok : LegalKey c kind item.1) (page : Page) :
    slashes (c.renderSingle num page item) = slashes page + written (singleSeries kind item) := by
  obtain ⟨⟨name, labels⟩, val⟩ := item
  unfold renderSingle
  dsimp only
  rw [slashes_append, ok.slashes_header, List.map_singleton, List.sum_singleton, toList_sample,
    List.append_nil, count_sampleText foreign_slash ok.named ok.labels (num.numeral_str val)]
  simp [written, singleSeries, Series.samples, Series.labels]

theorem LegalHistogram.slashes_histogram {item : MetricKey × HistogramData F}
    (ok : LegalHistogram num c item.1 item.2) (page : Page) :
    slashes (c.renderHistogram num page item) =
      slashes page + written (histogramSeries num item) := by
  obtain ⟨⟨name, labels⟩, h⟩ := item
  unfold renderHistogram
  dsimp only
  have counted := ok.count_line foreign_slash
  dsimp only at counted
  have length : (histogramLines num name labels h).length =
      (histogramSeries num ((name, labels), h)).samples := by
    simp [histogramLines, histogramSeries, Series.samples]
  rw [slashes_append, ok.key.slashes_header, List.map_congr_left counted, List.map_const',
    List.sum_replicate_nat, length]
  rfl

theorem slashes_foldl {I : Type} {f : Page → I → Page} {g : I → Nat} {items : List I}
    (one : ∀ item ∈ items, ∀ page, slashes (f page item) = slashes page + g item) (page : Page) :
    slashes (items.foldl f page) = slashes page + (items.map g).sum := by
  induction items generalizing page with
  | nil => rfl
  | cons item rest ih =>
      rw [List.foldl_cons, ih fun i member => one i (List.mem_cons_of_mem _ member),
        one item List.mem_cons_self, List.map_cons, List.sum_cons, Nat.add_assoc]

/-- All backslashes of a rendered text stand in label values. -/
theorem count_render (ok : LegalState num c) :
    (c.render num).toList.count '\\' = ((c.series num).map written).sum := by
  have text : (c.render num).toList.count '\\' = slashes (c.page num) := by
    have lines := count_intercalate (show '\n' ≠ '\\' by decide)
      ((c.page num).lines.map String.toList)
    rw [List.map_map] at lines
    simpa [render, String.toList_intercalate, slashes, Function.comp_def] using lines
  rw [text, page,
    slashes_foldl fun item member => (ok.hist item (mem_sortedItems.mp member)).slashes_histogram,
    slashes_foldl fun item member => (ok.gauges item (mem_sortedItems.mp member)).slashes_single,
    slashes_foldl fun item member => (ok.counters item (mem_sortedItems.mp member)).slashes_single]
  simp only [series, List.map_append, List.sum_append, List.map_map]
  simp [slashes, Function.comp_def]

/-- If larger terms have no larger sum, the terms are equal. -/
theorem le_of_sum_le {α : Type} {f g : α → Nat} {l : List α} (larger : ∀ x ∈ l, f x ≤ g x)
    (sums : (l.map g).sum ≤ (l.map f).sum) : ∀ x ∈ l, g x ≤ f x := by
  induction l with
  | nil => simp
  | cons y rest ih =>
      have first := larger y List.mem_cons_self
      have others := fun x member => larger x (List.mem_cons_of_mem y member)
      have smaller := List.sum_le_sum others
      simp only [List.map_cons, List.sum_cons] at sums
      intro x member
      rcases List.mem_cons.mp member with rfl | later
      · omega
      · exact ih others (by omega) x later

/-- A text with as few backslashes as it has, though each one takes two, is plain. -/
theorem plain_of_escapes_le {v : List Char} (few : escapes v ≤ v.count '\\') : Plain v := by
  unfold escapes at few
  intro c member
  have here : 0 < v.count c := List.count_pos_iff.mpr member
  refine ⟨?_, ?_, ?_⟩ <;> rintro rfl <;> omega

/-- What can be read back as recorded is plain. -/
theorem plain_of_decode (ok : LegalState num c)
    (decoded : decode num.read (c.render num) = some (c.series num)) :
    ∀ x ∈ c.series num, ∀ label ∈ x.labels, Plain label.2.toList := by
  have weight := weight_le decoded
  rw [count_render ok] at weight
  have more : ∀ labels : List (String × String), ∀ label ∈ labels,
      label.2.toList.count '\\' ≤ escapes label.2.toList := by
    intro labels label _
    unfold escapes
    omega
  have each : ∀ x ∈ c.series num, x.weight ≤ written x := by
    refine le_of_sum_le ?_ weight
    intro x _
    exact Nat.mul_le_mul_left _ (List.sum_le_sum (more x.labels))
  have samples : ∀ x ∈ c.series num, 0 < x.samples := by
    intro x member
    simp only [series, List.mem_append, List.mem_map] at member
    rcases member with (⟨item, -, rfl⟩ | ⟨item, -, rfl⟩) | ⟨item, -, rfl⟩
    · exact Nat.one_pos
    · exact Nat.one_pos
    · simp [histogramSeries, Series.samples]
  intro x member label labelled
  have labels : labelWeight x.labels ≤ countValues '\\' x.labels :=
    Nat.le_of_mul_le_mul_left (each x member) (samples x member)
  exact plain_of_escapes_le (le_of_sum_le (more x.labels) labels label labelled)

/-- **The exposition of a legal collector is read back precisely if it is plain.** -/
theorem decode_render_state_iff (ok : LegalState num c) :
    decode num.read (c.render num) = some (c.series num) ↔ PlainState c := by
  constructor
  · intro decoded
    have plain := plain_of_decode ok decoded
    refine ⟨?_, ?_, ?_⟩
    · intro item member
      refine plain (singleSeries .counter item) ?_
      simp only [series, List.mem_append]
      exact .inl (.inl (List.mem_map_of_mem (mem_sortedItems.mpr member)))
    · intro item member
      refine plain (singleSeries .gauge item) ?_
      simp only [series, List.mem_append]
      exact .inl (.inr (List.mem_map_of_mem (mem_sortedItems.mpr member)))
    · intro item member
      refine plain (histogramSeries num item) ?_
      simp only [series, List.mem_append]
      exact .inr (List.mem_map_of_mem (mem_sortedItems.mpr member))
  · exact decode_render ok

/-! ### Calls -/

/-- Calls as the format wants them, whatever the label values are. Names are legal, help texts
are lines without backslashes, a metric has one kind, bounds are read back as written, and a
histogram has no label `le` and shares no sample name with another metric. -/
structure Legal (num : Floats F) (calls : List (Call F)) : Prop where
  named : ∀ call ∈ calls, legal isNameChar call.name.toList = true
  labels : ∀ call ∈ calls, ∀ label ∈ call.labels.items, legal isLabelChar label.1.toList = true
  help : ∀ call ∈ calls, '\n' ∉ call.help.toList ∧ '\\' ∉ call.help.toList
  kinds : ∀ call ∈ calls, ∀ call' ∈ calls, call.name = call'.name → call.kind = call'.kind
  bounds : ∀ call ∈ calls, ∀ ub ∈ call.bounds num, num.read (fmtLe num ub) = some ub
  unbounded : ∀ call ∈ calls, call.kind = .histogram → "le" ∉ call.labels.keys
  parts : ∀ call ∈ calls, call.kind = .histogram → ∀ call' ∈ calls, ∀ part : Part,
    call'.name ≠ String.ofList (call.name.toList ++ part.suffix)

theorem key_perm (call : Call F) : call.key.2.Perm call.labels.items :=
  List.perm_insertionSort _ _

variable {calls : List (Call F)}

theorem Legal.key (ok : Legal num calls) {call : Call F} (member : call ∈ calls) :
    LegalKey (collect num calls) call.kind call.key := by
  have collected : Collected num calls (collect num calls) := collected_collect calls
  refine ⟨ok.named call member, ?_, ?_, ?_⟩
  · intro label labelled
    exact ok.labels call member label ((key_perm call).mem_iff.mp labelled)
  · exact ((key_perm call).map Prod.fst).nodup_iff.mpr call.labels.nodup
  · obtain ⟨i, info⟩ := Option.isSome_iff_exists.mp (collected.named call member)
    obtain ⟨call', member', same, rfl⟩ := collected.info _ _ info
    rw [ok.kinds call' member' call member same] at info
    exact ⟨call'.help, info, ok.help call' member'⟩

theorem Legal.state (ok : Legal num calls) : LegalState num (collect num calls) := by
  have collected : Collected num calls (collect num calls) := collected_collect calls
  refine ⟨?_, ?_, ?_⟩
  · rintro ⟨k, v⟩ member
    obtain ⟨call, made, kind, rfl⟩ := collected.counters k v (Dict.mem_items_iff.mp member)
    exact kind ▸ ok.key made
  · rintro ⟨k, v⟩ member
    obtain ⟨call, made, kind, rfl⟩ := collected.gauges k v (Dict.mem_items_iff.mp member)
    exact kind ▸ ok.key made
  · rintro ⟨k, h⟩ member
    obtain ⟨call, made, kind, rfl, bounds⟩ := collected.hist k h (Dict.mem_items_iff.mp member)
    refine ⟨kind ▸ ok.key made, ?_, ?_, ?_⟩
    · intro bounded
      exact ok.unbounded call made kind (((key_perm call).map Prod.fst).mem_iff.mp bounded)
    · intro ub bound
      rw [bounds] at bound
      exact ok.bounds call made ub bound
    · intro part
      by_contra found
      obtain ⟨i, info⟩ := Option.ne_none_iff_exists'.mp found
      obtain ⟨call', made', same, -⟩ := collected.info _ _ info
      exact ok.parts call made kind call' made' part same

/-- The label values of a collector are those of its calls. -/
theorem plainState_collect_iff :
    PlainState (collect num calls) ↔
      ∀ call ∈ calls, ∀ label ∈ call.labels.items, Plain label.2.toList := by
  have collected : Collected num calls (collect num calls) := collected_collect calls
  have key_iff : ∀ call : Call F,
      PlainKey call.key ↔ ∀ label ∈ call.labels.items, Plain label.2.toList := by
    intro call
    unfold PlainKey
    simp only [(key_perm call).mem_iff]
  constructor
  · intro plain call made
    rw [← key_iff]
    rcases collected.kept call made with ⟨-, kept⟩ | ⟨-, kept⟩ | ⟨-, kept⟩
    · obtain ⟨v, found⟩ := Option.isSome_iff_exists.mp kept
      exact plain.counters _ (Dict.mem_items_iff.mpr found)
    · obtain ⟨v, found⟩ := Option.isSome_iff_exists.mp kept
      exact plain.gauges _ (Dict.mem_items_iff.mpr found)
    · obtain ⟨h, found⟩ := Option.isSome_iff_exists.mp kept
      exact plain.hist _ (Dict.mem_items_iff.mpr found)
  · intro plain
    refine ⟨?_, ?_, ?_⟩
    · rintro ⟨k, v⟩ member
      obtain ⟨call, made, -, rfl⟩ := collected.counters k v (Dict.mem_items_iff.mp member)
      exact (key_iff call).mpr (plain call made)
    · rintro ⟨k, v⟩ member
      obtain ⟨call, made, -, rfl⟩ := collected.gauges k v (Dict.mem_items_iff.mp member)
      exact (key_iff call).mpr (plain call made)
    · rintro ⟨k, h⟩ member
      obtain ⟨call, made, -, rfl, -⟩ := collected.hist k h (Dict.mem_items_iff.mp member)
      exact (key_iff call).mpr (plain call made)

/-- **The exposition is decodable precisely if no label value needs escaping.** After any
calls whose names, kinds, help texts and bounds are as the format wants them, the rendered
text is read back as the recorded series if and only if no label value has a quote, a
backslash or a line feed. -/
theorem decode_render_iff (num : Floats F) (calls : List (Call F)) (ok : Legal num calls) :
    decode num.read ((collect num calls).render num) = some ((collect num calls).series num) ↔
      ∀ call ∈ calls, ∀ label ∈ call.labels.items, Plain label.2.toList :=
  (decode_render_state_iff ok.state).trans plainState_collect_iff

/-! ### Whole numbers -/

/-- Read a whole number or infinity. -/
def readWhole (text : String) : Option (Option Nat) :=
  if text = "+Inf" ∨ text = "inf" then some none
  else if text.toList.takeWhile Char.isDigit ≠ [] ∧
      text.toList.dropWhile Char.isDigit ∈ [[], ['.', '0']] then
    some (some (Nat.ofDigitChars 10 (text.toList.takeWhile Char.isDigit) 0))
  else none

theorem readWhole_append (n : Nat) {rest : List Char} (ends : rest ∈ [[], ['.', '0']]) :
    readWhole (String.ofList (Nat.toDigits 10 n ++ rest)) = some (some n) := by
  have digits : ∀ c ∈ Nat.toDigits 10 n, c.isDigit = true := fun c member =>
    Nat.isDigit_of_mem_toDigits (by decide) (by decide) member
  have stops : ∀ c ∈ rest.head?, c.isDigit = false := by
    rw [List.mem_pair] at ends
    rcases ends with rfl | rfl
    · exact nofun
    · intro c first
      cases first
      rfl
  obtain ⟨taken, dropped⟩ := takeWhile_dropWhile_append digits stops
  obtain ⟨d, more, first⟩ := List.exists_cons_of_ne_nil (Nat.toDigits_ne_nil (n := n) (b := 10))
  have worded : ∀ word : String, (word.toList.head?.any fun c => !c.isDigit) = true →
      String.ofList (Nat.toDigits 10 n ++ rest) ≠ word := by
    rintro word other rfl
    rw [String.toList_ofList, first] at other
    have digit := digits d (by rw [first]; exact List.mem_cons_self)
    simp [digit] at other
  unfold readWhole
  rw [if_neg (not_or.mpr ⟨worded "+Inf" (by decide), worded "inf" (by decide)⟩),
    String.toList_ofList, taken, dropped, if_pos ⟨Nat.toDigits_ne_nil, ends⟩,
    Nat.ofDigitChars_ten_toDigits]

theorem toString_eq (n : Nat) : toString n = String.ofList (Nat.toDigits 10 n) :=
  Nat.repr_eq_ofList_toDigits

theorem numeral_append {text : String} (numeral : Numeral text) {more : String}
    (chars : ∀ c ∈ more.toList, isNumberChar c = true) : Numeral (text ++ more) := by
  unfold Numeral
  rw [String.toList_append]
  refine ⟨by simp [numeral.1], ?_⟩
  intro c member
  rcases List.mem_append.mp member with old | new
  · exact numeral.2 c old
  · exact chars c new

/-- Whole numbers and infinity, as Python writes small ones. -/
def wholes : Floats (Option Nat) where
  zero := some 0
  inf := none
  add := fun x y => x.bind fun a => y.map fun b => a + b
  le := fun x y => y.all fun b => x.any fun a => a ≤ b
  isInf := Option.isNone
  ofNat := some
  lit := fun q => some q.floor.toNat
  str := fun x => match x with
    | some n => toString n ++ ".0"
    | none => "inf"
  general := fun x => match x with
    | some n => toString n
    | none => "inf"
  read := readWhole
  read_str := by
    intro x
    cases x with
    | none => decide +kernel
    | some n =>
        have read := readWhole_append n (show ['.', '0'] ∈ [[], ['.', '0']] by decide)
        rw [String.ofList_append, ← toString_eq] at read
        exact read
  read_nat := by
    intro n
    have read := readWhole_append n (show [] ∈ [[], ['.', '0']] by decide)
    rw [List.append_nil, ← toString_eq] at read
    exact read
  read_inf := by decide +kernel
  numeral_str := by
    intro x
    cases x with
    | none => exact ⟨by decide, List.all_eq_true.mp (by decide)⟩
    | some n => exact numeral_append (numeral_toString n) (List.all_eq_true.mp (by decide))
  numeral_general := by
    intro x
    cases x with
    | none => exact ⟨by decide, List.all_eq_true.mp (by decide)⟩
    | some n => exact numeral_toString n

/-- The gauge of a backend. -/
def backendUp (backend : String) : Call (Option Nat) :=
  .setGauge "gateway_backend_up" (some 1) "1 if backend is healthy else 0"
    (.ofItems [("backend", backend)])

/-- The calls of a scrape with one backend, after one request. -/
def oneBackend : List (Call (Option Nat)) :=
  [.incCounter "gateway_tenant_requests_total" (some 1) "Requests per tenant"
      (.ofItems [("tenant", "acme")]),
    .observe "gateway_prefix_match_blocks" (some 4) (some [some 0, some 1, some 2, some 4])
      "Prefix blocks reused (cache affinity) per request" .empty,
    backendUp "b0"]

/-- A counter, a histogram and a gauge are read back. -/
theorem decode_render_plain :
    Legal wholes oneBackend ∧
      decode wholes.read ((collect wholes oneBackend).render wholes) =
        some ((collect wholes oneBackend).series wholes) := by
  have ok : Legal wholes oneBackend := by
    refine ⟨by decide +kernel, by decide +kernel, by decide +kernel, by decide +kernel,
      by decide +kernel, by decide +kernel, ?_⟩
    intro call made kind call' made' part
    cases part <;> revert call call' <;> decide +kernel
  have plain : ∀ call ∈ oneBackend, ∀ label ∈ call.labels.items, Plain label.2.toList := by
    decide +kernel
  exact ⟨ok, (decode_render_iff wholes oneBackend ok).mpr plain⟩

/-- A backend id with a quote is read as two labels. -/
theorem decode_render_quote :
    (decode wholes.read ((collect wholes [backendUp "b\",shard=\"0"]).render wholes)).map
        (fun series => series.map Series.labels) = some [[("backend", "b"), ("shard", "0")]] ∧
      decode wholes.read ((collect wholes [backendUp "b\",shard=\"0"]).render wholes) ≠
        some ((collect wholes [backendUp "b\",shard=\"0"]).series wholes) := by
  have read : (decode wholes.read ((collect wholes [backendUp "b\",shard=\"0"]).render wholes)).map
      (fun series => series.map Series.labels) = some [[("backend", "b"), ("shard", "0")]] := by
    decide +kernel
  refine ⟨read, fun same => ?_⟩
  rw [same] at read
  exact absurd read (by decide +kernel)

end MetricsCollector

end Gateway
