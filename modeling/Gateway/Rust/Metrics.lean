import Gateway.Metrics.Exposition

/-!
The metrics of the Rust gateway (`rust/src/metrics.rs`), against those of the Python gateway.

The Rust gateway keeps the first type and help text of a metric where the Python gateway keeps the
last, sorts labels by their names alone, writes floats in another way, and ends every line of the
page with a line feed. A map in the order of its keys is an association list here, whose items are
sorted when the page is written.

* `collect_twins`: after the same calls both collectors hold the same values.
* `decode_render_rust_iff`: a scraper reads the page of the Rust gateway as the series that the
  Python gateway has recorded, precisely if no label value has a character to escape.
-/

namespace Gateway.Rust

open Exposition MetricsCollector

/-- `{}` of a float. -/
structure Display {F : Type} (num : Floats F) where
  display : F → String
  read_display : ∀ x, num.read (display x) = some x
  numeral_display : ∀ x, Numeral (display x)

/-- The floats, with their texts in this gateway. -/
def Display.floats {F : Type} {num : Floats F} (d : Display num) : Floats F :=
  { num with
    str := d.display
    general := d.display
    read_str := d.read_display
    numeral_str := d.numeral_display
    numeral_general := d.numeral_display }

/-- `MetricsCollector`. `Hist` has the fields of the Python gateway, and its loop. -/
structure MetricsCollector (F : Type) where
  counters : Dict MetricKey F
  gauges : Dict MetricKey F
  hists : Dict MetricKey (HistogramData F)
  info : Dict String (Kind × String)

namespace MetricsCollector

variable {F : Type} (num : Floats F)

/-- `MetricsCollector::new()`. -/
def init : MetricsCollector F := ⟨.empty, .empty, .empty, .empty⟩

/-- `key(name, labels)`. -/
def key (name : String) (labels : List (String × String)) : MetricKey :=
  (name, labels.insertionSort fun a b => (compare a.1 b.1).isLE)

/-- `entry(name).or_insert((kind, help))`. -/
def orInsert (info : Dict String (Kind × String)) (name : String) (kind : Kind) (help : String) :
    Dict String (Kind × String) :=
  match info.get? name with
  | some _ => info
  | none => info.set name (kind, help)

/-- `inc_counter(name, value, help, labels)`. -/
def incCounter (r : MetricsCollector F) (name : String) (value : F) (help : String)
    (labels : List (String × String)) : MetricsCollector F :=
  let k := key name labels
  { r with
    info := orInsert r.info name .counter help
    counters := r.counters.set k (num.add (r.counters.getD k num.zero) value) }

/-- `set_gauge(name, value, help, labels)`. -/
def setGauge (r : MetricsCollector F) (name : String) (value : F) (help : String)
    (labels : List (String × String)) : MetricsCollector F :=
  { r with
    info := orInsert r.info name .gauge help
    gauges := r.gauges.set (key name labels) value }

/-- `observe(name, value, buckets, help, labels)`. -/
def observe (r : MetricsCollector F) (name : String) (value : F) (buckets : List F) (help : String)
    (labels : List (String × String)) : MetricsCollector F :=
  let k := key name labels
  let h := (r.hists.get? k).getD (.init num buckets)
  { r with
    info := orInsert r.info name .histogram help
    hists := r.hists.set k (h.add num value) }

/-! ### Rendering -/

variable {num} (d : Display num)

/-- `fmt_labels(labels, extra)`. -/
def fmtLabels (labels extra : List (String × String)) : String :=
  if labels.isEmpty && extra.isEmpty then ""
  else
    let all := labels ++ extra
    "\x7b" ++ ",".intercalate (all.map fun (k, v) => k ++ "=\"" ++ v ++ "\"") ++ "\x7d"

/-- `fmt_le(ub)`. -/
def fmtLe (ub : F) : String := if num.isInf ub then "+Inf" else d.display ub

/-- `header(out, name, emitted)`. -/
def header (r : MetricsCollector F) (page : Page) (name : String) : Page :=
  if name ∈ page.emitted then page
  else
    match r.info.get? name with
    | some (typ, help) =>
        ⟨page.emitted ++ [name],
          page.lines ++ (if help = "" then [] else ["# HELP " ++ name ++ " " ++ help]) ++
            ["# TYPE " ++ name ++ " " ++ typ.word]⟩
    | none => ⟨page.emitted ++ [name], page.lines⟩

/-- A counter or a gauge. -/
def renderSingle (r : MetricsCollector F) (page : Page) (item : MetricKey × F) : Page :=
  let ((name, labels), val) := item
  let page := r.header page name
  { page with lines := page.lines ++ [name ++ fmtLabels labels [] ++ " " ++ d.display val] }

/-- The lines of a histogram. -/
def histogramLines (name : String) (labels : List (String × String)) (h : HistogramData F) :
    List String :=
  (h.buckets.zip h.counts).map (fun (ub, n) =>
      name ++ "_bucket" ++ fmtLabels labels [("le", fmtLe d ub)] ++ " " ++ toString n) ++
    [name ++ "_bucket" ++ fmtLabels labels [("le", "+Inf")] ++ " " ++ toString h.count,
      name ++ "_sum" ++ fmtLabels labels [] ++ " " ++ d.display h.sum,
      name ++ "_count" ++ fmtLabels labels [] ++ " " ++ toString h.count]

/-- A histogram. -/
def renderHistogram (r : MetricsCollector F) (page : Page) (item : MetricKey × HistogramData F) :
    Page :=
  let ((name, labels), h) := item
  let page := r.header page name
  { page with lines := page.lines ++ histogramLines d name labels h }

/-- The lines of `render()`. -/
def page (r : MetricsCollector F) : Page :=
  let page := (sortedItems r.counters).foldl (r.renderSingle d) ⟨[], []⟩
  let page := (sortedItems r.gauges).foldl (r.renderSingle d) page
  (sortedItems r.hists).foldl (r.renderHistogram d) page

/-- `render()`. -/
def render (r : MetricsCollector F) : String :=
  (r.page d).lines.foldl (fun out line => out ++ line ++ "\n") ""

/-! ### Calls -/

variable (num)

/-- A call of the Python gateway, made here. -/
def apply (r : MetricsCollector F) : Gateway.MetricsCollector.Call F → MetricsCollector F
  | .incCounter name value help labels => r.incCounter num name value help labels.items
  | .setGauge name value help labels => r.setGauge name value help labels.items
  | .observe name value buckets help labels =>
      r.observe num name value (bounds num buckets) help labels.items

/-- The collector after some calls. -/
def collect (calls : List (Gateway.MetricsCollector.Call F)) : MetricsCollector F :=
  calls.foldl (apply num) init

/-! ### The same values -/

section Sorting

variable {α : Type} {r s : α → α → Prop} [DecidableRel r] [DecidableRel s]

theorem orderedInsert_congr {a : α} {l : List α} (same : ∀ b ∈ l, r a b ↔ s a b) :
    l.orderedInsert r a = l.orderedInsert s a := by
  induction l with
  | nil => rfl
  | cons b l ih =>
      obtain ⟨here, later⟩ := List.forall_mem_cons.mp same
      simp only [List.orderedInsert_cons, here, ih later]

/-- Two orders that agree on the items sort them alike. -/
theorem insertionSort_congr {l : List α} (same : l.Pairwise fun a b => r a b ↔ s a b) :
    l.insertionSort r = l.insertionSort s := by
  induction l with
  | nil => rfl
  | cons a l ih =>
      obtain ⟨first, rest⟩ := List.pairwise_cons.mp same
      rw [List.insertionSort_cons, List.insertionSort_cons, ih rest]
      exact orderedInsert_congr fun b member =>
        first b ((List.perm_insertionSort s l).mem_iff.mp member)

end Sorting

/-- The names of the labels differ, so their values do not decide the order. -/
theorem key_eq (name : String) (labels : Dict String String) :
    key name labels.items = Gateway.MetricsCollector.key name labels := by
  refine congrArg (Prod.mk name) (insertionSort_congr ?_)
  refine (List.pairwise_map.mp labels.nodup).imp fun {a b} differ => ?_
  have decided : compare a.1 b.1 ≠ .eq := fun same => differ (Std.LawfulEqOrd.eq_of_compare same)
  rw [labelCompare]
  cases order : compare a.1 b.1 with
  | lt => simp
  | eq => exact absurd order decided
  | gt => simp

variable {num}

theorem collect_append (calls : List (Gateway.MetricsCollector.Call F))
    (call : Gateway.MetricsCollector.Call F) :
    collect num (calls ++ [call]) = (collect num calls).apply num call := by
  rw [collect, List.foldl_append]
  rfl

/-- What a call does to a collector that holds the same values. -/
theorem apply_twins {r : MetricsCollector F} {c : Gateway.MetricsCollector F}
    (counters : r.counters = c.counters) (gauges : r.gauges = c.gauges) (hists : r.hists = c.hist)
    (call : Gateway.MetricsCollector.Call F) :
    (r.apply num call).counters = (c.apply num call).counters ∧
      (r.apply num call).gauges = (c.apply num call).gauges ∧
      (r.apply num call).hists = (c.apply num call).hist ∧
      (r.apply num call).info = orInsert r.info call.name call.kind call.help := by
  cases call with
  | incCounter name value help labels =>
      refine ⟨?_, gauges, hists, rfl⟩
      simp only [apply, incCounter, Gateway.MetricsCollector.apply,
        Gateway.MetricsCollector.incCounter, key_eq, counters]
  | setGauge name value help labels =>
      refine ⟨counters, ?_, hists, rfl⟩
      simp only [apply, setGauge, Gateway.MetricsCollector.apply,
        Gateway.MetricsCollector.setGauge, key_eq, gauges]
  | observe name value buckets help labels =>
      refine ⟨counters, gauges, ?_, rfl⟩
      simp only [apply, observe, Gateway.MetricsCollector.apply,
        Gateway.MetricsCollector.observe, key_eq, hists]

/-- After the same calls both collectors hold the same values. -/
theorem collect_twins (calls : List (Gateway.MetricsCollector.Call F)) :
    (collect num calls).counters = (Gateway.MetricsCollector.collect num calls).counters ∧
      (collect num calls).gauges = (Gateway.MetricsCollector.collect num calls).gauges ∧
      (collect num calls).hists = (Gateway.MetricsCollector.collect num calls).hist := by
  induction calls using List.reverseRecOn with
  | nil => exact ⟨rfl, rfl, rfl⟩
  | append_singleton calls call ih =>
      obtain ⟨counters, gauges, hists⟩ := ih
      obtain ⟨counters, gauges, hists, -⟩ := apply_twins counters gauges hists call
      rw [collect_append, Gateway.MetricsCollector.collect_append]
      exact ⟨counters, gauges, hists⟩

/-- The header of a metric is that of its first call. -/
theorem info_collect (calls : List (Gateway.MetricsCollector.Call F)) (name : String) :
    (collect num calls).info.get? name =
      (calls.find? fun call => call.name = name).map fun call => (call.kind, call.help) := by
  induction calls using List.reverseRecOn with
  | nil => rfl
  | append_singleton calls call ih =>
      obtain ⟨counters, gauges, hists⟩ : (collect num calls).counters = _ ∧ _ := collect_twins calls
      obtain ⟨-, -, -, info⟩ := apply_twins counters gauges hists call
      rw [collect_append, info, orInsert, List.find?_append]
      by_cases here : call.name = name
      · subst here
        rw [ih]
        cases found : calls.find? (fun call' => call'.name = call.name) with
        | none => simp
        | some first => simp [ih, found]
      · have none_new : List.find? (fun call => decide (call.name = name)) [call] = none := by
          simp [here]
        rw [none_new, Option.or_none, ← ih]
        split
        · rfl
        · rw [Dict.get?_set, if_neg (Ne.symm here)]

/-! ### The same page -/

/-- A collector of the Python gateway that holds the same. -/
def toPython (r : MetricsCollector F) : Gateway.MetricsCollector F :=
  ⟨r.counters, r.gauges, r.hists, r.info⟩

variable {r : MetricsCollector F} {d}

theorem fmtLabels_eq (labels extra : List (String × String)) :
    fmtLabels labels extra = Gateway.MetricsCollector.fmtLabels labels extra := by
  cases labels with
  | nil => cases extra <;> rfl
  | cons => rfl

theorem header_eq {name : String} (known : (r.info.get? name).isSome = true) (page : Page) :
    r.header page name = r.toPython.header page name := by
  obtain ⟨⟨kind, help⟩, found⟩ := Option.isSome_iff_exists.mp known
  have default : r.toPython.info.getD name (.untyped, "") = (kind, help) := by
    rw [toPython, Dict.getD, found]
    rfl
  unfold header Gateway.MetricsCollector.header
  rw [default, found]

theorem histogramLines_eq (name : String) (labels : List (String × String)) (h : HistogramData F) :
    histogramLines d name labels h =
      Gateway.MetricsCollector.histogramLines d.floats name labels h := by
  simp only [histogramLines, Gateway.MetricsCollector.histogramLines, fmtLabels_eq]
  rfl

/-- Every value has a header. -/
structure Known (r : MetricsCollector F) : Prop where
  counters : ∀ item ∈ r.counters.items, (r.info.get? item.1.1).isSome = true
  gauges : ∀ item ∈ r.gauges.items, (r.info.get? item.1.1).isSome = true
  hists : ∀ item ∈ r.hists.items, (r.info.get? item.1.1).isSome = true

/-- The page is the one that the Python gateway would write with these texts. -/
theorem page_eq (known : r.Known) : r.page d = r.toPython.page d.floats := by
  have single : ∀ page item, (r.info.get? item.1.1).isSome = true →
      r.renderSingle d page item = r.toPython.renderSingle d.floats page item := by
    rintro page ⟨⟨name, labels⟩, val⟩ headed
    simp only [renderSingle, Gateway.MetricsCollector.renderSingle, header_eq headed, fmtLabels_eq]
    rfl
  have histogram : ∀ page item, (r.info.get? item.1.1).isSome = true →
      r.renderHistogram d page item = r.toPython.renderHistogram d.floats page item := by
    rintro page ⟨⟨name, labels⟩, h⟩ headed
    simp only [renderHistogram, Gateway.MetricsCollector.renderHistogram, header_eq headed,
      histogramLines_eq]
  unfold page Gateway.MetricsCollector.page
  dsimp only
  rw [List.foldl_ext _ _ _ fun page item member =>
      single page item (known.counters item (mem_sortedItems.mp member)),
    List.foldl_ext _ _ _ fun page item member =>
      single page item (known.gauges item (mem_sortedItems.mp member)),
    List.foldl_ext _ _ _ fun page item member =>
      histogram page item (known.hists item (mem_sortedItems.mp member))]
  rfl

theorem toList_foldl_feed (lines : List String) (out : String) :
    (lines.foldl (fun out line => out ++ line ++ "\n") out).toList =
      out.toList ++ (lines.map fun line => line.toList ++ ['\n']).flatten := by
  induction lines generalizing out with
  | nil => simp
  | cons line lines ih => simp [ih]

theorem flatten_feed {lines : List (List Char)} (some_line : lines ≠ []) :
    (lines.map (· ++ ['\n'])).flatten = ['\n'].intercalate lines ++ ['\n'] := by
  obtain ⟨line, lines, rfl⟩ := List.exists_cons_of_ne_nil some_line
  induction lines generalizing line with
  | nil => simp
  | cons next lines ih =>
      have rest := ih next (by simp)
      rw [List.map_cons, List.flatten_cons, rest, List.intercalate_cons_cons]
      simp

/-- The pages of both read alike, also the empty ones. -/
theorem decode_render (known : r.Known) :
    decode num.read (r.render d) = decode num.read (r.toPython.render d.floats) := by
  unfold render Gateway.MetricsCollector.render
  rw [page_eq known]
  by_cases none : (r.toPython.page d.floats).lines = []
  · rw [none]
    rfl
  · refine congrArg _ (String.toList_inj.mp ?_)
    rw [toList_foldl_feed, String.toList_append, String.toList_intercalate]
    have feeds : (((r.toPython.page d.floats).lines.map String.toList).map (· ++ ['\n'])).flatten = _ :=
      flatten_feed (by simpa using none)
    rw [List.map_map] at feeds
    simpa [Function.comp_def] using feeds

/-! ### Reading the page -/

variable {calls : List (Gateway.MetricsCollector.Call F)}

/-- A metric has a header once it was called. -/
theorem exists_info {call : Gateway.MetricsCollector.Call F} (made : call ∈ calls) :
    ∃ first ∈ calls, first.name = call.name ∧
      (collect num calls).info.get? call.name = some (first.kind, first.help) := by
  have some_call : (calls.find? fun call' => call'.name = call.name).isSome = true :=
    List.find?_isSome.mpr ⟨call, made, decide_eq_true rfl⟩
  obtain ⟨first, found⟩ := Option.isSome_iff_exists.mp some_call
  have called : first.name = call.name := by simpa using List.find?_some found
  refine ⟨first, List.mem_of_find?_eq_some found, called, ?_⟩
  rw [info_collect, found]
  rfl

theorem known_collect (calls : List (Gateway.MetricsCollector.Call F)) : (collect num calls).Known := by
  obtain ⟨counters, gauges, hists⟩ : (collect num calls).counters = _ ∧ _ := collect_twins calls
  have collected : Collected num calls _ := collected_collect calls
  have named : ∀ call ∈ calls, ((collect num calls).info.get? call.key.1).isSome = true := by
    intro call made
    obtain ⟨first, -, -, info⟩ : ∃ first ∈ calls, _ ∧ (collect num calls).info.get? _ = _ :=
      exists_info made
    exact Option.isSome_iff_exists.mpr ⟨_, info⟩
  constructor
  · rintro ⟨k, v⟩ member
    rw [counters] at member
    obtain ⟨call, made, -, rfl⟩ := collected.counters k v (Dict.mem_items_iff.mp member)
    exact named call made
  · rintro ⟨k, v⟩ member
    rw [gauges] at member
    obtain ⟨call, made, -, rfl⟩ := collected.gauges k v (Dict.mem_items_iff.mp member)
    exact named call made
  · rintro ⟨k, h⟩ member
    rw [hists] at member
    obtain ⟨call, made, -, rfl, -⟩ := collected.hist k h (Dict.mem_items_iff.mp member)
    exact named call made

/-- A key that is as the format wants it in one collector is so in the other. -/
theorem legalKey (ok : Legal num calls) {kind : Kind} {k : MetricKey}
    (legal : LegalKey (Gateway.MetricsCollector.collect num calls) kind k) :
    LegalKey (collect num calls).toPython kind k := by
  obtain ⟨named, labels, distinct, help, info, -⟩ := legal
  obtain ⟨call, made, called, same⟩ := (collected_collect calls).info _ _ info
  obtain ⟨first, made', name, info'⟩ : ∃ first ∈ calls, _ ∧ (collect num calls).info.get? _ = _ :=
    exists_info made
  rw [called] at info'
  refine ⟨named, labels, distinct, first.help, ?_, ok.help first made'⟩
  have kinds := ok.kinds first made' call made name
  rw [toPython, info', kinds, ← (Prod.mk.inj same).1]

/-- The collector is as the format wants it, as the one of the Python gateway is. -/
theorem legalState (d : Display num) (ok : Legal num calls) :
    LegalState d.floats (collect num calls).toPython := by
  obtain ⟨counters, gauges, hists⟩ : (collect num calls).counters = _ ∧ _ := collect_twins calls
  have state := ok.state
  constructor
  · intro item member
    rw [toPython, counters] at member
    exact legalKey ok (state.counters item member)
  · intro item member
    rw [toPython, gauges] at member
    exact legalKey ok (state.gauges item member)
  · intro item member
    rw [toPython, hists] at member
    obtain ⟨key, unbounded, bounds, parts⟩ := state.hist item member
    refine ⟨legalKey ok key, unbounded, fun ub bound => ?_, fun part => ?_⟩
    · have read := bounds ub bound
      unfold Gateway.MetricsCollector.fmtLe at read ⊢
      show num.read (if num.isInf ub then "+Inf" else d.display ub) = some ub
      split at read
      · rename_i infinite
        rw [if_pos infinite]
        exact read
      · rename_i finite
        rw [if_neg finite]
        exact d.read_display ub
    · show (collect num calls).info.get? _ = none
      rw [info_collect, Option.map_eq_none_iff, List.find?_eq_none]
      intro call made same
      have collected : Collected num calls _ := collected_collect calls
      have named := collected.named call made
      rw [of_decide_eq_true same, parts part] at named
      cases named

/-- **The dashboards work against either gateway.** After any calls whose names, kinds, help texts and
bounds are as the format wants them, the page of the Rust gateway is read as the series that the
Python gateway has recorded, if and only if no label value has a quote, a backslash or a line feed. -/
theorem decode_render_rust_iff (num : Floats F) (d : Display num)
    (calls : List (Gateway.MetricsCollector.Call F)) (ok : Legal num calls) :
    decode num.read ((collect num calls).render d) =
        some ((Gateway.MetricsCollector.collect num calls).series num) ↔
      ∀ call ∈ calls, ∀ label ∈ call.labels.items, Plain label.2.toList := by
  obtain ⟨counters, gauges, hists⟩ : (collect num calls).counters = _ ∧ _ := collect_twins calls
  have same : (collect num calls).toPython =
      { Gateway.MetricsCollector.collect num calls with info := (collect num calls).info } := by
    rw [toPython, counters, gauges, hists]
  have series : (collect num calls).toPython.series d.floats =
      (Gateway.MetricsCollector.collect num calls).series num := by
    rw [same]
    rfl
  have plain : PlainState (collect num calls).toPython ↔
      PlainState (Gateway.MetricsCollector.collect num calls) := by
    rw [same]
    exact ⟨fun plain => ⟨plain.1, plain.2, plain.3⟩, fun plain => ⟨plain.1, plain.2, plain.3⟩⟩
  rw [decode_render (known_collect calls), ← series, ← plainState_collect_iff, ← plain]
  exact decode_render_state_iff (legalState d ok)

/-- Whole numbers, as Rust writes them. -/
def wholesDisplay : Display wholes where
  display := fun x => x.elim "inf" toString
  read_display := by
    intro x
    cases x with
    | none => decide +kernel
    | some n => exact wholes.read_nat n
  numeral_display := by
    intro x
    cases x with
    | none => exact wholes.numeral_general none
    | some n => exact wholes.numeral_general (some n)

/-- Three calls, read back from the page of the Rust gateway. -/
theorem decode_render_rust_plain :
    Legal wholes oneBackend ∧
      decode wholes.read ((collect wholes oneBackend).render wholesDisplay) =
        some ((Gateway.MetricsCollector.collect wholes oneBackend).series wholes) := by
  have ok : Legal wholes oneBackend := by
    refine ⟨by decide +kernel, by decide +kernel, by decide +kernel, by decide +kernel,
      by decide +kernel, by decide +kernel, ?_⟩
    intro call made kind call' made' part
    cases part <;> revert call call' <;> decide +kernel
  have plain : ∀ call ∈ oneBackend, ∀ label ∈ call.labels.items, Plain label.2.toList := by
    decide +kernel
  exact ⟨ok, (decode_render_rust_iff wholes wholesDisplay oneBackend ok).mpr plain⟩

end MetricsCollector

end Gateway.Rust
