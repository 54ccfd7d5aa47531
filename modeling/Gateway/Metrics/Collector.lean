import Mathlib.Algebra.Order.Field.Rat
import Mathlib.Data.List.Induction
import Mathlib.Data.List.Sort
import Gateway.Lib.Exposition

/-!
The metrics collector of `gateway/metrics.py`.

Floats, their arithmetic and their texts are left open (`Floats`): the text of a float is
read back as the float, and consists of the characters of a number. An integer bound stands
for the float of its value. `series` are the recorded series, and `collect` is the collector
after some calls.

* `collected_collect`: what a collector holds comes from the calls, and every call has left
  its key.
* `counters_collect`, `gauges_collect`, `hist_collect`: a counter is the sum of its calls, a
  gauge the last of them, and a histogram counts them below each of its bounds.
-/

namespace Gateway

open Exposition

/-- The text of a number. -/
def Numeral (text : String) : Prop :=
  text.toList ≠ [] ∧ ∀ c ∈ text.toList, isNumberChar c = true

/-- Floats, how Python writes them and how a scraper reads them. -/
structure Floats (F : Type) where
  zero : F
  inf : F
  add : F → F → F
  le : F → F → Bool
  isInf : F → Bool
  /-- The float of an integer. -/
  ofNat : Nat → F
  /-- The float of a literal. -/
  lit : ℚ → F
  /-- `str(x)`. -/
  str : F → String
  /-- `f"{x:g}"`. -/
  general : F → String
  read : String → Option F
  read_str : ∀ x, read (str x) = some x
  read_nat : ∀ n : Nat, read (toString n) = some (ofNat n)
  read_inf : read "+Inf" = some inf
  numeral_str : ∀ x, Numeral (str x)
  numeral_general : ∀ x, Numeral (general x)

/-- A name and its sorted labels. -/
abbrev MetricKey := String × List (String × String)

/-- The data of a histogram. -/
structure HistogramData (F : Type) where
  buckets : List F
  counts : List Nat
  sum : F
  count : Nat

/-- A histogram without observations. -/
def HistogramData.init {F : Type} (num : Floats F) (bounds : List F) : HistogramData F :=
  ⟨bounds, bounds.map fun _ => 0, num.zero, 0⟩

/-- One observation. It counts in every bucket whose bound it does not exceed. -/
def HistogramData.add {F : Type} (num : Floats F) (h : HistogramData F) (value : F) :
    HistogramData F :=
  { h with
    counts := List.zipWith (fun ub n => if num.le value ub then n + 1 else n) h.buckets h.counts
    sum := num.add h.sum value
    count := h.count + 1 }

/-- `MetricsCollector`. -/
structure MetricsCollector (F : Type) where
  counters : Dict MetricKey F
  gauges : Dict MetricKey F
  hist : Dict MetricKey (HistogramData F)
  info : Dict String (Kind × String)

/-- `LATENCY_BUCKETS`. -/
def latencyBuckets : List ℚ :=
  [0.0005, 0.001, 0.0025, 0.005, 0.01, 0.025, 0.05, 0.1, 0.25]

/-- The order of label tuples. -/
def labelCompare (a b : String × String) : Ordering := (compare a.1 b.1).then (compare a.2 b.2)

/-- The order of keys. -/
def keyCompare (a b : MetricKey) : Ordering :=
  (compare a.1 b.1).then (List.compareLex labelCompare a.2 b.2)

namespace MetricsCollector

variable {F : Type} (num : Floats F)

/-- `MetricsCollector()`. -/
def init : MetricsCollector F := ⟨.empty, .empty, .empty, .empty⟩

/-- `_key(name, labels)`. -/
def key (name : String) (labels : Dict String String) : MetricKey :=
  (name, labels.items.insertionSort fun a b => (labelCompare a b).isLE)

/-- `inc_counter(name, value, help, **labels)`. -/
def incCounter (c : MetricsCollector F) (name : String) (value : F) (help : String)
    (labels : Dict String String) : MetricsCollector F :=
  let k := key name labels
  { c with
    info := c.info.set name (.counter, help)
    counters := c.counters.set k (num.add (c.counters.getD k num.zero) value) }

/-- `set_gauge(name, value, help, **labels)`. -/
def setGauge (c : MetricsCollector F) (name : String) (value : F) (help : String)
    (labels : Dict String String) : MetricsCollector F :=
  { c with
    info := c.info.set name (.gauge, help)
    gauges := c.gauges.set (key name labels) value }

/-- `list(buckets or LATENCY_BUCKETS)`. -/
def bounds (buckets : Option (List F)) : List F :=
  match buckets with
  | none | some [] => latencyBuckets.map num.lit
  | some bounds => bounds

/-- `observe(name, value, buckets, help, **labels)`. -/
def observe (c : MetricsCollector F) (name : String) (value : F) (buckets : Option (List F))
    (help : String) (labels : Dict String String) : MetricsCollector F :=
  let k := key name labels
  let h := (c.hist.get? k).getD (.init num (bounds num buckets))
  { c with
    info := c.info.set name (.histogram, help)
    hist := c.hist.set k (h.add num value) }

/-! ### Rendering -/

/-- `_fmt_labels(labels, **extra)`. -/
def fmtLabels (labels extra : List (String × String)) : String :=
  let items := labels ++ extra
  if items.isEmpty then ""
  else "\x7b" ++ ",".intercalate (items.map fun (k, v) => k ++ "=\"" ++ v ++ "\"") ++ "\x7d"

/-- `_le(ub)`. -/
def fmtLe (ub : F) : String := if num.isInf ub then "+Inf" else num.general ub

/-- What `render` has written: the names with a header, and the lines. -/
structure Page where
  emitted : List String
  lines : List String

/-- `header(name)`. -/
def header (c : MetricsCollector F) (page : Page) (name : String) : Page :=
  if name ∈ page.emitted then page
  else
    let (typ, hlp) := c.info.getD name (.untyped, "")
    ⟨page.emitted ++ [name],
      page.lines ++ (if hlp = "" then [] else ["# HELP " ++ name ++ " " ++ hlp]) ++
        ["# TYPE " ++ name ++ " " ++ typ.word]⟩

/-- A counter or a gauge. -/
def renderSingle (c : MetricsCollector F) (page : Page) (item : MetricKey × F) : Page :=
  let ((name, labels), val) := item
  let page := c.header page name
  { page with lines := page.lines ++ [name ++ fmtLabels labels [] ++ " " ++ num.str val] }

/-- The lines of a histogram. -/
def histogramLines (name : String) (labels : List (String × String)) (h : HistogramData F) :
    List String :=
  (h.buckets.zip h.counts).map (fun (ub, n) =>
      name ++ "_bucket" ++ fmtLabels labels [("le", fmtLe num ub)] ++ " " ++ toString n) ++
    [name ++ "_bucket" ++ fmtLabels labels [("le", "+Inf")] ++ " " ++ toString h.count,
      name ++ "_sum" ++ fmtLabels labels [] ++ " " ++ num.str h.sum,
      name ++ "_count" ++ fmtLabels labels [] ++ " " ++ toString h.count]

/-- A histogram. -/
def renderHistogram (c : MetricsCollector F) (page : Page) (item : MetricKey × HistogramData F) :
    Page :=
  let ((name, labels), h) := item
  let page := c.header page name
  { page with lines := page.lines ++ histogramLines num name labels h }

/-- `sorted(d.items())`. The keys differ, so only they are compared. -/
def sortedItems {V : Type} (d : Dict MetricKey V) : List (MetricKey × V) :=
  d.items.insertionSort fun a b => (keyCompare a.1 b.1).isLE

/-- The lines of `render()`. -/
def page (c : MetricsCollector F) : Page :=
  let page := (sortedItems c.counters).foldl (c.renderSingle num) ⟨[], []⟩
  let page := (sortedItems c.gauges).foldl (c.renderSingle num) page
  (sortedItems c.hist).foldl (c.renderHistogram num) page

/-- `render()`. -/
def render (c : MetricsCollector F) : String := "\n".intercalate (c.page num).lines ++ "\n"

/-! ### The recorded series -/

/-- A recorded histogram: its cumulative buckets, the last one for all observations, its sum
and its count. -/
def histogramSeries (item : MetricKey × HistogramData F) : Series F :=
  let ((name, labels), h) := item
  .histogram ⟨name, labels,
    (h.buckets.zip (h.counts.map num.ofNat)) ++ [(num.inf, num.ofNat h.count)],
    some h.sum, some (num.ofNat h.count)⟩

/-- A recorded counter or gauge. -/
def singleSeries (kind : Kind) (item : MetricKey × F) : Series F :=
  .single kind ⟨item.1.1, item.1.2, item.2⟩

/-- The recorded series. -/
def series (c : MetricsCollector F) : List (Series F) :=
  (sortedItems c.counters).map (singleSeries .counter) ++
    (sortedItems c.gauges).map (singleSeries .gauge) ++
    (sortedItems c.hist).map (histogramSeries num)

/-! ### Calls -/

variable {num} {c : MetricsCollector F}

/-- A call of the collector. -/
inductive Call (F : Type) where
  | incCounter (name : String) (value : F) (help : String) (labels : Dict String String)
  | setGauge (name : String) (value : F) (help : String) (labels : Dict String String)
  | observe (name : String) (value : F) (buckets : Option (List F)) (help : String)
      (labels : Dict String String)

namespace Call

def name : Call F → String
  | .incCounter name _ _ _ | .setGauge name _ _ _ | .observe name _ _ _ _ => name

def kind : Call F → Kind
  | .incCounter _ _ _ _ => .counter
  | .setGauge _ _ _ _ => .gauge
  | .observe _ _ _ _ _ => .histogram

def value : Call F → F
  | .incCounter _ value _ _ | .setGauge _ value _ _ | .observe _ value _ _ _ => value

def help : Call F → String
  | .incCounter _ _ help _ | .setGauge _ _ help _ | .observe _ _ _ help _ => help

def labels : Call F → Dict String String
  | .incCounter _ _ _ labels | .setGauge _ _ _ labels | .observe _ _ _ _ labels => labels

/-- The bounds of the buckets, if the call is the first for its key. -/
def bounds (num : Floats F) : Call F → List F
  | .observe _ _ buckets _ _ => MetricsCollector.bounds num buckets
  | _ => []

/-- The key of the call. -/
def key (call : Call F) : MetricKey := MetricsCollector.key call.name call.labels

end Call

/-- Perform a call. -/
def apply (num : Floats F) (c : MetricsCollector F) : Call F → MetricsCollector F
  | .incCounter name value help labels => c.incCounter num name value help labels
  | .setGauge name value help labels => c.setGauge name value help labels
  | .observe name value buckets help labels => c.observe num name value buckets help labels

/-- The collector after some calls. -/
def collect (num : Floats F) (calls : List (Call F)) : MetricsCollector F :=
  calls.foldl (apply num) init

theorem collect_append (calls : List (Call F)) (call : Call F) :
    collect num (calls ++ [call]) = (collect num calls).apply num call := by
  rw [collect, List.foldl_append]
  rfl

/-- What a collector holds comes from the calls, and every call has left its key. -/
structure Collected (num : Floats F) (calls : List (Call F)) (c : MetricsCollector F) : Prop where
  counters : ∀ k v, c.counters.get? k = some v → ∃ call ∈ calls, call.kind = .counter ∧ call.key = k
  gauges : ∀ k v, c.gauges.get? k = some v → ∃ call ∈ calls, call.kind = .gauge ∧ call.key = k
  hist : ∀ k h, c.hist.get? k = some h →
    ∃ call ∈ calls, call.kind = .histogram ∧ call.key = k ∧ h.buckets = call.bounds num
  info : ∀ name i, c.info.get? name = some i →
    ∃ call ∈ calls, call.name = name ∧ i = (call.kind, call.help)
  named : ∀ call ∈ calls, (c.info.get? call.name).isSome = true
  kept : ∀ call ∈ calls,
    (call.kind = .counter ∧ (c.counters.get? call.key).isSome = true) ∨
    (call.kind = .gauge ∧ (c.gauges.get? call.key).isSome = true) ∨
    (call.kind = .histogram ∧ (c.hist.get? call.key).isSome = true)

theorem collected_init : Collected num [] (init : MetricsCollector F) := by
  constructor <;> simp [init]

section Tables

variable {K V : Type} [DecidableEq K] {calls : List (Call F)} {call : Call F}
  {P : Call F → K → V → Prop} {d : Dict K V}

theorem origin_mono (old : ∀ k v, d.get? k = some v → ∃ call ∈ calls, P call k v) :
    ∀ k v, d.get? k = some v → ∃ call' ∈ calls ++ [call], P call' k v := by
  intro k v found
  obtain ⟨call', member, holds⟩ := old k v found
  exact ⟨call', List.mem_append_left _ member, holds⟩

theorem origin_set {k₀ : K} {v₀ : V}
    (old : ∀ k v, d.get? k = some v → ∃ call ∈ calls, P call k v)
    (new : ∃ call' ∈ calls ++ [call], P call' k₀ v₀) :
    ∀ k v, (d.set k₀ v₀).get? k = some v → ∃ call' ∈ calls ++ [call], P call' k v := by
  intro k v found
  rw [Dict.get?_set] at found
  split at found
  · rename_i same
    cases found
    rw [same]
    exact new
  · exact origin_mono old k v found

theorem isSome_get?_set {k k' : K} {v : V} (old : k' = k ∨ (d.get? k').isSome = true) :
    ((d.set k v).get? k').isSome = true := by
  rw [Dict.get?_set]
  split
  · rfl
  · rename_i other
    exact old.resolve_left other

end Tables

/-- The latest call. -/
theorem exists_mem_append {calls : List (Call F)} {call : Call F} {p : Call F → Prop}
    (holds : p call) : ∃ call' ∈ calls ++ [call], p call' :=
  ⟨call, List.mem_append_right _ (List.mem_singleton_self _), holds⟩

/-- A call removes no key. -/
theorem isSome_apply (num : Floats F) (c : MetricsCollector F) (call : Call F) (k : MetricKey) :
    ((c.counters.get? k).isSome = true → ((c.apply num call).counters.get? k).isSome = true) ∧
    ((c.gauges.get? k).isSome = true → ((c.apply num call).gauges.get? k).isSome = true) ∧
    ((c.hist.get? k).isSome = true → ((c.apply num call).hist.get? k).isSome = true) := by
  cases call with
  | incCounter name value help labels => exact ⟨fun kept => isSome_get?_set (.inr kept), id, id⟩
  | setGauge name value help labels => exact ⟨id, fun kept => isSome_get?_set (.inr kept), id⟩
  | observe name value buckets help labels =>
      exact ⟨id, id, fun kept => isSome_get?_set (.inr kept)⟩

theorem Collected.kept_apply {calls : List (Call F)} (before : Collected num calls c)
    (call : Call F) : ∀ call' ∈ calls ++ [call],
      (call'.kind = .counter ∧ ((c.apply num call).counters.get? call'.key).isSome = true) ∨
      (call'.kind = .gauge ∧ ((c.apply num call).gauges.get? call'.key).isSome = true) ∨
      (call'.kind = .histogram ∧ ((c.apply num call).hist.get? call'.key).isSome = true) := by
  intro call' member
  obtain ⟨counters, gauges, hist⟩ := isSome_apply num c call call'.key
  rcases List.mem_append.mp member with old | new
  · exact (before.kept call' old).imp (And.imp_right counters)
      (Or.imp (And.imp_right gauges) (And.imp_right hist))
  · rw [List.mem_singleton.mp new]
    cases call with
    | incCounter name value help labels => exact .inl ⟨rfl, isSome_get?_set (.inl rfl)⟩
    | setGauge name value help labels => exact .inr (.inl ⟨rfl, isSome_get?_set (.inl rfl)⟩)
    | observe name value buckets help labels =>
        exact .inr (.inr ⟨rfl, isSome_get?_set (.inl rfl)⟩)

theorem Collected.apply {calls : List (Call F)} (before : Collected num calls c) (call : Call F) :
    Collected num (calls ++ [call]) (c.apply num call) := by
  have info : (c.apply num call).info = c.info.set call.name (call.kind, call.help) := by
    cases call <;> rfl
  have named : ∀ call' ∈ calls ++ [call], ((c.apply num call).info.get? call'.name).isSome = true := by
    intro call' member
    rw [info]
    rcases List.mem_append.mp member with old | new
    · exact isSome_get?_set (.inr (before.named call' old))
    · exact isSome_get?_set (.inl (by rw [List.mem_singleton.mp new]))
  have origin : ∀ name i, (c.apply num call).info.get? name = some i →
      ∃ call' ∈ calls ++ [call], call'.name = name ∧ i = (call'.kind, call'.help) := by
    rw [info]
    exact origin_set before.info (exists_mem_append ⟨rfl, rfl⟩)
  have kept := before.kept_apply call
  cases call with
  | incCounter name value help labels =>
      exact ⟨origin_set before.counters (exists_mem_append ⟨rfl, rfl⟩), origin_mono before.gauges,
        origin_mono before.hist, origin, named, kept⟩
  | setGauge name value help labels =>
      exact ⟨origin_mono before.counters, origin_set before.gauges (exists_mem_append ⟨rfl, rfl⟩),
        origin_mono before.hist, origin, named, kept⟩
  | observe name value buckets help labels =>
      have bounds : ∃ call' ∈ calls ++ [.observe name value buckets help labels],
          call'.kind = .histogram ∧ call'.key = MetricsCollector.key name labels ∧
            ((((c.hist.get? (MetricsCollector.key name labels)).getD
              (.init num (MetricsCollector.bounds num buckets))).add num value).buckets =
                call'.bounds num) := by
        cases found : c.hist.get? (MetricsCollector.key name labels) with
        | none => exact exists_mem_append ⟨rfl, rfl, rfl⟩
        | some h =>
            obtain ⟨call', member, holds⟩ := before.hist _ h found
            exact ⟨call', List.mem_append_left _ member, holds⟩
      exact ⟨origin_mono before.counters, origin_mono before.gauges,
        origin_set before.hist bounds, origin, named, kept⟩

theorem collected_collect (calls : List (Call F)) : Collected num calls (collect num calls) := by
  induction calls using List.reverseRecOn with
  | nil => exact collected_init
  | append_singleton calls call ih =>
      rw [collect_append]
      exact ih.apply call

/-! ### What the calls record -/

/-- The values of the calls of a kind for a key, in order. -/
def valuesFor (kind : Kind) (k : MetricKey) (calls : List (Call F)) : List F :=
  (calls.filter fun call => call.kind = kind ∧ call.key = k).map Call.value

theorem valuesFor_own (kind : Kind) {k : MetricKey} (call : Call F)
    (own : call.kind = kind ∧ call.key = k) (calls : List (Call F)) :
    valuesFor kind k (calls ++ [call]) = valuesFor kind k calls ++ [call.value] := by
  unfold valuesFor
  rw [List.filter_append, List.map_append, List.filter_cons_of_pos (by simpa using own)]
  rfl

theorem valuesFor_other {kind : Kind} {k : MetricKey} {call : Call F}
    (other : ¬ (call.kind = kind ∧ call.key = k)) (calls : List (Call F)) :
    valuesFor kind k (calls ++ [call]) = valuesFor kind k calls := by
  unfold valuesFor
  rw [List.filter_append, List.map_append, List.filter_cons_of_neg (by simpa using other),
    List.filter_nil, List.map_nil, List.append_nil]

theorem valuesFor_otherKind {kind : Kind} {k : MetricKey} {call : Call F} (other : call.kind ≠ kind)
    (calls : List (Call F)) : valuesFor kind k (calls ++ [call]) = valuesFor kind k calls :=
  valuesFor_other (fun both => other both.1) calls

theorem valuesFor_otherKey {kind : Kind} {k : MetricKey} (call : Call F) (other : call.key ≠ k)
    (calls : List (Call F)) : valuesFor kind k (calls ++ [call]) = valuesFor kind k calls :=
  valuesFor_other (fun both => other both.2) calls

/-- A counter is the sum of its calls. -/
theorem counters_collect (calls : List (Call F)) (k : MetricKey) :
    (collect num calls).counters.get? k =
      if valuesFor .counter k calls = [] then none
      else some ((valuesFor .counter k calls).foldl num.add num.zero) := by
  induction calls using List.reverseRecOn with
  | nil => rfl
  | append_singleton calls call ih =>
      rw [collect_append]
      cases call with
      | incCounter name value help labels =>
          have sum : (collect num calls).counters.getD k num.zero =
              (valuesFor .counter k calls).foldl num.add num.zero := by
            rw [Dict.getD, ih]
            split
            · rename_i none
              rw [none]
              rfl
            · rfl
          by_cases own : key name labels = k
          · rw [valuesFor_own .counter (.incCounter name value help labels) ⟨rfl, own⟩, if_neg (by simp),
              List.foldl_append, ← sum, ← own]
            simp [apply, incCounter, Call.value]
          · rw [valuesFor_otherKey (.incCounter name value help labels) own, ← ih]
            simp [apply, incCounter, Ne.symm own]
      | setGauge name value help labels =>
          rw [valuesFor_otherKind (by simp [Call.kind])]
          exact ih
      | observe name value buckets help labels =>
          rw [valuesFor_otherKind (by simp [Call.kind])]
          exact ih

/-- A gauge is the last of its calls. -/
theorem gauges_collect (calls : List (Call F)) (k : MetricKey) :
    (collect num calls).gauges.get? k = (valuesFor .gauge k calls).getLast? := by
  induction calls using List.reverseRecOn with
  | nil => rfl
  | append_singleton calls call ih =>
      rw [collect_append]
      cases call with
      | incCounter name value help labels =>
          rw [valuesFor_otherKind (by simp [Call.kind])]
          exact ih
      | setGauge name value help labels =>
          by_cases own : key name labels = k
          · rw [valuesFor_own .gauge (.setGauge name value help labels) ⟨rfl, own⟩, List.getLast?_concat,
              ← own]
            simp [apply, setGauge, Call.value]
          · rw [valuesFor_otherKey (.setGauge name value help labels) own, ← ih]
            simp [apply, setGauge, Ne.symm own]
      | observe name value buckets help labels =>
          rw [valuesFor_otherKind (by simp [Call.kind])]
          exact ih

/-- The data of a histogram of some observations. -/
structure Observed (num : Floats F) (values : List F) (h : HistogramData F) : Prop where
  counts : h.counts = h.buckets.map fun ub => values.countP fun value => num.le value ub
  sum : h.sum = values.foldl num.add num.zero
  count : h.count = values.length

theorem Observed.init (bounds : List F) : Observed num [] (.init num bounds) := by
  constructor <;> simp [HistogramData.init]

theorem Observed.add {values : List F} {h : HistogramData F} (observed : Observed num values h)
    (value : F) : Observed num (values ++ [value]) (h.add num value) := by
  constructor
  · show List.zipWith _ h.buckets h.counts = _
    rw [observed.counts, List.zipWith_map_right, List.zipWith_self]
    refine List.map_congr_left fun ub _ => ?_
    simp only [List.countP_append, List.countP_singleton]
    split <;> rfl
  · simp [HistogramData.add, observed.sum]
  · simp [HistogramData.add, observed.count]

/-- A histogram counts its calls below each of its bounds. -/
theorem hist_collect (calls : List (Call F)) (k : MetricKey) :
    match (collect num calls).hist.get? k with
    | none => valuesFor .histogram k calls = []
    | some h => Observed num (valuesFor .histogram k calls) h := by
  induction calls using List.reverseRecOn with
  | nil => rfl
  | append_singleton calls call ih =>
      rw [collect_append]
      cases call with
      | incCounter name value help labels =>
          rw [valuesFor_otherKind (by simp [Call.kind])]
          exact ih
      | setGauge name value help labels =>
          rw [valuesFor_otherKind (by simp [Call.kind])]
          exact ih
      | observe name value buckets help labels =>
          by_cases own : key name labels = k
          · rw [valuesFor_own .histogram (.observe name value buckets help labels) ⟨rfl, own⟩]
            subst own
            simp only [apply, observe, Dict.get?_set, if_pos]
            cases found : (collect num calls).hist.get? (key name labels) with
            | none =>
                rw [found] at ih
                rw [ih]
                exact (Observed.init _).add value
            | some h =>
                rw [found] at ih
                exact ih.add value
          · rw [valuesFor_otherKey (.observe name value buckets help labels) own]
            simpa [apply, observe, Ne.symm own] using ih

end MetricsCollector

end Gateway
