import Mathlib.Algebra.BigOperators.Group.Finset.Basic
import Mathlib.Data.List.Nodup
import Mathlib.Data.List.Perm.Basic

/-!
Insertion-ordered dictionaries.

A `Dict` is the list of its items in the order in which the keys were first set:
overwriting a key keeps its place, setting a new key appends it, and erasing a
key drops it. The keys are pairwise distinct by construction, so a dictionary
with two entries for one key cannot be built.

The point lemmas `get?_set`, `get?_erase` and `get?_empty` are the whole
interface of most proofs; `mem_items_iff` connects iteration over the items with
look-up.
-/

namespace Gateway

/-- An insertion-ordered finite map with pairwise distinct keys. -/
structure Dict (K V : Type) where
  items : List (K × V)
  nodup : (items.map Prod.fst).Nodup
  deriving DecidableEq

namespace Dict

variable {K V : Type}

/-- The dictionary without items. -/
def empty : Dict K V := ⟨[], List.nodup_nil⟩

instance : Inhabited (Dict K V) := ⟨empty⟩

/-- The keys, in insertion order. -/
def keys (d : Dict K V) : List K := d.items.map Prod.fst

/-- The values, in the insertion order of their keys. -/
def values (d : Dict K V) : List V := d.items.map Prod.snd

variable [DecidableEq K]

/-- The value of a key in a list of items, if the key occurs. -/
def lookup (k : K) : List (K × V) → Option V
  | [] => none
  | (k', v) :: rest => if k' = k then some v else lookup k rest

/-- Overwrite the value of a key in place, or append a new item. -/
def setItems (k : K) (v : V) : List (K × V) → List (K × V)
  | [] => [(k, v)]
  | (k', v') :: rest => if k' = k then (k, v) :: rest else (k', v') :: setItems k v rest

theorem mem_keys_setItems {k k' : K} {v : V} {l : List (K × V)} :
    k' ∈ (setItems k v l).map Prod.fst ↔ k' = k ∨ k' ∈ l.map Prod.fst := by
  induction l with
  | nil => simp [setItems]
  | cons item rest ih =>
      obtain ⟨a, w⟩ := item
      simp only [setItems]
      split
      · rename_i same
        subst same
        simp
      · simp only [List.map_cons, List.mem_cons, ih]
        tauto

theorem nodup_setItems (k : K) (v : V) {l : List (K × V)} (h : (l.map Prod.fst).Nodup) :
    ((setItems k v l).map Prod.fst).Nodup := by
  induction l with
  | nil => simp [setItems]
  | cons item rest ih =>
      obtain ⟨a, w⟩ := item
      simp only [List.map_cons, List.nodup_cons] at h
      simp only [setItems]
      split
      · rename_i same
        subst same
        simpa using h
      · rename_i different
        simp only [List.map_cons, List.nodup_cons, mem_keys_setItems]
        refine ⟨?_, ih h.2⟩
        rintro (same | member)
        · exact different same
        · exact h.1 member

/-- `d[k]`, when `k` is a key. -/
def get? (d : Dict K V) (k : K) : Option V := lookup k d.items

/-- `d[k]` with a default for absent keys. -/
def getD (d : Dict K V) (k : K) (default : V) : V := (d.get? k).getD default

/-- `k in d`. -/
def contains (d : Dict K V) (k : K) : Bool := (d.get? k).isSome

/-- `d[k] = v`. -/
def set (d : Dict K V) (k : K) (v : V) : Dict K V :=
  ⟨setItems k v d.items, nodup_setItems k v d.nodup⟩

/-- `d.pop(k, None)`. -/
def erase (d : Dict K V) (k : K) : Dict K V :=
  ⟨d.items.filter fun item => item.1 ≠ k,
    (List.filter_sublist.map Prod.fst).nodup d.nodup⟩

/-- Drop every item whose key fails the test. -/
def filterKeys (p : K → Bool) (d : Dict K V) : Dict K V :=
  ⟨d.items.filter fun item => p item.1, (List.filter_sublist.map Prod.fst).nodup d.nodup⟩

/-- `d.setdefault(k, v)`, for the dictionary it leaves. -/
def setDefault (d : Dict K V) (k : K) (v : V) : Dict K V :=
  if d.contains k then d else d.set k v

/-- `d[k] = v; d.move_to_end(k)`. -/
def setLast (d : Dict K V) (k : K) (v : V) : Dict K V := (d.erase k).set k v

/-- `while len(d) > n: d.popitem(last=False)`. -/
def keepLast (n : Int) (d : Dict K V) : Dict K V :=
  ⟨d.items.drop (d.items.length - n.toNat),
    ((List.drop_sublist _ _).map Prod.fst).nodup d.nodup⟩

/-- `d.popitem(last=False)`, for the dictionary it leaves. -/
def popFirst (d : Dict K V) : Dict K V :=
  ⟨d.items.tail, ((List.tail_sublist _).map Prod.fst).nodup d.nodup⟩

/-- The dictionary with the values translated: `{k: f(v) for k, v in d.items()}`. -/
def mapValues {W : Type} (f : V → W) (d : Dict K V) : Dict K W :=
  ⟨d.items.map fun item => (item.1, f item.2), by
    rw [List.map_map]
    exact d.nodup⟩

/-- `dict(items)`: a later item of a key overwrites an earlier one. -/
def ofItems (items : List (K × V)) : Dict K V :=
  items.foldl (fun d item => d.set item.1 item.2) empty

/-- `{k: f(v) for k, v in d.items()}`, where `f` may raise. -/
def mapValues? {W : Type} (f : V → Option W) (d : Dict K V) : Option (Dict K W) :=
  (d.items.mapM fun item => (f item.2).map fun w => (item.1, w)).map ofItems

/-! ### Look-up -/

@[simp] theorem get?_empty (k : K) : (empty : Dict K V).get? k = none := rfl

@[simp] theorem get?_set (d : Dict K V) (k k' : K) (v : V) :
    (d.set k v).get? k' = if k' = k then some v else d.get? k' := by
  show lookup k' (setItems k v d.items) = if k' = k then some v else lookup k' d.items
  induction d.items with
  | nil => simp only [setItems, lookup, eq_comm]
  | cons item rest ih =>
      obtain ⟨a, w⟩ := item
      simp only [setItems]
      by_cases same : a = k
      · subst same
        by_cases at_key : a = k'
        · simp [lookup, at_key]
        · simp [lookup, at_key, Ne.symm at_key]
      · rw [if_neg same]
        by_cases at_key : a = k'
        · subst at_key
          simp [lookup, same]
        · simp [lookup, at_key, ih]

theorem lookup_eq_none {k : K} {l : List (K × V)} (absent : k ∉ l.map Prod.fst) :
    lookup k l = none := by
  induction l with
  | nil => rfl
  | cons item rest ih =>
      simp only [List.map_cons, List.mem_cons, not_or] at absent
      simp only [lookup, if_neg (Ne.symm absent.1), ih absent.2]

theorem lookup_filter (p : K → Bool) (k : K) (l : List (K × V)) :
    lookup k (l.filter fun item => p item.1) = if p k then lookup k l else none := by
  induction l with
  | nil => simp [lookup]
  | cons item rest ih =>
      obtain ⟨a, w⟩ := item
      by_cases same : a = k
      · subst same
        by_cases keep : p a = true
        · simp [keep, lookup]
        · simpa [keep, lookup] using ih
      · by_cases keep : p a = true
        · simp [keep, lookup, same, ih]
        · simp [keep, lookup, same, ih]

@[simp] theorem get?_erase (d : Dict K V) (k k' : K) :
    (d.erase k).get? k' = if k' = k then none else d.get? k' := by
  have := lookup_filter (fun a => decide (a ≠ k)) k' d.items
  simp only [decide_eq_true_eq] at this
  simp only [get?, erase, this]
  by_cases same : k' = k <;> simp [same]

@[simp] theorem get?_filterKeys (p : K → Bool) (d : Dict K V) (k : K) :
    (d.filterKeys p).get? k = if p k then d.get? k else none := lookup_filter p k d.items

/-- Iterating over the items visits exactly the pairs found by look-up. -/
theorem mem_items_iff {d : Dict K V} {k : K} {v : V} : (k, v) ∈ d.items ↔ d.get? k = some v := by
  obtain ⟨l, nodup⟩ := d
  show (k, v) ∈ l ↔ lookup k l = some v
  induction l with
  | nil => simp [lookup]
  | cons item rest ih =>
      obtain ⟨a, w⟩ := item
      simp only [List.map_cons, List.nodup_cons] at nodup
      simp only [lookup, List.mem_cons, Prod.mk.injEq]
      by_cases same : a = k
      · subst same
        have fresh : (a, v) ∉ rest := fun member =>
          nodup.1 (List.mem_map.mpr ⟨(a, v), member, rfl⟩)
        simp [fresh, eq_comm]
      · simp [same, Ne.symm same, ih nodup.2]

theorem mem_keys_iff {d : Dict K V} {k : K} : k ∈ d.keys ↔ (d.get? k).isSome := by
  rw [Option.isSome_iff_exists]
  simp only [keys, List.mem_map, Prod.exists, exists_and_right, exists_eq_right, mem_items_iff]

/-- Setting a key to the value it has changes nothing. -/
theorem set_of_get?_eq_some {d : Dict K V} {k : K} {v : V} (found : d.get? k = some v) :
    d.set k v = d := by
  obtain ⟨l, nodup⟩ := d
  have items : setItems k v l = l := by
    change lookup k l = some v at found
    clear nodup
    induction l with
    | nil => cases found
    | cons item rest ih =>
        obtain ⟨k', v'⟩ := item
        simp only [lookup, setItems] at found ⊢
        split
        · rename_i same
          rw [if_pos same] at found
          cases found
          rw [same]
        · rename_i different
          rw [if_neg different] at found
          rw [ih found]
  simp only [set, items]

theorem getD_set (d : Dict K V) (k k' : K) (v default : V) :
    (d.set k v).getD k' default = if k' = k then v else d.getD k' default := by
  simp only [getD, get?_set]
  split <;> rfl

theorem getD_erase (d : Dict K V) (k k' : K) (default : V) :
    (d.erase k).getD k' default = if k' = k then default else d.getD k' default := by
  simp only [getD, get?_erase]
  split <;> rfl

theorem get?_setDefault (d : Dict K V) (k k' : K) (v : V) :
    (d.setDefault k v).get? k' = if k' = k then (d.get? k).or (some v) else d.get? k' := by
  rw [setDefault, contains]
  cases found : d.get? k with
  | none => simp
  | some w =>
      by_cases same : k' = k
      · simp [same, found]
      · simp [same]

theorem get?_foldl_erase (ks : List K) (d : Dict K V) (k : K) :
    (ks.foldl (fun d k => d.erase k) d).get? k = if k ∈ ks then none else d.get? k := by
  induction ks generalizing d with
  | nil => simp
  | cons k' ks ih =>
      rw [List.foldl_cons, ih, get?_erase]
      by_cases here : k = k'
      · simp [here]
      · simp [here]

theorem erase_of_get?_eq_none {d : Dict K V} {k : K}
    (absent : d.get? k = none) : d.erase k = d := by
  have kept : d.items.filter (fun item => decide (item.1 ≠ k)) = d.items := by
    refine List.filter_eq_self.mpr fun item member => decide_eq_true fun same => ?_
    have found : d.get? item.1 = some item.2 := mem_items_iff.mp member
    rw [same, absent] at found
    cases found
  obtain ⟨items, nodup⟩ := d
  simp only [erase, mk.injEq]
  exact kept

@[simp] theorem get?_mapValues {W : Type} (f : V → W) (d : Dict K V) (k : K) :
    (d.mapValues f).get? k = (d.get? k).map f := by
  show lookup k (d.items.map fun item => (item.1, f item.2)) = (lookup k d.items).map f
  induction d.items with
  | nil => rfl
  | cons item rest ih =>
      simp only [List.map_cons, lookup]
      split
      · rfl
      · exact ih

/-! ### The order of the keys -/

theorem keys_erase_sublist (d : Dict K V) (k : K) : (d.erase k).keys.Sublist d.keys :=
  List.filter_sublist.map Prod.fst

theorem keys_erase (d : Dict K V) (k : K) : (d.erase k).keys = d.keys.filter (· ≠ k) := by
  rw [keys, keys, List.filter_map]
  rfl

theorem notMem_keys_erase (d : Dict K V) (k : K) : k ∉ (d.erase k).keys := by
  rw [mem_keys_iff, get?_erase, if_pos rfl]
  exact Bool.false_ne_true

theorem get?_setLast (d : Dict K V) (k k' : K) (v : V) :
    (d.setLast k v).get? k' = if k' = k then some v else d.get? k' := by
  rw [setLast, get?_set, get?_erase]
  by_cases same : k' = k <;> simp [same]

omit [DecidableEq K] in
theorem keys_keepLast (n : Int) (d : Dict K V) :
    (d.keepLast n).keys = d.keys.drop (d.keys.length - n.toNat) := by
  simp [keepLast, keys]

omit [DecidableEq K] in
theorem keys_popFirst (d : Dict K V) : d.popFirst.keys = d.keys.tail := by
  rw [keys, keys, popFirst, List.map_tail]

theorem get?_of_keepLast {n : Int} {d : Dict K V} {k : K} {v : V}
    (kept : (d.keepLast n).get? k = some v) : d.get? k = some v :=
  mem_items_iff.mp (List.mem_of_mem_drop (mem_items_iff.mpr kept))

theorem get?_keepLast_of_mem {n : Int} {d : Dict K V} {k : K} {v : V} (found : d.get? k = some v)
    (kept : k ∈ (d.keepLast n).keys) : (d.keepLast n).get? k = some v := by
  obtain ⟨v', there⟩ := Option.isSome_iff_exists.mp (mem_keys_iff.mp kept)
  rw [there, ← found]
  exact (get?_of_keepLast there).symm

/-! ### Rebuilding a dictionary from its items -/

theorem setItems_of_notMem {k : K} {v : V} {l : List (K × V)} (fresh : k ∉ l.map Prod.fst) :
    setItems k v l = l ++ [(k, v)] := by
  induction l with
  | nil => rfl
  | cons item rest ih =>
      obtain ⟨a, w⟩ := item
      simp only [List.map_cons, List.mem_cons, not_or] at fresh
      simp only [setItems, if_neg (Ne.symm fresh.1), ih fresh.2, List.cons_append]

theorem keys_set_of_notMem {d : Dict K V} {k : K} (fresh : k ∉ d.keys) (v : V) :
    (d.set k v).keys = d.keys ++ [k] := by
  have items : (d.set k v).items = d.items ++ [(k, v)] := setItems_of_notMem fresh
  rw [keys, items, List.map_append]
  rfl

theorem keys_setLast (d : Dict K V) (k : K) (v : V) :
    (d.setLast k v).keys = (d.erase k).keys ++ [k] := by
  have items : (d.setLast k v).items = (d.erase k).items ++ [(k, v)] :=
    setItems_of_notMem (d.notMem_keys_erase k)
  rw [keys, items, List.map_append]
  rfl

/-- Moving a key to the end keeps the length. -/
theorem length_keys_setLast {d : Dict K V} {k : K} (member : k ∈ d.keys) (v : V) :
    (d.setLast k v).keys.length = d.keys.length := by
  have others : (d.erase k).keys = d.keys.erase k := by
    rw [keys, keys, d.nodup.erase_eq_filter, List.filter_map]
    congr 1
    exact List.filter_congr fun item _ => by simp [bne, beq_eq_decide]
  have nonempty := List.length_pos_of_mem member
  rw [keys_setLast, others, List.length_append, List.length_singleton,
    List.length_erase_of_mem member]
  omega

theorem items_foldl_set {l : List (K × V)} {d : Dict K V}
    (nodup : ((d.items ++ l).map Prod.fst).Nodup) :
    (l.foldl (fun d item => d.set item.1 item.2) d).items = d.items ++ l := by
  induction l generalizing d with
  | nil => simp
  | cons item rest ih =>
      have fresh : item.1 ∉ d.items.map Prod.fst := by
        rw [List.map_append, List.map_cons] at nodup
        exact fun member => List.disjoint_of_nodup_append nodup member List.mem_cons_self
      have appended : (d.set item.1 item.2).items = d.items ++ [item] := setItems_of_notMem fresh
      rw [List.foldl_cons, ih, appended, List.append_assoc, List.singleton_append]
      rwa [appended, List.append_assoc, List.singleton_append]

@[simp] theorem ofItems_items (d : Dict K V) : ofItems d.items = d := by
  have items : (ofItems d.items).items = d.items := items_foldl_set (by simpa [empty] using d.nodup)
  obtain ⟨l, nodup⟩ := d
  cases h : ofItems l with
  | mk l' nodup' =>
      simp only [h] at items
      subst items
      rfl

/-! ### Dictionaries over a list of keys -/

section Keyed

variable {l : List K} (f : K → V)

theorem items_ofItems_map (nodup : l.Nodup) :
    (ofItems (l.map fun a => (a, f a))).items = l.map fun a => (a, f a) := by
  have keys : (l.map fun a => (a, f a)).map Prod.fst = l := by
    rw [List.map_map]
    exact List.map_id l
  exact items_foldl_set (by simpa [empty, keys] using nodup)

theorem items_set_map {d : Dict K V} (items : d.items = l.map fun a => (a, f a)) (nodup : l.Nodup)
    {k : K} (member : k ∈ l) (v : V) :
    (d.set k v).items = l.map fun a => (a, if a = k then v else f a) := by
  show setItems k v d.items = _
  rw [items]
  clear items
  induction l with
  | nil => cases member
  | cons a l ih =>
      obtain ⟨fresh, nodup⟩ := List.nodup_cons.mp nodup
      simp only [List.map_cons, setItems]
      by_cases same : a = k
      · have others : ∀ x ∈ l, (x, f x) = (x, if x = k then v else f x) := by
          intro x inside
          rw [if_neg]
          rintro rfl
          exact fresh (same ▸ inside)
        rw [if_pos same, if_pos same, List.map_congr_left others, same]
      · have member := (List.mem_cons.mp member).resolve_left (Ne.symm same)
        rw [if_neg same, if_neg same, ih nodup member]

theorem get?_of_items_map {d : Dict K V} (items : d.items = l.map fun a => (a, f a)) {k : K}
    (member : k ∈ l) : d.get? k = some (f k) := by
  rw [← mem_items_iff, items]
  exact List.mem_map.mpr ⟨k, member, rfl⟩

/-- A translation that raises for no value. -/
theorem mapValues?_eq_some {W : Type} {d : Dict K V} {read : V → Option W} (g : K → W)
    (each : ∀ item ∈ d.items, read item.2 = some (g item.1)) :
    ∃ e, d.mapValues? read = some e ∧ e.items = d.keys.map fun k => (k, g k) := by
  have items : d.items.mapM (fun item => (read item.2).map fun w => (item.1, w)) =
      some (d.keys.map fun k => (k, g k)) := by
    rw [keys]
    generalize d.items = l at each
    induction l with
    | nil => rfl
    | cons item l ih =>
        obtain ⟨first, others⟩ := List.forall_mem_cons.mp each
        rw [List.mapM_cons, ih others, first]
        rfl
  refine ⟨ofItems (d.keys.map fun k => (k, g k)), ?_, items_ofItems_map g d.nodup⟩
  rw [mapValues?, items, Option.map_some]

end Keyed

/-! ### Two dictionaries with the same keys -/

theorem filterMap_get?_keys (d : Dict K V) : d.keys.filterMap d.get? = d.values := by
  rw [keys, values, List.filterMap_map, ← List.filterMap_eq_map]
  exact List.filterMap_congr fun item member => mem_items_iff.mp member

/-- A sum over the values is a sum over the keys. -/
theorem sum_values {M : Type} [AddCommMonoid M] (f : V → M) (d : Dict K V) :
    (d.values.map f).sum = ∑ k ∈ d.keys.toFinset, ((d.get? k).map f).getD 0 := by
  rw [values, keys, List.sum_toFinset _ d.nodup, List.map_map, List.map_map]
  refine congrArg List.sum (List.map_congr_left fun item member => ?_)
  have found : d.get? item.1 = some item.2 := mem_items_iff.mp member
  simp [found]

/-- The values of dictionaries that are related key by key are related in some order. -/
theorem forall₂_values {W : Type} {r : V → W → Prop} {d : Dict K V} {d' : Dict K W}
    (related : ∀ k, Option.Rel r (d.get? k) (d'.get? k)) :
    ∃ vs, vs.Perm d'.values ∧ List.Forall₂ r d.values vs := by
  have same_keys : d.keys.Perm d'.keys := by
    refine (List.perm_ext_iff_of_nodup d.nodup d'.nodup).mpr fun k => ?_
    show k ∈ d.keys ↔ k ∈ d'.keys
    rw [mem_keys_iff, mem_keys_iff]
    have here := related k
    generalize d.get? k = one at here ⊢
    generalize d'.get? k = other at here ⊢
    cases here <;> rfl
  refine ⟨d.keys.filterMap d'.get?, ?_, ?_⟩
  · rw [← filterMap_get?_keys]
    exact same_keys.filterMap _
  · rw [← filterMap_get?_keys]
    induction d.keys with
    | nil => exact .nil
    | cons k ks ih =>
        rw [List.filterMap_cons, List.filterMap_cons]
        have here := related k
        generalize d.get? k = one at here
        generalize d'.get? k = other at here
        cases here with
        | none => exact ih
        | some pair => exact .cons pair ih

end Dict

end Gateway
