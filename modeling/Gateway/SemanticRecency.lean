import Gateway.Lib.Recency
import Gateway.SemanticCache

/-!
What the semantic cache remembers (`gateway/extensions/semantic_cache.py`).

A tenant uses an entry when it is stored and when it answers a look-up. The log of a run lists the
entries that one tenant has used, and keeps all that were ever stored for it.

* `order_insert`, `order_findSimilar`: the order of a tenant after a call.
* `tracks_run`: after any calls, of all the entries of a tenant the cache has those that it used
  last, as many as fit.
* `lookup_run_iff`: so a prompt is answered precisely if one of those is similar enough.
-/

namespace Gateway

namespace TenantCache

variable {V : Type} {c : TenantCache V}

/-- The id of a new entry. -/
def nextId (c : TenantCache V) : Nat :=
  match c.order.max? with
  | some newest => newest + 1
  | none => 1

theorem nextId_notMem (c : TenantCache V) : c.nextId ∉ c.order := by
  intro member
  unfold nextId at member
  cases newest : c.order.max? with
  | none =>
      rw [List.max?_eq_none_iff.mp newest] at member
      cases member
  | some top =>
      rw [newest] at member
      have below : top + 1 ≤ top := (List.max?_eq_some_iff.mp newest).2 _ member
      omega

/-- What eviction keeps: the last entries of the order. -/
theorem evictLoop_eq (n : Nat) (order : List Nat) (embeddings : Dict Nat V)
    (responses : Dict Nat String) (distinct : order.Nodup) :
    (evictLoop n order embeddings responses).1 = order.rtake n ∧
      ∀ id ∈ order, ((evictLoop n order embeddings responses).2.1.get? id =
          if id ∈ order.rtake n then embeddings.get? id else none) ∧
        ((evictLoop n order embeddings responses).2.2.get? id =
          if id ∈ order.rtake n then responses.get? id else none) := by
  induction order generalizing embeddings responses with
  | nil => exact ⟨by simp [evictLoop, List.rtake], by simp⟩
  | cons old rest ih =>
      obtain ⟨fresh, distinct'⟩ := List.nodup_cons.mp distinct
      by_cases full : (n : Int) < (old :: rest).length
      · have dropped : (old :: rest).rtake n = rest.rtake n := by
          have more : (old :: rest).length - n = rest.length - n + 1 := by
            rw [List.length_cons] at full ⊢
            omega
          rw [List.rtake, more, List.drop_succ_cons, List.rtake]
        obtain ⟨order, tables⟩ := ih (embeddings.erase old) (responses.erase old) distinct'
        rw [evictLoop, if_pos full, dropped]
        refine ⟨order, fun id member => ?_⟩
        rcases List.mem_cons.mp member with rfl | member
        · have gone : id ∉ rest.rtake n := fun kept => fresh ((List.drop_sublist _ _).subset kept)
          rw [if_neg gone, if_neg gone]
          rcases get?_evictLoop n rest (embeddings.erase id) (responses.erase id) id with
            ⟨same, same'⟩ | ⟨none, none'⟩
          · rw [same, same', Dict.get?_erase, Dict.get?_erase, if_pos rfl, if_pos rfl]
            exact ⟨rfl, rfl⟩
          · exact ⟨none, none'⟩
        · have other : id ≠ old := fun same => fresh (same ▸ member)
          obtain ⟨vector, text⟩ := tables id member
          rw [Dict.get?_erase, if_neg other] at vector text
          exact ⟨vector, text⟩
      · have whole : (old :: rest).rtake n = old :: rest := by
          have none_dropped : (old :: rest).length - n = 0 := by omega
          rw [List.rtake, none_dropped, List.drop_zero]
        rw [evictLoop, if_neg full, whole]
        exact ⟨rfl, fun id member => by rw [if_pos member, if_pos member]; exact ⟨rfl, rfl⟩⟩

/-- The order of a tenant after an insert, and what it has. -/
theorem insert_spec (par : c.Parallel) {n : ℕ} (size : c.maxEntries = n) (vec : V)
    (response : String) :
    (c.insert vec response).order = (c.order ++ [c.nextId]).rtake n ∧
      ∀ id vec' response', (c.insert vec response).Entry id vec' response' ↔
        id ∈ (c.order ++ [c.nextId]).rtake n ∧
          if id = c.nextId then vec' = vec ∧ response' = response
          else c.Entry id vec' response' := by
  have distinct : (c.order ++ [c.nextId]).Nodup := by
    rw [← List.concat_eq_append, List.nodup_concat]
    exact ⟨c.nextId_notMem, par.nodup⟩
  obtain ⟨order, tables⟩ := evictLoop_eq n (c.order ++ [c.nextId])
    (c.embeddings.set c.nextId vec) (c.responses.set c.nextId response) distinct
  rw [← size] at order tables
  have order : (c.insert vec response).order = (c.order ++ [c.nextId]).rtake n := order
  refine ⟨order, fun id vec' response' => ?_⟩
  by_cases kept : id ∈ (c.order ++ [c.nextId]).rtake n
  · obtain ⟨vector, text⟩ := tables id ((List.drop_sublist _ _).subset kept)
    rw [if_pos kept, Dict.get?_set] at vector text
    have vector : (c.insert vec response).embeddings.get? id = _ := vector
    have text : (c.insert vec response).responses.get? id = _ := text
    rw [Entry, vector, text]
    by_cases new : id = c.nextId
    · rw [if_pos new, if_pos new, if_pos new]
      simp [kept, eq_comm]
    · simp [kept, new, Entry]
  · have gone : ¬ (c.insert vec response).Entry id vec' response' := by
      rintro ⟨vector, -⟩
      refine kept (order ▸ ((par.insert vec response).embeddings id).mp ?_)
      rw [vector]
      rfl
    exact iff_of_false gone fun both => kept both.1

/-- A look-up puts the entry that answers it behind the others. -/
theorem findSimilar_order (similarity : V → V → Option ℚ) (c : TenantCache V) (query : V)
    (threshold : ℚ) :
    (c.findSimilar similarity query threshold).1 =
      match (c.findSimilar similarity query threshold).2 with
      | some (id, _, _) => { c with order := c.order.erase id ++ [id] }
      | none => c := by
  unfold findSimilar
  dsimp only
  split
  · rfl
  · split
    · rfl
    · split
      · split <;> rfl
      · rfl

/-- **When a look-up is answered.** -/
theorem isSome_findSimilar_iff (par : c.Parallel) (similarity : V → V → Option ℚ) (query : V)
    (threshold : ℚ) :
    (c.findSimilar similarity query threshold).2.isSome = true ↔
      (∀ id vec response, c.Entry id vec response → (similarity vec query).isSome = true) ∧
        ∃ id vec response, c.Entry id vec response ∧ ∃ sim, similarity vec query = some sim ∧
          threshold ≤ sim := by
  constructor
  · intro answered
    obtain ⟨⟨id, response, best⟩, hit⟩ := Option.isSome_iff_exists.mp answered
    obtain ⟨vec, entry, product, reached, others⟩ := findSimilar_hit hit
    refine ⟨fun id' vec' response' entry' => ?_, id, vec, response, entry, best, product, reached⟩
    obtain ⟨sim, product', -⟩ := others id' vec' entry'.1
    rw [product']
    rfl
  · rintro ⟨numbers, id, vec, response, ⟨vector, text⟩, sim, product, reached⟩
    have all : ¬ (c.embeddings.items.any fun e => (similarity e.2 query).isNone) = true := by
      intro some_none
      obtain ⟨⟨id', vec'⟩, member, none⟩ := List.any_eq_true.mp some_none
      have vector' := Dict.mem_items_iff.mp member
      obtain ⟨response', text'⟩ := Option.isSome_iff_exists.mp
        ((par.responses id').mpr ((par.embeddings id').mp (by rw [vector']; rfl)))
      have number := numbers id' vec' response' ⟨vector', text'⟩
      rw [Option.isNone_iff_eq_none.mp none] at number
      cases number
    have compared : (id, sim) ∈ c.embeddings.items.filterMap
        fun e => (similarity e.2 query).map fun sim => (e.1, sim) :=
      List.mem_filterMap.mpr ⟨(id, vec), Dict.mem_items_iff.mpr vector, by simp [product]⟩
    unfold findSimilar
    dsimp only
    rw [if_neg all]
    cases found : (c.embeddings.items.filterMap fun e =>
        (similarity e.2 query).map fun sim => (e.1, sim)).argmax Prod.snd with
    | none =>
        rw [List.argmax_eq_none.mp found] at compared
        cases compared
    | some most =>
        obtain ⟨id', best⟩ := most
        have largest : sim ≤ best := List.le_of_mem_argmax compared found
        obtain ⟨⟨id', vec'⟩, member, same⟩ := List.mem_filterMap.mp (List.argmax_mem found)
        obtain ⟨sim', product', same⟩ := Option.map_eq_some_iff.mp same
        cases same
        obtain ⟨response', text'⟩ := Option.isSome_iff_exists.mp
          ((par.responses id').mpr ((par.embeddings id').mp
            (by rw [Dict.mem_items_iff.mp member]; rfl)))
        dsimp only
        rw [if_pos (reached.trans largest), text']
        rfl

end TenantCache

namespace SemanticCache

variable {V : Type}

/-! ### Runs -/

/-- A call of the cache. -/
inductive Call where
  | lookup (tenantId prompt : String)
  | store (tenantId prompt response : String)

/-- One call. -/
def apply (m : SemanticCache V) : Call → SemanticCache V
  | .lookup tenantId prompt => (m.lookup tenantId prompt).1
  | .store tenantId prompt response => (m.store tenantId prompt response).1

/-- What one tenant has used, in order, and everything that was stored for it, by its id. -/
structure Log (V : Type) where
  used : List Nat := []
  stored : Dict Nat (V × String) := .empty

/-- One of the `n` entries used last, with its embedding. -/
def Log.Recent (log : Log V) (n : Nat) (id : Nat) (vec : V) : Prop :=
  id ∈ recent n log.used ∧ (log.stored.get? id).map Prod.fst = some vec

/-- The entry that answers a look-up. -/
def answeredBy (m : SemanticCache V) (tenantId prompt : String) : Option Nat :=
  (m.embedder prompt).bind fun vec =>
    ((m.tenant tenantId).1.findSimilar m.similarity vec m.threshold).2.map Prod.fst

/-- What a call adds to the log of a tenant. -/
def note (m : SemanticCache V) (tenantId : String) (log : Log V) : Call → Log V
  | .lookup t prompt =>
      if t = tenantId then { log with used := log.used ++ (m.answeredBy t prompt).toList } else log
  | .store t prompt response =>
      if t = tenantId then
        match m.embedder prompt with
        | none => log
        | some vec =>
            let id := (m.tenant t).1.nextId
            ⟨log.used ++ [id], log.stored.set id (vec, response)⟩
      else log

/-- Some calls, with the log of a tenant. -/
def run (m : SemanticCache V) (tenantId : String) (calls : List Call) : SemanticCache V × Log V :=
  calls.foldl (fun s call => (s.1.apply call, s.1.note tenantId s.2 call)) (m, {})

/-- Of all that was stored for the tenant, the cache has the `n` entries used last. -/
structure Tracks (n : Nat) (tenantId : String) (m : SemanticCache V) (log : Log V) : Prop where
  room : m.maxEntries = n
  own : (m.tenant tenantId).1.maxEntries = n
  order : (m.tenant tenantId).1.order = recent n log.used
  entries : ∀ id vec response, (m.tenant tenantId).1.Entry id vec response ↔
    id ∈ recent n log.used ∧ log.stored.get? id = some (vec, response)

theorem Tracks.init (embedder : String → Option V) (similarity : V → V → Option ℚ) (threshold : ℚ)
    (n : Nat) (tenantId : String) :
    Tracks n tenantId (init embedder similarity threshold n) {} := by
  refine ⟨rfl, rfl, by simp [recent, List.rtake]; rfl, fun id vec response => ?_⟩
  refine iff_of_false ?_ ?_
  · rintro ⟨vector, -⟩
    cases vector
  · rintro ⟨-, found⟩
    cases found

variable {n : Nat} {tenantId : String} {m : SemanticCache V} {log : Log V}

/-- A call for another tenant. -/
theorem Tracks.other (tracks : Tracks n tenantId m log) {t : String} (different : ¬ t = tenantId)
    (c : { c : TenantCache V // c.Parallel }) :
    Tracks n tenantId { m with tenants := m.tenants.set t c } log := by
  have same : ({ m with tenants := m.tenants.set t c } : SemanticCache V).tenant tenantId =
      m.tenant tenantId := by
    rw [tenant_set, if_neg (Ne.symm different)]
  refine ⟨tracks.room, ?_, ?_, ?_⟩
  · rw [same]
    exact tracks.own
  · rw [same]
    exact tracks.order
  · rw [same]
    exact tracks.entries

/-- A call for the tenant itself puts another table in place of the one it had. -/
theorem Tracks.replace (tracks : Tracks n tenantId m log)
    {c : { c : TenantCache V // c.Parallel }} {log' : Log V} (own : c.1.maxEntries = n)
    (order : c.1.order = recent n log'.used)
    (entries : ∀ id vec response, c.1.Entry id vec response ↔
      id ∈ recent n log'.used ∧ log'.stored.get? id = some (vec, response)) :
    Tracks n tenantId { m with tenants := m.tenants.set tenantId c } log' := by
  have here : ({ m with tenants := m.tenants.set tenantId c } : SemanticCache V).tenant tenantId =
      c := by
    rw [tenant_set, if_pos rfl]
  refine ⟨tracks.room, ?_, ?_, ?_⟩
  · rw [here]
    exact own
  · rw [here]
    exact order
  · rw [here]
    exact entries

theorem lookup_of_some {t prompt : String} {vec : V} (embedded : m.embedder prompt = some vec) :
    (m.lookup t prompt).1 =
      { m with
        tenants := m.tenants.set t
          ⟨((m.tenant t).1.findSimilar m.similarity vec m.threshold).1,
            (m.tenant t).2.findSimilar vec m.threshold⟩ } := by
  unfold SemanticCache.lookup
  rw [embedded]

/-- **A look-up.** -/
theorem Tracks.lookup (tracks : Tracks n tenantId m log) (t prompt : String) :
    Tracks n tenantId (m.lookup t prompt).1 (m.note tenantId log (.lookup t prompt)) := by
  show Tracks n tenantId (m.lookup t prompt).1
    (if t = tenantId then { log with used := log.used ++ (m.answeredBy t prompt).toList } else log)
  cases embedded : m.embedder prompt with
  | none =>
      have nobody : m.answeredBy t prompt = none := by
        rw [answeredBy, embedded]
        rfl
      have same : (m.lookup t prompt).1 = m := by
        unfold SemanticCache.lookup
        rw [embedded]
      rw [nobody, same]
      simpa using tracks
  | some vec =>
      rw [lookup_of_some embedded]
      by_cases own : t = tenantId
      · subst own
        rw [if_pos rfl]
        have moved := TenantCache.findSimilar_order m.similarity (m.tenant t).1 vec m.threshold
        have entries := @TenantCache.entry_findSimilar V m.similarity (m.tenant t).1 vec m.threshold
        cases hit : ((m.tenant t).1.findSimilar m.similarity vec m.threshold).2 with
        | none =>
            have nobody : m.answeredBy t prompt = none := by
              rw [answeredBy, embedded, Option.bind_some, hit]
              rfl
            rw [hit] at moved
            rw [nobody, Option.toList_none, List.append_nil]
            refine tracks.replace ?_ ?_ fun id vec' response => ?_
            · exact (congrArg TenantCache.maxEntries moved).trans tracks.own
            · exact (congrArg TenantCache.order moved).trans tracks.order
            · exact entries.trans (tracks.entries id vec' response)
        | some found =>
            obtain ⟨id, response, best⟩ := found
            have answered : m.answeredBy t prompt = some id := by
              rw [answeredBy, embedded, Option.bind_some, hit]
              rfl
            rw [hit] at moved
            obtain ⟨vec', entry, -⟩ := TenantCache.findSimilar_hit hit
            have used : id ∈ recent n log.used := ((tracks.entries id vec' response).mp entry).1
            have behind := recent_touch used
            rw [answered, Option.toList_some]
            refine tracks.replace ?_ ?_ fun id' vec'' response' => ?_
            · exact (congrArg TenantCache.maxEntries moved).trans tracks.own
            · refine (congrArg TenantCache.order moved).trans ?_
              show (m.tenant t).1.order.erase id ++ [id] = _
              rw [tracks.order, behind]
            · rw [entries, tracks.entries, ← behind]
              have members : id' ∈ (recent n log.used).erase id ++ [id] ↔ id' ∈ recent n log.used :=
                ((List.perm_append_singleton _ _).trans (List.perm_cons_erase used).symm).mem_iff
              rw [members]
      · rw [if_neg own]
        exact tracks.other own _

theorem store_of_some {t prompt response : String} {vec : V}
    (embedded : m.embedder prompt = some vec) :
    (m.store t prompt response).1 =
      { m with
        tenants := m.tenants.set t
          ⟨(m.tenant t).1.insert vec response, (m.tenant t).2.insert vec response⟩ } := by
  unfold SemanticCache.store
  rw [embedded]

/-- **A store.** -/
theorem Tracks.store (tracks : Tracks n tenantId m log) (t prompt response : String) :
    Tracks n tenantId (m.store t prompt response).1
      (m.note tenantId log (.store t prompt response)) := by
  cases embedded : m.embedder prompt with
  | none =>
      have same : (m.store t prompt response).1 = m := by
        unfold SemanticCache.store
        rw [embedded]
      have unnoted : m.note tenantId log (.store t prompt response) = log := by
        simp [note, embedded]
      rw [same, unnoted]
      exact tracks
  | some vec =>
      rw [store_of_some embedded]
      by_cases own : t = tenantId
      · subst own
        have noted : m.note t log (.store t prompt response) =
            ⟨log.used ++ [(m.tenant t).1.nextId],
              log.stored.set (m.tenant t).1.nextId (vec, response)⟩ := by
          simp [note, embedded]
        have fresh := (m.tenant t).1.nextId_notMem
        obtain ⟨order, entries⟩ := TenantCache.insert_spec (m.tenant t).2 tracks.own vec response
        rw [tracks.order] at fresh
        have last := rtake_recent_concat fresh
        rw [tracks.order, last] at order
        rw [noted]
        refine tracks.replace tracks.own order fun id vec' response' => ?_
        rw [entries id vec' response', tracks.order, last, tracks.entries, Dict.get?_set]
        by_cases new : id = (m.tenant t).1.nextId
        · rw [if_pos new, if_pos new]
          simp [eq_comm]
        · rw [if_neg new, if_neg new]
          constructor
          · rintro ⟨kept, -, found⟩
            exact ⟨kept, found⟩
          · rintro ⟨kept, found⟩
            refine ⟨kept, ?_, found⟩
            rw [← last] at kept
            exact (List.mem_append.mp ((List.drop_sublist _ _).subset kept)).resolve_right
              fun latest => new (List.mem_singleton.mp latest)
      · have unnoted : m.note tenantId log (.store t prompt response) = log := by
          simp [note, own]
        rw [unnoted]
        exact tracks.other own _

/-- **Runs.** Of all that was ever stored for a tenant, the cache has the entries used last, as many as
fit. -/
theorem tracks_run (embedder : String → Option V) (similarity : V → V → Option ℚ) (threshold : ℚ)
    (n : Nat) (tenantId : String) (calls : List Call) :
    let end_ := run (init embedder similarity threshold n) tenantId calls
    Tracks n tenantId end_.1 end_.2 := by
  induction calls using List.reverseRecOn with
  | nil => exact .init embedder similarity threshold n tenantId
  | append_singleton calls call ih =>
      rw [run, List.foldl_append]
      cases call with
      | lookup t prompt => exact ih.lookup t prompt
      | store t prompt response => exact ih.store t prompt response

/-- The embedder, the similarity and the threshold never change. -/
theorem settings_run (m : SemanticCache V) (tenantId : String) (calls : List Call) :
    ∃ tenants, (run m tenantId calls).1 = { m with tenants := tenants } := by
  induction calls using List.reverseRecOn with
  | nil => exact ⟨m.tenants, rfl⟩
  | append_singleton calls call ih =>
      obtain ⟨tenants, same⟩ := ih
      have last : (run m tenantId (calls ++ [call])).1 = (run m tenantId calls).1.apply call := by
        rw [run, List.foldl_append]
        rfl
      rw [last, same]
      cases call with
      | lookup t prompt => exact lookup_settings _ t prompt
      | store t prompt response => exact store_settings _ t prompt response

/-- **When a prompt is answered.** After any run of look-ups and stores of all tenants, a look-up of a
tenant is answered precisely if one of the `n` entries that the tenant used last is similar enough.
If the product with one of them is not a number, it is not. -/
theorem lookup_run_iff (embedder : String → Option V) (similarity : V → V → Option ℚ)
    (threshold : ℚ) (n : Nat) (tenantId : String) (calls : List Call) {prompt : String} {vec : V}
    (embedded : embedder prompt = some vec) :
    let end_ := run (init embedder similarity threshold n) tenantId calls
    (end_.1.lookup tenantId prompt).2.isSome = true ↔
      (∀ id v, end_.2.Recent n id v → (similarity v vec).isSome = true) ∧
        ∃ id v, end_.2.Recent n id v ∧ ∃ sim, similarity v vec = some sim ∧ threshold ≤ sim := by
  intro end_
  have tracks : Tracks n tenantId end_.1 end_.2 :=
    tracks_run embedder similarity threshold n tenantId calls
  obtain ⟨tenants, settings⟩ : ∃ tenants, end_.1 = _ := settings_run _ tenantId calls
  have embeds : end_.1.embedder prompt = some vec := by
    rw [settings]
    exact embedded
  have answers : (end_.1.lookup tenantId prompt).2.isSome =
      ((end_.1.tenant tenantId).1.findSimilar similarity vec threshold).2.isSome := by
    unfold SemanticCache.lookup
    rw [embeds, settings]
    simp [SemanticCache.init]
  have retained : ∀ id v, end_.2.Recent n id v ↔
      ∃ response, (end_.1.tenant tenantId).1.Entry id v response := by
    intro id v
    constructor
    · rintro ⟨kept, found⟩
      obtain ⟨⟨v', response⟩, entry, rfl⟩ := Option.map_eq_some_iff.mp found
      exact ⟨response, (tracks.entries id v' response).mpr ⟨kept, entry⟩⟩
    · rintro ⟨response, entry⟩
      obtain ⟨kept, found⟩ := (tracks.entries id v response).mp entry
      exact ⟨kept, by rw [found]; rfl⟩
  rw [answers, TenantCache.isSome_findSimilar_iff (end_.1.tenant tenantId).2]
  constructor
  · rintro ⟨numbers, id, v, response, entry, reached⟩
    refine ⟨fun id v kept => ?_, id, v, (retained id v).mpr ⟨response, entry⟩, reached⟩
    obtain ⟨response, entry⟩ := (retained id v).mp kept
    exact numbers id v response entry
  · rintro ⟨numbers, id, v, kept, reached⟩
    obtain ⟨response, entry⟩ := (retained id v).mp kept
    exact ⟨fun id v response entry => numbers id v ((retained id v).mpr ⟨response, entry⟩), id, v,
      response, entry, reached⟩

/-- Room for one entry: the later of two is found, and the earlier one is not. -/
theorem lookup_run_iff_one :
    let m := init (fun p => some p.length) (fun a b : Nat => some (if a = b then 1 else 0)) 1 1
    let calls : List Call := [.store "acme" "short" "r1", .store "umbrella" "other" "r2",
      .store "acme" "longer" "r3"]
    ((run m "acme" calls).1.lookup "acme" "longer").2.isSome = true ∧
      ¬ ((run m "acme" calls).1.lookup "acme" "short").2.isSome = true := by
  intro m calls
  have used : (run m "acme" calls).2.used = [1, 2] := by decide +kernel
  have recent : ∀ id v, (run m "acme" calls).2.Recent 1 id v → v = 6 := by
    rintro id v ⟨kept, found⟩
    rw [used] at kept
    obtain rfl : id = 2 := by simpa [Gateway.recent, List.rtake] using kept
    have latest : ((run m "acme" calls).2.stored.get? 2).map Prod.fst = some 6 := by decide +kernel
    exact Option.some.inj (found.symm.trans latest)
  constructor
  · refine (lookup_run_iff _ _ 1 1 "acme" calls (rfl : some "longer".length = some 6)).mpr
      ⟨fun id v _ => rfl, 2, 6, ⟨?_, ?_⟩, 1, rfl, le_rfl⟩
    · exact used ▸ by decide
    · decide +kernel
  · intro answered
    obtain ⟨-, id, v, kept, sim, same, reached⟩ :=
      (lookup_run_iff _ _ 1 1 "acme" calls (rfl : some "short".length = some 5)).mp answered
    rw [recent id v kept] at same
    cases same
    exact absurd reached (by decide +kernel)

end SemanticCache

end Gateway
