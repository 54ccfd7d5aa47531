import Mathlib.Algebra.Order.Field.Rat
import Mathlib.Data.List.MinMax
import Gateway.Lib.Dict

/-!
The semantic prompt cache, from `gateway/extensions/semantic_cache.py`.

Every tenant has its own LRU of responses, found by the embedding of the prompt they were
given to. The embedder is a third-party model: `embedder` is the vector it gives for a
prompt, cast included, and `none` when it raises; `similarity` is the product of two
vectors, and `none` when that is not a number. The counters of `stats` and the time stamps
of the LRU are read by nothing else and left out.

* `findSimilar_hit`: a hit is a retained entry of greatest similarity, and that reaches the
  threshold.
* `entry_insert`: `insert` retains the new entry and old ones only.
* `Parallel.insert`, `Parallel.findSimilar`: the three tables of a tenant keep the same
  keys, so the response of a hit is always there.
* `lookup_hit`, `retains_lookup`, `retains_store`: the same for the cache of all tenants. A
  hit comes from the tenant's own entries.
-/

namespace Gateway

/-- `_TenantCache`. -/
structure TenantCache (V : Type) where
  maxEntries : Int
  embeddings : Dict Nat V
  responses : Dict Nat String
  order : List Nat

namespace TenantCache

variable {V : Type}

/-- `_TenantCache(max_entries)`. -/
def init (maxEntries : Int) : TenantCache V := ⟨maxEntries, .empty, .empty, []⟩

/-- `find_similar(query_vec, threshold)`: the cache after the call, and the hit. The first
of several entries of greatest similarity is taken. A product that is not a number is
taken before all others, and reaches no threshold. -/
def findSimilar (similarity : V → V → Option ℚ) (c : TenantCache V) (query : V) (threshold : ℚ) :
    TenantCache V × Option (Nat × String × ℚ) :=
  if c.embeddings.items.any fun (_, embedding) => (similarity embedding query).isNone then (c, none)
  else
    let sims := c.embeddings.items.filterMap fun (id, embedding) =>
      (similarity embedding query).map fun sim => (id, sim)
    match sims.argmax Prod.snd with
    | none => (c, none)
    | some (id, best) =>
        if threshold ≤ best then
          match c.responses.get? id with
          | some response =>
              ({ c with order := c.order.erase id ++ [id] }, some (id, response, best))
          | none => (c, none)
        else (c, none)

/-- `while len(self._order) > self.max_entries`: drop the oldest entry. A negative limit
drops them all before it raises. -/
def evictLoop (maxEntries : Int) : List Nat → Dict Nat V → Dict Nat String →
    List Nat × Dict Nat V × Dict Nat String
  | [], embeddings, responses => ([], embeddings, responses)
  | old :: rest, embeddings, responses =>
      if maxEntries < (old :: rest).length then
        evictLoop maxEntries rest (embeddings.erase old) (responses.erase old)
      else (old :: rest, embeddings, responses)

/-- `insert(embedding, response)`. -/
def insert (c : TenantCache V) (embedding : V) (response : String) : TenantCache V :=
  let id := match c.order.max? with
    | some newest => newest + 1
    | none => 1
  let kept := evictLoop c.maxEntries (c.order ++ [id]) (c.embeddings.set id embedding)
    (c.responses.set id response)
  { c with order := kept.1, embeddings := kept.2.1, responses := kept.2.2 }

/-- A retained entry: the embedding and the response under one id. -/
def Entry (c : TenantCache V) (id : Nat) (embedding : V) (response : String) : Prop :=
  c.embeddings.get? id = some embedding ∧ c.responses.get? id = some response

/-- The tables of a tenant have the same keys. -/
structure Parallel (c : TenantCache V) : Prop where
  nodup : c.order.Nodup
  embeddings : ∀ id, (c.embeddings.get? id).isSome = true ↔ id ∈ c.order
  responses : ∀ id, (c.responses.get? id).isSome = true ↔ id ∈ c.order

/-- **What a hit returns**: a retained entry whose similarity reaches the threshold, and
none retained is more similar. -/
theorem findSimilar_hit {similarity : V → V → Option ℚ} {c : TenantCache V} {query : V}
    {threshold : ℚ} {id : Nat} {response : String} {best : ℚ}
    (hit : (c.findSimilar similarity query threshold).2 = some (id, response, best)) :
    ∃ embedding, c.Entry id embedding response ∧ similarity embedding query = some best ∧
      threshold ≤ best ∧
      ∀ id' other, c.embeddings.get? id' = some other →
        ∃ sim, similarity other query = some sim ∧ sim ≤ best := by
  unfold findSimilar at hit
  dsimp only at hit
  split at hit
  · cases hit
  · rename_i numbers
    split at hit
    · cases hit
    · rename_i id' best' found
      split at hit
      · rename_i reached
        split at hit
        · rename_i response' stored
          cases hit
          obtain ⟨⟨id', embedding⟩, member, same⟩ := List.mem_filterMap.mp (List.argmax_mem found)
          obtain ⟨sim, product, same⟩ := Option.map_eq_some_iff.mp same
          cases same
          refine ⟨embedding, ⟨Dict.mem_items_iff.mp member, stored⟩, product, reached, ?_⟩
          intro id'' other retained
          have member' := Dict.mem_items_iff.mpr retained
          cases product' : similarity other query with
          | none =>
              exact absurd (List.any_eq_true.mpr ⟨_, member', by simp [product']⟩) numbers
          | some sim' =>
              have compared : (id'', sim') ∈ c.embeddings.items.filterMap
                  fun (id, embedding) => (similarity embedding query).map fun sim => (id, sim) :=
                List.mem_filterMap.mpr ⟨(id'', other), member', by simp [product']⟩
              exact ⟨sim', rfl, List.le_of_mem_argmax compared found⟩
        · cases hit
      · cases hit

/-- Looking for a response changes the order only: a retained entry may become the latest. -/
theorem findSimilar_cases (similarity : V → V → Option ℚ) (c : TenantCache V) (query : V)
    (threshold : ℚ) :
    (c.findSimilar similarity query threshold).1 = c ∨
      ∃ id, (c.responses.get? id).isSome = true ∧
        (c.findSimilar similarity query threshold).1 =
          { c with order := c.order.erase id ++ [id] } := by
  unfold findSimilar
  dsimp only
  split
  · exact .inl rfl
  · split
    · exact .inl rfl
    · rename_i id best _
      split
      · split
        · rename_i stored
          exact .inr ⟨id, by rw [stored]; rfl, rfl⟩
        · exact .inl rfl
      · exact .inl rfl

/-- Looking for a response changes no entry. -/
theorem entry_findSimilar {similarity : V → V → Option ℚ} {c : TenantCache V} {query : V}
    {threshold : ℚ} {id : Nat} {embedding : V} {response : String} :
    (c.findSimilar similarity query threshold).1.Entry id embedding response ↔
      c.Entry id embedding response := by
  rcases findSimilar_cases similarity c query threshold with same | ⟨latest, -, same⟩
  · rw [same]
  · rw [same]
    exact Iff.rfl

/-- Eviction only drops entries. -/
theorem get?_evictLoop (maxEntries : Int) (order : List Nat) (embeddings : Dict Nat V)
    (responses : Dict Nat String) (id : Nat) :
    let kept := evictLoop maxEntries order embeddings responses
    (kept.2.1.get? id = embeddings.get? id ∧ kept.2.2.get? id = responses.get? id) ∨
      (kept.2.1.get? id = none ∧ kept.2.2.get? id = none) := by
  induction order generalizing embeddings responses with
  | nil => exact .inl ⟨rfl, rfl⟩
  | cons old rest ih =>
      simp only [evictLoop]
      split
      · rcases ih (embeddings.erase old) (responses.erase old) with ⟨same, same'⟩ | gone
        · rw [Dict.get?_erase] at same same'
          by_cases here : id = old
          · right
            simpa [here] using And.intro same same'
          · left
            simpa [here] using And.intro same same'
        · exact .inr gone
      · exact .inl ⟨rfl, rfl⟩

/-- **What is retained after an insert**: the new entry, or an old one. -/
theorem entry_insert {c : TenantCache V} {embedding embedding' : V} {response response' : String}
    {id : Nat} (retained : (c.insert embedding response).Entry id embedding' response') :
    (embedding' = embedding ∧ response' = response) ∨ c.Entry id embedding' response' := by
  obtain ⟨vector, text⟩ := retained
  simp only [insert] at vector text
  generalize (match c.order.max? with | some newest => newest + 1 | none => 1) = fresh at vector text
  rcases get?_evictLoop c.maxEntries (c.order ++ [fresh]) (c.embeddings.set fresh embedding)
    (c.responses.set fresh response) id with ⟨same, same'⟩ | ⟨gone, -⟩
  · rw [vector, Dict.get?_set] at same
    rw [text, Dict.get?_set] at same'
    by_cases here : id = fresh
    · left
      simpa [here] using And.intro same same'
    · right
      rw [if_neg here] at same same'
      exact ⟨same.symm, same'.symm⟩
  · rw [vector] at gone
    cases gone

/-! ### The three tables -/

theorem Parallel.init (maxEntries : Int) : (init maxEntries : TenantCache V).Parallel := by
  constructor
  · exact List.nodup_nil
  · simp [TenantCache.init]
  · simp [TenantCache.init]

/-- Dropping the oldest entry drops it from all tables. -/
theorem Parallel.drop {c : TenantCache V} {old : Nat} {rest : List Nat} (par : c.Parallel)
    (order : c.order = old :: rest) :
    Parallel (⟨c.maxEntries, c.embeddings.erase old, c.responses.erase old, rest⟩ :
      TenantCache V) := by
  have nodup := par.nodup
  rw [order] at nodup
  obtain ⟨fresh, distinct⟩ := List.nodup_cons.mp nodup
  have keys : ∀ id, id ∈ rest ↔ id ≠ old ∧ id ∈ c.order := by
    intro id
    rw [order, List.mem_cons]
    constructor
    · intro member
      exact ⟨fun same => fresh (same ▸ member), .inr member⟩
    · rintro ⟨other, rfl | member⟩
      · exact absurd rfl other
      · exact member
  refine ⟨distinct, ?_, ?_⟩
  · intro id
    rw [keys id, ← par.embeddings id, Dict.get?_erase]
    by_cases here : id = old <;> simp [here]
  · intro id
    rw [keys id, ← par.responses id, Dict.get?_erase]
    by_cases here : id = old <;> simp [here]

theorem Parallel.evictLoop {maxEntries : Int} {order : List Nat} {embeddings : Dict Nat V}
    {responses : Dict Nat String}
    (par : Parallel (⟨maxEntries, embeddings, responses, order⟩ : TenantCache V)) :
    let kept := evictLoop maxEntries order embeddings responses
    Parallel (⟨maxEntries, kept.2.1, kept.2.2, kept.1⟩ : TenantCache V) := by
  induction order generalizing embeddings responses with
  | nil => exact par
  | cons old rest ih =>
      simp only [TenantCache.evictLoop]
      split
      · exact ih (par.drop rfl)
      · exact par

/-- **The tables keep the same keys.** The new id is above all that are in use. -/
theorem Parallel.insert {c : TenantCache V} (par : c.Parallel) (embedding : V) (response : String) :
    (c.insert embedding response).Parallel := by
  have above : (match c.order.max? with | some newest => newest + 1 | none => 1) ∉ c.order := by
    intro member
    cases newest : c.order.max? with
    | none =>
        rw [List.max?_eq_none_iff.mp newest] at member
        cases member
    | some top =>
        rw [newest] at member
        have below : top + 1 ≤ top := (List.max?_eq_some_iff.mp newest).2 _ member
        omega
  unfold TenantCache.insert
  dsimp only
  generalize (match c.order.max? with | some newest => newest + 1 | none => 1) = fresh at above ⊢
  apply Parallel.evictLoop
  refine ⟨?_, ?_, ?_⟩
  · exact List.nodup_append.mpr ⟨par.nodup, List.nodup_singleton _, by
      intro a member b single same
      rw [List.mem_singleton] at single
      exact above (single ▸ same ▸ member)⟩
  · intro id
    rw [Dict.get?_set, List.mem_append, List.mem_singleton, ← par.embeddings id]
    by_cases here : id = fresh <;> simp [here]
  · intro id
    rw [Dict.get?_set, List.mem_append, List.mem_singleton, ← par.responses id]
    by_cases here : id = fresh <;> simp [here]

theorem Parallel.findSimilar {similarity : V → V → Option ℚ} {c : TenantCache V} (par : c.Parallel)
    (query : V) (threshold : ℚ) : (c.findSimilar similarity query threshold).1.Parallel := by
  rcases findSimilar_cases similarity c query threshold with same | ⟨id, stored, same⟩
  · rw [same]
    exact par
  · rw [same]
    have moved : (c.order.erase id ++ [id]).Perm c.order := by
      have member := (par.responses id).mp stored
      exact (List.perm_append_singleton _ _).trans (List.perm_cons_erase member).symm
    refine ⟨moved.nodup_iff.mpr par.nodup, ?_, ?_⟩
    · intro id'
      rw [moved.mem_iff]
      exact par.embeddings id'
    · intro id'
      rw [moved.mem_iff]
      exact par.responses id'

end TenantCache

/-! ### All tenants -/

/-- `SemanticCache`. The tables of a tenant have the same keys. -/
structure SemanticCache (V : Type) where
  embedder : String → Option V
  similarity : V → V → Option ℚ
  threshold : ℚ
  maxEntries : Int
  tenants : Dict String { c : TenantCache V // c.Parallel }

namespace SemanticCache

variable {V : Type}

/-- `SemanticCache(embedder, similarity_threshold, max_entries_per_tenant)`. -/
def init (embedder : String → Option V) (similarity : V → V → Option ℚ) (threshold : ℚ)
    (maxEntries : Int) : SemanticCache V :=
  ⟨embedder, similarity, threshold, maxEntries, .empty⟩

/-- `_tenant(tenant_id)`. -/
def tenant (m : SemanticCache V) (tenantId : String) : { c : TenantCache V // c.Parallel } :=
  m.tenants.getD tenantId ⟨.init m.maxEntries, .init m.maxEntries⟩

/-- `lookup(tenant_id, prompt)`: the cache after the call, and the response with its
similarity. -/
def lookup (m : SemanticCache V) (tenantId prompt : String) :
    SemanticCache V × Option (String × ℚ) :=
  match m.embedder prompt with
  | none => (m, none)
  | some vec =>
      let c := m.tenant tenantId
      let found := c.1.findSimilar m.similarity vec m.threshold
      ({ m with tenants := m.tenants.set tenantId ⟨found.1, c.2.findSimilar vec m.threshold⟩ },
        found.2.map fun (_, response, sim) => (response, sim))

/-- `store(tenant_id, prompt, response)`. -/
def store (m : SemanticCache V) (tenantId prompt response : String) : SemanticCache V × Bool :=
  match m.embedder prompt with
  | none => (m, false)
  | some vec =>
      let c := m.tenant tenantId
      ({ m with tenants := m.tenants.set tenantId ⟨c.1.insert vec response, c.2.insert vec response⟩ },
        true)

/-- The tenant has a retained entry with this embedding and response. -/
def Retains (m : SemanticCache V) (tenantId : String) (embedding : V) (response : String) : Prop :=
  ∃ id, (m.tenant tenantId).1.Entry id embedding response

theorem not_retains_init {embedder : String → Option V} {similarity : V → V → Option ℚ}
    {threshold : ℚ} {maxEntries : Int} {tenantId : String} {embedding : V} {response : String} :
    ¬ (init embedder similarity threshold maxEntries).Retains tenantId embedding response := by
  rintro ⟨id, vector, -⟩
  cases vector

/-- A look-up leaves the settings as they are. -/
theorem lookup_settings (m : SemanticCache V) (tenantId prompt : String) :
    ∃ tenants, (m.lookup tenantId prompt).1 = { m with tenants := tenants } := by
  unfold lookup
  split
  · exact ⟨m.tenants, rfl⟩
  · exact ⟨_, rfl⟩

/-- A store leaves the settings as they are. -/
theorem store_settings (m : SemanticCache V) (tenantId prompt response : String) :
    ∃ tenants, (m.store tenantId prompt response).1 = { m with tenants := tenants } := by
  unfold store
  split
  · exact ⟨m.tenants, rfl⟩
  · exact ⟨_, rfl⟩

/-- The table of a tenant after another table was put in its place. -/
theorem tenant_set (m : SemanticCache V) (tenantId tenantId' : String)
    (c : { c : TenantCache V // c.Parallel }) :
    ({ m with tenants := m.tenants.set tenantId c } : SemanticCache V).tenant tenantId' =
      if tenantId' = tenantId then c else m.tenant tenantId' := by
  unfold tenant
  exact Dict.getD_set _ _ _ _ _

/-- **What a hit returns**: a response the tenant itself has retained. Its similarity reaches
the threshold, and no entry of the tenant is more similar. -/
theorem lookup_hit {m : SemanticCache V} {tenantId prompt response : String} {best : ℚ}
    (hit : (m.lookup tenantId prompt).2 = some (response, best)) :
    ∃ vec embedding, m.embedder prompt = some vec ∧ m.Retains tenantId embedding response ∧
      m.similarity embedding vec = some best ∧ m.threshold ≤ best ∧
      ∀ other response', m.Retains tenantId other response' →
        ∃ sim, m.similarity other vec = some sim ∧ sim ≤ best := by
  unfold lookup at hit
  split at hit
  · cases hit
  · rename_i vec embedded
    obtain ⟨⟨id, response', best'⟩, found, same⟩ := Option.map_eq_some_iff.mp hit
    cases same
    obtain ⟨embedding, entry, product, reached, greatest⟩ := TenantCache.findSimilar_hit found
    refine ⟨vec, embedding, embedded, ⟨id, entry⟩, product, reached, ?_⟩
    rintro other response' ⟨id', vector, -⟩
    exact greatest id' other vector

/-- A look-up changes no entry. -/
theorem retains_lookup {m : SemanticCache V} {tenantId tenantId' prompt response : String}
    {embedding : V} :
    (m.lookup tenantId prompt).1.Retains tenantId' embedding response ↔
      m.Retains tenantId' embedding response := by
  unfold lookup
  split
  · exact Iff.rfl
  · rename_i vec embedded
    unfold Retains
    rw [tenant_set]
    split
    · rename_i same
      rw [same]
      exact exists_congr fun _ => TenantCache.entry_findSimilar
    · exact Iff.rfl

/-- **What is retained after a store**: an old entry, or the new one in the tenant's table. -/
theorem retains_store {m : SemanticCache V} {tenantId tenantId' prompt response response' : String}
    {embedding : V}
    (retained : (m.store tenantId prompt response).1.Retains tenantId' embedding response') :
    (tenantId' = tenantId ∧ m.embedder prompt = some embedding ∧ response' = response) ∨
      m.Retains tenantId' embedding response' := by
  unfold store at retained
  split at retained
  · exact .inr retained
  · rename_i vec embedded
    obtain ⟨id, entry⟩ := retained
    rw [tenant_set] at entry
    split at entry
    · rename_i same
      rcases TenantCache.entry_insert entry with ⟨vector, text⟩ | before
      · exact .inl ⟨same, by rw [embedded, vector], text⟩
      · exact .inr ⟨id, same ▸ before⟩
    · exact .inr ⟨id, entry⟩

end SemanticCache

end Gateway
