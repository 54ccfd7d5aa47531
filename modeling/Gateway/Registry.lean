import Gateway.Auth
import Gateway.Quota

/-!
Who a request is: the tenant registry of `gateway/tenancy.py` and the keys of `gateway/auth.py`, as
`gateway/server.py` puts them together.

* `ofSpec_specText`: a specification written from a list of entries is read back as these entries.
* `resolve_of_bearer`: the tenant of a request, by the bearer token that the authentication reads.
* `resolve_specText`: of several entries with one key the last one counts, and every other caller is
  anonymous.
* `authorized_tenant`: who passes the authentication, and as which tenant.
-/

namespace Gateway

namespace TenantRegistry

variable {tiers : Dict String Tier}

/-- A text that stands between separators: not empty, without white space around it, and without
those separators. -/
def Word (separators : List Char) (s : String) : Prop :=
  s ≠ "" ∧ Text.strip s.toList = s.toList ∧ ∀ c ∈ separators, c ∉ s.toList

/-- An entry `key=id:tier` of a specification. -/
structure Entry (tiers : Dict String Tier) where
  key : String
  id : String
  tierName : String
  tier : Tier
  key_word : Word ['=', ','] key
  id_word : Word [':', ','] id
  tier_word : Word [','] tierName
  known : tiers.get? tierName = some tier

/-- The tenant of an entry. -/
def Entry.tenant (e : Entry tiers) : Tenant := .fromTier e.id e.tier e.tierName

def Entry.text (e : Entry tiers) : List Char :=
  e.key.toList ++ ('=' :: e.id.toList ++ [':']) ++ e.tierName.toList

/-- The specification with these entries. -/
def specText (entries : List (Entry tiers)) : String :=
  String.ofList ([','].intercalate (entries.map Entry.text))

/-- The tenants of these entries, by their keys. -/
def tenantsOf (entries : List (Entry tiers)) : Dict String Tenant :=
  entries.foldl (fun byKey e => byKey.set e.key e.tenant) .empty

/-! ### The specification -/

theorem partition_append {c : Char} {cs : List Char} (fresh : c ∉ cs) (rest : List Char) :
    partition c (cs ++ c :: rest) = (cs, rest) := by
  have before : ∀ d ∈ cs, decide (d ≠ c) = true :=
    fun d member => decide_eq_true fun same => fresh (same ▸ member)
  rw [partition, List.takeWhile_append_of_pos before, List.dropWhile_append_of_pos before]
  simp

theorem Word.stripOr {separators : List Char} {s : String} (word : Word separators s) :
    Text.stripOr s.toList = some s :=
  stripOr_eq_some_iff.mpr ⟨word.2.1, word.1⟩

theorem Entry.strip_text (e : Entry tiers) : Text.strip e.text = e.text := by
  have some_key : e.key.toList ≠ [] := fun empty => e.key_word.1 (String.toList_eq_nil_iff.mp empty)
  have some_tier : e.tierName.toList ≠ [] :=
    fun empty => e.tier_word.1 (String.toList_eq_nil_iff.mp empty)
  exact Text.stripBy_append e.key_word.2.1 e.tier_word.2.1 some_key some_tier _

/-- **One entry** is read back. -/
theorem addPair_text (byKey : Dict String Tenant) (e : Entry tiers) :
    addPair tiers byKey e.text = some (byKey.set e.key e.tenant) := by
  have some_text : e.text.isEmpty = false := by simp [Entry.text]
  have key : partition '=' e.text = (e.key.toList, e.id.toList ++ ':' :: e.tierName.toList) := by
    have parts : e.text = e.key.toList ++ '=' :: (e.id.toList ++ ':' :: e.tierName.toList) := by
      simp [Entry.text]
    rw [parts]
    exact partition_append (e.key_word.2.2 '=' (by simp)) _
  have id : partition ':' (e.id.toList ++ ':' :: e.tierName.toList) =
      (e.id.toList, e.tierName.toList) := partition_append (e.id_word.2.2 ':' (by simp)) _
  have listed : tiers.contains e.tierName = true := by
    rw [Dict.contains, e.known]
    rfl
  unfold addPair
  simp only [e.strip_text, some_text, key, id, e.tier_word.stripOr, e.id_word.stripOr,
    e.key_word.2.1, String.ofList_toList, Option.getD_some, listed, e.known, if_true,
    Bool.false_eq_true, if_false]
  rfl

theorem foldlM_addPair (byKey : Dict String Tenant) (entries : List (Entry tiers)) :
    (entries.map Entry.text).foldlM (addPair tiers) byKey =
      some (entries.foldl (fun byKey e => byKey.set e.key e.tenant) byKey) := by
  induction entries generalizing byKey with
  | nil => rfl
  | cons e entries ih =>
      rw [List.map_cons, List.foldlM_cons, addPair_text]
      exact ih _

theorem Entry.comma_notMem (e : Entry tiers) : ',' ∉ e.text := by
  have key : ',' ∉ e.key.toList := e.key_word.2.2 ',' (by simp)
  have id : ',' ∉ e.id.toList := e.id_word.2.2 ',' (by simp)
  have tier : ',' ∉ e.tierName.toList := e.tier_word.2.2 ',' (by simp)
  simp [Entry.text, key, id, tier]

/-- **The specification is read back.** -/
theorem ofSpec_specText (entries : List (Entry tiers)) {anonymous : Tier}
    (has : tiers.get? "anonymous" = some anonymous) :
    ofSpec (specText entries) tiers = some
      ⟨tenantsOf entries, .fromTier "anonymous" anonymous "anonymous"⟩ := by
  have pairs : ((specText entries).toList.splitOn ',').foldlM (addPair tiers) .empty =
      some (tenantsOf entries) := by
    rw [specText, String.toList_ofList]
    cases entries with
    | nil => rfl
    | cons e entries =>
        rw [List.splitOn_intercalate _ _ (by simp), foldlM_addPair]
        · rfl
        intro text member
        obtain ⟨e', -, rfl⟩ := List.mem_map.mp member
        exact e'.comma_notMem
  rw [ofSpec, pairs, has]
  rfl

/-- The last entry with a key is the one that is kept. -/
theorem get?_tenantsOf (entries : List (Entry tiers)) (key : String) :
    (tenantsOf entries).get? key =
      (entries.reverse.find? fun e => e.key = key).map Entry.tenant := by
  induction entries using List.reverseRecOn with
  | nil => rfl
  | append_singleton entries e ih =>
      rw [tenantsOf, List.foldl_append, List.foldl_cons, List.foldl_nil, Dict.get?_set, ← tenantsOf,
        ih, List.reverse_append, List.reverse_singleton, List.singleton_append, List.find?_cons]
      by_cases here : e.key = key
      · simp [here]
      · simp [here, Ne.symm here]

/-! ### The tenant of a request -/

variable {reg : TenantRegistry} {headers : String → Option String} {token : String}

/-- Both modules read the same header. -/
theorem resolve_authorization (reg : TenantRegistry) (headers : String → Option String) :
    reg.resolve headers =
      if ((authorization headers).toList.take 7).map Char.toLower = "bearer ".toList then
        (reg.byKey.get? (String.ofList (Text.strip ((authorization headers).toList.drop 7)))).getD
          reg.anon
      else reg.anon := rfl

/-- The registry looks up the token that the authentication reads. -/
theorem resolve_of_bearer (bearer : extractBearer headers = some token) :
    reg.resolve headers = (reg.byKey.get? token).getD reg.anon := by
  unfold extractBearer at bearer
  dsimp only at bearer
  split at bearer
  · rename_i named
    obtain ⟨trimmed, -⟩ := stripOr_eq_some_iff.mp bearer
    rw [resolve_authorization, if_pos named, trimmed, String.ofList_toList]
  · cases bearer

/-- Without a token a caller is anonymous, unless the empty key is configured. -/
theorem resolve_of_no_bearer (bare : extractBearer headers = none)
    (no_blank : reg.byKey.get? "" = none) : reg.resolve headers = reg.anon := by
  unfold extractBearer at bare
  dsimp only at bare
  split at bare
  · rename_i named
    have blank : Text.strip ((authorization headers).toList.drop 7) = [] := by
      unfold Text.stripOr at bare
      split at bare
      · assumption
      · cases bare
    rw [resolve_authorization, if_pos named, blank, String.ofList_nil, no_blank]
    rfl
  · rename_i other
    exact if_neg other

/-- **Who a request is.** The gateway accepts every specification written from a list of entries. A
request is the tenant of the last entry with its bearer token as the key, and anonymous if there is
none. -/
theorem resolve_specText (entries : List (Entry tiers)) {anonymous : Tier}
    (has : tiers.get? "anonymous" = some anonymous) :
    ∃ reg, ofSpec (specText entries) tiers = some reg ∧ ∀ headers, reg.resolve headers =
      ((extractBearer headers).bind fun token => entries.reverse.find? fun e => e.key = token).elim
        (.fromTier "anonymous" anonymous "anonymous") Entry.tenant := by
  refine ⟨_, ofSpec_specText entries has, fun headers => ?_⟩
  cases bearer : extractBearer headers with
  | none =>
      refine resolve_of_no_bearer bearer ?_
      have unnamed : (entries.reverse.find? fun e => e.key = "") = none := by
        rw [List.find?_eq_none]
        intro e _ blank
        exact e.key_word.1 (of_decide_eq_true blank)
      show (tenantsOf entries).get? "" = none
      rw [get?_tenantsOf, unnamed]
      rfl
  | some token =>
      rw [resolve_of_bearer bearer]
      show ((tenantsOf entries).get? token).getD _ = _
      rw [get?_tenantsOf, Option.bind_some]
      cases entries.reverse.find? fun e => e.key = token with
      | none => rfl
      | some e => rfl

/-- Two tenants, one of them with two entries for its key. -/
def acmeEntries : List (Entry defaultTiers) :=
  let word {separators : List Char} {s : String}
      (is : (s ≠ "" ∧ Text.strip s.toList = s.toList) ∧
        (separators.all fun c => decide (c ∉ s.toList)) = true) :
      Word separators s :=
    ⟨is.1.1, is.1.2, fun c member => of_decide_eq_true (List.all_eq_true.mp is.2 c member)⟩
  [⟨"sk-1", "acme", "bronze", ⟨5, 10000, 8⟩, word (by decide), word (by decide), word (by decide),
      by decide +kernel⟩,
    ⟨"sk-2", "umbrella", "silver", ⟨20, 40000, 24⟩, word (by decide), word (by decide),
      word (by decide), by decide +kernel⟩,
    ⟨"sk-1", "acme", "gold", ⟨50, 100000, 64⟩, word (by decide), word (by decide), word (by decide),
      by decide +kernel⟩]

/-- The second entry of the key counts. -/
theorem resolve_specText_acme :
    ∃ reg, ofSpec "sk-1=acme:bronze,sk-2=umbrella:silver,sk-1=acme:gold" defaultTiers = some reg ∧
      reg.resolve (fun _ => some "BEARER sk-1 ") = ⟨"acme", 50, 100000, 64, "gold"⟩ := by
  have anonymous : defaultTiers.get? "anonymous" = some ⟨2, 4000, 4⟩ := by decide +kernel
  have text : specText acmeEntries = "sk-1=acme:bronze,sk-2=umbrella:silver,sk-1=acme:gold" := by
    decide +kernel
  obtain ⟨reg, made, who⟩ := resolve_specText acmeEntries anonymous
  refine ⟨reg, text ▸ made, ?_⟩
  rw [who]
  decide +kernel

end TenantRegistry

/-! ### Authentication -/

/-- `parse_api_keys(spec)`, in the order of the specification. -/
def parseApiKeys (spec : String) : List String := (spec.toList.splitOn ',').filterMap Text.stripOr

/-- The sets that the gateway's `Authenticator` gets, in some order: `tenants.keys()` with the
configured API keys, and the configured hashes. -/
structure Configured (reg : TenantRegistry) (apiKeys apiKeyHashes : String)
    (validKeys validHashes : List String) : Prop where
  keys : ∀ k, k ∈ validKeys ↔ k ∈ reg.byKey.keys ∨ k ∈ parseApiKeys apiKeys
  hashes : ∀ h, h ∈ validHashes ↔ h ∈ parseApiKeys apiKeyHashes

/-- Whom a gateway lets in with a token, and as which tenant. -/
inductive Identified (unicode : List Char → List Char) (reg : TenantRegistry)
    (apiKeys apiKeyHashes : String) (token : String) : Tenant → Prop where
  /-- A tenant with one of its keys. -/
  | tenant {t : Tenant} : reg.byKey.get? token = some t →
      Identified unicode reg apiKeys apiKeyHashes token t
  /-- A holder of an API key of no tenant. -/
  | key : reg.byKey.get? token = none → token ∈ parseApiKeys apiKeys →
      Identified unicode reg apiKeys apiKeyHashes token reg.anon
  /-- A holder of a key of which the gateway knows the hash only. -/
  | hashed {h : String} : reg.byKey.get? token = none → h ∈ parseApiKeys apiKeyHashes →
      sha256Hex token = String.ofList (Text.lower unicode (Text.strip h.toList)) →
      Identified unicode reg apiKeys apiKeyHashes token reg.anon

namespace Authenticator

variable {unicode : List Char → List Char} {reg : TenantRegistry} {apiKeys apiKeyHashes : String}
  {validKeys validHashes : List String} {headers : String → Option String} {token : String}

theorem isValid_eq_some_true {a : Authenticator} (nonempty : token ≠ "")
    (valid : a.isValid token = some true) : a.Knows token := by
  have compares : a.Compares token := by
    by_contra raises
    rw [isValid_of_not_compares nonempty raises] at valid
    cases valid
  obtain ⟨result, checked, known⟩ := isValid_of_compares nonempty compares
  exact known.mp (Option.some.inj (checked.symm.trans valid))

theorem check_required (a : Authenticator) (required : a.require = true) :
    a.check headers = match extractBearer headers with
      | none => some (false, some missingApiKey)
      | some key => (a.isValid key).map fun valid =>
          if valid then (true, none) else (false, some invalidApiKey) := by
  unfold check
  rw [required]
  rfl

/-- What a gateway knows are the keys of its tenants and what was configured besides. -/
theorem caller_of_knows (configured : Configured reg apiKeys apiKeyHashes validKeys validHashes)
    (knows : (init unicode validKeys true validHashes).Knows token) :
    Identified unicode reg apiKeys apiKeyHashes token ((reg.byKey.get? token).getD reg.anon) := by
  cases found : reg.byKey.get? token with
  | some t => exact .tenant found
  | none =>
      rcases knows with plain | hashed
      · rcases (configured.keys token).mp plain with key | key
        · have some_tenant := Dict.mem_keys_iff.mp key
          rw [found] at some_tenant
          cases some_tenant
        · exact .key found key
      · obtain ⟨h, kept, same⟩ := List.mem_map.mp hashed
        exact .hashed found ((configured.hashes h).mp (List.mem_filter.mp kept).1) same.symm

/-- **Authentication and quotas agree on the caller.** Whoever passes the authentication of a gateway
that requires keys is the tenant of its key, or holds a configured key of no tenant and is anonymous.
And a tenant passes with its key, as itself, if all configured keys and hashes are ASCII. -/
theorem authorized_tenant (unicode : List Char → List Char) (reg : TenantRegistry)
    {apiKeys apiKeyHashes : String} {validKeys validHashes : List String}
    (configured : Configured reg apiKeys apiKeyHashes validKeys validHashes)
    (headers : String → Option String) :
    ((init unicode validKeys true validHashes).check headers = some (true, none) →
      ∃ token, Bears headers token ∧
        Identified unicode reg apiKeys apiKeyHashes token (reg.resolve headers)) ∧
    ∀ token t, Bears headers token → reg.byKey.get? token = some t →
      (init unicode validKeys true validHashes).Compares token →
      (init unicode validKeys true validHashes).check headers = some (true, none) ∧
        reg.resolve headers = t := by
  have check : (init unicode validKeys true validHashes).check headers = _ := check_required _ rfl
  constructor
  · intro passed
    rw [check] at passed
    cases bearer : extractBearer headers with
    | none =>
        rw [bearer] at passed
        cases passed
    | some token =>
        have bears := extractBearer_eq_some_iff.mp bearer
        have nonempty : token ≠ "" := bears.choose_spec.choose_spec.2.2.2
        rw [bearer] at passed
        obtain ⟨valid, checked, answer⟩ := Option.map_eq_some_iff.mp passed
        have accepted : valid = true := by
          cases valid with
          | false => cases answer
          | true => rfl
        rw [accepted] at checked
        refine ⟨token, bears, ?_⟩
        rw [TenantRegistry.resolve_of_bearer bearer]
        exact caller_of_knows configured (isValid_eq_some_true nonempty checked)
  · intro token t bears found compares
    have nonempty : token ≠ "" := bears.choose_spec.choose_spec.2.2.2
    have bearer := extractBearer_eq_some_iff.mpr bears
    obtain ⟨valid, checked, known⟩ := isValid_of_compares nonempty compares
    have listed : token ∈ reg.byKey.keys := Dict.mem_keys_iff.mpr (by rw [found]; rfl)
    have accepted : valid = true := known.mpr (.inl ((configured.keys token).mpr (.inl listed)))
    constructor
    · rw [check, bearer]
      dsimp only
      rw [checked, accepted]
      rfl
    · rw [TenantRegistry.resolve_of_bearer bearer, found]
      rfl

/-- A registry with one tenant. -/
def acme : TenantRegistry :=
  (TenantRegistry.ofSpec "sk-1=acme:gold" defaultTiers).get (by decide +kernel)

/-- The tenant passes as itself, next to an API key of no tenant. -/
theorem authorized_tenant_acme :
    (init id ["sk-9", "sk-1"] true []).check (fun _ => some "Bearer sk-1") = some (true, none) ∧
      acme.resolve (fun _ => some "Bearer sk-1") = ⟨"acme", 50, 100000, 64, "gold"⟩ := by
  have configured : Configured acme "sk-9" "" ["sk-9", "sk-1"] [] := by
    have keys : acme.byKey.keys = ["sk-1"] := by decide +kernel
    have more : parseApiKeys "sk-9" = ["sk-9"] := by decide +kernel
    have none_hashed : parseApiKeys "" = [] := by decide +kernel
    constructor
    · intro k
      rw [keys, more, List.mem_pair, List.mem_singleton, List.mem_singleton]
      exact Or.comm
    · intro h
      rw [none_hashed]
  have bears : Bears (fun _ => some "Bearer sk-1") "sk-1" :=
    extractBearer_eq_some_iff.mp (by decide +kernel)
  have compares : (init id ["sk-9", "sk-1"] true []).Compares "sk-1" := by
    constructor
    · exact .inr (by decide +kernel)
    · decide +kernel
  exact (authorized_tenant id acme configured fun _ => some "Bearer sk-1").2 "sk-1" _ bears
    (by decide +kernel) compares

end Authenticator

end Gateway
