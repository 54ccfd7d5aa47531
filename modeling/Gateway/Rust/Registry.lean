import Mathlib.Data.List.TakeWhile
import Gateway.Registry

/-!
The tenant registry of the Rust gateway (`rust/src/tenancy.rs`), against that of the Python gateway.

The Rust gateway skips an entry without `=`, where the Python gateway takes all of it as a key. Its
`trim` leaves the four control characters in place that `str.strip` removes, it wants a character
behind `Bearer`, and its handler drops a header that is not visible ASCII (`toStr`). A header is the
text of its bytes, one character each.

* `follows_addPair`: one entry adds the same tenant to both registries.
* `resolve_eq`: both gateways take every request with a visible header, or without one, for the same
  tenant with the same quota, if the specification is one that both understand.
-/

namespace Gateway.Rust

/-- The characters `str::trim` removes. -/
def isWhitespace (c : Char) : Bool :=
  let n := c.toNat
  (9 ≤ n && n ≤ 13) || n == 32 || n == 0x85 || n == 0xA0 || n == 0x1680 ||
    (0x2000 ≤ n && n ≤ 0x200A) || n == 0x2028 || n == 0x2029 || n == 0x202F || n == 0x205F ||
    n == 0x3000

/-- `s.trim()`. -/
def trim (cs : List Char) : List Char := Text.stripBy isWhitespace cs

/-- The bytes that `HeaderValue::to_str` takes. -/
def isVisible (c : Char) : Bool :=
  let n := c.toNat
  (32 ≤ n && n < 127) || n == 9

/-- `v.to_str().ok()`. -/
def toStr (header : String) : Option String :=
  if header.toList.all isVisible then some header else none

/-- `s.split_once(c)`. -/
def splitOnce (c : Char) (cs : List Char) : Option (List Char × List Char) :=
  if c ∈ cs then some (Gateway.TenantRegistry.partition c cs) else none

/-- `TenantRegistry`, whose tenants do not know the name of their tier. -/
structure TenantRegistry where
  byKey : Dict String (String × Tier)
  anonymous : String × Tier

namespace TenantRegistry

/-- `tiers.get(name).unwrap_or(tiers["bronze"])`. -/
def tierOf (name : List Char) : Tier :=
  match defaultTiers.get? (String.ofList (trim name)) with
  | some tier => tier
  | none => ⟨5, 10000, 8⟩

/-- The body of the loop of `new`. -/
def addPair (byKey : Dict String (String × Tier)) (pair : List Char) : Dict String (String × Tier) :=
  let p := trim pair
  if p.isEmpty then byKey
  else
    match splitOnce '=' p with
    | none => byKey
    | some (key, rest) =>
        let (tid, tierName) := (splitOnce ':' rest).getD (rest, "bronze".toList)
        let id := if (trim tid).isEmpty then trim key else trim tid
        byKey.set (String.ofList (trim key)) (String.ofList id, tierOf tierName)

/-- `TenantRegistry::new(spec)`. -/
def new (spec : String) : TenantRegistry where
  byKey := (spec.toList.splitOn ',').foldl addPair .empty
  anonymous := ("anonymous", ⟨2, 4000, 4⟩)

/-- `resolve(auth_header)`. -/
def resolve (reg : TenantRegistry) (authHeader : Option String) : String × Tier :=
  match authHeader with
  | none => reg.anonymous
  | some h =>
      if 7 < h.toList.length ∧ (h.toList.take 7).map Char.toLower = "bearer ".toList then
        (reg.byKey.get? (String.ofList (trim (h.toList.drop 7)))).getD reg.anonymous
      else reg.anonymous

/-! ### The same entries -/

/-- The id and the quota of a tenant of the Python gateway. -/
def ofPython (t : Tenant) : String × Tier := (t.id, ⟨t.rps, t.tps, t.maxInflight⟩)

/-- Both gateways agree on whether the character is white space. -/
def Common (c : Char) : Prop := Text.isSpace c = isWhitespace c

instance (c : Char) : Decidable (Common c) := inferInstanceAs (Decidable (_ = _))

/-- An entry that both gateways understand. -/
structure Understood (pair : List Char) : Prop where
  common : ∀ c ∈ pair, Common c
  keyed : Text.strip pair ≠ [] → '=' ∈ Text.strip pair

theorem strip_eq_trim {cs : List Char} (common : ∀ c ∈ cs, Common c) : Text.strip cs = trim cs :=
  Text.stripBy_congr common

theorem strip_subset (cs : List Char) : Text.strip cs ⊆ cs := by
  intro c member
  have inner := (List.dropWhile_sublist _).subset (List.mem_reverse.mp member)
  exact (List.dropWhile_sublist _).subset (List.mem_reverse.mp inner)

theorem partition_subset (c : Char) (cs : List Char) :
    (Gateway.TenantRegistry.partition c cs).1 ⊆ cs ∧
      (Gateway.TenantRegistry.partition c cs).2 ⊆ cs :=
  ⟨(List.takeWhile_sublist _).subset,
    ((List.drop_sublist _ _).trans (List.dropWhile_sublist _)).subset⟩

theorem partition_of_notMem {c : Char} {cs : List Char} (absent : c ∉ cs) :
    Gateway.TenantRegistry.partition c cs = (cs, []) := by
  have other : ∀ d ∈ cs, decide (d ≠ c) = true :=
    fun d member => decide_eq_true fun same => absent (same ▸ member)
  rw [Gateway.TenantRegistry.partition, List.takeWhile_eq_self_iff.mpr other,
    List.dropWhile_eq_nil_iff.mpr other]
  rfl

/-- Both registries have the same keys, with tenants of the same id and quota. -/
def Follows (byKey : Dict String Tenant) (byKey' : Dict String (String × Tier)) : Prop :=
  ∀ key, byKey'.get? key = (byKey.get? key).map ofPython

/-- The name of the tier that the Python gateway looks up. -/
def tierNameOf (tierName : List Char) : String :=
  let name := (Text.stripOr tierName).getD "bronze"
  if defaultTiers.contains name then name else "bronze"

/-- The tiers of both gateways, by the text of an entry. -/
theorem get?_tierNameOf {tierName : List Char} (common : ∀ c ∈ tierName, Common c) :
    defaultTiers.get? (tierNameOf tierName) = some (tierOf tierName) := by
  have bronze : defaultTiers.get? "bronze" = some ⟨5, 10000, 8⟩ := by decide +kernel
  unfold tierNameOf tierOf
  rw [← strip_eq_trim common, Text.stripOr]
  cases Text.strip tierName with
  | nil => decide +kernel
  | cons c cs =>
      dsimp only [Option.getD_some]
      rw [Dict.contains]
      cases found : defaultTiers.get? (String.ofList (c :: cs)) with
      | none =>
          rw [if_neg (by simp)]
          exact bronze
      | some tier =>
          rw [Option.isSome_some, if_pos rfl]
          exact found

/-- The tier name without a colon. -/
theorem tierOf_nil : tierOf [] = tierOf "bronze".toList := by decide +kernel

/-- An entry without a colon has the tier that the other gateway takes for it. -/
theorem splitOnce_colon (rest : List Char) :
    ((splitOnce ':' rest).getD (rest, "bronze".toList)).1 =
        (Gateway.TenantRegistry.partition ':' rest).1 ∧
      tierOf ((splitOnce ':' rest).getD (rest, "bronze".toList)).2 =
        tierOf (Gateway.TenantRegistry.partition ':' rest).2 := by
  unfold splitOnce
  by_cases colon : ':' ∈ rest
  · rw [if_pos colon]
    exact ⟨rfl, rfl⟩
  · rw [if_neg colon, partition_of_notMem colon]
    exact ⟨rfl, tierOf_nil.symm⟩

theorem Follows.set {byKey : Dict String Tenant} {byKey' : Dict String (String × Tier)}
    (follows : Follows byKey byKey') (key : String) (t : Tenant) :
    Follows (byKey.set key t) (byKey'.set key (ofPython t)) := by
  intro key'
  rw [Dict.get?_set, Dict.get?_set]
  split
  · rfl
  · exact follows key'

/-- The id of a tenant: its text, or the key. -/
theorem idOf_eq {tid key : List Char} (trimmed : Text.strip tid = trim tid) :
    (Text.stripOr tid).getD (String.ofList key) =
      String.ofList (if (trim tid).isEmpty then key else trim tid) := by
  rw [Text.stripOr, trimmed]
  cases trim tid with
  | nil => rfl
  | cons c cs => rfl

/-- **One entry.** -/
theorem follows_addPair {byKey : Dict String Tenant} {byKey' : Dict String (String × Tier)}
    (follows : Follows byKey byKey') {pair : List Char} (understood : Understood pair) :
    ∃ added, Gateway.TenantRegistry.addPair defaultTiers byKey pair = some added ∧
      Follows added (addPair byKey' pair) := by
  have trimmed := strip_eq_trim understood.common
  unfold Gateway.TenantRegistry.addPair addPair
  rw [← trimmed]
  dsimp only
  by_cases blank : (Text.strip pair).isEmpty = true
  · rw [if_pos blank, if_pos blank]
    exact ⟨byKey, rfl, follows⟩
  · rw [if_neg blank, if_neg blank]
    have keyed := understood.keyed fun empty => blank (by rw [empty]; rfl)
    rw [splitOnce, if_pos keyed]
    have inside : ∀ c ∈ Text.strip pair, Common c :=
      fun c member => understood.common c (strip_subset pair member)
    obtain ⟨key_subset, rest_subset⟩ := partition_subset '=' (Text.strip pair)
    generalize Gateway.TenantRegistry.partition '=' (Text.strip pair) = parts at key_subset rest_subset
    obtain ⟨key, rest⟩ := parts
    have key_trim : Text.strip key = trim key :=
      strip_eq_trim fun c member => inside c (key_subset member)
    obtain ⟨id_subset, tier_subset⟩ := partition_subset ':' rest
    have id_trim : Text.strip (Gateway.TenantRegistry.partition ':' rest).1 = _ :=
      strip_eq_trim fun c member => inside c (rest_subset (id_subset member))
    have tier : defaultTiers.get? (tierNameOf (Gateway.TenantRegistry.partition ':' rest).2) = _ :=
      get?_tierNameOf fun c member => inside c (rest_subset (tier_subset member))
    obtain ⟨same_id, same_tier⟩ := splitOnce_colon rest
    rw [← same_tier] at tier
    refine ⟨_, Option.bind_eq_some_iff.mpr ⟨_, tier, rfl⟩, ?_⟩
    dsimp only
    rw [same_id, key_trim, ← idOf_eq id_trim]
    exact follows.set _ (.fromTier _ _ _)

theorem follows_foldl {byKey : Dict String Tenant} {byKey' : Dict String (String × Tier)}
    (follows : Follows byKey byKey') {pairs : List (List Char)}
    (understood : ∀ pair ∈ pairs, Understood pair) :
    ∃ added, pairs.foldlM (Gateway.TenantRegistry.addPair defaultTiers) byKey = some added ∧
      Follows added (pairs.foldl addPair byKey') := by
  induction pairs generalizing byKey byKey' with
  | nil => exact ⟨byKey, rfl, follows⟩
  | cons pair pairs ih =>
      obtain ⟨here, later⟩ := List.forall_mem_cons.mp understood
      obtain ⟨mid, added, follows⟩ := follows_addPair follows here
      obtain ⟨last, rest, follows⟩ := ih follows later
      refine ⟨last, ?_, follows⟩
      rw [List.foldlM_cons, added]
      exact rest

/-! ### The same tenant -/

/-- A header of visible ASCII, without white space around it. -/
structure FieldValue (h : String) : Prop where
  visible : h.toList.all isVisible = true
  trimmed : Text.strip h.toList = h.toList

instance (h : String) : Decidable (FieldValue h) :=
  decidable_of_iff (h.toList.all isVisible = true ∧ Text.strip h.toList = h.toList)
    ⟨fun both => ⟨both.1, both.2⟩, fun value => ⟨value.visible, value.trimmed⟩⟩

/-- The white space of a visible header is white space to both gateways. -/
theorem common_of_visible {c : Char} (visible : isVisible c = true) : Common c := by
  -- the separators 28 to 31, on which they differ, are control characters
  unfold Common Text.isSpace isWhitespace
  unfold isVisible at visible
  generalize c.toNat = n at visible ⊢
  simp only [Bool.or_eq_true, Bool.and_eq_true, decide_eq_true_eq, beq_iff_eq] at visible
  rw [Bool.eq_iff_iff]
  simp only [Bool.or_eq_true, Bool.and_eq_true, decide_eq_true_eq, beq_iff_eq]
  omega

theorem FieldValue.toStr {h : String} (value : FieldValue h) : Rust.toStr h = some h :=
  if_pos value.visible

/-- A header that names the bearer scheme has more to it. -/
theorem FieldValue.seven_lt {h : String} (value : FieldValue h)
    (named : (h.toList.take 7).map Char.toLower = "bearer ".toList) : 7 < h.toList.length := by
  have long : 7 ≤ h.toList.length := by
    have seven := congrArg List.length named
    rw [List.length_map, List.length_take] at seven
    have bearer : "bearer ".toList.length = 7 := by decide
    omega
  refine lt_of_le_of_ne long fun only => ?_
  rw [List.take_of_length_le only.ge, show "bearer ".toList = "bearer".toList ++ [' '] by decide,
    List.map_eq_append_iff] at named
  obtain ⟨scheme, last, parts, -, spaced⟩ := named
  obtain ⟨c, rfl, space⟩ := List.map_eq_singleton_iff.mp spaced
  have ends := (Text.stripBy_eq_self_iff.mp value.trimmed).2 c (by rw [parts]; simp)
  rw [toLower_eq_space space] at ends
  cases ends

/-- **Both gateways know the same tenants.** For every specification whose entries both understand,
and every request with a visible header or without one, both handlers resolve the request to the same
id and quota. -/
theorem resolve_eq (spec : String)
    (understood : ∀ pair ∈ spec.toList.splitOn ',', Understood pair) :
    ∃ reg, Gateway.TenantRegistry.ofSpec spec defaultTiers = some reg ∧
      ∀ header : Option String, (∀ h ∈ header, FieldValue h) →
        (new spec).resolve (header.bind toStr) =
          ofPython (reg.resolve fun name => if name = "authorization" then header else none) := by
  have empty : Follows .empty .empty := fun _ => rfl
  obtain ⟨byKey, added, follows⟩ := follows_foldl empty understood
  have anonymous : defaultTiers.get? "anonymous" = some ⟨2, 4000, 4⟩ := by decide +kernel
  refine ⟨⟨byKey, .fromTier "anonymous" ⟨2, 4000, 4⟩ "anonymous"⟩, ?_, fun header value => ?_⟩
  · rw [Gateway.TenantRegistry.ofSpec, added, anonymous]
    rfl
  · cases header with
    | none => rfl
    | some h =>
        have value := value h rfl
        have auth : authorization (fun name => if name = "authorization" then some h else none) = h := by
          by_cases blank : h = ""
          · rw [blank]
            rfl
          · simp [authorization, Option.filter, blank]
        have key_trim : Text.strip (h.toList.drop 7) = trim (h.toList.drop 7) :=
          strip_eq_trim fun c member =>
            common_of_visible (List.all_eq_true.mp value.visible c
              ((List.drop_sublist _ _).subset member))
        rw [Option.bind_some, value.toStr, Gateway.TenantRegistry.resolve_authorization, auth, resolve,
          key_trim]
        by_cases named : (h.toList.take 7).map Char.toLower = "bearer ".toList
        · rw [if_pos named, if_pos ⟨value.seven_lt named, named⟩]
          show ((List.foldl addPair .empty (spec.toList.splitOn ',')).get? _).getD _ = _
          rw [follows]
          cases byKey.get? (String.ofList (trim (h.toList.drop 7))) with
          | none => rfl
          | some t => rfl
        · rw [if_neg named, if_neg fun both => named both.2]
          rfl

/-- A specification with blanks, and an entry without a tier. -/
theorem resolve_eq_acme :
    ∃ reg, Gateway.TenantRegistry.ofSpec "sk-1 = acme : gold,, sk-2=umbrella" defaultTiers = some reg ∧
      ("acme", ⟨50, 100000, 64⟩) =
        ofPython (reg.resolve fun name =>
          if name = "authorization" then some "bearer sk-1" else none) := by
  have common : ∀ {cs : List Char}, (cs.all fun c => decide (Common c)) = true → ∀ c ∈ cs, Common c :=
    fun all c member => of_decide_eq_true (List.all_eq_true.mp all c member)
  have understood : ∀ pair ∈ "sk-1 = acme : gold,, sk-2=umbrella".toList.splitOn ',',
      Understood pair := by
    have all : (("sk-1 = acme : gold,, sk-2=umbrella".toList.splitOn ',').all fun pair =>
        (pair.all fun c => decide (Common c)) &&
          decide (Text.strip pair ≠ [] → '=' ∈ Text.strip pair)) = true := by
      decide +kernel
    intro pair member
    obtain ⟨same, keyed⟩ := (Bool.and_eq_true _ _).mp (List.all_eq_true.mp all pair member)
    exact ⟨common same, of_decide_eq_true keyed⟩
  have value : FieldValue "bearer sk-1" := by decide +kernel
  obtain ⟨reg, made, same⟩ := resolve_eq "sk-1 = acme : gold,, sk-2=umbrella" understood
  refine ⟨reg, made, ?_⟩
  rw [← same (some "bearer sk-1") fun h sent => Option.some.inj sent ▸ value]
  decide +kernel

end TenantRegistry

end Gateway.Rust
