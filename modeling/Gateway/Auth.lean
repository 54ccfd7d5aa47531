import Gateway.Hashing
import Gateway.Lib.Sha256
import Gateway.Lib.Text

/-!
API-key authentication, from `gateway/auth.py`.

Headers are decoded text and may hold any character. `hmac.compare_digest` compares ASCII
strings only: a call that raises is `none`. The sets of keys are lists, in the order in
which they are iterated over.

* `extractBearer_eq_some_iff`: what counts as a bearer token.
* `check_answers_iff`: `check` gives the right answer exactly if every comparison that it
  makes is one of ASCII strings.
-/

namespace Gateway

/-- `MISSING`. -/
def missingApiKey : String := "missing_api_key"

/-- `INVALID`. -/
def invalidApiKey : String := "invalid_api_key"

/-- `sha256_hex(key)`. -/
def sha256Hex (key : String) : String := Sha256.hexdigest (Hashing.encode key)

/-- `headers.get("authorization") or headers.get("Authorization") or ""`. -/
def authorization (headers : String → Option String) : String :=
  (((headers "authorization").filter (· ≠ "")).or (headers "Authorization")).getD ""

/-- `extract_bearer(headers)`. Only ASCII letters lower to the letters of `bearer`. -/
def extractBearer (headers : String → Option String) : Option String :=
  let auth := (authorization headers).toList
  if (auth.take 7).map Char.toLower = "bearer ".toList then Text.stripOr (auth.drop 7) else none

/-- `hmac.compare_digest(a, b)` on strings. -/
def compareDigest (a b : String) : Option Bool :=
  if Text.isAscii a && Text.isAscii b then some (a = b) else none

/-- The loops of `is_valid`: compare with every string of a set. -/
def compareAll (key : String) (set : List String) (ok : Bool) : Option Bool :=
  set.foldlM (fun ok k => (compareDigest key k).map fun same => ok || same) ok

/-- `Authenticator`. -/
structure Authenticator where
  keys : List String
  hashes : List String
  require : Bool

namespace Authenticator

/-- `Authenticator(valid_keys, require, valid_hashes)`. -/
def init (unicode : List Char → List Char) (validKeys : List String) (require : Bool)
    (validHashes : List String) : Authenticator where
  keys := validKeys
  hashes := (validHashes.filter fun h => !(Text.strip h.toList).isEmpty).map fun h =>
    String.ofList (Text.lower unicode (Text.strip h.toList))
  require := require

/-- `is_valid(key)`. -/
def isValid (a : Authenticator) (key : Option String) : Option Bool :=
  match key with
  | none | some "" => some false
  | some key => do
      let ok ← compareAll key a.keys false
      if a.hashes.isEmpty then return ok else compareAll (sha256Hex key) a.hashes ok

/-- `check(headers)`. -/
def check (a : Authenticator) (headers : String → Option String) :
    Option (Bool × Option String) :=
  if !a.require then some (true, none)
  else
    match extractBearer headers with
    | none => some (false, some missingApiKey)
    | some key =>
        (a.isValid key).map fun valid => if valid then (true, none) else (false, some invalidApiKey)

end Authenticator

/-! ### Bearer tokens -/

/-- The header names the bearer scheme, in any case, and a token that is not blank. -/
def Bears (headers : String → Option String) (token : String) : Prop :=
  ∃ scheme rest, (authorization headers).toList = scheme ++ ' ' :: rest ∧
    scheme.map Char.toLower = "bearer".toList ∧ Text.strip rest = token.toList ∧ token ≠ ""

theorem stripOr_eq_some_iff {cs : List Char} {s : String} :
    Text.stripOr cs = some s ↔ Text.strip cs = s.toList ∧ s ≠ "" := by
  unfold Text.stripOr
  split
  · rename_i blank
    rw [blank]
    refine iff_of_false nofun ?_
    rintro ⟨same, nonempty⟩
    exact nonempty (String.toList_eq_nil_iff.mp same.symm)
  · rename_i stripped
    constructor
    · intro same
      cases same
      refine ⟨String.toList_ofList.symm, ?_⟩
      intro empty
      exact stripped (String.ofList_eq_empty_iff.mp empty)
    · rintro ⟨same, -⟩
      rw [same, String.ofList_toList]

theorem toLower_eq_space {c : Char} (same : c.toLower = ' ') : c = ' ' := by
  unfold Char.toLower at same
  split at same
  · rename_i upper
    have value : (c.val + ('a'.val - 'A'.val)).toNat = 32 :=
      congrArg (fun c => c.val.toNat) same
    have least : 65 ≤ c.val.toNat := UInt32.le_iff_toNat_le.mp upper.1
    have most : c.val.toNat ≤ 90 := UInt32.le_iff_toNat_le.mp upper.2
    rw [UInt32.toNat_add, show ('a'.val - 'A'.val).toNat = 32 from rfl] at value
    omega
  · exact same

theorem extractBearer_eq_some_iff {headers : String → Option String} {token : String} :
    extractBearer headers = some token ↔ Bears headers token := by
  unfold extractBearer Bears
  dsimp only
  constructor
  · intro found
    split at found
    · rename_i named
      obtain ⟨trimmed, nonempty⟩ := stripOr_eq_some_iff.mp found
      rw [show "bearer ".toList = "bearer".toList ++ [' '] by decide,
        List.map_eq_append_iff] at named
      obtain ⟨scheme, last, parts, scheme_named, spaced⟩ := named
      obtain ⟨c, rfl, space⟩ := List.map_eq_singleton_iff.mp spaced
      refine ⟨scheme, (authorization headers).toList.drop 7, ?_, scheme_named, trimmed, nonempty⟩
      rw [← toLower_eq_space space]
      calc (authorization headers).toList
          = (authorization headers).toList.take 7 ++ (authorization headers).toList.drop 7 :=
            (List.take_append_drop _ _).symm
        _ = scheme ++ c :: (authorization headers).toList.drop 7 := by
            rw [parts, List.append_assoc, List.singleton_append]
    · cases found
  · rintro ⟨scheme, rest, parts, named, trimmed, nonempty⟩
    have six : scheme.length = 6 := by simpa using congrArg List.length named
    have first : (scheme ++ ' ' :: rest).take 7 = scheme ++ [' '] := by
      rw [List.take_append, six]
      simp [List.take_of_length_le, six]
    have others : (scheme ++ ' ' :: rest).drop 7 = rest := by
      rw [List.drop_append, six]
      simp [List.drop_of_length_le, six]
    rw [parts, first, others, List.map_append, named]
    rw [if_pos (by decide)]
    exact stripOr_eq_some_iff.mpr ⟨trimmed, nonempty⟩

/-! ### Comparisons -/

theorem compareAll_eq (key : String) (set : List String) (ok : Bool) :
    compareAll key set ok =
      if set = [] ∨ (Text.isAscii key = true ∧ ∀ k ∈ set, Text.isAscii k = true) then
        some (ok || set.contains key)
      else none := by
  unfold compareAll
  induction set generalizing ok with
  | nil => simp
  | cons k set ih =>
      rw [List.foldlM_cons, compareDigest]
      by_cases ascii : Text.isAscii key = true
      · by_cases here : Text.isAscii k = true
        · simp only [ascii, here, Bool.and_self, if_true, Option.map_some, Option.bind_eq_bind,
            Option.bind_some, ih, List.forall_mem_cons, true_and, reduceCtorEq, false_or,
            List.contains_cons, Bool.or_assoc]
          by_cases rest : set = []
          · simp [rest, beq_eq_decide]
          · simp [rest, beq_eq_decide]
        · simp [here]
      · simp [ascii]

theorem isAscii_sha256Hex (key : String) : Text.isAscii (sha256Hex key) = true :=
  List.all_eq_true.mpr fun _ member => decide_eq_true (Sha256.hexdigest_lt member)

namespace Authenticator

variable {a : Authenticator} {headers : String → Option String} {token : String}

/-- A key of the gateway. -/
def Knows (a : Authenticator) (token : String) : Prop :=
  token ∈ a.keys ∨ sha256Hex token ∈ a.hashes

/-- Everything that a token is compared with can be compared. -/
def Compares (a : Authenticator) (token : String) : Prop :=
  (a.keys = [] ∨ (Text.isAscii token = true ∧ ∀ k ∈ a.keys, Text.isAscii k = true)) ∧
    ∀ h ∈ a.hashes, Text.isAscii h = true

/-- What `check` has to answer. -/
inductive Answers (a : Authenticator) (headers : String → Option String) :
    Bool × Option String → Prop where
  | missing : (∀ token, ¬ Bears headers token) → Answers a headers (false, some missingApiKey)
  | refused {token : String} : Bears headers token → ¬ a.Knows token →
      Answers a headers (false, some invalidApiKey)
  | authorized {token : String} : Bears headers token → a.Knows token →
      Answers a headers (true, none)

theorem isValid_of_compares (nonempty : token ≠ "") (compares : a.Compares token) :
    ∃ valid, a.isValid token = some valid ∧ (valid = true ↔ a.Knows token) := by
  obtain ⟨plain, hashed⟩ := compares
  have loops : compareAll token a.keys false = some (a.keys.contains token) := by
    rw [compareAll_eq, if_pos plain, Bool.false_or]
  have digests (ok : Bool) : compareAll (sha256Hex token) a.hashes ok =
      some (ok || a.hashes.contains (sha256Hex token)) := by
    rw [compareAll_eq, if_pos (.inr ⟨isAscii_sha256Hex token, hashed⟩)]
  refine ⟨a.keys.contains token || a.hashes.contains (sha256Hex token), ?_, by simp [Knows]⟩
  simp only [isValid, loops, digests, Option.bind_eq_bind, Option.bind_some]
  split
  · rename_i none_configured
    simp [List.isEmpty_iff.mp none_configured]
  · rfl

theorem isValid_of_not_compares (nonempty : token ≠ "") (raises : ¬ a.Compares token) :
    a.isValid token = none := by
  by_cases plain :
      a.keys = [] ∨ (Text.isAscii token = true ∧ ∀ k ∈ a.keys, Text.isAscii k = true)
  · have hashed : ¬ ∀ h ∈ a.hashes, Text.isAscii h = true := fun all => raises ⟨plain, all⟩
    have some_hash : a.hashes ≠ [] := by
      intro empty
      exact hashed (by simp [empty])
    simp [isValid, compareAll_eq, plain, hashed, some_hash]
  · simp [isValid, compareAll_eq, plain]

/-- **When `check` answers as it should**, for a gateway that requires keys. -/
theorem check_answers_iff (unicode : List Char → List Char) (validKeys validHashes : List String)
    (headers : String → Option String) :
    (∃ result, (init unicode validKeys true validHashes).check headers = some result ∧
        (init unicode validKeys true validHashes).Answers headers result) ↔
      ∀ token, Bears headers token →
        (init unicode validKeys true validHashes).Compares token := by
  generalize requires : init unicode validKeys true validHashes = a
  have required : a.check headers = match extractBearer headers with
      | none => some (false, some missingApiKey)
      | some key => (a.isValid key).map fun valid =>
          if valid then (true, none) else (false, some invalidApiKey) := by
    subst requires
    rfl
  rw [required]
  cases found : extractBearer headers with
  | none =>
      have bare : ∀ token, ¬ Bears headers token := by
        intro token bears
        rw [extractBearer_eq_some_iff.mpr bears] at found
        cases found
      exact iff_of_true ⟨_, rfl, .missing bare⟩ fun token bears => absurd bears (bare token)
  | some token =>
      have bears := extractBearer_eq_some_iff.mp found
      have nonempty : token ≠ "" := bears.choose_spec.choose_spec.2.2.2
      constructor
      · rintro ⟨result, answered, -⟩ other bears'
        obtain rfl : token = other :=
          Option.some.inj (found.symm.trans (extractBearer_eq_some_iff.mpr bears'))
        by_contra raises
        simp [isValid_of_not_compares nonempty raises] at answered
      · intro compares
        obtain ⟨valid, checked, known⟩ := isValid_of_compares nonempty (compares token bears)
        cases valid with
        | false =>
            have unknown : ¬ a.Knows token := fun knows => Bool.false_ne_true (known.mpr knows)
            exact ⟨_, by simp [checked], .refused bears unknown⟩
        | true => exact ⟨_, by simp [checked], .authorized bears (known.mp rfl)⟩

/-- The operator has configured the hash of a key, in capitals. -/
example :
    (init id [] true
      ["2C70E12B7A0646F92279F427C7B38E7334D8E5389CFF167A1DC30E73F826B683"]).check
        (fun _ => some "bearer  key ") = some (true, none) := by decide +kernel

/-- A key with an accent, sent to a gateway with one plain key. -/
theorem check_raises :
    ¬ ∀ (unicode : List Char → List Char) (validKeys validHashes : List String)
      (headers : String → Option String),
      ∃ result, (init unicode validKeys true validHashes).check headers = some result ∧
        (init unicode validKeys true validHashes).Answers headers result := by
  intro answers
  obtain ⟨result, answered, -⟩ := answers id ["sk-1"] [] fun _ => some "Bearer sk-é"
  have raised : (init id ["sk-1"] true []).check (fun _ => some "Bearer sk-é") = none := by
    decide +kernel
  rw [raised] at answered
  cases answered

end Authenticator

end Gateway
