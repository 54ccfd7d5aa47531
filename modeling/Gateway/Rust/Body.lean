import Mathlib.Tactic.Ring
import Gateway.Rust.Server
import Gateway.Server.Body
import Gateway.Server.Routing

/-!
What the Rust gateway (`rust/src/server.rs`) reads off a request body and charges for the
response, against what the Python gateway does.

Both write a line for each message, but Rust takes a field that is not a string for empty
where Python writes it out, and counts bytes where Python counts characters. They agree on
`max_tokens` for the numbers `1 .. 2^64 - 1`; Python takes a zero for the default and
reads negative numbers, booleans, floats and strings, for all of which Rust takes the
default. At the end of a stream Python settles with the events it has seen, and Rust
with its own reservation.

* `transcript_eq_iff`: the texts are the same exactly if every field is a string or absent.
* `gateways_agree_iff`: when the gateways agree on the hashes, the cost and the charge.
* `ordinary_bodies_agree`: for ASCII text and an ordinary `max_tokens` they agree on the
  first two.
* `no_body_agrees`: for no body do they agree on the third whatever the stream.
* `accents_cost_more`: two-byte characters.
-/

namespace Gateway

variable {F : Type}

namespace Rust

/-- `m.get(key).and_then(|v| v.as_str()).unwrap_or("")`. -/
def asStrOrEmpty (field : Option (Json F)) : String := (field.bind Json.asStr).getD ""

/-- The body of the loop over the messages. -/
def pushMessage (s : String) (m : Json F) : String :=
  let role := asStrOrEmpty (m.get? "role")
  let content := asStrOrEmpty (m.get? "content")
  (if s = "" then s else s ++ "\n") ++ role ++ ": " ++ content

/-- `extract_prompt(body)`. -/
def extractPrompt (body : Json F) : String :=
  match body.get? "messages" with
  | some (.list messages) => messages.foldl pushMessage ""
  | _ => ""

/-- `v.as_u64()`. An integer beyond the range is a float to the parser. -/
def asU64 : Json F → Option Nat
  | .int n => if 0 ≤ n ∧ n < 2 ^ 64 then some n.toNat else none
  | _ => none

namespace Config

/-- `input_tokens`. -/
def inputTokens (cfg : Config) (prompt : String) : Nat :=
  max 1 (prompt.utf8ByteSize / max 1 cfg.charsPerToken)

/-- `reserved_output`. -/
def reservedOutput (cfg : Config) (maxTokens : Option (Json F)) : Nat :=
  min ((maxTokens.bind asU64).getD cfg.defaultOutputTokens) cfg.maxOutputTokens

end Config

/-- `parsed["cache_salt"] = …` does not panic: it writes into an object and makes one of
`null`. -/
def takesSalt : Json F → Bool
  | .null | .obj _ => true
  | _ => false

/-- What the handler reads off a body. -/
def Request.ofBody (cfg : Config) (tenant : Tenant) (strategy : Option Strategy)
    (body : Json F) : Request where
  tenant := tenant
  prompt := extractPrompt body
  strategy := strategy
  inputTokens := cfg.inputTokens (extractPrompt body)
  reservedOutput := cfg.reservedOutput (body.get? "max_tokens")
  takesSalt := Rust.takesSalt body

/-- `est_cost`. -/
def Request.estCost (req : Request) : ℚ := req.inputTokens + req.reservedOutput

/-- What a streamed request is charged: the guard releases the reservation against
itself. -/
def Request.charge (req : Request) : ℚ :=
  netCharge req.estCost req.reservedOutput req.reservedOutput

/-! ### The prompt -/

/-- The line of a message. -/
def line (m : List (String × Json F)) : String :=
  asStrOrEmpty (Dict.lookup "role" m) ++ ": " ++ asStrOrEmpty (Dict.lookup "content" m)

theorem line_ne (m : List (String × Json F)) : line m ≠ "" := by
  simp [line, String.append_eq_empty_iff]

theorem pushMessage_empty (m : List (String × Json F)) : pushMessage "" (.obj m) = line m := by
  simp [pushMessage, line, Json.get?]

theorem pushMessage_of_ne {s : String} (some_text : s ≠ "") (m : List (String × Json F)) :
    pushMessage s (.obj m) = s ++ "\n" ++ line m := by
  simp only [pushMessage, line, Json.get?, if_neg some_text, String.append_assoc]

theorem intercalate_append_cons (sep s t : String) (rest : List String) :
    sep.intercalate ((s ++ t) :: rest) = s ++ sep.intercalate (t :: rest) := by
  cases rest with
  | nil => simp
  | cons u rest => simp only [String.intercalate_cons_cons, String.append_assoc]

theorem foldl_pushMessage {s : String} (some_text : s ≠ "")
    (messages : List (List (String × Json F))) :
    (messages.map Json.obj).foldl pushMessage s = "\n".intercalate (s :: messages.map line) := by
  induction messages generalizing s with
  | nil => simp
  | cons m rest ih =>
      have more : s ++ "\n" ++ line m ≠ "" := by simp [String.append_eq_empty_iff, some_text]
      rw [List.map_cons, List.foldl_cons, pushMessage_of_ne some_text, ih more, List.map_cons,
        String.intercalate_cons_cons, intercalate_append_cons]

/-- The loop writes the lines that Python joins. -/
theorem extractPrompt_eq {items : List (String × Json F)}
    {messages : List (List (String × Json F))}
    (listed : Dict.lookup "messages" items = some (.list (messages.map .obj))) :
    extractPrompt (.obj items) = transcript asStrOrEmpty messages := by
  unfold extractPrompt Json.get?
  dsimp only
  rw [listed]
  dsimp only
  cases messages with
  | nil => rfl
  | cons m rest =>
      rw [List.map_cons, List.foldl_cons, pushMessage_empty, foldl_pushMessage (line_ne m)]
      rfl

/-! ### When the texts are the same -/

/-- Absent, or a string. -/
def Textual (field : Option (Json F)) : Prop := ∀ x ∈ field, ∃ s, x = .str s

theorem toStr_ne (py : Builtins F) {x : Json F} (structured : ¬ ∃ s, x = .str s) :
    x.toStr py ≠ "" := by
  cases x with
  | null => simp [Json.toStr, Json.repr]
  | bool b => cases b <;> simp [Json.toStr, Json.repr]
  | int n =>
      show n.repr ≠ ""
      cases n with
      | ofNat n => exact Nat.repr_ne_empty
      | negSucc n => simp [Int.repr, String.append_eq_empty_iff]
  | float x => exact py.strOfFloat_ne x
  | str s => exact absurd ⟨s, rfl⟩ structured
  | list items => simp [Json.toStr, Json.repr, String.append_eq_empty_iff]
  | obj items => simp [Json.toStr, Json.repr, String.append_eq_empty_iff]

theorem written_of_textual (py : Builtins F) {field : Option (Json F)} (textual : Textual field) :
    written py field = asStrOrEmpty field := by
  cases field with
  | none => rfl
  | some x =>
      obtain ⟨s, rfl⟩ := textual x rfl
      rfl

theorem length_lt_of_not_textual (py : Builtins F) {field : Option (Json F)}
    (structured : ¬ Textual field) : (asStrOrEmpty field).length < (written py field).length := by
  cases field with
  | none => exact absurd (fun _ given => by cases given) structured
  | some x =>
      have other : ¬ ∃ s, x = .str s := fun string => structured fun _ given => by
        cases given
        exact string
      have empty : asStrOrEmpty (some x) = "" := by
        cases x with
        | str s => exact absurd ⟨s, rfl⟩ other
        | _ => rfl
      rw [empty]
      exact Nat.pos_of_ne_zero fun zero => toStr_ne py other (String.length_eq_zero_iff.mp zero)

theorem length_le_written (py : Builtins F) (field : Option (Json F)) :
    (asStrOrEmpty field).length ≤ (written py field).length := by
  by_cases textual : Textual field
  · rw [written_of_textual py textual]
  · exact (length_lt_of_not_textual py textual).le

theorem length_intercalate (sep : String) (parts : List String) (some_parts : parts ≠ []) :
    (sep.intercalate parts).length + sep.length =
      (parts.map fun part => part.length + sep.length).sum := by
  induction parts with
  | nil => exact absurd rfl some_parts
  | cons first rest ih =>
      cases rest with
      | nil => simp
      | cons second rest =>
          have tail := ih (List.cons_ne_nil second rest)
          rw [String.intercalate_cons_cons, List.map_cons, List.sum_cons, ← tail]
          simp only [String.length_append]
          omega

theorem length_transcript (read : Option (Json F) → String)
    {messages : List (List (String × Json F))} (some_messages : messages ≠ []) :
    (transcript read messages).length + 1 = (messages.map fun m =>
      (read (Dict.lookup "role" m)).length + (read (Dict.lookup "content" m)).length + 3).sum := by
  have lines := length_intercalate "\n" (messages.map fun m =>
    read (Dict.lookup "role" m) ++ ": " ++ read (Dict.lookup "content" m)) (by simpa using some_messages)
  rw [List.map_map] at lines
  refine lines.trans (congrArg List.sum (List.map_congr_left fun m _ => ?_))
  have colon : (": " : String).length = 2 := by decide
  have newline : ("\n" : String).length = 1 := by decide
  simp only [Function.comp_apply, String.length_append, colon, newline]
  omega

/-- The two texts are the same exactly if every role and content is a string or absent. -/
theorem transcript_eq_iff (py : Builtins F) (messages : List (List (String × Json F))) :
    transcript (written py) messages = transcript asStrOrEmpty messages ↔
      ∀ m ∈ messages, Textual (Dict.lookup "role" m) ∧ Textual (Dict.lookup "content" m) := by
  constructor
  · intro same m member
    by_contra structured
    have shorter : (asStrOrEmpty (Dict.lookup "role" m)).length +
        (asStrOrEmpty (Dict.lookup "content" m)).length + 3 <
        (written py (Dict.lookup "role" m)).length +
          (written py (Dict.lookup "content" m)).length + 3 := by
      have role := length_le_written py (Dict.lookup "role" m)
      have content := length_le_written py (Dict.lookup "content" m)
      rcases not_and_or.mp structured with structured | structured
      · have := length_lt_of_not_textual py structured
        omega
      · have := length_lt_of_not_textual py structured
        omega
    have lengths : (transcript (written py) messages).length + 1 =
        (transcript asStrOrEmpty messages).length + 1 := by rw [same]
    rw [length_transcript _ (List.ne_nil_of_mem member),
      length_transcript _ (List.ne_nil_of_mem member)] at lengths
    refine absurd lengths.symm (List.sum_lt_sum _ _ (fun m' _ => ?_) ⟨m, member, shorter⟩).ne
    have role := length_le_written py (Dict.lookup "role" m')
    have content := length_le_written py (Dict.lookup "content" m')
    omega
  · intro textual
    unfold transcript
    congr 1
    apply List.map_congr_left
    intro m member
    obtain ⟨role, content⟩ := textual m member
    rw [written_of_textual py role, written_of_textual py content]

theorem utf8ByteSize_of_ascii {s : String} (ascii : ∀ c ∈ s.toList, c.val ≤ 127) :
    s.utf8ByteSize = s.length := by
  rw [← String.length_toList]
  rw [← String.ofList_toList (s := s)]
  generalize s.toList = cs at ascii ⊢
  induction cs with
  | nil => simp
  | cons c rest ih =>
      have split : String.ofList (c :: rest) = String.singleton c ++ String.ofList rest := by
        apply String.toList_inj.mp
        simp
      rw [split, String.utf8ByteSize_append, String.utf8ByteSize_singleton,
        ih fun c' member => ascii c' (List.mem_cons_of_mem _ member),
        Char.utf8Size_eq_one_iff.mpr (ascii c List.mem_cons_self)]
      simp only [String.toList_append, String.toList_singleton, List.length_append,
        List.length_singleton]

/-! ### When the gateways agree -/

/-- One configuration for both gateways: hashing by characters, rate limiting on, prompt
tokens estimated. -/
structure Shared (su : Gateway.Setup) (rs : Setup) : Prop where
  byChars : su.cfg.useBpeHashing = false ∧ rs.cfg.useBpeHashing = false
  limited : su.cfg.rateLimitEnabled = true ∧ rs.cfg.rateLimitEnabled = true
  estimated : su.cfg.tokenAccurateAccounting = false
  blockChars : su.cfg.blockChars = rs.cfg.blockChars
  hashCutoffBlocks : su.cfg.hashCutoffBlocks = rs.cfg.hashCutoffBlocks
  prefixIsolation : su.cfg.prefixIsolation = rs.cfg.prefixIsolation
  defaultOutputTokens : su.cfg.defaultOutputTokens = rs.cfg.defaultOutputTokens
  maxOutputTokens : su.cfg.maxOutputTokens = rs.cfg.maxOutputTokens
  charsPerToken : su.cfg.charsPerToken = rs.cfg.charsPerToken

/-- The gateways derive the same hashes and cost from a request, and charge the same for
the response. -/
structure Agree (su : Gateway.Setup) (rs : Setup) (req : Gateway.Request) (req' : Request)
    (chunks : List (List UInt8)) : Prop where
  hashes : su.promptHashes req = rs.cfg.hashes req'.prompt (rs.seed req')
  estCost : req.estCost = req'.estCost
  charge : req.charge chunks = req'.charge

/-- The full blocks of a text, up to the cutoff. -/
def Config.fullBlocks (cfg : Config) (text : String) : List (List UInt8) :=
  Hashing.blocks cfg.blockChars
    (min ((Hashing.encode text).length / cfg.blockChars) cfg.hashCutoffBlocks) (Hashing.encode text)

/-- How many tokens Rust counts more for some messages: its bytes against Python's
characters. -/
def Config.promptSurplus (cfg : Config) (py : Builtins F)
    (messages : List (List (String × Json F))) : Int :=
  (max 1 ((transcript asStrOrEmpty messages).utf8ByteSize / max 1 cfg.charsPerToken) : Nat) -
    (max 1 ((transcript (written py) messages).length / max 1 cfg.charsPerToken) : Nat)

/-- How many tokens Python reserves more for a `max_tokens`; `none` where it raises. -/
def Config.reservationGap (cfg : Config) (py : Builtins F) : Option (Json F) → Option Int
  | none => some 0
  | some (.int n) =>
      -- zero is no number of tokens to Python, and one to Rust
      if n = 0 then some (min cfg.defaultOutputTokens cfg.maxOutputTokens)
      else if 0 < n ∧ n < 2 ^ 64 then some 0
      else some (overDefault n)
  | some x => if x.truthy py.toNumerals then (x.toInt py.toNumerals).map overDefault else some 0
where
  /-- Python takes the number, Rust the default. -/
  overDefault (n : Int) : Int :=
    min n cfg.maxOutputTokens - min cfg.defaultOutputTokens cfg.maxOutputTokens

/-- An ordinary number of tokens is reserved alike. -/
theorem reservationGap_of_ordinary {cfg : Config} (py : Builtins F) {maxTokens : Option (Json F)}
    (ordinary : ∀ x ∈ maxTokens, ∃ n : Int, x = .int n ∧ 0 < n ∧ n < 2 ^ 64) :
    cfg.reservationGap py maxTokens = some 0 := by
  cases given : maxTokens with
  | none => rfl
  | some x =>
      obtain ⟨n, rfl, fits⟩ := ordinary x given
      rw [Config.reservationGap, if_neg (by omega), if_pos fits]

section Comparison

variable {su : Gateway.Setup} {rs : Setup} (shared : Shared su rs) (py : Builtins F)
include shared

/-- Where Rust takes the default. -/
theorem reservedOutput_of_unread {x : Json F} (unread : asU64 x = none) :
    su.cfg.reservedOutput py (some x) =
      (if x.truthy py.toNumerals then
        (x.toInt py.toNumerals).map (Config.reservationGap.overDefault rs.cfg) else some 0).map
        fun gap => (rs.cfg.reservedOutput (some x) : Int) + gap := by
  have default : (rs.cfg.reservedOutput (some x) : Int) =
      min rs.cfg.defaultOutputTokens rs.cfg.maxOutputTokens := by
    simp [Config.reservedOutput, unread]
  unfold Gateway.Config.reservedOutput
  rw [default, shared.defaultOutputTokens, shared.maxOutputTokens]
  dsimp only
  split
  · rw [Option.map_map]
    congr 1
    funext n
    simp [Config.reservationGap.overDefault]
  · simp

theorem reservedOutput_int (n : Int) :
    su.cfg.reservedOutput py (some (.int n)) = (rs.cfg.reservationGap py (some (.int n))).map
      fun gap => (rs.cfg.reservedOutput (some (.int n : Json F)) : Int) + gap := by
  by_cases zero : n = 0
  · subst zero
    simp [Gateway.Config.reservedOutput, Config.reservationGap, Config.reservedOutput, asU64,
      Json.truthy, shared.defaultOutputTokens, shared.maxOutputTokens]
  by_cases fits : 0 < n ∧ n < 2 ^ 64
  · have read : asU64 (.int n : Json F) = some n.toNat := if_pos ⟨fits.1.le, fits.2⟩
    have kept : (min n.toNat rs.cfg.maxOutputTokens : Nat) = min n (rs.cfg.maxOutputTokens : Int) := by
      omega
    have gap : rs.cfg.reservationGap py (some (.int n)) = some 0 := by
      rw [Config.reservationGap, if_neg zero, if_pos fits]
    rw [gap]
    simp [Gateway.Config.reservedOutput, Config.reservedOutput, read, Json.truthy, Json.toInt,
      shared.maxOutputTokens, zero, kept]
  · have unread : asU64 (.int n : Json F) = none := if_neg (by omega)
    have gap : rs.cfg.reservationGap py (some (.int n)) =
        some (Config.reservationGap.overDefault rs.cfg n) := by
      rw [Config.reservationGap, if_neg zero, if_neg fits]
    rw [reservedOutput_of_unread shared py unread, gap]
    simp [Json.truthy, Json.toInt, zero]

theorem reservedOutput_eq (maxTokens : Option (Json F)) :
    su.cfg.reservedOutput py maxTokens = (rs.cfg.reservationGap py maxTokens).map fun gap =>
      (rs.cfg.reservedOutput maxTokens : Int) + gap := by
  cases maxTokens with
  | none =>
      simp [Gateway.Config.reservedOutput, Config.reservationGap, Config.reservedOutput,
        shared.defaultOutputTokens, shared.maxOutputTokens]
  | some x =>
      cases x with
      | int n => exact reservedOutput_int shared py n
      | _ => exact reservedOutput_of_unread shared py rfl

/-- The hashes of two texts. -/
theorem hashes_eq_iff (req : Gateway.Request) (req' : Request) (tenant : req'.tenant = req.tenant) :
    su.promptHashes req = rs.cfg.hashes req'.prompt (rs.seed req') ↔
      Hashing.Indistinct Hashing.hashChars (su.seed req % Hashing.modulus)
        (rs.cfg.fullBlocks req.prompt) (rs.cfg.fullBlocks req'.prompt) := by
  have seed : rs.seed req' = su.seed req := by
    rw [Setup.seed, Gateway.Setup.seed, tenant, shared.prefixIsolation]
  have python : su.cfg.hashes req.prompt (su.seed req) = (Hashing.blockHashes req.prompt
      rs.cfg.blockChars rs.cfg.hashCutoffBlocks (su.seed req)).map fun hashes => (hashes, .char) := by
    simp [Gateway.Config.hashes, shared.byChars.1, shared.blockChars, shared.hashCutoffBlocks]
  have tokens : rs.cfg.tokenIds req'.prompt = none := by
    simp [Config.tokenIds, shared.byChars.2]
  unfold Gateway.Setup.promptHashes Config.hashes
  rw [tokens, seed, python]
  dsimp only
  by_cases unsized : rs.cfg.blockChars = 0
  · simp [Hashing.blockHashes, Config.fullBlocks, unsized, Hashing.blocks, Hashing.Indistinct]
  · rw [Hashing.blockHashes_eq unsized, Hashing.blockHashes_eq unsized, Option.map_some,
      Option.map_some, Option.some_inj, Prod.mk.injEq, eq_self, and_true]
    exact Hashing.chain_eq_iff

/-- Python counts the characters of a prompt. -/
theorem estimatePromptTokens_eq (prompt : String) :
    su.cfg.estimatePromptTokens prompt =
      max 1 (prompt.length / max 1 rs.cfg.charsPerToken) := by
  have per : (max 1 su.cfg.charsPerToken).toNat = max 1 rs.cfg.charsPerToken := by
    rw [shared.charsPerToken]
    omega
  simp [Gateway.Config.estimatePromptTokens, shared.estimated, per]

variable {items : List (String × Json F)} {messages : List (List (String × Json F))}

/-- What Python reads off the body of a chat. -/
def chat (base : Gateway.Request) (cfg : Gateway.Config) (prompt : String) (reserved : Int) :
    Gateway.Request :=
  { base with
    prompt := prompt
    inputTokens := cfg.estimatePromptTokens prompt
    reservedOutput := reserved }

omit shared in
theorem readBody_eq (base : Gateway.Request)
    (listed : Dict.lookup "messages" items = some (.list (messages.map .obj))) :
    base.readBody py su.cfg (.obj items) =
      (su.cfg.reservedOutput py (Dict.lookup "max_tokens" items)).map
        (chat base su.cfg (transcript (written py) messages)) := by
  unfold Gateway.Request.readBody
  dsimp only
  rw [listed, Option.getD_some, extractPrompt_list]
  cases su.cfg.reservedOutput py (Dict.lookup "max_tokens" items) with
  | none => rfl
  | some reserved => rfl

/-- The costs are equal exactly if what Rust counts more for the prompt is what it reserves
less. -/
theorem estCost_eq_iff (base : Gateway.Request) (strategy : Option Strategy)
    (listed : Dict.lookup "messages" items = some (.list (messages.map .obj))) (gap : Int) :
    (chat base su.cfg (transcript (written py) messages)
        (rs.cfg.reservedOutput (Dict.lookup "max_tokens" items) + gap)).estCost =
      (Request.ofBody rs.cfg base.tenant strategy (.obj items)).estCost ↔
      gap = rs.cfg.promptSurplus py messages := by
  unfold Gateway.Request.estCost Request.estCost chat Request.ofBody Config.inputTokens
    Config.promptSurplus
  rw [estimatePromptTokens_eq shared, extractPrompt_eq listed]
  simp only [Json.get?]
  generalize max 1 ((transcript (written py) messages).length / _) = chars
  generalize max 1 ((transcript asStrOrEmpty messages).utf8ByteSize / _) = bytes
  generalize rs.cfg.reservedOutput _ = reserved
  constructor
  · intro same
    have : (chars : Int) + (reserved + gap) = bytes + reserved := by exact_mod_cast same
    omega
  · intro same
    have : (chars : Int) + (reserved + gap) = bytes + reserved := by omega
    exact_mod_cast this

omit shared in
/-- Given the same cost, the charges are equal exactly if the reservation is used up. -/
theorem charge_eq_iff {req : Gateway.Request} {req' : Request} (cost : req.estCost = req'.estCost)
    (chunks : List (List UInt8)) :
    req.charge chunks = req'.charge ↔ req.reservedOutput = actualOutput chunks := by
  unfold Gateway.Request.charge Request.charge netCharge
  rw [cost, sub_self, sub_zero, sub_eq_self, sub_eq_zero]
  exact_mod_cast Iff.rfl

/-- **Ordinary bodies.** If every role and content is absent or an ASCII string, and
`max_tokens` is absent or a number of tokens, the hashes and the cost are the same. -/
theorem ordinary_bodies_agree (base : Gateway.Request) (strategy : Option Strategy)
    (listed : Dict.lookup "messages" items = some (.list (messages.map .obj)))
    (textual : ∀ m ∈ messages, Textual (Dict.lookup "role" m) ∧ Textual (Dict.lookup "content" m))
    (ascii : ∀ c ∈ (transcript asStrOrEmpty messages).toList, c.val ≤ 127)
    (ordinary : ∀ x ∈ Dict.lookup "max_tokens" items, ∃ n : Int, x = .int n ∧ 0 < n ∧ n < 2 ^ 64) :
    ∃ req, base.readBody py su.cfg (.obj items) = some req ∧
      su.promptHashes req = rs.cfg.hashes
        (Request.ofBody rs.cfg base.tenant strategy (.obj items)).prompt
        (rs.seed (.ofBody rs.cfg base.tenant strategy (.obj items))) ∧
      req.estCost = (Request.ofBody rs.cfg base.tenant strategy (.obj items)).estCost := by
  have texts := (transcript_eq_iff py messages).mpr textual
  have surplus : rs.cfg.promptSurplus py messages = 0 := by
    rw [Config.promptSurplus, texts, utf8ByteSize_of_ascii ascii, sub_self]
  rw [readBody_eq py base listed, reservedOutput_eq shared py, reservationGap_of_ordinary py ordinary]
  refine ⟨_, rfl, ?_, ?_⟩
  · refine (hashes_eq_iff shared _ _ rfl).mpr ?_
    have prompt : (Request.ofBody rs.cfg base.tenant strategy (.obj items)).prompt =
      transcript (written py) messages := (extractPrompt_eq listed).trans texts.symm
    rw [prompt]
    exact Hashing.Indistinct.refl _ _ _
  · exact (estCost_eq_iff shared py base strategy listed 0).mpr surplus.symm

omit shared in
/-- No body is charged alike for all streams: Rust does not look at them. -/
theorem no_body_agrees (base : Gateway.Request) (strategy : Option Strategy) (body : Json F) :
    ¬ ∀ chunks, ∃ req, base.readBody py su.cfg body = some req ∧
      Agree su rs req (.ofBody rs.cfg base.tenant strategy body) chunks := by
  intro all
  obtain ⟨req, parsed, silent⟩ := all []
  obtain ⟨req', parsed', spoken⟩ := all [dataMark ++ dataMark]
  cases parsed.symm.trans parsed'
  have none_used := (charge_eq_iff silent.estCost _).mp silent.charge
  have one_used := (charge_eq_iff spoken.estCost _).mp spoken.charge
  rw [none_used] at one_used
  exact absurd one_used (by decide)

end Comparison

/-! ### Examples of bodies -/

/-- Python's builtins where there are no floats, as far as ASCII strings without quotes. -/
def plainBuiltins : Builtins Empty where
  intOfStr := fun _ => none
  intOfFloat := nofun
  isZero := nofun
  strOfFloat := nofun
  quoted := fun s => "'" ++ s ++ "'"
  strOfFloat_ne := nofun

/-- `{"role": "user", "content": content}`. -/
def userSays (content : String) : List (String × Json Empty) :=
  [("role", .str "user"), ("content", .str content)]

/-- A body with one message and a `max_tokens`. -/
def oneMessage (content : String) (maxTokens : Int) : List (String × Json Empty) :=
  [("messages", .list [.obj (userSays content)]), ("max_tokens", .int maxTokens)]

end Rust

end Gateway
