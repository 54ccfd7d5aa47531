import Mathlib.Algebra.Order.Field.Rat
import Mathlib.Data.String.Basic
import Mathlib.Tactic.Linarith
import Gateway.Cluster.Wire
import Gateway.Server.Chat

/-!
What `chat_completions` reads off a request body for routing and for the tenant's quota,
and what a streamed request is charged.

`extract_prompt` writes every message with an f-string, so a role or a content that is
not a string is written by `str()`: `None` for a null, the `repr` of a list for structured
content. How floats are written and how strings are quoted inside a list or a dictionary
is left open (`Builtins`). A reader that raises is `none`. Strings are Unicode text, so
their length is the number of their characters.

* `transcript`: the text of some messages, given how their fields are read.
* `tokens_adjust_tryConsume`: admitting and releasing a request lowers the bucket of its
  tenant by `netCharge`.
-/

namespace Gateway

/-- What `int()`, `bool()` and `str()` make of the values whose reading is left open. -/
structure Builtins (F : Type) extends Numerals F where
  strOfFloat : F → String
  quoted : String → String
  strOfFloat_ne : ∀ x, strOfFloat x ≠ ""

namespace Json

variable {F : Type} (py : Builtins F)

mutual

/-- `repr(x)`. -/
def repr : Json F → String
  | .null => "None"
  | .bool b => if b then "True" else "False"
  | .int n => toString n
  | .float x => py.strOfFloat x
  | .str s => py.quoted s
  | .list items => "[" ++ reprList items ++ "]"
  | .obj items => "\x7b" ++ reprItems items ++ "\x7d"

def reprList : List (Json F) → String
  | [] => ""
  | [j] => repr j
  | j :: rest => repr j ++ ", " ++ reprList rest

def reprItems : List (String × Json F) → String
  | [] => ""
  | [(k, j)] => py.quoted k ++ ": " ++ repr j
  | (k, j) :: rest => py.quoted k ++ ": " ++ repr j ++ ", " ++ reprItems rest

end

/-- `str(x)`. -/
def toStr : Json F → String
  | .str s => s
  | j => repr py j

end Json

variable {F : Type}

/-! ### The prompt -/

/-- A line for each message, given how a field is read. -/
def transcript (read : Option (Json F) → String) (messages : List (List (String × Json F))) :
    String :=
  "\n".intercalate (messages.map fun m =>
    read (Dict.lookup "role" m) ++ ": " ++ read (Dict.lookup "content" m))

section Handler

variable (py : Builtins F)

/-- `m.get(key, '')` in an f-string. -/
def written (field : Option (Json F)) : String :=
  match field with
  | some x => x.toStr py
  | none => ""

/-- `f"{m.get('role', '')}: {m.get('content', '')}"`. -/
def promptLine : Json F → Option String
  | .obj m => some (written py (Dict.lookup "role" m) ++ ": " ++ written py (Dict.lookup "content" m))
  | _ => none

/-- `extract_prompt(messages)`. -/
def extractPrompt : Json F → Option String
  | .list messages => (messages.mapM (promptLine py)).map "\n".intercalate
  -- nothing to iterate over
  | .str "" | .obj [] => some ""
  | _ => none

/-- `estimate_prompt_tokens(prompt)`. -/
def Config.estimatePromptTokens (cfg : Config) (prompt : String) : Nat :=
  match if cfg.tokenAccurateAccounting then cfg.tokenize prompt else none with
  | some ids => max 1 ids.length
  | none => max 1 (prompt.length / (max 1 cfg.charsPerToken).toNat)

/-- `min(int(body.get("max_tokens") or cfg.default_output_tokens), cfg.max_output_tokens)`. -/
def Config.reservedOutput (cfg : Config) (maxTokens : Option (Json F)) : Option Int :=
  let tokens :=
    match maxTokens with
    | some x => if x.truthy py.toNumerals then x.toInt py.toNumerals else some cfg.defaultOutputTokens
    | none => some cfg.defaultOutputTokens
  tokens.map fun n => min n cfg.maxOutputTokens

/-- What the handler reads off a body; the rest of the request is given. -/
def Request.readBody (cfg : Config) (req : Request) : Json F → Option Request
  | .obj items => do
      let prompt ← extractPrompt py ((Dict.lookup "messages" items).getD (.list []))
      let reserved ← cfg.reservedOutput py (Dict.lookup "max_tokens" items)
      return { req with
        prompt := prompt
        inputTokens := cfg.estimatePromptTokens prompt
        reservedOutput := reserved }
  | _ => none

/-- The hashes of the prompt. -/
def Setup.promptHashes (su : Setup) (req : Request) : Option (List Nat × Hashing.Mode) :=
  su.cfg.hashes req.prompt (su.seed req)

theorem extractPrompt_list (messages : List (List (String × Json F))) :
    extractPrompt py (.list (messages.map .obj)) = some (transcript (written py) messages) := by
  have lines : (messages.map Json.obj).mapM (promptLine py) = some (messages.map fun m =>
      written py (Dict.lookup "role" m) ++ ": " ++ written py (Dict.lookup "content" m)) := by
    induction messages with
    | nil => rfl
    | cons m rest ih => simp [promptLine, ih]
  rw [extractPrompt, lines]
  rfl

end Handler

/-! ### The charge -/

/-- `est_cost`. -/
def Request.estCost (req : Request) : ℚ := req.inputTokens + req.reservedOutput

/-- `b"data:"`. -/
def dataMark : List UInt8 := [0x64, 0x61, 0x74, 0x61, 0x3A]

/-- `chunk.count(b"data:")`. The mark does not overlap itself. -/
def countMarks : List UInt8 → Nat
  | [] => 0
  | b :: rest => (if dataMark.isPrefixOf (b :: rest) then 1 else 0) + countMarks rest

/-- `actual_output` at the end of a stream: its events without the `[DONE]`. -/
def actualOutput (chunks : List (List UInt8)) : Nat := (chunks.map countMarks).sum - 1

/-- What `admit` takes for the cost of a request, less what `release` gives back. -/
def netCharge (cost reserved actual : ℚ) : ℚ := cost - (reserved - actual)

/-- What a streamed request is charged. -/
def Request.charge (req : Request) (chunks : List (List UInt8)) : ℚ :=
  netCharge req.estCost req.reservedOutput (actualOutput chunks)

/-- Admitted and released, a request has lowered the bucket by its net charge, unless this
is negative. -/
theorem TokenBucket.tokens_adjust_tryConsume {b : TokenBucket} {cost reserved actual now : ℚ}
    (within : b.tokens ≤ b.capacity) (fits : (b.tryConsume cost now).2 = true)
    (charged : 0 ≤ netCharge cost reserved actual) :
    ((b.tryConsume cost now).1.adjust (reserved - actual)).tokens =
      (b.replenish now).tokens - netCharge cost reserved actual := by
  have refilled : (b.replenish now).tokens ≤ (b.replenish now).capacity := by
    unfold TokenBucket.replenish
    split
    · exact min_le_left _ _
    · exact within
  unfold TokenBucket.tryConsume at fits ⊢
  dsimp only at fits ⊢
  split at fits
  · rename_i enough
    rw [if_pos enough]
    unfold netCharge at charged ⊢
    show min (b.replenish now).capacity ((b.replenish now).tokens - cost + (reserved - actual)) = _
    rw [min_eq_right (by linarith)]
    ring
  · cases fits

end Gateway
