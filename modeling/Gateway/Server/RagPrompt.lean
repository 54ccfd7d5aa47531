import Mathlib.Data.List.Sort
import Gateway.HashingSpec
import Gateway.Server.Body

/-!
RAG prompt structuring, from `gateway/rag/structure.py` and its use in `chat_completions`.

* `canonicalizeChunks_eq_of_mem_iff`: the canonical list is a function of the set of chunks,
  unless two of them share an id; it is sorted by id (`sorted_canonicalizeChunks`).
* `extractPrompt_buildMessages`: the prompt is a stem, made of the system text and the
  chunks, followed by the query.
* `ragPrompts_share_prefix`: two requests over the same chunks share every full block of
  the stem.
-/

namespace Gateway

/-! ### Structuring -/

/-- `chunk_id(text)`. -/
def chunkId (text : String) : Nat := Hashing.stableSeed text

/-- `RagPrompt`. -/
structure RagPrompt where
  system : String
  chunks : List String
  query : String
  deriving DecidableEq

/-- `seen` after the loop of `canonicalize_chunks`: the first chunk of each id. -/
def seenChunks (chunks : List String) : Dict Nat String :=
  chunks.foldl (fun seen c => seen.setDefault (chunkId c) c) .empty

/-- `canonicalize_chunks(chunks)`. -/
def canonicalizeChunks (chunks : List String) : List String :=
  let seen := seenChunks chunks
  (seen.keys.insertionSort (· ≤ ·)).filterMap seen.get?

/-- `chunk_ids(chunks)`. -/
def chunkIds (chunks : List String) : List Nat := chunks.map chunkId

section Messages

variable {F : Type}

/-- `build_messages(rag, ordered_chunks)`. -/
def buildMessages (rag : RagPrompt) (orderedChunks : List String) :
    List (List (String × Json F)) :=
  let context := "\n\n".intercalate orderedChunks
  let system := if rag.system = "" then context else rag.system ++ "\n\n" ++ context
  [[("role", .str "system"), ("content", .str system)],
    [("role", .str "user"), ("content", .str rag.query)]]

variable (py : Builtins F)

/-- `isinstance(c, str) and c`. -/
def chunkText : Json F → Option String
  | .str "" => none
  | .str c => some c
  | _ => none

/-- `parse_rag_request(body, request_field)`. -/
def parseRagRequest (requestField : String) (body : List (String × Json F)) : Option RagPrompt :=
  match Dict.lookup requestField body with
  | some (.obj payload) =>
      match Dict.lookup "chunks" payload with
      | some (.list chunks) =>
          let clean := chunks.filterMap chunkText
          if clean.isEmpty then none
          else some
            { system := written py (Dict.lookup "system" payload)
              chunks := clean
              query := written py (Dict.lookup "query" payload) }
      | _ => none
  | _ => none

/-- The RAG step of `chat_completions`: `prompt` and `rag_chunks`, if the body is a RAG
request. -/
def structureRag (requestField : String) (canonicalize : Bool) (body : List (String × Json F)) :
    Option (String × List Nat) := do
  let rag ← parseRagRequest py requestField body
  let ordered := if canonicalize then canonicalizeChunks rag.chunks else rag.chunks
  let prompt ← extractPrompt py (.list ((buildMessages rag ordered).map .obj))
  return (prompt, chunkIds ordered)

end Messages

/-! ### Canonical chunks -/

theorem get?_seenChunks (chunks : List String) (k : Nat) :
    (seenChunks chunks).get? k = chunks.find? fun c => chunkId c = k := by
  have fold (seen : Dict Nat String) :
      (chunks.foldl (fun seen c => seen.setDefault (chunkId c) c) seen).get? k =
        (seen.get? k).or (chunks.find? fun c => chunkId c = k) := by
    induction chunks generalizing seen with
    | nil => simp
    | cons c chunks ih =>
        rw [List.foldl_cons, ih, Dict.get?_setDefault, List.find?_cons]
        by_cases here : chunkId c = k
        · simp only [here, decide_true, if_true]
          cases seen.get? k <;> rfl
        · simp only [here, decide_false, Ne.symm here, if_false]
  rw [seenChunks, fold, Dict.get?_empty, Option.none_or]

theorem chunkId_of_get?_seenChunks {chunks : List String} {k : Nat} {c : String}
    (found : (seenChunks chunks).get? k = some c) : chunkId c = k := by
  rw [get?_seenChunks] at found
  simpa using List.find?_some found

/-- The ids of the canonical chunks are the sorted ids of the chunks. -/
theorem chunkIds_canonicalizeChunks (chunks : List String) :
    chunkIds (canonicalizeChunks chunks) = (seenChunks chunks).keys.insertionSort (· ≤ ·) := by
  have known : ∀ k ∈ (seenChunks chunks).keys.insertionSort (· ≤ ·),
      ((seenChunks chunks).get? k).isSome := by
    intro k member
    exact Dict.mem_keys_iff.mp ((List.mem_insertionSort _).mp member)
  unfold chunkIds canonicalizeChunks
  dsimp only
  generalize (seenChunks chunks).keys.insertionSort (· ≤ ·) = ids at known
  induction ids with
  | nil => rfl
  | cons k ids ih =>
      obtain ⟨c, found⟩ := Option.isSome_iff_exists.mp (known k List.mem_cons_self)
      rw [List.filterMap_cons, found]
      rw [List.map_cons, chunkId_of_get?_seenChunks found,
        ih fun k member => known k (List.mem_cons_of_mem _ member)]

theorem sorted_canonicalizeChunks (chunks : List String) :
    (canonicalizeChunks chunks).Pairwise fun c d => chunkId c < chunkId d := by
  have sorted := List.pairwise_insertionSort (· ≤ ·) (seenChunks chunks).keys
  have nodup : ((seenChunks chunks).keys.insertionSort (· ≤ ·)).Nodup :=
    (List.perm_insertionSort _ _).nodup_iff.mpr (seenChunks chunks).nodup
  rw [← chunkIds_canonicalizeChunks] at sorted nodup
  have ids : (chunkIds (canonicalizeChunks chunks)).Pairwise (· < ·) :=
    (sorted.and nodup).imp fun ⟨le, ne⟩ => lt_of_le_of_ne le ne
  exact List.pairwise_map.mp ids

theorem nodup_canonicalizeChunks (chunks : List String) : (canonicalizeChunks chunks).Nodup :=
  (sorted_canonicalizeChunks chunks).imp fun less same => (same ▸ less).ne rfl

/-- No two distinct chunks share an id. -/
def Collisionless (chunks : List String) : Prop :=
  ∀ c ∈ chunks, ∀ d ∈ chunks, chunkId c = chunkId d → c = d

theorem mem_canonicalizeChunks {chunks : List String} (distinct : Collisionless chunks)
    {c : String} : c ∈ canonicalizeChunks chunks ↔ c ∈ chunks := by
  constructor
  · intro member
    obtain ⟨k, -, found⟩ := List.mem_filterMap.mp member
    rw [get?_seenChunks] at found
    exact List.mem_of_find?_eq_some found
  · intro member
    obtain ⟨d, found⟩ : ∃ d, (seenChunks chunks).get? (chunkId c) = some d := by
      apply Option.isSome_iff_exists.mp
      rw [get?_seenChunks, List.find?_isSome]
      exact ⟨c, member, decide_eq_true rfl⟩
    have same : d = c := by
      have inside := List.mem_of_find?_eq_some ((get?_seenChunks chunks _).symm.trans found)
      exact distinct d inside c member (chunkId_of_get?_seenChunks found)
    refine List.mem_filterMap.mpr ⟨chunkId c, ?_, same ▸ found⟩
    rw [List.mem_insertionSort, Dict.mem_keys_iff, found]
    rfl

/-- Neither order nor repetition of the chunks matters. -/
theorem canonicalizeChunks_eq_of_mem_iff {xs ys : List String} (distinct : Collisionless xs)
    (same : ∀ c, c ∈ xs ↔ c ∈ ys) : canonicalizeChunks xs = canonicalizeChunks ys := by
  have distinct' : Collisionless ys := fun c hc d hd =>
    distinct c ((same c).mpr hc) d ((same d).mpr hd)
  refine List.Perm.eq_of_pairwise (fun c d _ _ less more => absurd less (lt_asymm more))
    (sorted_canonicalizeChunks xs) (sorted_canonicalizeChunks ys) ?_
  refine (List.perm_ext_iff_of_nodup (nodup_canonicalizeChunks xs)
    (nodup_canonicalizeChunks ys)).mpr fun c => ?_
  rw [mem_canonicalizeChunks distinct, mem_canonicalizeChunks distinct', same]

/-! ### The prompt -/

/-- The prompt up to the start of the query. -/
def promptStem (system : String) (orderedChunks : List String) : String :=
  let context := "\n\n".intercalate orderedChunks
  "system: " ++ (if system = "" then context else system ++ "\n\n" ++ context) ++ "\nuser: "

section Prompt

variable {F : Type} (py : Builtins F)

theorem extractPrompt_buildMessages (rag : RagPrompt) (orderedChunks : List String) :
    extractPrompt py (.list ((buildMessages rag orderedChunks).map .obj)) =
      some (promptStem rag.system orderedChunks ++ rag.query) := by
  have opening : "system: " = "system" ++ ": " := by decide
  have turn : "\nuser: " = "\n" ++ ("user" ++ ": ") := by decide
  rw [extractPrompt_list, promptStem, opening, turn]
  simp [-String.reduceAppend, transcript, buildMessages, written, Json.toStr, Dict.lookup,
    String.append_assoc]

/-- The canonical chunks of a request are what its prompt and its chunk ids are made of. -/
theorem structureRag_eq {requestField : String} {body : List (String × Json F)} {rag : RagPrompt}
    (parsed : parseRagRequest py requestField body = some rag) :
    structureRag py requestField true body =
      some (promptStem rag.system (canonicalizeChunks rag.chunks) ++ rag.query,
        chunkIds (canonicalizeChunks rag.chunks)) := by
  have prompt := extractPrompt_buildMessages py rag (canonicalizeChunks rag.chunks)
  simp only [structureRag, parsed, Option.bind_eq_bind, Option.bind_some, if_true, prompt]
  rfl

/-- Two RAG requests with the same system text over the same chunks have the same canonical
chunks, and their prompts the same hashes for every full block before the query. There are
hashes unless the block size is 0, at which both prompts raise. -/
theorem ragPrompts_share_prefix {a b : RagPrompt} (system : a.system = b.system)
    (chunks : ∀ c, c ∈ a.chunks ↔ c ∈ b.chunks) (distinct : Collisionless a.chunks)
    (blockChars cutoff seed : Nat) :
    canonicalizeChunks a.chunks = canonicalizeChunks b.chunks ∧
      (canonicalizeChunks a.chunks).Nodup ∧
      (canonicalizeChunks a.chunks).Pairwise (fun c d => chunkId c < chunkId d) ∧
      ∃ stem p q,
        extractPrompt py (.list ((buildMessages a (canonicalizeChunks a.chunks)).map .obj)) =
          some p ∧
        extractPrompt py (.list ((buildMessages b (canonicalizeChunks b.chunks)).map .obj)) =
          some q ∧
        p = stem ++ a.query ∧ q = stem ++ b.query ∧
        (blockChars = 0 ∧ Hashing.blockHashes p blockChars cutoff seed = none ∧
            Hashing.blockHashes q blockChars cutoff seed = none ∨
          ∃ hp hq, Hashing.blockHashes p blockChars cutoff seed = some hp ∧
            Hashing.blockHashes q blockChars cutoff seed = some hq ∧
            let shared := min cutoff ((Hashing.encode stem).length / blockChars)
            shared ≤ hp.length ∧ hp.take shared = hq.take shared) := by
  have canonical := canonicalizeChunks_eq_of_mem_iff distinct chunks
  have stems : promptStem b.system (canonicalizeChunks b.chunks) =
      promptStem a.system (canonicalizeChunks a.chunks) := by rw [system, canonical]
  have first (query : String) := Hashing.take_fullBlocks_append
    (promptStem a.system (canonicalizeChunks a.chunks)) query blockChars cutoff seed
  refine ⟨canonical, nodup_canonicalizeChunks _, sorted_canonicalizeChunks _,
    promptStem a.system (canonicalizeChunks a.chunks), _, _, extractPrompt_buildMessages py a _,
    extractPrompt_buildMessages py b _, rfl, by rw [stems], ?_⟩
  by_cases zero : blockChars = 0
  · exact .inl ⟨zero, if_pos zero, if_pos zero⟩
  · refine .inr ⟨_, _, Hashing.blockHashes_eq zero _ _ _, Hashing.blockHashes_eq zero _ _ _, ?_, ?_⟩
    · have lengths := congrArg List.length (first a.query)
      rw [Hashing.length_fullBlocks Hashing.hashChars _ _ _ (Hashing.encode (promptStem _ _))]
        at lengths
      exact lengths.symm.le.trans (List.length_take_le' _ _)
    · rw [first a.query, stems, first b.query]

end Prompt

/-- What `str` makes of a payload, where there are no floats. -/
def floatless : Builtins Empty where
  intOfStr := fun _ => none
  intOfFloat := nofun
  isZero := nofun
  strOfFloat := Empty.elim
  quoted := fun s => "'" ++ s ++ "'"
  strOfFloat_ne := fun f => f.elim

/-- Another order, a repetition and another query. -/
theorem ragPrompts_share_prefix_reordered :
    Collisionless ["x", "y"] ∧
      canonicalizeChunks ["x", "y"] = canonicalizeChunks ["y", "x", "y"] ∧
      ∃ stem p q,
        extractPrompt floatless (.list ((buildMessages ⟨"S", ["x", "y"], "who?"⟩
          (canonicalizeChunks ["x", "y"])).map .obj)) = some p ∧
        extractPrompt floatless (.list ((buildMessages ⟨"S", ["y", "x", "y"], "?"⟩
          (canonicalizeChunks ["y", "x", "y"])).map .obj)) = some q ∧
        p = stem ++ "who?" ∧ q = stem ++ "?" ∧
        ∃ hp hq, Hashing.blockHashes p 4 8 0 = some hp ∧ Hashing.blockHashes q 4 8 0 = some hq ∧
          hp.take (min 8 ((Hashing.encode stem).length / 4)) =
            hq.take (min 8 ((Hashing.encode stem).length / 4)) := by
  have distinct : Collisionless ["x", "y"] := by
    unfold Collisionless
    decide +kernel
  have members : ∀ c, c ∈ ["x", "y"] ↔ c ∈ ["y", "x", "y"] := by simp [or_comm]
  obtain ⟨canonical, -, -, stem, p, q, left, right, here, there, zero | hashed⟩ :=
    ragPrompts_share_prefix floatless (a := ⟨"S", ["x", "y"], "who?"⟩)
      (b := ⟨"S", ["y", "x", "y"], "?"⟩) rfl members distinct 4 8 0
  · exact absurd zero.1 (by decide)
  · obtain ⟨hp, hq, hashes, hashes', -, same⟩ := hashed
    exact ⟨distinct, canonical, stem, p, q, left, right, here, there, hp, hq, hashes, hashes', same⟩

end Gateway
