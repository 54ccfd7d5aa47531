import Mathlib.Algebra.Order.Field.Rat
import Mathlib.Data.List.MinMax
import Gateway.Hashing
import Gateway.LoadTracker

/-!
Affinity routing for RAG and multi-modal requests, from `gateway/rag` and
`gateway/multimodal`.

Both packages keep, per backend, a bounded set of the ids it served most recently, and
send a request to the cheapest backend given how many of its ids are warm there. Both
return a backend of the list they are given (`chooseRagBackend_mem`,
`chooseMultimodalBackend_mem`), and the multi-modal router one that serves all the
modalities of the request.
-/

namespace Gateway

/-! ### The indices -/

/-- What `ChunkAffinityIndex` and `MediaAffinityIndex` have in common: per backend the
cached ids, least recently used first. -/
structure AffinityIndex where
  capacity : Int
  byBackend : Dict String (Dict Nat Unit)

namespace AffinityIndex

/-- An index without backends. -/
def init (capacity : Int) : AffinityIndex := ⟨capacity, .empty⟩

/-- `record(backend_id, ids)`. -/
def record (x : AffinityIndex) (b : String) (ids : List Nat) : AffinityIndex :=
  let cache := ids.foldl (fun c id => c.setLast id ()) (x.byBackend.getD b .empty)
  { x with byBackend := x.byBackend.set b (cache.keepLast x.capacity) }

/-- `is_cached(backend_id, id)`. -/
def isCached (x : AffinityIndex) (b : String) (id : Nat) : Bool :=
  (x.byBackend.get? b).any fun c => c.contains id

/-- `overlap(backend_id, ids)`. -/
def overlap (x : AffinityIndex) (b : String) (ids : List Nat) : Nat :=
  ids.countP (x.isCached b)

/-- `remove_backend(backend_id)`. -/
def removeBackend (x : AffinityIndex) (b : String) : AffinityIndex :=
  { x with byBackend := x.byBackend.erase b }

end AffinityIndex

abbrev ChunkAffinityIndex := AffinityIndex

abbrev MediaAffinityIndex := AffinityIndex

/-- The backends within the in-flight bound, or all of them if none is. -/
def unsaturated (load : LoadTracker String) (maxInflight : Int) (backends : List String) :
    List String :=
  let eligible := backends.filter fun b => decide ((load.inflightOf b : Int) ≤ maxInflight)
  if eligible.isEmpty then backends else eligible

theorem unsaturated_subset {load : LoadTracker String} {maxInflight : Int}
    {backends : List String} {b : String} (member : b ∈ unsaturated load maxInflight backends) :
    b ∈ backends := by
  unfold unsaturated at member
  dsimp only at member
  split at member
  · exact member
  · exact (List.mem_filter.mp member).1

/-! ### Chunk affinity -/

/-- `RagConfig`, as far as the router reads it. -/
structure RagConfig where
  enabled : Bool := false
  tokensPerChunk : Int := 256
  prefillMsPerToken : ℚ := 1 / 20
  serviceMsPerRequest : ℚ := 200
  maxInflight : Int := 64
  cacheCapacityChunks : Int := 4096

/-- `RagRouteResult`. -/
structure RagRouteResult where
  backendId : String
  overlap : Nat
  totalChunks : Nat
  estMs : ℚ

/-- The cost of a backend in `choose_rag_backend`. -/
def ragCost (chunkIds : List Nat) (index : ChunkAffinityIndex) (load : LoadTracker String)
    (cfg : RagConfig) (b : String) : ℚ :=
  let uncachedTokens := ((chunkIds.length - index.overlap b chunkIds : Nat) : ℚ) * cfg.tokensPerChunk
  cfg.prefillMsPerToken * uncachedTokens + load.inflightOf b * cfg.serviceMsPerRequest

/-- `choose_rag_backend`. -/
def chooseRagBackend (chunkIds : List Nat) (backends : List String) (index : ChunkAffinityIndex)
    (load : LoadTracker String) (cfg : RagConfig) : Option RagRouteResult :=
  ((unsaturated load cfg.maxInflight backends).argmin (ragCost chunkIds index load cfg)).map
    fun b => ⟨b, index.overlap b chunkIds, chunkIds.length, ragCost chunkIds index load cfg b⟩

theorem chooseRagBackend_mem {chunkIds : List Nat} {backends : List String}
    {index : ChunkAffinityIndex} {load : LoadTracker String} {cfg : RagConfig}
    {rr : RagRouteResult} (chosen : chooseRagBackend chunkIds backends index load cfg = some rr) :
    rr.backendId ∈ backends := by
  obtain ⟨b, cheapest, rfl⟩ := Option.map_eq_some_iff.mp chosen
  exact unsaturated_subset (List.argmin_mem cheapest)

/-! ### Modalities and media -/

/-- The modalities a request can need. -/
inductive Modality where
  | text
  | image
  | audio
  deriving DecidableEq, Repr

/-- `MultiModalConfig`, as far as the router reads it. -/
structure MultiModalConfig where
  enabled : Bool := false
  charsPerToken : Int := 4
  defaultImageWidth : ℚ := 1024
  defaultImageHeight : ℚ := 1024
  imageBaseTokens : Int := 85
  imageTileTokens : Int := 170
  imageTilePx : ℚ := 512
  audioTokensPerSecond : ℚ := 50
  prefillMsPerToken : ℚ := 1 / 20
  serviceMsPerRequest : ℚ := 200
  maxInflight : Int := 64
  cacheCapacityMedia : Int := 1024

/-- `MediaItem`; `detail` is whether the detail is `"low"`. -/
structure MediaItem where
  modality : Modality
  ref : String
  width : Option ℚ
  height : Option ℚ
  lowDetail : Bool
  seconds : Option ℚ
  deriving DecidableEq

/-- `x or default` on an optional number. -/
def numberOr (x : Option ℚ) (default : ℚ) : ℚ :=
  match x with
  | none => default
  | some q => if q = 0 then default else q

/-- `image_tokens(width, height, detail, cfg)`. -/
def imageTokens (width height : ℚ) (lowDetail : Bool) (cfg : MultiModalConfig) : Int :=
  if lowDetail then cfg.imageBaseTokens
  else
    let scale := if 2048 < max width height then 2048 / max width height else 1
    let (w, h) := (width * scale, height * scale)
    let scale := if 768 < min w h then 768 / min w h else 1
    let (w, h) := (w * scale, h * scale)
    let tiles := Rat.ceil (w / cfg.imageTilePx) * Rat.ceil (h / cfg.imageTilePx)
    cfg.imageBaseTokens + cfg.imageTileTokens * tiles

namespace MediaItem

/-- `content_id`. -/
def contentId (m : MediaItem) : Nat := Hashing.stableSeed m.ref

/-- `tokens(cfg)`; `int` truncates towards zero. -/
def tokens (m : MediaItem) (cfg : MultiModalConfig) : Int :=
  match m.modality with
  | .image =>
      imageTokens (numberOr m.width cfg.defaultImageWidth)
        (numberOr m.height cfg.defaultImageHeight) m.lowDetail cfg
  | .audio =>
      let t := numberOr m.seconds 0 * cfg.audioTokensPerSecond
      if 0 ≤ t then Rat.floor t else Rat.ceil t
  | .text => 0

end MediaItem

/-- `ModalRequest`. -/
structure ModalRequest where
  text : String
  media : List MediaItem
  deriving DecidableEq

namespace ModalRequest

/-- `required_modalities`. -/
def requiredModalities (q : ModalRequest) : List Modality :=
  .text :: q.media.map MediaItem.modality

/-- `media_ids()`. -/
def mediaIds (q : ModalRequest) : List Nat := q.media.map MediaItem.contentId

end ModalRequest

/-! ### Capability and media affinity -/

/-- `MultiModalRouteResult`. -/
structure MultiModalRouteResult where
  backendId : String
  estTokens : Int
  mediaOverlap : Nat
  totalMedia : Nat
  estMs : ℚ

/-- `required <= capabilities.get(b, {"text"})`. -/
def capable (q : ModalRequest) (capabilities : Dict String (List Modality)) (b : String) : Bool :=
  q.requiredModalities.all fun m => (capabilities.getD b [.text]).contains m

/-- `len(req.text) // max(1, cfg.chars_per_token)`. -/
def textTokens (q : ModalRequest) (cfg : MultiModalConfig) : Int :=
  q.text.length / max 1 cfg.charsPerToken

/-- The cost of a backend in `choose_multimodal_backend`. -/
def multimodalCost (q : ModalRequest) (index : MediaAffinityIndex) (load : LoadTracker String)
    (cfg : MultiModalConfig) (b : String) : ℚ :=
  let uncached := (q.media.filter fun m => !index.isCached b m.contentId).map fun m => m.tokens cfg
  cfg.prefillMsPerToken * (textTokens q cfg + uncached.sum : Int) +
    load.inflightOf b * cfg.serviceMsPerRequest

/-- `choose_multimodal_backend`. -/
def chooseMultimodalBackend (q : ModalRequest) (backends : List String)
    (capabilities : Dict String (List Modality)) (index : MediaAffinityIndex)
    (load : LoadTracker String) (cfg : MultiModalConfig) : Option MultiModalRouteResult :=
  let able := backends.filter (capable q capabilities)
  ((unsaturated load cfg.maxInflight able).argmin (multimodalCost q index load cfg)).map fun b =>
    ⟨b, textTokens q cfg + (q.media.map fun m => m.tokens cfg).sum,
      index.overlap b q.mediaIds, q.media.length, multimodalCost q index load cfg b⟩

theorem chooseMultimodalBackend_mem {q : ModalRequest} {backends : List String}
    {capabilities : Dict String (List Modality)} {index : MediaAffinityIndex}
    {load : LoadTracker String} {cfg : MultiModalConfig} {rr : MultiModalRouteResult}
    (chosen : chooseMultimodalBackend q backends capabilities index load cfg = some rr) :
    rr.backendId ∈ backends ∧ capable q capabilities rr.backendId = true := by
  obtain ⟨b, cheapest, rfl⟩ := Option.map_eq_some_iff.mp chosen
  exact List.mem_filter.mp (unsaturated_subset (List.argmin_mem cheapest))

end Gateway
