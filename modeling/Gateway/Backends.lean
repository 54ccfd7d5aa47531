import Gateway.Lib.Dict
import Gateway.Lib.Text

/-!
The backend registry of `gateway/backends.py`.

A registry maps backend ids to their records, in the order in which they were
added. A record's own `id` field always equals its key and is left to the key. The
LoRA side of the registry is that of `gateway/extensions/lora.py`: `loraFilter` narrows
`idsFor`, and never leaves it (`loraFilter_subset`).
-/

namespace Gateway

/-- `Backend`. -/
structure Backend where
  url : String
  model : String
  healthy : Bool
  draining : Bool
  adapters : List String
  deriving DecidableEq, Repr

/-- `Backend(id, url, model)`. -/
def Backend.new (url model : String) : Backend := ⟨url, model, true, false, []⟩

/-- What `ids_for(model)` asks of a backend. -/
def Backend.serves (be : Backend) (model : Option String) : Bool :=
  be.healthy && !be.draining && (model.isNone || model == some be.model)

/-- `parse_model_spec(model_str)`. -/
def parseModelSpec : Option String → Option String × Option String
  | none => (none, none)
  | some model =>
      let cs := model.toList
      if cs.isEmpty then (none, none)
      else if !cs.contains ':' then (some model, none)
      else
        (Text.stripOr (cs.takeWhile (· != ':')), Text.stripOr ((cs.dropWhile (· != ':')).drop 1))

/-- `BackendRegistry`. -/
structure BackendRegistry (B : Type) where
  byId : Dict B Backend
  defaultModel : String
  deriving DecidableEq

namespace BackendRegistry

variable {B : Type} [DecidableEq B]

/-- `BackendRegistry(cfg)`, from the parsed `id=url` pairs of the configuration. -/
def init (defaultModel : String) (pairs : List (B × String)) : BackendRegistry B :=
  ⟨pairs.foldl (fun d (b, url) => d.set b (.new url defaultModel)) .empty, defaultModel⟩

/-- The ids of `all()`. -/
def ids (r : BackendRegistry B) : List B := r.byId.keys

/-- `get(backend_id)`. -/
def get (r : BackendRegistry B) (b : B) : Option Backend := r.byId.get? b

/-- `model or self._default_model`. -/
def modelOr (r : BackendRegistry B) : Option String → String
  | none => r.defaultModel
  | some m => if m = "" then r.defaultModel else m

/-- `add(backend_id, url, model)`: create an unhealthy record, or update the URL of an
existing one. -/
def add (r : BackendRegistry B) (b : B) (url : String) (model : Option String) :
    BackendRegistry B × Bool :=
  match r.byId.get? b with
  | none =>
      ({ r with byId := r.byId.set b { Backend.new url (r.modelOr model) with healthy := false } },
        true)
  | some be => ({ r with byId := r.byId.set b { be with url := url } }, false)

/-- `remove(backend_id)`. -/
def remove (r : BackendRegistry B) (b : B) : BackendRegistry B × Bool :=
  ({ r with byId := r.byId.erase b }, r.byId.contains b)

/-- `url(backend_id)`; `none` is the `KeyError`. -/
def url (r : BackendRegistry B) (b : B) : Option String := (r.byId.get? b).map Backend.url

/-- `set_health(backend_id, healthy)`. -/
def setHealth (r : BackendRegistry B) (b : B) (healthy : Bool) : BackendRegistry B :=
  match r.byId.get? b with
  | none => r
  | some be => { r with byId := r.byId.set b { be with healthy := healthy } }

/-- `set_draining(backend_id, draining)`. -/
def setDraining (r : BackendRegistry B) (b : B) (draining : Bool) : BackendRegistry B × Bool :=
  match r.byId.get? b with
  | none => (r, false)
  | some be => ({ r with byId := r.byId.set b { be with draining := draining } }, true)

/-- `ids_for(model)`. -/
def idsFor (r : BackendRegistry B) (model : Option String) : List B :=
  (r.byId.items.filter fun item => item.2.serves model).map Prod.fst

/-- `adapter in registry._by_id[bid].adapters`. -/
def hasAdapter (r : BackendRegistry B) (adapter : String) (b : B) : Bool :=
  (r.get b).any fun be => be.adapters.contains adapter

/-- `lora_filter(registry, base, adapter, fallback_to_base)`. -/
def loraFilter (r : BackendRegistry B) (base adapter : Option String) (fallbackToBase : Bool) :
    List B :=
  let basePool := r.idsFor base
  match adapter with
  | none => basePool
  | some adapter =>
      let capable := basePool.filter (r.hasAdapter adapter)
      if capable.isEmpty then if fallbackToBase then basePool else [] else capable

/-! ### Point lemmas -/

theorem get_add (r : BackendRegistry B) (b b' : B) (url : String) (model : Option String) :
    (r.add b url model).1.get b' =
      if b' = b then
        some (match r.get b with
          | none => { Backend.new url (r.modelOr model) with healthy := false }
          | some be => { be with url := url })
      else r.get b' := by
  simp only [add, get]
  cases r.byId.get? b <;> simp

theorem get_remove (r : BackendRegistry B) (b b' : B) :
    (r.remove b).1.get b' = if b' = b then none else r.get b' := by
  simp [remove, get]

theorem get_setHealth (r : BackendRegistry B) (b b' : B) (healthy : Bool) :
    (r.setHealth b healthy).get b' =
      if b' = b then (r.get b).map fun be => { be with healthy := healthy } else r.get b' := by
  simp only [setHealth, get]
  cases known : r.byId.get? b with
  | none =>
      by_cases same : b' = b
      · simp [same, known]
      · simp [same]
  | some be => simp

theorem get_setDraining (r : BackendRegistry B) (b b' : B) (draining : Bool) :
    (r.setDraining b draining).1.get b' =
      if b' = b then (r.get b).map fun be => { be with draining := draining } else r.get b' := by
  simp only [setDraining, get]
  cases known : r.byId.get? b with
  | none =>
      by_cases same : b' = b
      · simp [same, known]
      · simp [same]
  | some be => simp

theorem mem_ids_iff {r : BackendRegistry B} {b : B} : b ∈ r.ids ↔ (r.get b).isSome :=
  Dict.mem_keys_iff

theorem mem_idsFor_iff {r : BackendRegistry B} {model : Option String} {b : B} :
    b ∈ r.idsFor model ↔ ∃ be, r.get b = some be ∧ be.serves model = true := by
  simp only [idsFor, List.mem_map, List.mem_filter, Prod.exists, exists_and_right,
    exists_eq_right, Dict.mem_items_iff, get]

theorem loraFilter_subset {r : BackendRegistry B} {base adapter : Option String}
    {fallbackToBase : Bool} {b : B} (member : b ∈ r.loraFilter base adapter fallbackToBase) :
    b ∈ r.idsFor base := by
  unfold loraFilter at member
  cases adapter with
  | none => exact member
  | some adapter =>
      dsimp only at member
      split at member
      · split at member
        · exact member
        · cases member
      · exact (List.mem_filter.mp member).1

theorem draining_foldl_set (defaultModel : String) (pairs : List (B × String))
    {d : Dict B Backend} (off : ∀ b be, d.get? b = some be → be.draining = false) {b : B}
    {be : Backend}
    (found : (pairs.foldl (fun d (b, url) => d.set b (.new url defaultModel)) d).get? b = some be) :
    be.draining = false := by
  induction pairs generalizing d with
  | nil => exact off b be found
  | cons pair rest ih =>
      obtain ⟨a, url⟩ := pair
      refine ih (d := d.set a (.new url defaultModel)) (fun b be found => ?_) found
      rw [Dict.get?_set] at found
      split at found
      · cases found
        rfl
      · exact off b be found

/-- No backend starts draining. -/
theorem draining_init {defaultModel : String} {pairs : List (B × String)} {b : B} {be : Backend}
    (found : (init defaultModel pairs).get b = some be) : be.draining = false :=
  draining_foldl_set defaultModel pairs (fun _ _ found => by cases found) found

end BackendRegistry

end Gateway
