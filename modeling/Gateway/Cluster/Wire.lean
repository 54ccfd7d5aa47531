import Mathlib.Data.String.Basic
import Gateway.Cluster.Coordinator
import Gateway.Lib.Json

/-!
The wire format of the replication events (`gateway/cluster/events.py`).

Backend ids, replica ids, urls and models are strings and block hashes are integers.
The encoders write one JSON object per event; the decoder dispatches on the tag `k`,
and an object with an unknown tag is read as a `PrefixEvent`. The short keys mean
different things in different events: `u` is a url or a list of backends, `d` is `0` or
`1` while the flags inside a digest are JSON booleans.

The JSON library is a parameter (`JsonLib`). How `int()` reads strings and floats is one
too (`Numerals`): no encoder writes either where a decoder calls `int()`.

A decoder here refuses a document with a field of another JSON type than its event has;
the source builds an event with that field and fails on it later. The lists inside a
digest are read as `merge` reads them.
-/

namespace Gateway

/-- What `int()` and `bool()` make of the values whose reading is left open. -/
structure Numerals (F : Type) where
  intOfStr : String → Option Int
  intOfFloat : F → Option Int
  isZero : F → Bool

namespace Json

variable {F : Type} (py : Numerals F)

/-- `int(x)`. -/
def toInt : Json F → Option Int
  | .int n => some n
  | .bool b => some (if b then 1 else 0)
  | .float x => py.intOfFloat x
  | .str s => py.intOfStr s
  | _ => none

/-- `bool(x)`. -/
def truthy : Json F → Bool
  | .null => false
  | .bool b => b
  | .int n => n != 0
  | .float x => !py.isZero x
  | .str s => s != ""
  | .list items => !items.isEmpty
  | .obj items => !items.isEmpty

def asStr : Json F → Option String
  | .str s => some s
  | _ => none

def asInt : Json F → Option Int
  | .int n => some n
  | _ => none

theorem toInt_int (n : Int) : toInt py (.int n) = some n := rfl

theorem asStr_str (s : String) : asStr (.str s : Json F) = some s := rfl

theorem asInt_int (n : Int) : asInt (.int n : Json F) = some n := rfl

/-- `d.get(key)` on an object. -/
def get? (key : String) : Json F → Option (Json F)
  | .obj items => Dict.lookup key items
  | _ => none

/-- `d.get(key) or []`, as a list. -/
def listOr (d : Json F) (key : String) : Option (List (Json F)) :=
  match d.get? key with
  | none => some []
  | some x =>
      if truthy py x then
        match x with
        | .list items => some items
        | _ => none
      else some []

/-- `d.get(key) or {}`, as a dictionary. -/
def objOr (d : Json F) (key : String) : Option (List (String × Json F)) :=
  match d.get? key with
  | none => some []
  | some x =>
      if truthy py x then
        match x with
        | .obj items => some items
        | _ => none
      else some []

/-- `{key: read(value) for ...}`. -/
def readDict {V : Type} (read : Json F → Option V) (items : List (String × Json F)) :
    Option (Dict String V) :=
  (items.mapM fun item => (read item.2).map fun v => (item.1, v)).map Dict.ofItems

end Json

/-- The events of a deployment: string ids and integer hashes. -/
abbrev WireEvent := Event Int String String

namespace WireEvent

variable {F : Type}

/-! ### Tags -/

/-- `INSERT`, `REMOVE_BACKEND`. -/
def kindTag : PrefixKind → String
  | .insert => "insert"
  | .removeBackend => "remove_backend"
  | .other kind => kind

def kindOfTag (tag : String) : PrefixKind :=
  if tag = "insert" then .insert else if tag = "remove_backend" then .removeBackend else .other tag

/-- `MEMBER_ADD`, `MEMBER_REMOVE`. -/
def actionTag : MemberAction → String
  | .add => "member_add"
  | .remove => "member_remove"

/-! ### Encoding -/

/-- `[draining, ts, owner]`. -/
def drainEntry (e : Entry Bool String) : Json F := .list [.bool e.value, .int e.ts, .str e.origin]

/-- `[present, url, model, ts, owner]`. -/
def memberEntry (e : Entry Member String) : Json F :=
  .list [.bool e.value.present, .str e.value.url, .str e.value.model, .int e.ts, .str e.origin]

/-- The items of a dictionary, as those of an object. -/
def objectOf {V : Type} (write : V → Json F) (d : Dict String V) : Json F :=
  .obj (d.items.map fun item => (item.1, write item.2))

/-- The object that `to_json` dumps. -/
def toDoc : WireEvent → Json F
  | .prefixEvent kind backendId origin seq hashes =>
      .obj [("k", .str (kindTag kind)), ("b", .str backendId), ("o", .str origin), ("s", .int seq),
        ("h", .list (hashes.map .int))]
  | .loadEvent origin seq inflight unhealthy =>
      .obj [("k", .str "load"), ("o", .str origin), ("s", .int seq), ("l", objectOf .int inflight),
        ("u", .list (unhealthy.map .str))]
  | .drainEvent origin seq ts backendId draining =>
      .obj [("k", .str "drainop"), ("o", .str origin), ("s", .int seq), ("t", .int ts),
        ("b", .str backendId), ("d", .int (if draining then 1 else 0))]
  | .drainDigest origin seq entries =>
      .obj [("k", .str "draindigest"), ("o", .str origin), ("s", .int seq),
        ("e", objectOf drainEntry entries)]
  | .memberEvent origin seq action backendId url model ts =>
      .obj [("k", .str (actionTag action)), ("o", .str origin), ("s", .int seq),
        ("b", .str backendId), ("u", .str url), ("m", .str model), ("t", .int ts)]
  | .membershipDigest origin seq entries =>
      .obj [("k", .str "member_digest"), ("o", .str origin), ("s", .int seq),
        ("e", objectOf memberEntry entries)]

/-- `to_json()`. -/
def toJson (lib : JsonLib F) (e : WireEvent) : String := lib.dumps (toDoc e)

/-! ### Decoding -/

section Decode

variable (py : Numerals F)

/-- `draining, ts, origin = ver[0], int(ver[1]), ver[2]`. -/
def readDrainEntry : Json F → Option (Entry Bool String)
  | .list (draining :: ts :: origin :: _) => do
      return ⟨draining.truthy py, ← ts.toInt py, ← origin.asStr⟩
  | _ => none

/-- `bool(v[0]), v[1], v[2], int(v[3]), v[4]`. -/
def readMemberEntry : Json F → Option (Entry Member String)
  | .list (present :: url :: model :: ts :: origin :: _) => do
      return ⟨⟨present.truthy py, ← url.asStr, ← model.asStr⟩, ← ts.toInt py, ← origin.asStr⟩
  | _ => none

/-- `PrefixEvent.from_json`. -/
def readPrefixEvent (d : Json F) : Option WireEvent := do
  return .prefixEvent (kindOfTag (← (← d.get? "k").asStr)) (← (← d.get? "b").asStr)
    (← (← d.get? "o").asStr) (← (← d.get? "s").toInt py) (← (← d.listOr py "h").mapM Json.asInt)

/-- `LoadEvent.from_json`. -/
def readLoadEvent (d : Json F) : Option WireEvent := do
  return .loadEvent (← (← d.get? "o").asStr) (← (← d.get? "s").toInt py)
    (← Json.readDict (Json.toInt py) (← d.objOr py "l")) (← (← d.listOr py "u").mapM Json.asStr)

/-- `DrainEvent.from_json`. -/
def readDrainEvent (d : Json F) : Option WireEvent := do
  return .drainEvent (← (← d.get? "o").asStr) (← (← d.get? "s").toInt py)
    (← (← d.get? "t").toInt py) (← (← d.get? "b").asStr) ((← d.get? "d").truthy py)

/-- `DrainDigest.from_json`. -/
def readDrainDigest (d : Json F) : Option WireEvent := do
  return .drainDigest (← (← d.get? "o").asStr) (← (← d.get? "s").toInt py)
    (← Json.readDict (readDrainEntry py) (← d.objOr py "e"))

/-- `MemberEvent.from_json`, for the action that its tag names. -/
def readMemberEvent (action : MemberAction) (d : Json F) : Option WireEvent := do
  return .memberEvent (← (← d.get? "o").asStr) (← (← d.get? "s").toInt py) action
    (← (← d.get? "b").asStr) (← ((d.get? "u").getD (.str "")).asStr)
    (← ((d.get? "m").getD (.str "")).asStr) (← ((d.get? "t").getD (.int 0)).toInt py)

/-- `MembershipDigest.from_json`. -/
def readMembershipDigest (d : Json F) : Option WireEvent := do
  return .membershipDigest (← (← d.get? "o").asStr) (← (← d.get? "s").toInt py)
    (← Json.readDict (readMemberEntry py) (← d.objOr py "e"))

/-- `decode_event` on the object that the text holds. -/
def readEvent (d : Json F) : Option WireEvent :=
  let kind := (d.get? "k").bind Json.asStr
  if kind = some "load" then readLoadEvent py d
  else if kind = some "drainop" then readDrainEvent py d
  else if kind = some "draindigest" then readDrainDigest py d
  else if kind = some "member_add" then readMemberEvent py .add d
  else if kind = some "member_remove" then readMemberEvent py .remove d
  else if kind = some "member_digest" then readMembershipDigest py d
  else readPrefixEvent py d

/-- `decode_event(raw)`; `none` when it raises. -/
def decodeEvent (lib : JsonLib F) (raw : String) : Option WireEvent :=
  (lib.loads raw).bind (readEvent py)

end Decode

/-! ### What is written is plain -/

theorem plain_objectOf {V : Type} {write : V → Json F} (plain : ∀ v, (write v).Plain)
    (d : Dict String V) : (objectOf write d).Plain := by
  constructor
  · rw [List.map_map]
    exact d.nodup
  · apply Json.plainItems_of_forall
    intro item member
    obtain ⟨item', -, rfl⟩ := List.mem_map.mp member
    exact plain item'.2

theorem plain_toDoc (e : WireEvent) : (toDoc e : Json F).Plain := by
  have entry : ∀ e : Entry Bool String, (drainEntry e : Json F).Plain := fun e => by
    simp [drainEntry, Json.Plain, Json.PlainList]
  have member : ∀ e : Entry Member String, (memberEntry e : Json F).Plain := fun e => by
    simp [memberEntry, Json.Plain, Json.PlainList]
  have int : ∀ n, (Json.int n : Json F).Plain := fun n => by simp [Json.Plain]
  cases e with
  | prefixEvent kind b origin seq hashes =>
      simp [toDoc, Json.Plain, Json.PlainItems, Json.plainList_of_forall]
  | loadEvent origin seq inflight unhealthy =>
      simp [toDoc, Json.Plain, Json.PlainItems, plain_objectOf int, Json.plainList_of_forall]
  | drainEvent origin seq ts b draining => simp [toDoc, Json.Plain, Json.PlainItems]
  | drainDigest origin seq entries =>
      simp [toDoc, Json.Plain, Json.PlainItems, plain_objectOf entry]
  | memberEvent origin seq action b url model ts => simp [toDoc, Json.Plain, Json.PlainItems]
  | membershipDigest origin seq entries =>
      simp [toDoc, Json.Plain, Json.PlainItems, plain_objectOf member]

/-! ### What is written reads back -/

section RoundTrip

variable (py : Numerals F)

theorem mapM_map {A V : Type} {read : A → Option V} {write : V → A}
    (back : ∀ v, read (write v) = some v) (l : List V) : (l.map write).mapM read = some l := by
  induction l with
  | nil => rfl
  | cons v l ih => simp [List.mapM_cons, back, ih]

/-- A dictionary reads back, key by key. -/
theorem readDict_items {V : Type} {read : Json F → Option V} {write : V → Json F}
    (back : ∀ v, read (write v) = some v) (d : Dict String V) :
    Json.readDict read (d.items.map fun item => (item.1, write item.2)) = some d := by
  have items : (d.items.map fun item => (item.1, write item.2)).mapM
      (fun item => (read item.2).map fun v => (item.1, v)) = some d.items :=
    mapM_map (fun item => by simp [back]) d.items
  rw [Json.readDict, items, Option.map_some, Dict.ofItems_items]

/-- An empty list or dictionary is falsy, and reads back as the default it is replaced by. -/
theorem listOr_of_get? {d : Json F} {key : String} {items : List (Json F)}
    (found : d.get? key = some (.list items)) : d.listOr py key = some items := by
  rw [Json.listOr, found]
  cases items <;> rfl

theorem objOr_of_get? {d : Json F} {key : String} {items : List (String × Json F)}
    (found : d.get? key = some (.obj items)) : d.objOr py key = some items := by
  rw [Json.objOr, found]
  cases items <;> rfl

theorem readDrainEntry_drainEntry (e : Entry Bool String) :
    readDrainEntry py (drainEntry e) = some e := rfl

theorem readMemberEntry_memberEntry (e : Entry Member String) :
    readMemberEntry py (memberEntry e) = some e := rfl

/-- The events that carry a tag of their own: all but a `PrefixEvent` of a third kind. -/
def Tagged : WireEvent → Prop
  | .prefixEvent (.other _) _ _ _ _ => False
  | _ => True

theorem readEvent_toDoc {e : WireEvent} (tagged : Tagged e) : readEvent py (toDoc e) = some e := by
  cases e with
  | prefixEvent kind b origin seq hashes =>
      have listed : (toDoc (.prefixEvent kind b origin seq hashes) : Json F).listOr py "h" =
          some (hashes.map .int) := listOr_of_get? py rfl
      have back : (hashes.map (Json.int : Int → Json F)).mapM Json.asInt = some hashes :=
        mapM_map Json.asInt_int hashes
      have read : readPrefixEvent py (toDoc (.prefixEvent kind b origin seq hashes)) =
          some (.prefixEvent (kindOfTag (kindTag kind)) b origin seq hashes) := by
        simp only [readPrefixEvent, listed, Option.bind_eq_bind, Option.bind_some, back]
        rfl
      cases kind with
      | insert => exact read
      | removeBackend => exact read
      | other kind => exact absurd tagged id
  | loadEvent origin seq inflight unhealthy =>
      have listed : (toDoc (.loadEvent origin seq inflight unhealthy) : Json F).listOr py "u" =
          some (unhealthy.map .str) := listOr_of_get? py rfl
      have counts : (toDoc (.loadEvent origin seq inflight unhealthy) : Json F).objOr py "l" =
          some (inflight.items.map fun item => (item.1, .int item.2)) := objOr_of_get? py rfl
      have back : (unhealthy.map (Json.str : String → Json F)).mapM Json.asStr = some unhealthy :=
        mapM_map Json.asStr_str unhealthy
      have read : readLoadEvent py (toDoc (.loadEvent origin seq inflight unhealthy)) =
          some (.loadEvent origin seq inflight unhealthy) := by
        simp only [readLoadEvent, listed, counts, Option.bind_eq_bind, Option.bind_some, back,
          readDict_items (Json.toInt_int py) inflight]
        rfl
      exact read
  | drainEvent origin seq ts b draining => cases draining <;> rfl
  | drainDigest origin seq entries =>
      have listed : (toDoc (.drainDigest origin seq entries) : Json F).objOr py "e" =
          some (entries.items.map fun item => (item.1, drainEntry item.2)) := objOr_of_get? py rfl
      have read : readDrainDigest py (toDoc (.drainDigest origin seq entries)) =
          some (.drainDigest origin seq entries) := by
        simp only [readDrainDigest, listed, Option.bind_eq_bind, Option.bind_some,
          readDict_items (readDrainEntry_drainEntry py) entries]
        rfl
      exact read
  | memberEvent origin seq action b url model ts => cases action <;> rfl
  | membershipDigest origin seq entries =>
      have listed : (toDoc (.membershipDigest origin seq entries) : Json F).objOr py "e" =
          some (entries.items.map fun item => (item.1, memberEntry item.2)) := objOr_of_get? py rfl
      have read : readMembershipDigest py (toDoc (.membershipDigest origin seq entries)) =
          some (.membershipDigest origin seq entries) := by
        simp only [readMembershipDigest, listed, Option.bind_eq_bind, Option.bind_some,
          readDict_items (readMemberEntry_memberEntry py) entries]
        rfl
      exact read

end RoundTrip

/-! ### What a coordinator publishes -/

/-- The calls of a coordinator that publish. -/
inductive Publication where
  | insert (hashes : List Int) (backendId : String)
  | remove (backendId : String)
  | load (inflight : Dict String Int) (unhealthy : List String)
  | drain (backendId : String) (draining : Bool)
  | memberAdd (backendId url model : String)
  | memberRemove (backendId : String)
  | membershipDigest
  | drainDigest

/-- One of them. -/
def publish (c : Coordinator Int String String) : Publication → Coordinator Int String String
  | .insert hashes b => c.publishInsert hashes b
  | .remove b => c.publishRemove b
  | .load inflight unhealthy => c.publishLoad inflight unhealthy
  | .drain b draining => c.publishDrain b draining
  | .memberAdd b url model => c.publishMemberAdd b url model
  | .memberRemove b => c.publishMemberRemove b
  | .membershipDigest => c.publishMembershipDigest
  | .drainDigest => c.publishDrainDigest

/-- A call publishes at most one event, and that one is tagged. -/
theorem outbox_publish (c : Coordinator Int String String) (p : Publication) :
    ∃ sent, (publish c p).outbox = c.outbox ++ sent ∧ ∀ e ∈ sent, Tagged e := by
  have silent : ∃ sent, c.outbox = c.outbox ++ sent ∧ ∀ e ∈ sent, Tagged e :=
    ⟨[], by simp, by simp⟩
  cases p with
  | insert hashes b =>
      simp only [publish, Coordinator.publishInsert]
      split
      · exact silent
      · exact ⟨_, rfl, by simp [Tagged]⟩
  | remove b => exact ⟨_, rfl, by simp [Tagged]⟩
  | load inflight unhealthy => exact ⟨_, rfl, by simp [Tagged]⟩
  | drain b draining => exact ⟨_, rfl, by simp [Tagged]⟩
  | memberAdd b url model => exact ⟨_, rfl, by simp [Tagged]⟩
  | memberRemove b => exact ⟨_, rfl, by simp [Tagged]⟩
  | membershipDigest =>
      simp only [publish, Coordinator.publishMembershipDigest]
      split
      · exact silent
      · exact ⟨_, rfl, by simp [Tagged]⟩
  | drainDigest =>
      simp only [publish, Coordinator.publishDrainDigest]
      split
      · exact silent
      · exact ⟨_, rfl, by simp [Tagged]⟩

theorem decodeEvent_toJson (py : Numerals F) (lib : JsonLib F) {e : WireEvent} (tagged : Tagged e) :
    decodeEvent py lib (toJson lib e) = some e := by
  rw [decodeEvent, toJson, lib.loads_dumps _ (plain_toDoc e), Option.bind_some,
    readEvent_toDoc py tagged]

theorem mapM_decodeEvent (py : Numerals F) (lib : JsonLib F) {events : List WireEvent}
    (tagged : ∀ e ∈ events, Tagged e) :
    events.mapM (fun e => decodeEvent py lib (toJson lib e)) = some events := by
  induction events with
  | nil => rfl
  | cons e events ih =>
      simp only [List.forall_mem_cons] at tagged
      simp [List.mapM_cons, decodeEvent_toJson py lib tagged.1, ih tagged.2]

/-- **The wire loses nothing.** Whatever a coordinator publishes, in whatever state, comes
back from its JSON text as the same event; so a peer that syncs on the decoded events
of any batch does what it would have done on the original ones. -/
theorem published_round_trip (py : Numerals F) (lib : JsonLib F)
    (c : Coordinator Int String String) (p : Publication) :
    ∃ sent, (publish c p).outbox = c.outbox ++ sent ∧
      (∀ e ∈ sent, decodeEvent py lib (toJson lib e) = some e) ∧
      ∀ (peer : Coordinator Int String String) (before after : List WireEvent),
        ∃ decoded, sent.mapM (fun e => decodeEvent py lib (toJson lib e)) = some decoded ∧
          peer.sync (before ++ decoded ++ after) = peer.sync (before ++ sent ++ after) := by
  obtain ⟨sent, outbox, tagged⟩ := outbox_publish c p
  refine ⟨sent, outbox, fun e member => decodeEvent_toJson py lib (tagged e member), ?_⟩
  intro peer before after
  exact ⟨sent, mapM_decodeEvent py lib tagged, rfl⟩

/-- A url with a quote in it, through the compact library. -/
theorem published_round_trip_quoted :
    let py : Numerals Empty := ⟨fun _ => none, fun x => x.elim, fun x => x.elim⟩
    let c : Coordinator Int String String := .init (.init 4) "r1" none none
    let e : WireEvent := .memberEvent "r1" 1 .add "b1" "http://b1/\"q\"" "m" 1
    (publish c (.memberAdd "b1" "http://b1/\"q\"" "m")).outbox = [e] ∧
      decodeEvent py (Json.compact Empty) (toJson (Json.compact Empty) e) = some e := by
  intro py c e
  obtain ⟨sent, outbox, back, -⟩ := published_round_trip py (Json.compact Empty) c
    (.memberAdd "b1" "http://b1/\"q\"" "m")
  have one : (publish c (.memberAdd "b1" "http://b1/\"q\"" "m")).outbox = [e] := rfl
  rw [one] at outbox
  refine ⟨one, back e ?_⟩
  have same : [e] = sent := outbox
  simp [← same]

end WireEvent

end Gateway
