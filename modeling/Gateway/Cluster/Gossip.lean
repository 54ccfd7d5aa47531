import Gateway.Cluster.Coordinator
import Gateway.Lib.Dynamic
import Gateway.Lib.Machine

/-!
Raw gossip: `receive_gossip` and `sync` on whatever text a peer pushes.

The decoders of `gateway/cluster/events.py` check little. They need the keys they read,
they convert sequence numbers, timestamps and counts with `int()`, and they copy lists and
dictionaries; every other field of an event is the value that the document has there,
whatever its type. `receive_gossip` drops the texts on which a decoder raises. What is
ill-typed in the rest is found by `sync`, where nothing catches it.

So fields are `Value`s here, and every step that can raise is partial. The typed model of
`Gateway.Cluster.Coordinator` has the events that a replica publishes; this one has the
events that a replica can be sent. What a `sync` that raises leaves behind is not modelled.

The parameters are `json.loads` and the reading of a string by `int()`.
-/

namespace Gateway.Gossip

/-! ### Events -/

/-- The events of `gateway/cluster/events.py`, with fields as they are decoded. -/
inductive RawEvent where
  | prefixEvent (kind backendId origin : Value) (seq : Int) (hashes : List Value)
  | loadEvent (origin : Value) (seq : Int) (inflight : Dict Value Int) (unhealthy : List Value)
  | drainEvent (origin : Value) (seq ts : Int) (backendId : Value) (draining : Bool)
  | drainDigest (origin : Value) (seq : Int) (entries : Dict Value Value)
  | memberEvent (origin : Value) (seq : Int) (action : MemberAction) (backendId url model : Value)
      (ts : Int)
  | membershipDigest (origin : Value) (seq : Int) (entries : Dict Value Value)

/-- `e.origin`. -/
def RawEvent.origin : RawEvent → Value
  | .prefixEvent _ _ origin _ _ => origin
  | .loadEvent origin _ _ _ => origin
  | .drainEvent origin _ _ _ _ => origin
  | .drainDigest origin _ _ => origin
  | .memberEvent origin _ _ _ _ _ _ => origin
  | .membershipDigest origin _ _ => origin

section Decode

variable (intOfStr : String → Option Int)

/-- The items of the object that a text holds. -/
abbrev Items := List (String × Json Number)

/-- `d[key]`. -/
def field? (d : Items) (key : String) : Option Value := (Dict.lookup key d).map Value.ofJson

/-- `int(d[key])`. -/
def intField? (d : Items) (key : String) : Option Int :=
  (field? d key).bind (Value.toInt? intOfStr)

/-- `d.get(key, default)`. -/
def fieldOr (d : Items) (key : String) (default : Value) : Value := (field? d key).getD default

/-- `d.get(key) or default`, read by `read` if there is something to read. -/
def readOr {A : Type} (read : Json Number → Option A) (d : Items) (key : String) (default : A) :
    Option A :=
  match Dict.lookup key d with
  | none => some default
  | some j => if (Value.ofJson j).truthy then read j else some default

/-- `{k: int(v) for k, v in x.items()}`. -/
def counts? : Json Number → Option (Dict Value Int)
  | .obj items =>
      (items.mapM fun item => ((Value.ofJson item.2).toInt? intOfStr).map fun n =>
        (Value.str item.1, n)).map Dict.ofItems
  | _ => none

/-- `PrefixEvent.from_json`. -/
def prefixOfJson (d : Items) : Option RawEvent := do
  return .prefixEvent (← field? d "k") (← field? d "b") (← field? d "o") (← intField? intOfStr d "s")
    (← readOr Value.iterate? d "h" [])

/-- `LoadEvent.from_json`. -/
def loadOfJson (d : Items) : Option RawEvent := do
  return .loadEvent (← field? d "o") (← intField? intOfStr d "s")
    (← readOr (counts? intOfStr) d "l" .empty) (← readOr Value.iterate? d "u" [])

/-- `DrainEvent.from_json`. -/
def drainOfJson (d : Items) : Option RawEvent := do
  return .drainEvent (← field? d "o") (← intField? intOfStr d "s") (← intField? intOfStr d "t")
    (← field? d "b") (← field? d "d").truthy

/-- `dict(x)`. -/
def dict? (j : Json Number) : Option (Dict Value Value) := (Value.pairs? j).map Dict.ofItems

/-- `DrainDigest.from_json`. -/
def drainDigestOfJson (d : Items) : Option RawEvent := do
  return .drainDigest (← field? d "o") (← intField? intOfStr d "s") (← readOr dict? d "e" .empty)

/-- `MemberEvent.from_json`, for the action that its tag names. -/
def memberOfJson (action : MemberAction) (d : Items) : Option RawEvent := do
  return .memberEvent (← field? d "o") (← intField? intOfStr d "s") action (← field? d "b")
    (fieldOr d "u" (.str "")) (fieldOr d "m" (.str ""))
    (← (fieldOr d "t" (.num (.fin 0))).toInt? intOfStr)

/-- `MembershipDigest.from_json`. -/
def membershipDigestOfJson (d : Items) : Option RawEvent := do
  return .membershipDigest (← field? d "o") (← intField? intOfStr d "s")
    (← readOr dict? d "e" .empty)

/-- `decode_event` on the object that the text holds. -/
def eventOfJson (d : Items) : Option RawEvent :=
  let kind := fieldOr d "k" .null
  if kind = .str "load" then loadOfJson intOfStr d
  else if kind = .str "drainop" then drainOfJson intOfStr d
  else if kind = .str "draindigest" then drainDigestOfJson intOfStr d
  else if kind = .str "member_add" then memberOfJson intOfStr .add d
  else if kind = .str "member_remove" then memberOfJson intOfStr .remove d
  else if kind = .str "member_digest" then membershipDigestOfJson intOfStr d
  else prefixOfJson intOfStr d

/-- `decode_event(raw)`; `none` when it raises. -/
def decodeEvent (loads : String → Option (Json Number)) (raw : String) : Option RawEvent :=
  match loads raw with
  | some (.obj items) => eventOfJson intOfStr items
  | _ => none

end Decode

/-! ### The prefix tree -/

/-- The tree, with the keys of its `_lru` table: `pop` on an empty table does not hash. -/
structure Tree where
  tree : RadixTree Value Value
  lruKeys : Dict Value Unit

namespace Tree

/-- The inner loop of `insert`, which compares with `==`. -/
def commonLen : List Value → List Value → Nat
  | x :: xs, y :: ys => if x.eq y then commonLen xs ys + 1 else 0
  | _, _ => 0

/-- The loop of `insert`. What it uses as a key must be hashable: the hash it looks up, the
hashes at which an edge is split, and the backend. -/
def insertLoop? (b : Value) :
    Nat → RadixTree Value Value → NodeId → List Value → Option (RadixTree Value Value)
  | 0, t, _, _ => some t
  | _ + 1, t, _, [] => some t
  | fuel + 1, t, node, first :: rest =>
      if !(first.hashable && b.hashable) then none
      else
        match (t.node node).children.get? first with
        | none => some ((t.attachLeaf node first (first :: rest)).hold b t.next)
        | some child =>
            let e := (t.node child).edge
            let j := commonLen e (first :: rest)
            if j = e.length then
              insertLoop? b fuel (t.hold b child) child ((first :: rest).drop j)
            else if !((e.drop j).head?.all Value.hashable) then none
            else
              let split := t.next
              let t := (t.splitEdge node first child j).hold b split
              match (first :: rest).drop j with
              | [] => some t
              | k :: tail =>
                  if k.hashable then some ((t.attachLeaf split k (k :: tail)).hold b t.next)
                  else none

/-- `insert(hashes, backend_id)`. An iteration takes a hash, or enters one of the nodes with
an empty edge that `NaN` makes (it is found by its key, and not `==` to itself). -/
def insert? (t : Tree) (hashes : List Value) (b : Value) : Option Tree :=
  if hashes.isEmpty then some t
  else
    (insertLoop? b (hashes.length + t.tree.next) { t.tree with clock := t.tree.clock + 1 }
      RadixTree.root hashes).map fun tree => ⟨tree.evict b, t.lruKeys.set b ()⟩

/-- `remove_backend(backend_id)`, of a hashable id. -/
def removeBackend (t : Tree) (b : Value) : Tree := ⟨t.tree.removeBackend b, t.lruKeys.erase b⟩

/-- `remove_backend(backend_id)`. -/
def removeBackend? (t : Tree) (b : Value) : Option Tree :=
  if b.hashable || t.lruKeys.keys.isEmpty then some (t.removeBackend b) else none

end Tree

/-! ### The replicated maps -/

/-- The data of a membership entry: `(present, url, model)`. -/
structure Member where
  present : Bool
  url : Value
  model : Value

/-- `cur[0] != present or cur[1] != url`. -/
def Member.differs (cur new : Member) : Bool := cur.present != new.present || !cur.url.eq new.url

abbrev Drains := Lww Value Bool Value

abbrev Members := Lww Value Member Value

section Maps

variable {V : Type}

/-- `(ts, origin) > (cur_ts, cur_origin)`. -/
def beats? (e cur : Entry V Value) : Option Bool :=
  if e.ts = cur.ts then
    if e.origin = cur.origin then some false else e.origin.gt? cur.origin
  else some (cur.ts < e.ts)

/-- `apply(backend_id, ..., ts, origin)` of both maps. -/
def adopt? (differs : V → V → Bool) (m : Lww Value V Value) (b : Value) (e : Entry V Value) :
    Option (Lww Value V Value × Bool) :=
  let m := m.observe e.ts
  if !b.hashable then none
  else
    match m.entries.get? b with
    | none => some ({ m with entries := m.entries.set b e }, true)
    | some cur =>
        (beats? e cur).map fun newer =>
          if newer then ({ m with entries := m.entries.set b e }, differs cur.value e.value)
          else (m, false)

/-- One iteration of `merge`, for the way a map reads its versions. -/
def mergeItem? (differs : V → V → Bool) (read : Value → Option (Entry V Value))
    (s : Lww Value V Value × Bool) (item : Value × Value) : Option (Lww Value V Value × Bool) :=
  (read item.2).bind fun e =>
    (adopt? differs s.1 item.1 e).map fun (m, changed) => (m, s.2 || changed)

/-- `merge(entries)`. -/
def merge? (differs : V → V → Bool) (read : Value → Option (Entry V Value))
    (m : Lww Value V Value) (entries : Dict Value Value) : Option (Lww Value V Value × Bool) :=
  Machine.run (mergeItem? differs read) (m, false) entries.items

variable (intOfStr : String → Option Int)

/-- `draining, ts, origin = ver[0], int(ver[1]), ver[2]`. -/
def readDrain? (ver : Value) : Option (Entry Bool Value) := do
  return ⟨(← ver.index? 0).truthy, ← (← ver.index? 1).toInt? intOfStr, ← ver.index? 2⟩

/-- `bool(v[0]), v[1], v[2], int(v[3]), v[4]`. -/
def readMember? (v : Value) : Option (Entry Member Value) := do
  return ⟨⟨(← v.index? 0).truthy, ← v.index? 1, ← v.index? 2⟩, ← (← v.index? 3).toInt? intOfStr,
    ← v.index? 4⟩

end Maps

/-! ### The fleet view and the registry -/

/-- `FleetLoadView.apply`: the origin is a key, and the backends go into a set. -/
def applyLoad? (v : FleetLoadView Value Value) (origin : Value) (inflight : Dict Value Int)
    (unhealthy : List Value) : Option (FleetLoadView Value Value) :=
  if origin.hashable && unhealthy.all Value.hashable then some (v.apply origin inflight unhealthy)
  else none

/-- `Backend`. -/
structure Backend where
  url : Value
  model : Value
  healthy : Bool
  draining : Bool

/-- `BackendRegistry`. -/
structure Registry where
  byId : Dict Value Backend
  defaultModel : String

namespace Registry

/-- `add(backend_id, url, model or None)`. -/
def add (r : Registry) (b url model : Value) : Registry :=
  match r.byId.get? b with
  | none =>
      let model := if model.truthy then model else .str r.defaultModel
      { r with byId := r.byId.set b ⟨url, model, false, false⟩ }
  | some be => { r with byId := r.byId.set b { be with url := url } }

/-- `remove(backend_id)`. -/
def remove (r : Registry) (b : Value) : Registry × Bool :=
  ({ r with byId := r.byId.erase b }, r.byId.contains b)

/-- `set_draining(backend_id, draining)`. -/
def setDraining (r : Registry) (b : Value) (draining : Bool) : Registry :=
  match r.byId.get? b with
  | none => r
  | some be => { r with byId := r.byId.set b { be with draining := draining } }

end Registry

/-! ### The replica -/

/-- `ClusterCoordinator` on an `HttpGossipBus`, as far as `receive_gossip` and `sync` go. -/
structure Replica where
  replicaId : String
  inbox : List RawEvent
  tree : Tree
  fleet : FleetLoadView Value Value
  drain : Drains
  membership : Members
  registry : Option Registry
  appliedRemote : Int

namespace Replica

/-- `ClusterCoordinator(RadixTree(cap), bus, replica_id, registry=registry)`. -/
def init (replicaId : String) (cap : Int) (registry : Option Registry) : Replica where
  replicaId := replicaId
  inbox := []
  tree := ⟨.init cap, .empty⟩
  fleet := .empty
  drain := .empty
  membership := .empty
  registry := registry
  appliedRemote := 0

/-- `_reconcile_drains`. -/
def reconcileDrains (c : Replica) : Replica :=
  { c with
    registry := c.registry.map fun r => r.byId.keys.foldl (fun r b =>
      r.setDraining b ((c.drain.entries.get? b).any fun e => e.value)) r }

/-- `_reconcile_membership`: add the present backends, then remove the tombstones. Keys of
the map are hashable, so nothing here raises. -/
def reconcileMembership (c : Replica) : Replica :=
  match c.registry with
  | none => c
  | some r =>
      let items := c.membership.entries.items
      let r := (items.filter fun item => item.2.value.present).foldl
        (fun r (b, e) => r.add b e.value.url e.value.model) r
      let (r, tree) := (items.filter fun item => !item.2.value.present).foldl
        (fun (r, tree) (b, _) =>
          let (r, removed) := r.remove b
          (r, if removed then Tree.removeBackend tree b else tree)) (r, c.tree)
      { c with registry := some r, tree := tree }

/-- Where the loop of `sync` is: the replica, `drains_changed` and `members_changed`. -/
structure Progress where
  replica : Replica
  drainsChanged : Bool
  membersChanged : Bool

section Sync

variable (intOfStr : String → Option Int)

/-- What `sync` does with one event, before it counts it. -/
def takeIn? (s : Progress) : RawEvent → Option Progress
  | .loadEvent origin _ inflight unhealthy =>
      (applyLoad? s.replica.fleet origin inflight unhealthy).map fun fleet =>
        { s with replica := { s.replica with fleet := fleet } }
  | .drainEvent origin _ ts b draining =>
      (adopt? DrainState.differs s.replica.drain b ⟨draining, ts, origin⟩).map
        fun (drain, changed) =>
          { s with
            replica := { s.replica with drain := drain }
            drainsChanged := s.drainsChanged || changed }
  | .drainDigest _ _ entries =>
      (merge? DrainState.differs (readDrain? intOfStr) s.replica.drain entries).map
        fun (drain, changed) =>
          { s with
            replica := { s.replica with drain := drain }
            drainsChanged := s.drainsChanged || changed }
  | .memberEvent origin _ action b url model ts =>
      (adopt? Member.differs s.replica.membership b ⟨⟨action = .add, url, model⟩, ts, origin⟩).map
        fun (membership, changed) =>
          { s with
            replica := { s.replica with membership := membership }
            membersChanged := s.membersChanged || changed }
  | .membershipDigest _ _ entries =>
      (merge? Member.differs (readMember? intOfStr) s.replica.membership entries).map
        fun (membership, changed) =>
          { s with
            replica := { s.replica with membership := membership }
            membersChanged := s.membersChanged || changed }
  | .prefixEvent kind b _ _ hashes =>
      if kind = .str "insert" then
        (s.replica.tree.insert? hashes b).map fun tree =>
          { s with replica := { s.replica with tree := tree } }
      else if kind = .str "remove_backend" then
        (s.replica.tree.removeBackend? b).map fun tree =>
          { s with replica := { s.replica with tree := tree } }
      else some s

/-- The body of the loop of `sync`; `none` when it raises. -/
def applyEvent? (s : Progress) (e : RawEvent) : Option Progress :=
  (takeIn? intOfStr s e).map fun s =>
    { s with replica := { s.replica with appliedRemote := s.replica.appliedRemote + 1 } }

/-- Where the loop of `sync` starts: `poll` has emptied the inbox. -/
def begin (c : Replica) : Progress := ⟨{ c with inbox := [] }, false, false⟩

/-- The end of `sync`: reconcile what changed. -/
def finish (s : Progress) : Replica :=
  let c := if s.drainsChanged then s.replica.reconcileDrains else s.replica
  if s.membersChanged then c.reconcileMembership else c

/-- `sync()`; `none` when it raises. -/
def sync? (c : Replica) : Option Replica :=
  (Machine.run (applyEvent? intOfStr) c.begin c.inbox).map finish

/-- `receive_gossip(raw_events)`, with the number of events it accepts: texts that do not
decode are skipped, and `ingest` drops the replica's own events. -/
def receiveGossip (loads : String → Option (Json Number)) (c : Replica) (raw : List String) :
    Replica × Nat :=
  let decoded := raw.filterMap (decodeEvent intOfStr loads)
  let foreign := decoded.filter fun e => e.origin != .str c.replicaId
  ({ c with inbox := c.inbox ++ foreign }, decoded.length)

end Sync

end Replica

end Gateway.Gossip
