import Gateway.Cluster.Isolation
import Gateway.Cluster.Wire
import Gateway.RadixTree.Memory

/-!
Well-typed gossip does not raise.

`RawEvent.Typed` is what the annotations of the event classes say, as far as it matters to
`sync`: ids and hashes are hashable, origins are strings, and the versions of a digest
read. `Replica.Typed` is what such events leave behind: the edges of the tree hold hashable
hashes, and every stored origin is a string.

* `typed_init`, `Typed.applicable`, `Typed.applyEvent?`: a fresh replica is typed; a typed event
  applies to a typed replica, and leaves it typed.
* `isolated_of_typed`: so a batch whose events are typed is isolated, after any number of
  such batches.
* `typed_of_published`, `isolated_published`: what replicas publish decodes to typed events,
  so the texts that break `sync` come from elsewhere.
-/

namespace Gateway

/-! ### Hashes on the edges of a tree -/

namespace RadixTree

section Edges

variable {H B : Type} [DecidableEq H] [DecidableEq B] {P : H → Prop}

/-- Every hash on an edge satisfies `P`. -/
def Edges (P : H → Prop) (t : RadixTree H B) : Prop := ∀ n, ∀ h ∈ (t.node n).edge, P h

omit [DecidableEq H] [DecidableEq B] in
theorem Edges.modify {t : RadixTree H B} (all : Edges P t) {n : NodeId} {f : Node H B → Node H B}
    (kept : ∀ h ∈ (f (t.node n)).edge, P h) : Edges P (t.modify n f) := by
  intro m
  by_cases here : m = n
  · subst here
    simpa [RadixTree.modify] using kept
  · simpa [RadixTree.modify, here] using all m

omit [DecidableEq H] [DecidableEq B] in
theorem Edges.newNode {t : RadixTree H B} (all : Edges P t) {nd : Node H B}
    (kept : ∀ h ∈ nd.edge, P h) : Edges P (t.newNode nd) := by
  intro m
  by_cases here : m = t.next
  · subst here
    simpa [RadixTree.newNode] using kept
  · simpa [RadixTree.newNode, here] using all m

omit [DecidableEq B] in
theorem Edges.setChild {t : RadixTree H B} (all : Edges P t) (n : NodeId) (k : H) (c : NodeId) :
    Edges P (t.setChild n k c) :=
  all.modify (all n)

omit [DecidableEq B] in
/-- Only the edges matter. -/
theorem Edges.of_shape {t t' : RadixTree H B} (all : Edges P t) (same : t'.shape = t.shape) :
    Edges P t' := by
  intro n h member
  have edge : (t'.node n).edge = (t.node n).edge := congrFun (congrArg Trie.Shape.edge same) n
  exact all n h (edge ▸ member)

omit [DecidableEq B] in
theorem Edges.attachLeaf {t : RadixTree H B} (all : Edges P t) {rest : List H}
    (hashes : ∀ h ∈ rest, P h) (n : NodeId) (k : H) : Edges P (t.attachLeaf n k rest) :=
  (all.newNode hashes).setChild n k t.next

theorem Edges.splitEdge {t : RadixTree H B} (all : Edges P t) (n : NodeId) (first : H)
    (child : NodeId) (j : Nat) : Edges P (t.splitEdge n first child j) := by
  have upper : ∀ h ∈ (t.node child).edge.take j, P h := fun h member =>
    all child h (List.mem_of_mem_take member)
  have lower : ∀ h ∈ (t.node child).edge.drop j, P h := fun h member =>
    all child h (List.mem_of_mem_drop member)
  have grown : Edges P (t.newNode (.new ((t.node child).edge.take j))) := all.newNode upper
  have cut := grown.modify (n := child)
    (f := fun nd => { nd with edge := (t.node child).edge.drop j }) lower
  simp only [RadixTree.splitEdge]
  -- The rest only sets children, holders and LRUs.
  intro m h member
  rw [trackAll_node] at member
  revert m h
  split
  · exact Edges.modify (cut.setChild n first t.next) (cut.setChild n first t.next _)
  · rename_i k tail _
    have linked := (cut.setChild t.next k child).setChild n first t.next
    exact linked.modify (linked _)

end Edges

end RadixTree

namespace Gossip

/-! ### The tree -/

namespace Tree

/-- The edges hold hashable hashes. -/
def Typed (t : Tree) : Prop := t.tree.Edges fun h => h.hashable = true

theorem walkable_of_hashable {T : Trie.Shape Value} (edges : ∀ n, ∀ h ∈ T.edge n, h.hashable = true)
    {hashes : List Value} (all : ∀ h ∈ hashes, h.hashable = true) (fuel : Nat) (node : NodeId) :
    Walkable T fuel node hashes := by
  have head : ∀ (l : List Value) (j : Nat), (∀ h ∈ l, h.hashable = true) →
      (l.drop j).head?.all Value.hashable = true := by
    intro l j each
    rw [Option.all_eq_true]
    intro k found
    exact each k (List.mem_of_mem_drop (List.mem_of_mem_head? found))
  induction fuel generalizing node hashes with
  | zero => simp [Walkable]
  | succ fuel ih =>
      cases hashes with
      | nil => simp [Walkable]
      | cons first rest =>
          rw [Walkable]
          refine ⟨all first List.mem_cons_self, ?_⟩
          cases T.kid node first with
          | none => trivial
          | some child =>
              simp only
              split
              · exact ih (fun h member => all h (List.mem_of_mem_drop member)) child
              · exact ⟨head _ _ (edges child), head _ _ all⟩

theorem edges_insertLoop? {P : Value → Prop} {b : Value} {fuel : Nat}
    {t t' : RadixTree Value Value} (edges : t.Edges P) {node : NodeId} {hashes : List Value}
    (all : ∀ h ∈ hashes, P h) (inserted : insertLoop? b fuel t node hashes = some t') :
    t'.Edges P := by
  induction fuel generalizing t node hashes with
  | zero => exact Option.some.inj inserted ▸ edges
  | succ fuel ih =>
      cases hashes with
      | nil => exact Option.some.inj inserted ▸ edges
      | cons first rest =>
          rw [insertLoop?] at inserted
          split at inserted
          · cases inserted
          · cases found : (t.node node).children.get? first with
            | none =>
                rw [found] at inserted
                rw [← Option.some.inj inserted]
                exact (edges.attachLeaf all node first).of_shape (RadixTree.shape_hold _ _ _)
            | some child =>
                simp only [found] at inserted
                split at inserted
                · exact ih (edges.of_shape (RadixTree.shape_hold _ _ _))
                    (fun h member => all h (List.mem_of_mem_drop member)) inserted
                · split at inserted
                  · cases inserted
                  · have cut := (edges.splitEdge node first child
                      (commonLen (t.node child).edge (first :: rest))).of_shape
                        (RadixTree.shape_hold _ b t.next)
                    split at inserted
                    · exact Option.some.inj inserted ▸ cut
                    · rename_i k tail dropped
                      have tail_all : ∀ h ∈ k :: tail, P h := fun h member =>
                        all h (List.mem_of_mem_drop (dropped ▸ member))
                      split at inserted
                      · rw [← Option.some.inj inserted]
                        exact (cut.attachLeaf tail_all t.next k).of_shape
                          (RadixTree.shape_hold _ _ _)
                      · cases inserted

theorem Typed.insertable {t : Tree} (typed : t.Typed) {hashes : List Value} {b : Value}
    (key : b.hashable = true) (all : ∀ h ∈ hashes, h.hashable = true) : t.Insertable hashes b :=
  fun _ => ⟨key, walkable_of_hashable (T := t.tree.shape) typed all _ _⟩

theorem Typed.insert? {t t' : Tree} (typed : t.Typed) {hashes : List Value} {b : Value}
    (all : ∀ h ∈ hashes, h.hashable = true) (inserted : t.insert? hashes b = some t') :
    t'.Typed := by
  rw [Tree.insert?] at inserted
  split at inserted
  · exact Option.some.inj inserted ▸ typed
  · obtain ⟨tree, walked, rfl⟩ := Option.map_eq_some_iff.mp inserted
    have inserted := edges_insertLoop? (t := { t.tree with clock := t.tree.clock + 1 }) typed all walked
    exact inserted.of_shape (RadixTree.shape_evict _ _)

theorem Typed.removeBackend {t : Tree} (typed : t.Typed) (b : Value) : (t.removeBackend b).Typed :=
  RadixTree.Edges.of_shape typed (RadixTree.shape_removeBackend _ _)

end Tree

/-! ### The maps -/

/-- A string, as origins are. -/
def Named : Value → Prop
  | .str _ => True
  | _ => False

theorem Named.comparable {x y : Value} (one : Named x) (other : Named y) :
    ∃ newer, x.gt? y = some newer := by
  cases x <;> cases y <;> simp_all [Named, Value.gt?]

section Maps

variable {V : Type} {differs : V → V → Bool} {m : Lww Value V Value}

/-- Every stored origin is a string. -/
def Signed (m : Lww Value V Value) : Prop := ∀ b e, m.entries.get? b = some e → Named e.origin

theorem Signed.adoptable (signed : Signed m) {b : Value} {e : Entry V Value}
    (key : b.hashable = true) (named : Named e.origin) : Adoptable m b e :=
  ⟨key, fun cur stored _ _ => named.comparable (signed b cur stored)⟩

theorem Signed.set (signed : Signed m) {b : Value} {e : Entry V Value} (named : Named e.origin)
    (clock : Int) : Signed ⟨m.entries.set b e, clock⟩ := by
  intro b' e' found
  simp only [Dict.get?_set] at found
  split at found
  · cases found
    exact named
  · exact signed b' e' found

theorem Signed.adopt? (signed : Signed m) {b : Value} {e : Entry V Value} (named : Named e.origin)
    {s : Lww Value V Value × Bool} (adopted : adopt? differs m b e = some s) : Signed s.1 := by
  have observed : Signed (m.observe e.ts) := fun b' e' found =>
    signed b' e' (Lww.entries_observe m e.ts ▸ found)
  simp only [Gossip.adopt?] at adopted
  split at adopted
  · cases adopted
  · split at adopted
    · cases adopted
      exact observed.set named _
    · obtain ⟨newer, -, rfl⟩ := Option.map_eq_some_iff.mp adopted
      split
      · exact observed.set named _
      · exact observed

/-- A version of a digest that reads, under a hashable key and from a named origin. -/
def TypedVersion (read : Value → Option (Entry V Value)) (item : Value × Value) : Prop :=
  item.1.hashable = true ∧ ∃ e, read item.2 = some e ∧ Named e.origin

variable {read : Value → Option (Entry V Value)}

theorem Signed.mergeItem? {s s' : Lww Value V Value × Bool} {item : Value × Value}
    (signed : Signed s.1) (typed : TypedVersion read item)
    (merged : mergeItem? differs read s item = some s') : Signed s'.1 := by
  obtain ⟨-, e, reads, named⟩ := typed
  rw [Gossip.mergeItem?, reads, Option.bind_some] at merged
  obtain ⟨⟨m', changed⟩, adopted, rfl⟩ := Option.map_eq_some_iff.mp merged
  show Signed m'
  exact signed.adopt? named adopted

theorem Signed.mergeable (signed : Signed m) {entries : Dict Value Value}
    (typed : ∀ item ∈ entries.items, TypedVersion read item) :
    Mergeable differs read m entries := by
  refine Machine.Along.of_invariant (I := fun s => Signed s.1) ?_ ?_ signed typed
  · exact fun s item s' signed typed merged => signed.mergeItem? typed merged
  · rintro s item signed ⟨key, e, reads, named⟩
    exact ⟨e, reads, signed.adoptable key named⟩

theorem Signed.merge? (signed : Signed m) {entries : Dict Value Value}
    (typed : ∀ item ∈ entries.items, TypedVersion read item) {s : Lww Value V Value × Bool}
    (merged : merge? differs read m entries = some s) : Signed s.1 := by
  have along : Machine.Along (Gossip.mergeItem? differs read)
      (fun _ item => TypedVersion read item) (m, false) entries.items :=
    .of_forall _ fun item member _ => typed item member
  exact Machine.run_invariant_along (I := fun s => Signed s.1)
    (fun s item s' signed typed merged => signed.mergeItem? typed merged) signed along merged

end Maps

/-! ### Events and replicas -/

section Typing

variable (intOfStr : String → Option Int)

/-- The fields of the event have the types of their annotations, as far as `sync` uses
them. -/
def RawEvent.Typed : RawEvent → Prop
  | .prefixEvent _ b _ _ hashes => b.hashable = true ∧ ∀ h ∈ hashes, h.hashable = true
  | .loadEvent origin _ _ unhealthy =>
      origin.hashable = true ∧ ∀ b ∈ unhealthy, b.hashable = true
  | .drainEvent origin _ _ b _ => b.hashable = true ∧ Named origin
  | .drainDigest _ _ entries => ∀ item ∈ entries.items, TypedVersion (readDrain? intOfStr) item
  | .memberEvent origin _ _ b _ _ _ => b.hashable = true ∧ Named origin
  | .membershipDigest _ _ entries =>
      ∀ item ∈ entries.items, TypedVersion (readMember? intOfStr) item

namespace Replica

/-- What typed events leave behind. -/
structure Typed (c : Replica) : Prop where
  tree : c.tree.Typed
  drain : Signed c.drain
  membership : Signed c.membership

theorem typed_init (replicaId : String) (cap : Int) (registry : Option Registry) :
    (init replicaId cap registry).Typed where
  tree := by
    intro n h member
    cases member
  drain := by
    intro b e found
    cases found
  membership := by
    intro b e found
    cases found

variable {intOfStr}

/-- **Progress.** A typed event applies to a typed replica. -/
theorem Typed.applicable {s : Progress} (typed : s.replica.Typed) {e : RawEvent}
    (event : e.Typed intOfStr) : Applicable intOfStr s e := by
  cases e with
  | prefixEvent kind b origin seq hashes =>
      exact ⟨fun _ => typed.tree.insertable event.1 event.2, fun _ => .inl event.1⟩
  | loadEvent origin seq inflight unhealthy => exact event
  | drainEvent origin seq ts b draining => exact typed.drain.adoptable event.1 event.2
  | drainDigest origin seq entries => exact typed.drain.mergeable event
  | memberEvent origin seq action b url model ts =>
      exact typed.membership.adoptable event.1 event.2
  | membershipDigest origin seq entries => exact typed.membership.mergeable event

/-- **Preservation.** A typed event leaves a typed replica typed. -/
theorem Typed.applyEvent? {s s' : Progress} (typed : s.replica.Typed) {e : RawEvent}
    (event : e.Typed intOfStr) (applied : applyEvent? intOfStr s e = some s') :
    s'.replica.Typed := by
  obtain ⟨mid, taken, rfl⟩ := Option.map_eq_some_iff.mp applied
  suffices mid.replica.Typed from ⟨this.tree, this.drain, this.membership⟩
  cases e with
  | prefixEvent kind b origin seq hashes =>
      simp only [takeIn?] at taken
      split at taken
      · obtain ⟨tree, inserted, rfl⟩ := Option.map_eq_some_iff.mp taken
        exact ⟨typed.tree.insert? event.2 inserted, typed.drain, typed.membership⟩
      · split at taken
        · obtain ⟨tree, removed, rfl⟩ := Option.map_eq_some_iff.mp taken
          rw [Tree.removeBackend?, if_pos (by rw [event.1, Bool.true_or])] at removed
          exact ⟨Option.some.inj removed ▸ typed.tree.removeBackend b, typed.drain, typed.membership⟩
        · exact Option.some.inj taken ▸ typed
  | loadEvent origin seq inflight unhealthy =>
      obtain ⟨fleet, -, rfl⟩ := Option.map_eq_some_iff.mp taken
      exact ⟨typed.tree, typed.drain, typed.membership⟩
  | drainEvent origin seq ts b draining =>
      obtain ⟨⟨drain, changed⟩, adopted, rfl⟩ := Option.map_eq_some_iff.mp taken
      exact ⟨typed.tree, typed.drain.adopt? event.2 adopted, typed.membership⟩
  | drainDigest origin seq entries =>
      obtain ⟨⟨drain, changed⟩, merged, rfl⟩ := Option.map_eq_some_iff.mp taken
      exact ⟨typed.tree, typed.drain.merge? event merged, typed.membership⟩
  | memberEvent origin seq action b url model ts =>
      obtain ⟨⟨membership, changed⟩, adopted, rfl⟩ := Option.map_eq_some_iff.mp taken
      exact ⟨typed.tree, typed.drain, typed.membership.adopt? event.2 adopted⟩
  | membershipDigest origin seq entries =>
      obtain ⟨⟨membership, changed⟩, merged, rfl⟩ := Option.map_eq_some_iff.mp taken
      exact ⟨typed.tree, typed.drain, typed.membership.merge? event merged⟩

theorem Typed.reconcileMembership {c : Replica} (typed : c.Typed) : c.reconcileMembership.Typed := by
  rw [Replica.reconcileMembership]
  split
  · exact typed
  · refine ⟨?_, typed.drain, typed.membership⟩
    refine Machine.foldl_invariant (I := fun s : Registry × Tree => s.2.Typed) ?_ typed.tree _
    rintro ⟨r, tree⟩ ⟨b, e⟩ typed
    simp only
    split
    · exact typed.removeBackend b
    · exact typed

theorem Typed.finish {s : Progress} (typed : s.replica.Typed) : (finish s).Typed := by
  have drained : (if s.drainsChanged then s.replica.reconcileDrains else s.replica).Typed := by
    split
    · exact ⟨typed.tree, typed.drain, typed.membership⟩
    · exact typed
  simp only [Replica.finish]
  split
  · exact drained.reconcileMembership
  · exact drained

/-- **A typed batch is isolated**, and the replica is ready for the next one. -/
theorem isolated_of_typed {loads : String → Option (Json Number)} {c : Replica} (typed : c.Typed)
    (queued : ∀ e ∈ c.inbox, e.Typed intOfStr) {raw : List String}
    (batch : ∀ text ∈ raw, ∀ e, decodeEvent intOfStr loads text = some e → e.Typed intOfStr) :
    Isolated intOfStr loads c raw ∧
      ∀ c', sync? intOfStr (receiveGossip intOfStr loads c raw).1 = some c' → c'.Typed := by
  have events : ∀ e ∈ (receiveGossip intOfStr loads c raw).1.inbox, e.Typed intOfStr := by
    intro e member
    rcases List.mem_append.mp member with before | received
    · exact queued e before
    · obtain ⟨text, pushed, decoded⟩ := List.mem_filterMap.mp (List.mem_filter.mp received).1
      exact batch text pushed e decoded
  have start : (receiveGossip intOfStr loads c raw).1.begin.replica.Typed :=
    ⟨typed.tree, typed.drain, typed.membership⟩
  have keeps : ∀ s e s', s.replica.Typed → e.Typed intOfStr →
      Replica.applyEvent? intOfStr s e = some s' → s'.replica.Typed :=
    fun _ _ _ typed event applied => typed.applyEvent? event applied
  constructor
  · rw [isolated_iff]
    exact .of_invariant keeps (fun _ _ typed event => typed.applicable event) start events
  · intro c' synced
    obtain ⟨s, reach, rfl⟩ := Option.map_eq_some_iff.mp synced
    have last : s.replica.Typed :=
      Machine.run_invariant_along (I := fun s => s.replica.Typed) keeps start
        (.of_forall _ fun e member (_ : Progress) => events e member) reach
    exact last.finish

end Replica

end Typing

/-! ### What a replica publishes -/

section Published

variable (intOfStr : String → Option Int)

/-- An integer, and a boolean. -/
def intValue (n : Int) : Value := .num (.fin n)

def boolValue (b : Bool) : Value := .num (.fin (if b then 1 else 0))

theorem toInt?_intValue (n : Int) : (intValue n).toInt? intOfStr = some n := by
  simp [intValue, Value.toInt?]

/-- A dictionary with string keys. -/
def valueDict {V W : Type} (f : V → W) (d : Dict String V) : Dict Value W :=
  .ofItems (d.items.map fun item => (.str item.1, f item.2))

theorem items_valueDict {V W : Type} (f : V → W) (d : Dict String V) :
    (valueDict f d).items = d.items.map fun item => (Value.str item.1, f item.2) := by
  refine Dict.items_foldl_set ?_
  have keys : (d.items.map fun item => (Value.str item.1, f item.2)).map Prod.fst =
      d.keys.map Value.str := by
    rw [Dict.keys, List.map_map, List.map_map]
    rfl
  have distinct : (d.keys.map Value.str).Nodup := d.nodup.map fun _ _ same => Value.str.inj same
  rw [Dict.empty, List.nil_append, keys]
  exact distinct

/-- `[draining, ts, owner]`. -/
def drainVersion (e : Entry Bool String) : Value :=
  .list [boolValue e.value, intValue e.ts, .str e.origin]

/-- `[present, url, model, ts, owner]`. -/
def memberVersion (e : Entry Gateway.Member String) : Value :=
  .list [boolValue e.value.present, .str e.value.url, .str e.value.model,
    intValue e.ts, .str e.origin]

/-- An event of the typed model, as a peer decodes it. -/
def ofWire : WireEvent → RawEvent
  | .prefixEvent kind b origin seq hashes =>
      .prefixEvent (.str (WireEvent.kindTag kind)) (.str b) (.str origin) seq (hashes.map intValue)
  | .loadEvent origin seq inflight unhealthy =>
      .loadEvent (.str origin) seq (valueDict id inflight) (unhealthy.map .str)
  | .drainEvent origin seq ts b draining => .drainEvent (.str origin) seq ts (.str b) draining
  | .drainDigest origin seq entries => .drainDigest (.str origin) seq (valueDict drainVersion entries)
  | .memberEvent origin seq action b url model ts =>
      .memberEvent (.str origin) seq action (.str b) (.str url) (.str model) ts
  | .membershipDigest origin seq entries =>
      .membershipDigest (.str origin) seq (valueDict memberVersion entries)

theorem truthy_boolValue (b : Bool) : (boolValue b).truthy = b := by
  cases b <;> simp [boolValue, Value.truthy]

theorem readDrain?_drainVersion (e : Entry Bool String) :
    readDrain? intOfStr (drainVersion e) = some ⟨e.value, e.ts, .str e.origin⟩ := by
  simp [readDrain?, drainVersion, Value.index?, toInt?_intValue, truthy_boolValue]

theorem readMember?_memberVersion (e : Entry Gateway.Member String) :
    readMember? intOfStr (memberVersion e) =
      some ⟨⟨e.value.present, .str e.value.url, .str e.value.model⟩, e.ts, .str e.origin⟩ := by
  simp [readMember?, memberVersion, Value.index?, toInt?_intValue, truthy_boolValue]

theorem typed_ofWire (e : WireEvent) : (ofWire e).Typed intOfStr := by
  cases e with
  | prefixEvent kind b origin seq hashes =>
      exact ⟨rfl, by simp [intValue, Value.hashable]⟩
  | loadEvent origin seq inflight unhealthy => exact ⟨rfl, by simp [Value.hashable]⟩
  | drainEvent origin seq ts b draining => exact ⟨rfl, trivial⟩
  | drainDigest origin seq entries =>
      intro item member
      rw [items_valueDict] at member
      obtain ⟨⟨b, e⟩, -, rfl⟩ := List.mem_map.mp member
      exact ⟨rfl, ⟨e.value, e.ts, .str e.origin⟩, readDrain?_drainVersion intOfStr e, trivial⟩
  | memberEvent origin seq action b url model ts => exact ⟨rfl, trivial⟩
  | membershipDigest origin seq entries =>
      intro item member
      rw [items_valueDict] at member
      obtain ⟨⟨b, e⟩, -, rfl⟩ := List.mem_map.mp member
      exact ⟨rfl, ⟨⟨e.value.present, .str e.value.url, .str e.value.model⟩, e.ts, .str e.origin⟩,
        readMember?_memberVersion intOfStr e, trivial⟩

variable {d : Items} {key : String}

theorem intField?_of_lookup {n : Int} (found : Dict.lookup key d = some (.int n)) :
    intField? intOfStr d key = some n := by
  rw [intField?, field?, found]
  exact toInt?_intValue intOfStr n

theorem readOr_list {items : List (Json Number)} (found : Dict.lookup key d = some (.list items)) :
    readOr Value.iterate? d key [] = some (items.map Value.ofJson) := by
  rw [readOr, found]
  cases items <;> rfl

theorem length_ofJsonItems (items : List (String × Json Number)) :
    (Value.ofJsonItems items).length = items.length := by
  induction items with
  | nil => rfl
  | cons item rest ih => simp [Value.ofJsonItems, ih]

/-- An object is falsy when it is empty, and then it is the default it is replaced by. -/
theorem readOr_obj {A : Type} (read : Json Number → Option A) {default : A}
    {items : List (String × Json Number)} (found : Dict.lookup key d = some (.obj items))
    (empty : read (.obj []) = some default) :
    readOr read d key default = read (.obj items) := by
  rw [readOr, found]
  cases items with
  | nil => exact empty.symm
  | cons item rest =>
      refine if_pos ?_
      rw [Value.ofJson, Value.truthy, Bool.not_eq_true', List.isEmpty_eq_false_iff,
        ← List.length_pos_iff, List.length_insertionSort, length_ofJsonItems]
      exact Nat.succ_pos _

theorem readOr_dict? {V : Type} {write : V → Json Number} {entries : Dict String V}
    (found : Dict.lookup key d = some (WireEvent.objectOf write entries)) :
    readOr dict? d key .empty = some (valueDict (fun v => Value.ofJson (write v)) entries) := by
  refine (readOr_obj dict? found rfl).trans ?_
  simp only [dict?, Value.pairs?, List.map_map, Option.map_some]
  rfl

theorem readOr_counts? (inflight : Dict String Int)
    (found : Dict.lookup key d = some (WireEvent.objectOf .int inflight)) :
    readOr (counts? intOfStr) d key .empty = some (valueDict id inflight) := by
  have counts : ∀ items : List (String × Int),
      (items.map fun item => (item.1, (Json.int item.2 : Json Number))).mapM
        (fun item => ((Value.ofJson item.2).toInt? intOfStr).map fun n => (Value.str item.1, n)) =
      some (items.map fun item => (Value.str item.1, item.2)) := by
    intro items
    induction items with
    | nil => rfl
    | cons item rest ih =>
        have back : (Value.ofJson (.int item.2)).toInt? intOfStr = some item.2 :=
          toInt?_intValue intOfStr item.2
        simp [List.mapM_cons, back, ih]
  refine (readOr_obj (counts? intOfStr) found rfl).trans ?_
  rw [counts?, counts]
  rfl

/-! Each decoder reads what its encoder writes. -/

theorem prefixOfJson_written (tag b origin : String) (seq : Int) (hashes : List Int) :
    prefixOfJson intOfStr [("k", .str tag), ("b", .str b), ("o", .str origin), ("s", .int seq),
        ("h", .list (hashes.map .int))] =
      some (.prefixEvent (.str tag) (.str b) (.str origin) seq (hashes.map intValue)) := by
  rw [prefixOfJson, intField?_of_lookup intOfStr (n := seq) rfl, readOr_list rfl]
  simp [field?, Dict.lookup, Value.ofJson, intValue]

theorem loadOfJson_written (origin : String) (seq : Int) (inflight : Dict String Int)
    (unhealthy : List String) :
    loadOfJson intOfStr [("k", .str "load"), ("o", .str origin), ("s", .int seq),
        ("l", WireEvent.objectOf .int inflight), ("u", .list (unhealthy.map .str))] =
      some (ofWire (.loadEvent origin seq inflight unhealthy)) := by
  rw [loadOfJson, intField?_of_lookup intOfStr (n := seq) rfl,
    readOr_counts? intOfStr inflight rfl, readOr_list rfl]
  simp [field?, Dict.lookup, Value.ofJson, ofWire]

theorem drainOfJson_written (origin : String) (seq ts : Int) (b : String) (draining : Bool) :
    drainOfJson intOfStr [("k", .str "drainop"), ("o", .str origin), ("s", .int seq),
        ("t", .int ts), ("b", .str b), ("d", .int (if draining then 1 else 0))] =
      some (ofWire (.drainEvent origin seq ts b draining)) := by
  rw [drainOfJson, intField?_of_lookup intOfStr (n := seq) rfl,
    intField?_of_lookup intOfStr (n := ts) rfl]
  cases draining <;> simp [field?, Dict.lookup, Value.ofJson, ofWire, Value.truthy]

theorem drainDigestOfJson_written (origin : String) (seq : Int)
    (entries : Dict String (Entry Bool String)) :
    drainDigestOfJson intOfStr [("k", .str "draindigest"), ("o", .str origin), ("s", .int seq),
        ("e", WireEvent.objectOf WireEvent.drainEntry entries)] =
      some (ofWire (.drainDigest origin seq entries)) := by
  rw [drainDigestOfJson, intField?_of_lookup intOfStr (n := seq) rfl,
    readOr_dict? (V := Entry Bool String) rfl]
  rfl

theorem memberOfJson_written (tag origin : String) (seq : Int) (action : MemberAction)
    (b url model : String) (ts : Int) :
    memberOfJson intOfStr action [("k", .str tag), ("o", .str origin), ("s", .int seq),
        ("b", .str b), ("u", .str url), ("m", .str model), ("t", .int ts)] =
      some (ofWire (.memberEvent origin seq action b url model ts)) := by
  have stamp := toInt?_intValue intOfStr ts
  simp only [intValue] at stamp
  rw [memberOfJson, intField?_of_lookup intOfStr (n := seq) rfl]
  simp [field?, fieldOr, Dict.lookup, Value.ofJson, ofWire, stamp]

theorem membershipDigestOfJson_written (origin : String) (seq : Int)
    (entries : Dict String (Entry Gateway.Member String)) :
    membershipDigestOfJson intOfStr [("k", .str "member_digest"), ("o", .str origin),
        ("s", .int seq), ("e", WireEvent.objectOf WireEvent.memberEntry entries)] =
      some (ofWire (.membershipDigest origin seq entries)) := by
  rw [membershipDigestOfJson, intField?_of_lookup intOfStr (n := seq) rfl,
    readOr_dict? (V := Entry Gateway.Member String) rfl]
  rfl

/-- What a replica writes, a peer reads as the event it was. -/
theorem eventOfJson_toDoc {e : WireEvent} (tagged : WireEvent.Tagged e) :
    ∃ items, (WireEvent.toDoc e : Json Number) = .obj items ∧
      eventOfJson intOfStr items = some (ofWire e) := by
  cases e with
  | prefixEvent kind b origin seq hashes =>
      cases kind with
      | insert => exact ⟨_, rfl, prefixOfJson_written intOfStr "insert" b origin seq hashes⟩
      | removeBackend =>
          exact ⟨_, rfl, prefixOfJson_written intOfStr "remove_backend" b origin seq hashes⟩
      | other kind => exact absurd tagged id
  | loadEvent origin seq inflight unhealthy =>
      exact ⟨_, rfl, loadOfJson_written intOfStr origin seq inflight unhealthy⟩
  | drainEvent origin seq ts b draining =>
      exact ⟨_, rfl, drainOfJson_written intOfStr origin seq ts b draining⟩
  | drainDigest origin seq entries =>
      exact ⟨_, rfl, drainDigestOfJson_written intOfStr origin seq entries⟩
  | memberEvent origin seq action b url model ts =>
      cases action with
      | add =>
          exact ⟨_, rfl,
            memberOfJson_written intOfStr "member_add" origin seq .add b url model ts⟩
      | remove =>
          exact ⟨_, rfl,
            memberOfJson_written intOfStr "member_remove" origin seq .remove b url model ts⟩
  | membershipDigest origin seq entries =>
      exact ⟨_, rfl, membershipDigestOfJson_written intOfStr origin seq entries⟩

/-- **What replicas publish is typed.** Any library that reads back what it wrote gives the
peer a typed event. -/
theorem typed_of_published (lib : JsonLib Number) {e : WireEvent} (tagged : WireEvent.Tagged e) :
    ∃ raw, decodeEvent intOfStr lib.loads (WireEvent.toJson lib e) = some raw ∧
      raw.Typed intOfStr := by
  obtain ⟨items, doc, read⟩ := eventOfJson_toDoc intOfStr tagged
  refine ⟨ofWire e, ?_, typed_ofWire intOfStr e⟩
  rw [decodeEvent, WireEvent.toJson, lib.loads_dumps _ (WireEvent.plain_toDoc e), doc]
  exact read

/-- So whatever replicas push to a replica that knows nothing else, one event does not hurt
another. -/
theorem isolated_published (lib : JsonLib Number) {c : Replica} (typed : c.Typed)
    (idle : c.inbox = []) {events : List WireEvent} (tagged : ∀ e ∈ events, WireEvent.Tagged e) :
    Replica.Isolated intOfStr lib.loads c (events.map (WireEvent.toJson lib)) := by
  refine (Replica.isolated_of_typed typed (by simp [idle]) ?_).1
  intro text member e decoded
  obtain ⟨sent, published, rfl⟩ := List.mem_map.mp member
  obtain ⟨raw, decoded', typed⟩ := typed_of_published intOfStr lib (tagged sent published)
  obtain rfl := Option.some.inj (decoded.symm.trans decoded')
  exact typed

end Published

end Gossip

end Gateway
