import Gateway.Lib.Lww

/-!
The replicated maps of `gateway/cluster/drain_state.py` and
`gateway/cluster/membership_state.py`.

Both are last-writer-wins maps keyed by backend, and their methods are those of
`Lww` at their own value type and their own test for a change of value: a drain
entry changes when the flag does, a membership entry when the presence or the URL
does (not when the model alone does). Tuple comparison `(ts, origin) > (ts', origin')`
is the lexicographic order of versions.
-/

namespace Gateway

variable {B O : Type} [DecidableEq B] [LinearOrder O]

/-- `DrainState`: backend to `(draining, ts, origin)`. -/
abbrev DrainState (B O : Type) := Lww B Bool O

namespace DrainState

/-- `cur[0] != draining`. -/
def differs (cur draining : Bool) : Bool := cur != draining

/-- `set_local(backend_id, draining, origin)`, with the timestamp it returns. -/
def setLocal (s : DrainState B O) (b : B) (draining : Bool) (origin : O) : DrainState B O × Int :=
  Lww.setLocal s b draining origin

/-- `apply(backend_id, draining, ts, origin)`. -/
def apply (s : DrainState B O) (b : B) (draining : Bool) (ts : Int) (origin : O) :
    DrainState B O × Bool :=
  Lww.apply differs s b ⟨draining, ts, origin⟩

/-- `digest()`. -/
def digest (s : DrainState B O) : Dict B (Entry Bool O) := s.entries

/-- `merge(entries)`. -/
def merge (s : DrainState B O) (entries : Dict B (Entry Bool O)) : DrainState B O × Bool :=
  Lww.merge differs s entries

/-- `backend_id in drained()`. -/
def isDrained (s : DrainState B O) (b : B) : Bool :=
  match s.entries.get? b with
  | none => false
  | some e => e.value

/-- `len(self)`. -/
def len (s : DrainState B O) : Nat := s.entries.items.length

end DrainState

/-- The data of a membership entry: `(present, url, model)`. -/
structure Member where
  present : Bool
  url : String
  model : String
  deriving DecidableEq, Repr

/-- `MembershipState`: backend to `(present, url, model, ts, origin)`. -/
abbrev MembershipState (B O : Type) := Lww B Member O

namespace MembershipState

/-- `cur[0] != present or cur[1] != url`. -/
def differs (cur new : Member) : Bool := cur.present != new.present || cur.url != new.url

/-- `set_local(backend_id, present, url, model, origin)`, with the timestamp it
returns. -/
def setLocal (s : MembershipState B O) (b : B) (member : Member) (origin : O) :
    MembershipState B O × Int :=
  Lww.setLocal s b member origin

/-- `apply(backend_id, present, url, model, ts, origin)`. -/
def apply (s : MembershipState B O) (b : B) (member : Member) (ts : Int) (origin : O) :
    MembershipState B O × Bool :=
  Lww.apply differs s b ⟨member, ts, origin⟩

/-- `digest()`. -/
def digest (s : MembershipState B O) : Dict B (Entry Member O) := s.entries

/-- `merge(entries)`. -/
def merge (s : MembershipState B O) (entries : Dict B (Entry Member O)) :
    MembershipState B O × Bool :=
  Lww.merge differs s entries

/-- `present()`: the present backends with `(url, model)`, in map order. -/
def present (s : MembershipState B O) : List (B × String × String) :=
  s.entries.items.filterMap fun (b, e) =>
    if e.value.present then some (b, e.value.url, e.value.model) else none

/-- `removed()`: the tombstones. A Python set; its iteration order does not matter
to its only use, which pops each of them. -/
def removed (s : MembershipState B O) : List B :=
  s.entries.items.filterMap fun (b, e) => if e.value.present then none else some b

/-- `len(self)`. -/
def len (s : MembershipState B O) : Nat := s.entries.items.length

end MembershipState

end Gateway
