import Mathlib.Algebra.Order.Ring.Unbundled.Rat
import Mathlib.Data.List.Sort
import Mathlib.Data.String.Basic
import Gateway.Lib.Json

/-!
Values of a dynamically typed program, and what raises on them.

A value here is one of Python's, up to equality: booleans, integers and floats are their
numbers, and the items of a dictionary are listed by key. So two values are equal as
dictionary keys, or inside a list, precisely when they are equal here. `NaN` is one value
(a JSON reader has one object for it), which `==` alone tells from itself (`Value.eq`).

Operations that raise on some values are partial:

* `hashable`: what may be a key of a dictionary or a member of a set.
* `gt?`: `x > y`, for numbers, for strings, and for lists item by item.
* `index?`, `toInt?`, `iterate?`, `pairs?`: `x[i]`, `int(x)`, `list(x)`, `dict(x)`.
-/

namespace Gateway

/-- A number, by its value. -/
inductive Number where
  | fin (q : ℚ)
  | inf
  | negInf
  | nan
  deriving DecidableEq

/-- `x < y`; nothing compares with `NaN`. -/
def Number.lt : Number → Number → Bool
  | .nan, _ => false
  | _, .nan => false
  | .fin p, .fin q => p < q
  | .negInf, y => y != .negInf
  | _, .negInf => false
  | .inf, _ => false
  | .fin _, .inf => true

/-- A value, up to equality. -/
inductive Value where
  | null
  | num (x : Number)
  | str (s : String)
  | list (items : List Value)
  | dict (items : List (String × Value))

namespace Value

/-! ### Equality -/

mutual

def beq : Value → Value → Bool
  | .null, .null => true
  | .num x, .num y => x = y
  | .str s, .str t => s = t
  | .list xs, .list ys => beqList xs ys
  | .dict xs, .dict ys => beqItems xs ys
  | _, _ => false

def beqList : List Value → List Value → Bool
  | [], [] => true
  | x :: xs, y :: ys => beq x y && beqList xs ys
  | _, _ => false

def beqItems : List (String × Value) → List (String × Value) → Bool
  | [], [] => true
  | (k, x) :: xs, (k', y) :: ys => k = k' && beq x y && beqItems xs ys
  | _, _ => false

end

mutual

theorem eq_of_beq : ∀ {x y : Value}, beq x y = true → x = y
  | .null, .null, _ => rfl
  | .num _, .num _, same => congrArg num (of_decide_eq_true same)
  | .str _, .str _, same => congrArg str (of_decide_eq_true same)
  | .list _, .list _, same => congrArg list (eq_of_beqList same)
  | .dict _, .dict _, same => congrArg dict (eq_of_beqItems same)

theorem eq_of_beqList : ∀ {xs ys : List Value}, beqList xs ys = true → xs = ys
  | [], [], _ => rfl
  | x :: xs, y :: ys, same => by
      rw [beqList, Bool.and_eq_true] at same
      rw [eq_of_beq same.1, eq_of_beqList same.2]

theorem eq_of_beqItems : ∀ {xs ys : List (String × Value)}, beqItems xs ys = true → xs = ys
  | [], [], _ => rfl
  | (k, x) :: xs, (k', y) :: ys, same => by
      rw [beqItems, Bool.and_eq_true, Bool.and_eq_true] at same
      rw [of_decide_eq_true same.1.1, eq_of_beq same.1.2, eq_of_beqItems same.2]

end

mutual

theorem beq_refl : ∀ x : Value, beq x x = true
  | .null => rfl
  | .num _ => decide_eq_true rfl
  | .str _ => decide_eq_true rfl
  | .list xs => beqList_refl xs
  | .dict xs => beqItems_refl xs

theorem beqList_refl : ∀ xs : List Value, beqList xs xs = true
  | [] => rfl
  | x :: xs => by rw [beqList, beq_refl x, beqList_refl xs, Bool.and_self]

theorem beqItems_refl : ∀ xs : List (String × Value), beqItems xs xs = true
  | [] => rfl
  | (k, x) :: xs => by
      rw [beqItems, beq_refl x, beqItems_refl xs, decide_eq_true rfl, Bool.and_self, Bool.and_self]

end

instance : DecidableEq Value := fun x y =>
  decidable_of_iff (beq x y = true) ⟨eq_of_beq, fun same => same ▸ beq_refl x⟩

/-- `x == y`. -/
def eq (x y : Value) : Bool := x = y && x != .num .nan

/-! ### Hashing, comparing, testing -/

/-- `hash(x)` does not raise. -/
def hashable : Value → Bool
  | .list _ => false
  | .dict _ => false
  | _ => true

mutual

/-- `x > y`; `none` is the `TypeError`. -/
def gt? : Value → Value → Option Bool
  | .num x, .num y => some (y.lt x)
  | .str s, .str t => some (t < s)
  | .list xs, .list ys => gtList? xs ys
  | _, _ => none

/-- The same for sequences: the first items that differ decide. -/
def gtList? : List Value → List Value → Option Bool
  | x :: xs, y :: ys => if x = y then gtList? xs ys else gt? x y
  | _ :: _, [] => some true
  | [], _ => some false

end

/-- `bool(x)`. -/
def truthy : Value → Bool
  | .null => false
  | .num x => x != .fin 0
  | .str s => s != ""
  | .list items => !items.isEmpty
  | .dict items => !items.isEmpty

/-- `x[i]`; `none` when it raises. -/
def index? : Value → Nat → Option Value
  | .list items, i => items[i]?
  | .str s, i => (s.toList[i]?).map fun c => .str (String.singleton c)
  | _, _ => none

/-- `int(x)`, with the reading of strings as a parameter; `none` when it raises. -/
def toInt? (intOfStr : String → Option Int) : Value → Option Int
  | .num (.fin q) => some (q.num.tdiv q.den)
  | .str s => intOfStr s
  | _ => none

/-! ### Values from documents -/

mutual

/-- The value of a document. -/
def ofJson : Json Number → Value
  | .null => .null
  | .bool b => .num (.fin (if b then 1 else 0))
  | .int n => .num (.fin n)
  | .float x => .num x
  | .str s => .str s
  | .list items => .list (ofJsonList items)
  | .obj items => .dict ((ofJsonItems items).insertionSort fun x y => x.1 ≤ y.1)

def ofJsonList : List (Json Number) → List Value
  | [] => []
  | j :: rest => ofJson j :: ofJsonList rest

def ofJsonItems : List (String × Json Number) → List (String × Value)
  | [] => []
  | (k, j) :: rest => (k, ofJson j) :: ofJsonItems rest

end

/-- `list(x)`: the items of a list, the characters of a string, the keys of a dictionary. -/
def iterate? : Json Number → Option (List Value)
  | .list items => some (items.map ofJson)
  | .str s => some (s.toList.map fun c => .str (String.singleton c))
  | .obj items => some (items.map fun item => .str item.1)
  | _ => none

/-- The two items of a pair. -/
def pair? (j : Json Number) : Option (Value × Value) :=
  match iterate? j with
  | some [k, v] => if k.hashable then some (k, v) else none
  | _ => none

/-- `dict(x)`: of a dictionary, or of a list of pairs. A string is no list of pairs. -/
def pairs? : Json Number → Option (List (Value × Value))
  | .obj items => some (items.map fun item => (.str item.1, ofJson item.2))
  | .list items => items.mapM pair?
  | _ => none

end Value

end Gateway
