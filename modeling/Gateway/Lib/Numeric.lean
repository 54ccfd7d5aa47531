import Mathlib.Algebra.Order.Ring.Rat
import Mathlib.Data.Rat.Floor
import Mathlib.Order.WithBot

/-!
Numbers as a program computes with them.

A program's numbers are exact (`ℚ`) or binary floating point (`Float`), and code that is
generic in them has their operations, which may round. `Numeric` adds what it takes to move between
numbers and integers: the rational a number stands for (`value`; an infinity stands for none)
and the number nearest to an integer. With these, `divide`, `floor`, `ceil` and `intLe` are the
operations of a language that raises an exception where it has no result, and that compares
integers with floats exactly.

Over `ℚ` all of them are the exact operations (`divide_eq`, `floor_rat`, `ceil_rat`,
`intLe_rat`).
-/

namespace Gateway

/-- A type of numbers to compute with. -/
class Numeric (F : Type) where
  /-- The rational that a number stands for. -/
  value : F → Option ℚ
  /-- The number nearest to an integer; none where it is out of range. -/
  ofInt : ℤ → Option F
  /-- Positive infinity. -/
  isInf : F → Bool

namespace Numeric

/-- Exact arithmetic. -/
instance rat : Numeric ℚ where
  value := some
  ofInt n := some n
  isInf _ := false

/-- `n * 2 ^ e`. -/
def scaled (n e : ℤ) : ℚ :=
  if 0 ≤ e then (n * 2 ^ e.toNat : ℤ) else mkRat n (2 ^ (-e).toNat)

/-- What an unpacked float stands for. -/
def unpackedValue : Float.Model.UnpackedFloat → Option ℚ
  | .infinity _ => none
  | .notANumber => none
  | .zero _ => some 0
  | .finite .positive mantissa exponent _ => some (scaled mantissa exponent)
  | .finite .negative mantissa exponent _ => some (scaled (-mantissa) exponent)

/-- Binary floating point of 64 bits. -/
instance float : Numeric Float where
  value x := unpackedValue x.toModel.unpack
  ofInt n := if (Float.ofInt n).isFinite then some (.ofInt n) else none
  isInf x := x.isInf && decide (0 < x)

section Operations

variable {F : Type} [Numeric F]

/-- `x / y`, which raises for a divisor of zero. -/
def divide [Div F] (x y : F) : Option F :=
  if value y = some 0 then none else some (x / y)

/-- `math.floor(x)`, which raises for an infinity. -/
def floor (x : F) : Option ℤ := (value x).map Int.floor

/-- `math.ceil(x)`. -/
def ceil (x : F) : Option ℤ := (value x).map Int.ceil

/-- `c <= x` for an integer. Nothing is rounded. -/
def intLe (c : ℤ) (x : F) : Bool := (value x).elim (isInf x) fun q => decide ((c : ℚ) ≤ q)

/-- `w <= x`, where `⊤` is positive infinity. -/
def within [LE F] [DecidableLE F] : WithTop F → F → Bool
  | ⊤, x => isInf x
  | .some w, x => decide (w ≤ x)

theorem floor_lt_iff {x : F} {f : ℤ} (floored : floor x = some f) (c : ℤ) :
    f < c ↔ intLe c x = false := by
  obtain ⟨q, stands, rfl⟩ := Option.map_eq_some_iff.mp floored
  simp [intLe, stands, Int.floor_lt]

theorem ceil_le_iff {x : F} {n : ℤ} (ceiled : ceil x = some n) (c : ℤ) :
    n ≤ c ↔ ∀ q, value x = some q → q ≤ c := by
  obtain ⟨q, stands, rfl⟩ := Option.map_eq_some_iff.mp ceiled
  simp [stands, Int.ceil_le]

end Operations

/-! ### Exact arithmetic -/

section Exact

variable {x y : ℚ}

@[simp] theorem value_rat (x : ℚ) : value x = some x := rfl

@[simp] theorem ofInt_rat (n : ℤ) : (ofInt n : Option ℚ) = some (n : ℚ) := rfl

theorem divide_eq (nonzero : y ≠ 0) : divide x y = some (x / y) := by
  simp [divide, nonzero]

@[simp] theorem floor_rat (x : ℚ) : floor x = some ⌊x⌋ := rfl

@[simp] theorem ceil_rat (x : ℚ) : ceil x = some ⌈x⌉ := rfl

@[simp] theorem intLe_rat {c : ℤ} : intLe c x = true ↔ (c : ℚ) ≤ x := by
  simp [intLe]

@[simp] theorem within_rat {w : WithTop ℚ} : within w x = true ↔ w ≤ x := by
  cases w with
  | top => simp [within, isInf]
  | coe w => simp [within]

end Exact

end Numeric

end Gateway
