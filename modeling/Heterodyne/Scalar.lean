import Heterodyne.Binary64.Hypotenuse
import Heterodyne.Decimal.Notation
/-!
# Scalars

The arithmetic that observation planning needs, as a class. Every rule of the library is stated
once over it: a planner runs on `Binary64`, and the same rule can be read over the exact reals.
-/

namespace Heterodyne

/-- Numbers with an order, rounding to whole numbers, roots, angles and a written form. -/
class Scalar (α : Type) extends Add α, Sub α, Mul α, Div α, Neg α, LT α, LE α where
  decidableLT : DecidableLT α
  decidableLE : DecidableLE α
  /-- The natural number `n`. -/
  whole : (n : Nat) → α
  /-- The decimal fraction `m / 10 ^ e`. -/
  decimal : (m e : Nat) → α
  floor : α → α
  ceil : α → α
  /-- The nearest whole number; a half goes away from zero. -/
  round : α → α
  abs : α → α
  sqrt : α → α
  /-- The hypotenuse over two legs. -/
  hypot : α → α → α
  /-- The sine and cosine of an angle in degrees. -/
  sinCosDegrees : α → α × α
  /-- The whole part; zero where there is none or it is negative. -/
  toNat : α → Nat
  /-- A total order, by which lists are sorted. -/
  before : α → α → Bool
  /-- The number in positional decimal notation. -/
  plain : α → String

instance Scalar.instDecidableLT {α : Type} [Scalar α] : DecidableLT α := Scalar.decidableLT
instance Scalar.instDecidableLE {α : Type} [Scalar α] : DecidableLE α := Scalar.decidableLE

instance : Scalar Binary64 where
  decidableLT := inferInstance
  decidableLE := inferInstance
  whole := Binary64.ofNat
  decimal := Binary64.ofDecimal
  floor := Binary64.floor
  ceil := Binary64.ceil
  round := Binary64.round
  abs := Binary64.abs
  sqrt := Binary64.sqrt
  hypot := Binary64.hypot
  sinCosDegrees := Binary64.sinCosDegrees
  toNat := Binary64.toNat
  before := Binary64.before
  plain := Binary64.plain

namespace Scalar

variable {α : Type} [Scalar α]

/-- The number zero. -/
def zero : α := whole 0

/-- The number one. -/
def one : α := whole 1

/-- Equality of numbers, under which both signs of zero are one number. -/
def equal (x y : α) : Bool := x ≤ y ∧ y ≤ x

/-- The number, or one if it does not lie above one. -/
def atLeastOne (x : α) : α := if one < x then x else one

/-- The largest count. -/
def maxCount : Nat := 1 <<< 32 - 1

/-- The whole part as a count; numbers beyond the counts give the largest one. -/
def toCount (x : α) : UInt32 := UInt32.ofNat (min (toNat x) maxCount)

/-- A count as a number. -/
def ofCount (n : UInt32) : α := whole n.toNat

/-- A count is the whole part, cut off at the largest count. -/
theorem toNat_toCount (x : α) : (toCount x).toNat = min (toNat x) maxCount := by
  simp only [toCount, maxCount, UInt32.toNat_ofNat']
  omega

end Scalar

end Heterodyne
