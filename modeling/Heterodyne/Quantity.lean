import Heterodyne.Scalar
import Heterodyne.Decimal.Significant
/-!
# Quantities

A number in a fixed unit. Quantities of one unit are added and compared, a quantity is scaled by
a number, and two quantities of one unit have a number as their ratio.
-/

namespace Heterodyne

/-- The units of the quantities that describe an observation. -/
inductive MeasureUnit where
  | hertz
  | second
  | arcsec
  | degree
deriving DecidableEq

/-- The symbol of a unit. -/
def MeasureUnit.symbol : MeasureUnit → String
  | .hertz => "Hz"
  | .second => "s"
  | .arcsec => "arcsec"
  | .degree => "deg"

/-- A number in the unit `u`. -/
structure Quantity (u : MeasureUnit) (α : Type) where
  value : α
deriving DecidableEq

/-- A frequency in hertz. -/
abbrev Frequency := Quantity .hertz

/-- A time in seconds. -/
abbrev Duration := Quantity .second

/-- An angle in arc seconds. -/
abbrev Arcsec := Quantity .arcsec

/-- An angle in degrees. -/
abbrev Degrees := Quantity .degree

namespace Quantity

variable {α : Type} {u : MeasureUnit}

/-! ## Arithmetic -/

instance [Add α] : Add (Quantity u α) := ⟨fun q p => ⟨q.value + p.value⟩⟩
instance [Sub α] : Sub (Quantity u α) := ⟨fun q p => ⟨q.value - p.value⟩⟩
instance [Neg α] : Neg (Quantity u α) := ⟨fun q => ⟨-q.value⟩⟩
instance [Mul α] : HMul (Quantity u α) α (Quantity u α) := ⟨fun q x => ⟨q.value * x⟩⟩
instance [Div α] : HDiv (Quantity u α) α (Quantity u α) := ⟨fun q x => ⟨q.value / x⟩⟩

/-- The ratio of two quantities. -/
instance [Div α] : HDiv (Quantity u α) (Quantity u α) α := ⟨fun q p => q.value / p.value⟩

/-- Quantities are added by their values. -/
@[simp] theorem value_add [Add α] (q p : Quantity u α) : (q + p).value = q.value + p.value := rfl

/-- Quantities are subtracted by their values. -/
@[simp] theorem value_sub [Sub α] (q p : Quantity u α) : (q - p).value = q.value - p.value := rfl

/-- A quantity is negated by its value. -/
@[simp] theorem value_neg [Neg α] (q : Quantity u α) : (-q).value = -q.value := rfl

/-- A quantity is scaled by its value. -/
@[simp] theorem value_mul [Mul α] (q : Quantity u α) (x : α) : (q * x).value = q.value * x := rfl

/-- A quantity is divided by its value. -/
@[simp] theorem value_div [Div α] (q : Quantity u α) (x : α) : (q / x).value = q.value / x := rfl

/-- The ratio of quantities is that of their values. -/
@[simp] theorem div_eq [Div α] (q p : Quantity u α) : q / p = q.value / p.value := rfl

variable [Scalar α]

/-- The quantity of size zero. -/
def zero : Quantity u α := ⟨Scalar.zero⟩

/-- The size of a quantity. -/
def abs (q : Quantity u α) : Quantity u α := ⟨Scalar.abs q.value⟩

/-- Whether two quantities are equal; both signs of zero are. -/
def equal (q p : Quantity u α) : Bool := Scalar.equal q.value p.value

/-- How two quantities compare, unless one of them is not a number. -/
def compare? (q p : Quantity u α) : Option Ordering :=
  if q.equal p then some .eq
  else if q.value < p.value then some .lt
  else if p.value < q.value then some .gt
  else none

/-- The greatest multiple of a step that does not exceed the quantity. -/
def floorTo (q step : Quantity u α) : Quantity u α := step * Scalar.floor (q / step : α)

/-- The multiple of a step nearest to the quantity. -/
def roundTo (q step : Quantity u α) : Quantity u α := step * Scalar.round (q / step : α)

/-- The nearest whole number of steps in the quantity. -/
def stepsOf (q step : Quantity u α) : α := Scalar.round (q / step : α)

/-! ## Units -/

/-- A frequency given in megahertz. -/
def megahertz (x : α) : Frequency α := ⟨x * Scalar.whole 1000000⟩

/-- A frequency given in gigahertz. -/
def gigahertz (x : α) : Frequency α := ⟨x * Scalar.whole 1000000000⟩

/-- An angle in degrees. -/
def toDegrees (q : Arcsec α) : Degrees α := ⟨q.value / Scalar.whole 3600⟩

/-- An angle in arc seconds. -/
def toArcsec (q : Degrees α) : Arcsec α := ⟨q.value * Scalar.whole 3600⟩

/-! ## Text -/

/-- The quantity as it is shown to people, with its unit. -/
def text (q : Quantity u Binary64) : String := q.value.shown ++ " " ++ u.symbol

/-- The quantity with all of its digits in positional notation, with its unit. -/
def fullText (q : Quantity u Binary64) : String := q.value.plain ++ " " ++ u.symbol

end Quantity

end Heterodyne
