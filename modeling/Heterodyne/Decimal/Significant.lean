import Heterodyne.Binary64.Rounding
import Heterodyne.Decimal.Notation
/-!
# Significant digits

Texts that people read show a number to fourteen significant digits, which hides the error of a
few operations: `0.1 + 0.2` is shown as `0.3`. Scientific text of a fixed number of digits is
rounded once, from the exact value.
-/

namespace Heterodyne

namespace Decimal

/-- The multiple of `10 ^ p` nearest to the value of an interval, ties to even. -/
def Interval.nearest (i : Interval) (p : Int) : Nat :=
  let value := i.value * i.binaryFactor p
  let unit := i.decimalFactor p
  Binary64.roundHalfEven (value / unit) (value % unit) unit

/-- The nearest decimal whose digits reach `least`, on the coarsest grid from `10 ^ p` down. -/
def leadingFrom (least : Nat) (i : Interval) : (steps : Nat) → (p : Int) → Decimal
  | 0, p => ⟨i.nearest p, p⟩
  | steps + 1, p =>
    if least * i.decimalFactor p ≤ i.value * i.binaryFactor p then ⟨i.nearest p, p⟩
    else leadingFrom least i steps (p - 1)

/-- The decimal of `count` digits nearest to the magnitude of a finite number. -/
def leading (count : Nat) (x : Binary64) : Decimal :=
  if x.isZero then ⟨0, 0⟩
  else
    let i := Interval.around x
    let d := leadingFrom (Nat.pow 10 (count - 1)) i gridSteps (i.ceilingPower - count + 1)
    if d.digits = Nat.pow 10 count then ⟨Nat.pow 10 (count - 1), d.exponent + 1⟩ else d

end Decimal

namespace Binary64

/-- Significant digits of a number shown to people. -/
def shownDigits : Nat := 14

/-- Rounds to fourteen significant digits by scaling them in front of the point. Numbers whose
scale is out of range are rounded to what is not a number. -/
def rounded (x : Binary64) : Binary64 :=
  if x.isZero then ofNat 0
  else
    let order := floor (ofFloat x.abs.toFloat.log10)
    let power := ofNat (shownDigits - 1) - order
    let scale := ofFloat (Float.pow 10 power.toFloat)
    round (x * scale) / scale

/-- The number as it is shown to people. -/
def shown (x : Binary64) : String := x.rounded.general

/-- Scientific text with so many significant digits, rounded from the exact value. -/
def scientific (count : Nat) (x : Binary64) : String :=
  x.textBy (Decimal.leading count) Decimal.scientific

end Binary64

end Heterodyne
