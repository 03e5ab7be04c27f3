import Heterodyne.Decimal.Shortest
/-!
# Writing decimals

Two ways of writing a number by its shortest decimal: `plain` text is positional at every size
and writes whole numbers without a point; `general` text always keeps a point and turns to an
exponent for very large and very small numbers.
-/

namespace Heterodyne

namespace Decimal

/-- The decimal digits of a natural number, the leading one first. -/
def digitsOf (n : Nat) : List Char := Nat.toDigits 10 n

/-- Positional notation; `point` asks for `.0` after a whole number. -/
def positional (d : Decimal) (point : Bool) : List Char :=
  let ds := digitsOf d.digits
  if 0 ≤ d.exponent then
    ds ++ List.replicate (if d.digits = 0 then 0 else d.exponent.toNat) '0' ++
      if point then ['.', '0'] else []
  else
    let places := (-d.exponent).toNat
    if places < ds.length then
      ds.take (ds.length - places) ++ '.' :: ds.drop (ds.length - places)
    else
      '0' :: '.' :: List.replicate (places - ds.length) '0' ++ ds

/-- Scientific notation: one digit, the others behind a point if there are any, and the power
of ten. -/
def scientific (d : Decimal) : List Char :=
  let ds := digitsOf d.digits
  let power := d.exponent + (ds.length - 1 : Nat)
  let sign := if power < 0 then ['-'] else []
  match ds with
  | [] => []
  | [lead] => lead :: 'e' :: sign ++ digitsOf power.natAbs
  | lead :: rest => lead :: '.' :: rest ++ 'e' :: sign ++ digitsOf power.natAbs

/-- The power of ten of the leading digit. -/
def magnitude (d : Decimal) : Int := d.exponent + ((digitsOf d.digits).length - 1 : Nat)

/-- General notation: positional from `10 ^ -4` up to below `10 ^ 16`. -/
def general (d : Decimal) : List Char :=
  if d.digits = 0 ∨ (-4 ≤ d.magnitude ∧ d.magnitude < 16) then d.positional true
  else d.scientific

end Decimal

namespace Binary64

/-- Writes the sign of a number and the decimal that `digits` chooses for its magnitude. -/
def textBy (digits : Binary64 → Decimal) (write : Decimal → List Char) (x : Binary64) : String :=
  if x.isNaN then "NaN"
  else
    let sign := if x.isNegative then ['-'] else []
    if x.isInfinite then String.ofList (sign ++ ['i', 'n', 'f'])
    else String.ofList (sign ++ write (digits x))

/-- Positional text: `15`, `0.1`, `-0`. -/
def plain (x : Binary64) : String := x.textBy Decimal.shortest (·.positional false)

/-- General text: `15.0`, `0.1`, `1e16`, `1.5e-7`. -/
def general (x : Binary64) : String := x.textBy Decimal.shortest Decimal.general

end Binary64

end Heterodyne
