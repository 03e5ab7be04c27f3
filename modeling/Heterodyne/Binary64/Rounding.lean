import Heterodyne.Binary64.Basic
/-!
# Rounding binary64 numbers

Rounding to a whole number in three directions, the number nearest to a scaled natural number,
and the sine and cosine of an angle in degrees.

* `roundHalfEven_le`, `le_roundHalfEven`: a rounded quotient is the whole part or the next number.
-/

namespace Heterodyne

namespace Binary64

/-! ## Whole parts -/

/-- The whole part of a natural number times a power of two. -/
def scaleDown (m : Nat) (e : Int) : Nat := if 0 ≤ e then m <<< e.toNat else m >>> (-e).toNat

/-- The whole part of a number; nothing lies below zero and what is not a number has none.
Infinity counts as the first power of two above the finite numbers. -/
def toNat (x : Binary64) : Nat :=
  if x.isNaN || x.isNegative then 0 else scaleDown x.significand x.exponent

/-! ## The nearest number -/

/-- Half the distance decides, and an exact half goes to the even neighbour. -/
def roundHalfEven (q rest unit : Nat) : Nat :=
  if unit < 2 * rest || (2 * rest == unit && q % 2 == 1) then q + 1 else q

/-- A rounded quotient is not below its whole part. -/
theorem le_roundHalfEven (q rest unit : Nat) : q ≤ roundHalfEven q rest unit := by
  unfold roundHalfEven
  split <;> omega

/-- A rounded quotient is at most one above its whole part. -/
theorem roundHalfEven_le (q rest unit : Nat) : roundHalfEven q rest unit ≤ q + 1 := by
  unfold roundHalfEven
  split <;> omega

/-- The pattern of `m * 2 ^ q` for a significand of at most fifty-three bits (or its successor)
on the scale of its exponent. -/
def assemble (m : Nat) (q : Int) : Binary64 :=
  let magnitude := if m < 1 <<< 52 then m else (q + 1075).toNat <<< 52 + (m - 1 <<< 52)
  ⟨UInt64.ofNat (min magnitude (2047 <<< 52))⟩

/-- The binary64 number nearest to `m * 2 ^ e`, ties to even, infinity beyond the last. -/
def nearest (m : Nat) (e : Int) : Binary64 :=
  if m = 0 then ⟨0⟩
  else
    let q := max (e + m.log2 - 52) (-1074)
    if q ≤ e then assemble (m <<< (e - q).toNat) q
    else
      let drop := (q - e).toNat
      let whole := m >>> drop
      assemble (roundHalfEven whole (m - whole <<< drop) (1 <<< drop)) q

/-- The number nearest to a natural number. -/
def ofNat (n : Nat) : Binary64 := nearest n 0

/-- The number nearest to `m / 10 ^ e`. -/
def ofDecimal (m e : Nat) : Binary64 := ofFloat (Float.ofScientific m true e)

/-! ## Rounding to whole numbers -/

/-- Rounds to a whole number of the same sign; `away` decides from the part cut off and the
unit whether the magnitude grows. -/
def toWhole (away : (rest unit : Nat) → Bool) (x : Binary64) : Binary64 :=
  if 0 ≤ x.exponent then x
  else
    let drop := (-x.exponent).toNat
    let whole := x.significand >>> drop
    let grows := away (x.significand - whole <<< drop) (1 <<< drop)
    signed x.isNegative (ofNat (if grows then whole + 1 else whole))

/-- The greatest whole number that is not above. -/
def floor (x : Binary64) : Binary64 := toWhole (fun rest _ => x.isNegative && rest != 0) x

/-- The least whole number that is not below. -/
def ceil (x : Binary64) : Binary64 := toWhole (fun rest _ => !x.isNegative && rest != 0) x

/-- The nearest whole number; a half goes away from zero. -/
def round (x : Binary64) : Binary64 := toWhole (fun rest unit => unit ≤ 2 * rest) x

/-! ## Angles -/

/-- An angle in degrees as an angle in radians. -/
def radians (angle : Binary64) : Binary64 := angle * ofFloat (3.141592653589793 / 180.0)

/-- The sine and cosine of an angle in degrees. At angle zero they are exact, and the sine has
the sign of the angle. -/
def sinCosDegrees (angle : Binary64) : Binary64 × Binary64 :=
  if angle.isZero then (angle, ofNat 1)
  else
    let r := angle.radians
    (settle r r r.toFloat.sin, settle r r r.toFloat.cos)

end Binary64

end Heterodyne
