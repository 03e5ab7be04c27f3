import Heterodyne.Binary64.Rounding
/-!
# The hypotenuse

The root of a sum of two squares. The root that the machine gives carries the rounding of both
squares and of their sum; one correction step takes that error off again. Legs whose squares
would leave the range are scaled by a power of two first, and a leg too short to matter is only
added.

* `hypot_of_infinite`: an infinite leg makes the hypotenuse infinite, whatever the other leg is.
-/

namespace Heterodyne

namespace Binary64

/-- The number `2 ^ e`. -/
def twoPow (e : Int) : Binary64 := nearest 1 e

/-- Positive infinity. -/
def infinity : Binary64 := ⟨0x7FF0000000000000⟩

/-- By how much the square of a root exceeds the sum of the squares of two legs. The root enters
only through its distance from the leg that it is nearer to, so nothing large cancels. -/
def squareExcess (long short root : Binary64) : Binary64 :=
  let two := ofNat 2
  if root ≤ two * short then
    let d := root - short
    long * (two * d - long) + (d - two * (long - short)) * d
  else
    let d := root - long
    two * d * (long - two * short) + ((ofNat 4 * d - short) * short + d * d)

/-- The root of the sum of two squares that stay in range, with one correction step. -/
def correctedRoot (long short : Binary64) : Binary64 :=
  let root := sqrt (long * long + short * short)
  root - squareExcess long short root / (ofNat 2 * root)

/-- The power of two by which legs are scaled. -/
def legScale : Binary64 := twoPow (-600)

/-- The square of a leg beyond this is close to leaving the range. -/
def longestLeg : Binary64 := twoPow 511

/-- The square of a leg below this is close to losing digits. -/
def shortestLeg : Binary64 := twoPow (-459)

/-- A leg shorter than this part of the other one does not turn the hypotenuse. -/
def negligiblePart : Binary64 := twoPow (-54)

/-- The hypotenuse over two positive legs, the longer one first. -/
def hypotOfLegs (long short : Binary64) : Binary64 :=
  if longestLeg < long then
    if short ≤ long * negligiblePart then long + short
    else correctedRoot (long * legScale) (short * legScale) / legScale
  else if short < shortestLeg then
    if short / negligiblePart ≤ long then long + short
    else correctedRoot (long / legScale) (short / legScale) * legScale
  else if short ≤ long * negligiblePart then long + short
  else correctedRoot long short

/-- The hypotenuse over two legs of any sign. -/
def hypot (x y : Binary64) : Binary64 :=
  if x.isInfinite || y.isInfinite then infinity
  else if x.isNaN || y.isNaN then x + y
  else if x.abs < y.abs then hypotOfLegs y.abs x.abs
  else hypotOfLegs x.abs y.abs

/-- An infinite leg makes the hypotenuse infinite, whatever the other leg is. -/
theorem hypot_of_infinite {x y : Binary64} (h : x.isInfinite = true ∨ y.isInfinite = true) :
    hypot x y = infinity := by
  have hany : (x.isInfinite || y.isInfinite) = true := by simpa using h
  unfold hypot
  rw [if_pos hany]

end Binary64

end Heterodyne
