import Heterodyne.Binary64.Basic
/-!
# The shortest decimal of a number

Every decimal between the midpoints to a number's neighbours reads back as that number. The
shortest decimal takes the coarsest power of ten that has a multiple between the midpoints, and
of two such multiples the nearer one; an exact half goes up.

* `onGrid_within`: a multiple that `onGrid` finds lies between the midpoints, so the decimal
  reads back.
-/

namespace Heterodyne

/-- The decimal `digits * 10 ^ exponent`. -/
structure Decimal where
  digits : Nat
  exponent : Int
deriving DecidableEq

namespace Decimal

/-- A number between two bounds, all three counted in `2 ^ scale`; `closed` tells whether the
bounds themselves still read back as the number. -/
structure Interval where
  low : Nat
  value : Nat
  high : Nat
  scale : Int
  closed : Bool

/-- The decimals that read back as a positive number, in quarters of its last place. The place
below a power of two is half as wide; an even significand takes its midpoints. -/
def Interval.around (x : Binary64) : Interval :=
  let m := x.significand
  let narrow := m == 1 <<< 52 && x.exponentField > 1
  { low := if narrow then 4 * m - 1 else 4 * m - 2
    value := 4 * m
    high := 4 * m + 2
    scale := x.exponent - 2
    closed := m % 2 == 0 }

namespace Interval

/-- What a count of `2 ^ scale` is multiplied by to compare it with multiples of `10 ^ p`. -/
def binaryFactor (i : Interval) (p : Int) : Nat := Nat.pow 10 (-p).toNat <<< i.scale.toNat

/-- What a multiple of `10 ^ p` is multiplied by to compare it with counts of `2 ^ scale`. -/
def decimalFactor (i : Interval) (p : Int) : Nat := Nat.pow 10 p.toNat <<< (-i.scale).toNat

/-- Whether `d * 10 ^ p` lies in the interval. -/
def contains (i : Interval) (d : Nat) (p : Int) : Bool :=
  let point := d * i.decimalFactor p
  let low := i.low * i.binaryFactor p
  let high := i.high * i.binaryFactor p
  if i.closed then low ≤ point && point ≤ high else low < point && point < high

/-- The multiple of `10 ^ p` in the interval that is nearest to its value, if one is there. -/
def onGrid (i : Interval) (p : Int) : Option Nat :=
  let value := i.value * i.binaryFactor p
  let unit := i.decimalFactor p
  let below := value / unit
  match i.contains below p, i.contains (below + 1) p with
  | true, true => some (if 2 * (value % unit) < unit then below else below + 1)
  | true, false => some below
  | false, true => some (below + 1)
  | false, false => none

/-- A multiple that is found lies in the interval. -/
theorem onGrid_within {i : Interval} {p : Int} {d : Nat} (h : i.onGrid p = some d) :
    i.contains d p = true := by
  simp only [onGrid] at h
  split at h
  · split at h <;> (cases h; assumption)
  · cases h; assumption
  · cases h; assumption
  · cases h

/-- The multiple on the coarsest grid, from `10 ^ p` down. -/
def coarsest (i : Interval) : (steps : Nat) → (p : Int) → Decimal
  | 0, p => ⟨i.value * i.binaryFactor p / i.decimalFactor p, p⟩
  | steps + 1, p =>
    match i.onGrid p with
    | some d => ⟨d, p⟩
    | none => i.coarsest steps (p - 1)

/-- A power of ten above the interval. -/
def ceilingPower (i : Interval) : Int :=
  (i.high.log2 + 1 + i.scale) * 30103 / 100000 + 1

end Interval

/-- Powers of ten to try below the ceiling: seventeen digits always tell two numbers apart. -/
def gridSteps : Nat := 20

/-- The shortest decimal that reads back as the magnitude of a finite number. -/
def shortest (x : Binary64) : Decimal :=
  if x.isZero then ⟨0, 0⟩
  else
    let i := Interval.around x
    i.coarsest gridSteps i.ceilingPower

end Decimal

end Heterodyne
