import Heterodyne.Run
/-!
# Grid axes

A row of equal pixels that a list of positions lies on. Positions that are nearly equal are one;
the pixel starts as the smallest gap between positions and is divided by 1, 2, 3, … until every
position lies on the lattice.

* `distinctSorted_sublist`: thinning out a sorted list only drops positions.
* `accept_of_firstAccepted?`: the divisor that is found is accepted.
-/

namespace Heterodyne

/-- A row of pixels in the frame of the grid. -/
structure Axis (α : Type) where
  /-- The number of pixels. -/
  count : UInt32
  pixel : Arcsec α
  /-- The centre of the first pixel. -/
  reference : Arcsec α
deriving DecidableEq

variable {α : Type} [Scalar α]

namespace Axis

/-- The middle of the axis. -/
def centre (a : Axis α) : Except Fault (Arcsec α) := do
  let last ← Count.sub a.count 1
  return a.reference + a.pixel * (Scalar.ofCount last / Scalar.whole 2 : α)

/-- The extent that the pixels cover. -/
def extent (a : Axis α) : Arcsec α := a.pixel * (Scalar.ofCount a.count : α)

/-! ## Positions -/

/-- Positions closer than this are one position. -/
def closeness : α := Scalar.decimal 1 9

/-- Drops the positions that are close to the last one kept. -/
def thinOut (last : α) : List α → List α
  | [] => []
  | v :: vs =>
    if Scalar.abs (v - last) < closeness then thinOut last vs else v :: thinOut v vs

/-- The positions in ascending order, without those close to the one before. -/
def distinctSorted (values : List α) : List α :=
  match values.mergeSort Scalar.before with
  | [] => []
  | v :: vs => v :: thinOut v vs

/-- Thinning out only drops positions. -/
theorem thinOut_sublist (last : α) (vs : List α) : (thinOut last vs).Sublist vs := by
  induction vs generalizing last with
  | nil => exact .slnil
  | cons v vs ih =>
    unfold thinOut
    split
    · exact (ih last).cons v
    · exact (ih v).cons_cons v

/-- The distinct positions are some of the sorted ones, in their order. -/
theorem distinctSorted_sublist (values : List α) :
    (distinctSorted values).Sublist (values.mergeSort Scalar.before) := by
  unfold distinctSorted
  split
  · exact List.nil_sublist _
  · rename_i v vs h
    rw [h]
    exact (thinOut_sublist v vs).cons_cons v

/-- The gaps between neighbouring positions. -/
def gaps (values : List α) : List α := List.zipWith (fun a b => b - a) values values.tail

/-- The first of the smallest elements. -/
def least? : List α → Option α
  | [] => none
  | v :: vs => some (vs.foldl (fun m w => if Scalar.before m w then m else w) v)

/-! ## Lattices -/

/-- The distance of a number from the nearest whole number. -/
def offWhole (x : α) : α := Scalar.abs (x - Scalar.round x)

/-- Whether every position lies within the tolerance of the lattice of a trial pixel. -/
def fits (values : List α) (reference trial tolerance : α) : Bool :=
  values.all fun v => offWhole ((v - reference) / trial) ≤ tolerance / trial

/-- The first divisor from `d` on that is accepted. The search is lost once the next divisor is no
greater as a number, since it would try the same divisor for ever. -/
def firstAccepted? (accept grows : Nat → Bool) : (tries d : Nat) → Option Nat
  | 0, _ => none
  | tries + 1, d =>
    if accept d then some d
    else if grows d then firstAccepted? accept grows tries (d + 1)
    else none

/-- The divisor that is found is accepted. -/
theorem accept_of_firstAccepted? {accept grows : Nat → Bool} {tries d n : Nat}
    (h : firstAccepted? accept grows tries d = some n) : accept n = true := by
  induction tries generalizing d with
  | zero => exact absurd h (by simp [firstAccepted?])
  | succ tries ih =>
    unfold firstAccepted? at h
    split at h
    · cases h
      assumption
    · split at h
      · exact ih h
      · cases h

/-- Divisors to try: a divisor beyond the quotient of gap and tolerance makes the trial smaller
than the tolerance, and none beyond `2 ^ 53` differs from the one before as a number. -/
def divisorTries (gap tolerance : α) : Nat :=
  max (1 <<< 53) (Scalar.toNat (gap / tolerance) + 2)

/-- The divisor of the gap whose trial pixel is the first to fit or to fall below the
tolerance. -/
def fittingDivisor (values : List α) (reference gap tolerance : α) : Except Fault Nat :=
  let found := firstAccepted?
    (fun d =>
      let trial := gap / Scalar.whole d
      decide (trial < tolerance) || fits values reference trial tolerance)
    (fun d => decide ((Scalar.whole d : α) < Scalar.whole (d + 1)))
    (divisorTries gap tolerance) 1
  match found with
  | some divisor => .ok divisor
  | none => .error .search

/-- The first position, moved onto a multiple of the gap if one is near. -/
def snapped (first gap tolerance : α) : α :=
  let multiple := Scalar.round (first / gap) * gap
  if Scalar.abs (first - multiple) < tolerance then multiple else first

/-- The steps from the first pixel to the last: the nearest whole number if the last position
is near it, and the next one above otherwise. -/
def stepsTo (last reference trial tolerance : α) : α :=
  let steps := (last - reference) / trial
  if offWhole steps ≤ tolerance / trial then Scalar.round steps else Scalar.ceil steps

/-- Fits an axis to at least three distinct positions, of which `first` and `last` are the
outermost ones. -/
def fitLattice (values : List α) (first last tolerance : α) : Run α (Axis α) :=
  match least? ((gaps values).filter fun gap => tolerance < gap) with
  | none => return ⟨1, ⟨tolerance⟩, ⟨(first + last) / Scalar.whole 2⟩⟩
  | some gap => do
    let reference := snapped first gap tolerance
    let divisor ← Run.ofCount (fittingDivisor values reference gap tolerance)
    Run.tellAll ((List.range (divisor - 1)).map fun k =>
      .trialRejected (gap / Scalar.whole (k + 1)))
    let trial := gap / Scalar.whole divisor
    let steps := Scalar.toCount (stepsTo last reference trial tolerance)
    let count ← Run.ofCount (Count.add steps 1)
    return ⟨count, ⟨trial⟩, ⟨reference⟩⟩

/-- Fits an axis to positions. One position has a pixel of the Nyquist size, and of two each
has its own. -/
def fit (positions : List α) (nyquist tolerance : Arcsec α) : Run α (Axis α) :=
  match distinctSorted positions with
  | [] => Run.refuse .emptyGrid
  | [v] => return ⟨1, nyquist, ⟨v⟩⟩
  | [v, w] => return ⟨2, ⟨w - v⟩, ⟨v⟩⟩
  | v :: w :: x :: rest =>
    fitLattice (v :: w :: x :: rest) v ((x :: rest).getLast (by simp)) tolerance.value

end Axis

end Heterodyne
