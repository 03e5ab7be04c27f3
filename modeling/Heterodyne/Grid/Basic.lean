import Heterodyne.Grid.Axis
import Heterodyne.Observation.Offset
/-!
# Grids

A regular grid of pixels at a position angle, and the grid that a list of offsets lies on. Both
axes are fitted on their own in the frame at the position angle.

* `length_pixelCentres`: a grid has as many pixel centres as pixels.
-/

namespace Heterodyne

/-- A regular grid of pixels. -/
structure Grid (α : Type) where
  nx : UInt32
  ny : UInt32
  pixelX : Arcsec α
  pixelY : Arcsec α
  /-- The centre in the tangent plane. -/
  centre : Offset α
  angle : Degrees α
deriving DecidableEq

namespace Grid

variable {α : Type} [Scalar α]

/-- The grid of two axes at a position angle. -/
def ofAxes (x y : Axis α) (angle : Degrees α) : Except Fault (Grid α) := do
  let centre : Offset α := ⟨← x.centre, ← y.centre⟩
  return ⟨x.count, y.count, x.pixel, y.pixel, centre.fromFrame angle, angle⟩

/-- The number of pixels. -/
def pixelCount {α : Type} (g : Grid α) : Nat := g.nx.toNat * g.ny.toNat

/-- The diagonal of the area that the grid covers. -/
def diagonal (g : Grid α) : Arcsec α :=
  ⟨Scalar.hypot (g.pixelX.value * Scalar.ofCount g.nx) (g.pixelY.value * Scalar.ofCount g.ny)⟩

/-- The centre of the pixel in column `i` and row `j` of a grid around a centre, in the frame of
the grid; the halves are those of the last column and row. -/
def pixelAt (g : Grid α) (centre : Offset α) (halfX halfY : α) (i j : Nat) : Offset α :=
  ⟨centre.x + g.pixelX * (Scalar.whole i - halfX : α),
    centre.y + g.pixelY * (Scalar.whole j - halfY : α)⟩

/-- The centres of all pixels in the tangent plane, row by row. -/
def pixelCentres (g : Grid α) : Except Fault (List (Offset α)) := do
  let centre := g.centre.intoFrame g.angle
  let halfX := Scalar.ofCount (← Count.sub g.nx 1) / Scalar.whole 2
  let halfY := Scalar.ofCount (← Count.sub g.ny 1) / Scalar.whole 2
  return (List.range g.ny.toNat).flatMap fun j =>
    (List.range g.nx.toNat).map fun i =>
      (g.pixelAt centre halfX halfY i j).fromFrame g.angle

/-- A grid has as many pixel centres as pixels. -/
theorem length_pixelCentres {g : Grid α} {centres : List (Offset α)}
    (h : g.pixelCentres = .ok centres) : centres.length = g.pixelCount := by
  unfold pixelCentres at h
  cases hx : Count.sub g.nx 1 with
  | error e => simp [hx, bind, Except.bind] at h
  | ok lastX =>
    cases hy : Count.sub g.ny 1 with
    | error e => simp [hx, hy, bind, Except.bind] at h
    | ok lastY =>
      simp only [hx, hy, bind, Except.bind, pure, Except.pure, Except.ok.injEq] at h
      subst h
      simp [List.length_flatMap, List.map_const', pixelCount, Nat.mul_comm]

/-- The grid that offsets lie on. The tolerance is a part of the Nyquist value. -/
def fit (offsets : List (Offset α)) (angle : Degrees α) (nyquist : Arcsec α)
    (toleranceFactor : α) : Run α (Grid α) :=
  if nyquist.value ≤ Scalar.zero then Run.refuse (.gridNyquistNotPositive nyquist)
  else do
    let tolerance := nyquist * toleranceFactor
    let turned := offsets.map (·.intoFrame angle)
    let x ← Axis.fit (turned.map (·.x.value)) nyquist tolerance
    let y ← Axis.fit (turned.map (·.y.value)) nyquist tolerance
    Run.tell (.gridFitted x.count y.count x.pixel y.pixel angle)
    Run.ofCount (ofAxes x y angle)

end Grid

end Heterodyne
