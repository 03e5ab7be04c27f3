import Heterodyne.Grid.Basic
import Heterodyne.Observation.Descriptor
import Heterodyne.Spectrum.Plan
/-!
# Data cubes

Every subsystem of an observation has one output cube, and all cubes share one spatial grid.

* `footprint_nil`: without cubes there is no footprint.
-/

namespace Heterodyne

/-- The output cube of one subsystem. -/
structure Cube (α : Type) where
  window : WindowId
  grid : Grid α
  restFreq : Frequency α
  channelWidth : Frequency α
  channels : UInt32

variable {α : Type} [Scalar α]

/-- The axis of a raster: enough samples for the whole length, around the middle. -/
def Raster.axis (length spacing : Arcsec α) : Except Fault (Axis α) := do
  let count ← Count.add (Scalar.toCount (Scalar.ceil (length / spacing : α))) 1
  let last ← Count.sub count 1
  return ⟨count, spacing, -spacing * (Scalar.ofCount last / Scalar.whole 2 : α)⟩

/-- The grid of a raster. -/
def Raster.grid (r : Raster α) : Except Fault (Grid α) := do
  Grid.ofAxes (← axis r.width r.dx) (← axis r.height r.dy) r.angle

/-- The points of a jiggle pattern in the tangent plane. -/
def Jiggle.offsets (j : Jiggle α) : List (Offset α) :=
  j.pattern.points.map (·.fromFrame j.angle)

/-- The spatial grid of an observation. -/
def Descriptor.spatialGrid (d : Descriptor α) (settings : Settings α) : Run α (Grid α) :=
  let fit := fun offsets angle => Grid.fit offsets angle d.nyquist settings.gridTolerance
  match d.movement with
  | .raster r => Run.ofCount r.grid
  | .stare s => fit s.offsets s.angle
  | .jiggle j => fit j.offsets j.angle
  | .pointing j => fit j.offsets j.angle
  | .focus _ => fit [⟨.zero, .zero⟩] .zero

/-- The cubes of a plan over one spatial grid. -/
def Cube.ofPlan {α : Type} (grid : Grid α) (plan : Plan α) : List (Cube α) :=
  plan.subsystems.map fun ss =>
    ⟨ss.id, grid, ss.restFreq, ss.channelWidth, ss.hybridChannels⟩

/-- The cubes of an observation. -/
def Descriptor.cubes (d : Descriptor α) (plan : Plan α) (settings : Settings α) :
    Run α (List (Cube α)) := do
  return Cube.ofPlan (← d.spatialGrid settings) plan

/-- The last of the longest footprint diagonals. -/
def footprint : List (Cube α) → Except (Refusal α) (Arcsec α)
  | [] => .error .noFootprint
  | cube :: rest =>
    .ok (rest.foldl
      (fun longest c =>
        if Scalar.before longest.value c.grid.diagonal.value then c.grid.diagonal else longest)
      cube.grid.diagonal)

/-- Without cubes there is no footprint. -/
@[simp] theorem footprint_nil : footprint ([] : List (Cube α)) = .error .noFootprint := rfl

end Heterodyne
