import Heterodyne.Observation.Pattern
/-!
# Requests

What an observation asks for: its subsystems in frequency, and the parameters of its movement
over the sky, grouped by iterator so that none that an iterator needs can be missing.
-/

namespace Heterodyne

/-- The frequency request of one spectral subsystem. -/
structure Subsystem (α : Type) where
  restFreq : Frequency α
  /-- The bandwidth of the subsystem as a whole. -/
  bandwidth : Frequency α
  /-- The channels of the subsystem as a whole. -/
  channels : UInt32
  /-- The overlap of adjacent subbands; a positive overlap asks for two subbands. -/
  overlap : Frequency α
  /-- The centre of the subsystem in the intermediate frequency band. -/
  ifFreq : Frequency α
deriving DecidableEq

/-- A map scanned row by row. -/
structure Raster (α : Type) where
  width : Arcsec α
  height : Arcsec α
  /-- The spacing of samples along a row. -/
  dx : Arcsec α
  /-- The spacing of rows. -/
  dy : Arcsec α
  angle : Degrees α
  sampleTime : Duration α
  /-- The scan speed in arc seconds per second, if it is not one sample spacing per sample. -/
  velocity : Option α
  rowsPerRef : Option Int
  rowsPerCal : Option Int

/-- A list of positions observed one after another. -/
structure Stare (α : Type) where
  offsets : List (Offset α)
  angle : Degrees α
  secondsPerPoint : Duration α

/-- A pattern of points visited by the secondary mirror. -/
structure Jiggle (α : Type) where
  pattern : Pattern α
  angle : Degrees α
  secondsPerPoint : Duration α
  /-- The points observed in one chop position, if it is not the whole pattern. -/
  jigglesPerChop : Option UInt32
  /-- The steps spent in the off position per chop cycle. -/
  offCycles : UInt32

/-- The directions in which the secondary mirror is focused. -/
inductive FocusAxis where
  | x
  | y
  | z
deriving DecidableEq

/-- The letter of a direction. -/
def FocusAxis.label : FocusAxis → String
  | x => "X"
  | y => "Y"
  | z => "Z"

/-- A focus curve. -/
structure Focus (α : Type) where
  axis : FocusAxis
  steps : UInt32
  /-- The displacement of the secondary mirror per step, in millimetres. -/
  stepSize : α
  secondsPerStep : Duration α

/-- The movement of an observation over the sky. -/
inductive Movement (α : Type) where
  | raster (raster : Raster α)
  | stare (stare : Stare α)
  | jiggle (jiggle : Jiggle α)
  | pointing (jiggle : Jiggle α)
  | focus (focus : Focus α)

/-- The iterator of a movement. -/
def Movement.iterator {α : Type} : Movement α → IteratorKind
  | .raster _ => .raster
  | .stare _ => .stare
  | .jiggle _ => .jiggle
  | .pointing _ => .pointing
  | .focus _ => .focus

end Heterodyne
