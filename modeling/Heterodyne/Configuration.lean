import Heterodyne.Routing
import Heterodyne.Timing
/-!
# Configurations

Everything that the telescope is told for one observation, in plain values: frequencies in
hertz, times in seconds, offsets and pixels in arc seconds, angles in degrees, names as texts.

* `window?_some`: a window that is found is in the configuration under its name.
-/

namespace Heterodyne

/-- A spectral window: a whole hybrid, a subband of one, or a whole subsystem. -/
structure Window (α : Type) where
  id : String
  /-- The hybrid that a subband belongs to. -/
  parent : Option String
  /-- The subbands of a hybrid. -/
  subbands : List String
  label : String
  mode : String
  restFreq : α
  /-- The centre in the intermediate frequency band, aligned unless the window is a hybrid. -/
  ifFreq : α
  channelWidth : α
  channels : UInt32
  overlapChannels : UInt32
  shift : Option α
  lo2 : Option α
deriving DecidableEq

/-- One window of one receptor and the hardware that it goes through. -/
structure Route where
  receptor : String
  window : String
  module : UInt32
  converter : UInt32
  quadrant : UInt32
  synth : UInt32
deriving DecidableEq

/-- The correlator. -/
structure CorrelatorBlock where
  moduleModes : Table UInt32 String
  quadrantModes : Table UInt32 String
  routes : List Route

/-- The intermediate frequency chain. -/
structure IfBlock (α : Type) where
  converterBandwidths : Table UInt32 String
  synthWindows : Table UInt32 String
  lo2 : Table UInt32 α

/-- The sequencer; what does not apply to the observing mode is left out. -/
structure Sequence (α : Type) where
  stepTime : α
  cycles : UInt32
  stepsPerRef : UInt32
  calSamples : UInt32
  traversalsPerPhase : Option UInt32 := none
  nodSets : Option UInt32 := none
  minSteps : Option UInt32 := none
  jigglesPerChop : Option UInt32 := none
  rowsPerRef : Option UInt32 := none
  rowsPerCal : Option UInt32 := none
  refToCalRatio : Option UInt32 := none
  refSamples : Option UInt32 := none
  velocity : Option α := none
  focusAxis : Option FocusAxis := none
  focusSteps : Option UInt32 := none
  focusStepSize : Option α := none
deriving DecidableEq

/-- A data cube. -/
structure CubeBlock (α : Type) where
  window : String
  nx : UInt32
  ny : UInt32
  pixelX : α
  pixelY : α
  centreX : α
  centreY : α
  angle : α
  restFreq : α
  channelWidth : α
  channels : UInt32
deriving DecidableEq

/-- The configuration of one observation. -/
structure Configuration (α : Type) where
  mode : Mode
  windows : List (Window α)
  correlator : CorrelatorBlock
  ifBlock : IfBlock α
  sequence : Sequence α
  cubes : List (CubeBlock α)

variable {α : Type}

/-- The window of a hybrid as a whole, which is not tuned. -/
def Window.ofHybrid (ss : SubsystemPlan α) : Window α where
  id := ss.id.name
  parent := none
  subbands := ss.subbands.map (·.id.name)
  label := ss.label
  mode := ss.mode.name
  restFreq := ss.restFreq.value
  ifFreq := ss.ifFreq.value
  channelWidth := ss.channelWidth.value
  channels := ss.hybridChannels
  overlapChannels := ss.overlapChannels
  shift := none
  lo2 := none

/-- A tuned window of a subsystem. -/
def Window.ofSubband [Scalar α] (ss : SubsystemPlan α) (sb : Subband α) : Window α where
  id := sb.id.name
  parent := if ss.isHybrid then some ss.id.name else none
  subbands := []
  label := ss.label
  mode := ss.mode.name
  restFreq := ss.restFreq.value
  ifFreq := sb.alignedIf.value
  channelWidth := ss.channelWidth.value
  channels := ss.subbandChannels
  overlapChannels := ss.overlapChannels
  shift := some sb.shift.value
  lo2 := some sb.lo2.value

/-- The windows of a subsystem, a hybrid before its subbands. -/
def Window.ofSubsystem [Scalar α] (ss : SubsystemPlan α) : List (Window α) :=
  (if ss.isHybrid then [ofHybrid ss] else []) ++ ss.subbands.map (ofSubband ss)

/-- The route of an assignment. -/
def Route.ofAssignment (a : Assignment) : Route :=
  ⟨a.receptor, a.window.name, a.slot.module, a.slot.converter, a.slot.quadrant, a.slot.synth⟩

/-- The correlator of a routing. -/
def CorrelatorBlock.ofRouting (r : Routing α) : CorrelatorBlock :=
  ⟨r.claims.moduleModes, r.claims.quadrantModes, r.assignments.map .ofAssignment⟩

/-- The intermediate frequency chain of a routing. -/
def IfBlock.ofRouting (r : Routing α) : IfBlock α :=
  ⟨r.claims.converterBandwidths, r.claims.synthWindows.map WindowId.name, r.lo2.map (·.value)⟩

/-- The sequencer of a timing. -/
def Sequence.ofTiming (t : Timing α) : Sequence α :=
  let base : Sequence α := {
    stepTime := t.stepTime.value
    cycles := t.cycles
    stepsPerRef := t.stepsPerRef
    calSamples := t.calSamples }
  match t.cadence with
  | .raster c =>
    { base with
      rowsPerRef := some c.rowsPerRef
      rowsPerCal := some c.rowsPerCal
      refToCalRatio := some c.refToCalRatio
      refSamples := some c.refSamples
      velocity := some c.velocity }
  | .chopJiggle c =>
    { base with
      traversalsPerPhase := some c.traversalsPerPhase
      nodSets := some c.nodSets
      jigglesPerChop := some c.jigglesPerChop }
  | .grid steps => { base with minSteps := some steps }
  | .frequencySwitch steps => { base with minSteps := some steps }
  | .focus axis steps stepSize =>
    { base with
      focusAxis := some axis
      focusSteps := some steps
      focusStepSize := some stepSize }

/-- The plain values of a cube. -/
def CubeBlock.ofCube (c : Cube α) : CubeBlock α where
  window := c.window.name
  nx := c.grid.nx
  ny := c.grid.ny
  pixelX := c.grid.pixelX.value
  pixelY := c.grid.pixelY.value
  centreX := c.grid.centre.x.value
  centreY := c.grid.centre.y.value
  angle := c.grid.angle.value
  restFreq := c.restFreq.value
  channelWidth := c.channelWidth.value
  channels := c.channels

namespace Configuration

/-- Puts the parts of a configuration together. -/
def assemble [Scalar α] (mode : Mode) (plan : Plan α) (routing : Routing α)
    (cubes : List (Cube α)) (timing : Timing α) : Configuration α where
  mode := mode
  windows := plan.subsystems.flatMap Window.ofSubsystem
  correlator := .ofRouting routing
  ifBlock := .ofRouting routing
  sequence := .ofTiming timing
  cubes := cubes.map .ofCube

/-- A window by its name. -/
def window? (c : Configuration α) (id : String) : Option (Window α) :=
  c.windows.find? fun w => w.id == id

/-- A window that is found is in the configuration under its name. -/
theorem window?_some {c : Configuration α} {id : String} {w : Window α}
    (h : c.window? id = some w) : w ∈ c.windows ∧ w.id = id :=
  ⟨List.mem_of_find?_eq_some h, by simpa using List.find?_some h⟩

end Configuration

end Heterodyne
