import Heterodyne.Configuration
import Heterodyne.Decimal.Notation
import Heterodyne.Json.Basic
/-!
# Configuration documents

The document of a configuration: one member for every part of it, tables as objects with decimal
keys. A number that is not finite is written as null, and what does not apply to a window or an
observing mode is left out.

* `number_eq_null_iff`: null stands for the numbers that are not finite and for no others.
-/

namespace Heterodyne

namespace Json

/-- A number with all of its digits, if it is finite. -/
def number (x : Binary64) : Json :=
  if x.isNaN || x.isInfinite then .null else .numeral x.general.toList

/-- Null stands for the numbers that are not finite and for no others. -/
theorem number_eq_null_iff (x : Binary64) :
    number x = .null ↔ x.isNaN = true ∨ x.isInfinite = true := by
  unfold number
  split <;> simp_all

/-- A table as an object. -/
def table {β : Type} (write : β → Json) (t : Table UInt32 β) : Json :=
  .object (t.entries.map fun e => member (Count.text e.1) (write e.2))

end Json

open Json (member text count number optional table)

/-- The document of a mode. -/
def Mode.toJson (m : Mode) : Json :=
  .object [
    member "mapping" (text m.mapping.label),
    member "switching" (text m.switching.label),
    member "obs_type" (text m.purpose.label)]

/-- The document of a window. Only a subband has a parent, only a hybrid has subbands, and only
a tuned window has an oscillator frequency. -/
def Window.toJson (w : Window Binary64) : Json :=
  .object ([
      member "id" (text w.id),
      member "bandwidth_label" (text w.label),
      member "bandwidth_mode" (text w.mode),
      member "rest_freq" (number w.restFreq),
      member "if_freq" (number w.ifFreq),
      member "channel_width" (number w.channelWidth),
      member "nchan" (count w.channels),
      member "overlap_channels" (count w.overlapChannels)]
    ++ optional "parent" text w.parent
    ++ (if w.subbands.isEmpty then [] else [member "subbands" (.array (w.subbands.map text))])
    ++ optional "align_shift" number w.shift
    ++ optional "lo2" number w.lo2)

/-- The document of a route. -/
def Route.toJson (r : Route) : Json :=
  .object [
    member "receptor" (text r.receptor),
    member "spw_id" (text r.window),
    member "cm_id" (count r.module),
    member "dcm_id" (count r.converter),
    member "quadrant" (count r.quadrant),
    member "synth" (count r.synth)]

/-- The document of the correlator. -/
def CorrelatorBlock.toJson (c : CorrelatorBlock) : Json :=
  .object [
    member "cm_modes" (table text c.moduleModes),
    member "quadrant_modes" (table text c.quadrantModes),
    member "routing" (.array (c.routes.map Route.toJson))]

/-- The document of the intermediate frequency chain. -/
def IfBlock.toJson (b : IfBlock Binary64) : Json :=
  .object [
    member "dcm_bandwidths" (table text b.converterBandwidths),
    member "synth_windows" (table text b.synthWindows),
    member "lo2" (table number b.lo2)]

/-- The document of the sequencer. -/
def Sequence.toJson (s : Sequence Binary64) : Json :=
  .object ([
      member "step_time" (number s.stepTime),
      member "num_cycles" (count s.cycles),
      member "steps_per_ref" (count s.stepsPerRef),
      member "n_calsamples" (count s.calSamples)]
    ++ optional "jos_mult" count s.traversalsPerPhase
    ++ optional "num_nod_sets" count s.nodSets
    ++ optional "jos_min" count s.minSteps
    ++ optional "jiggles_per_chop" count s.jigglesPerChop
    ++ optional "rows_per_ref" count s.rowsPerRef
    ++ optional "rows_per_cal" count s.rowsPerCal
    ++ optional "ref_to_cal_ratio" count s.refToCalRatio
    ++ optional "n_refsamples" count s.refSamples
    ++ optional "scan_velocity" number s.velocity
    ++ optional "focus_axis" (fun axis => text axis.label) s.focusAxis
    ++ optional "focus_steps" count s.focusSteps
    ++ optional "focus_step_size" number s.focusStepSize)

/-- The document of a cube. -/
def CubeBlock.toJson (c : CubeBlock Binary64) : Json :=
  .object [
    member "spw_id" (text c.window),
    member "nx" (count c.nx),
    member "ny" (count c.ny),
    member "pixel_x" (number c.pixelX),
    member "pixel_y" (number c.pixelY),
    member "centre_x" (number c.centreX),
    member "centre_y" (number c.centreY),
    member "position_angle" (number c.angle),
    member "rest_freq" (number c.restFreq),
    member "channel_width" (number c.channelWidth),
    member "nchan" (count c.channels)]

/-- The document of a configuration. -/
def Configuration.toJson (c : Configuration Binary64) : Json :=
  .object [
    member "mode" c.mode.toJson,
    member "spectral_windows" (.array (c.windows.map Window.toJson)),
    member "correlator" c.correlator.toJson,
    member "if_block" c.ifBlock.toJson,
    member "jos" c.sequence.toJson,
    member "cubes" (.array (c.cubes.map CubeBlock.toJson))]

end Heterodyne
