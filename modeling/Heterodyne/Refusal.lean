import Heterodyne.Bandwidth.Mode
import Heterodyne.Count
import Heterodyne.Mode.Basic
import Heterodyne.Observation.Iterator
import Heterodyne.Observation.Switching
import Heterodyne.Spectrum.WindowId
import Heterodyne.Wiring.Basic
/-!
# Refusals

Why an observation cannot be configured: each cause with what it is about, the kind of cause,
and its wording.
-/

namespace Heterodyne

/-- The causes for which a request is refused. -/
inductive Refusal (α : Type) where
  /-- The iterator never goes with the switching scheme. -/
  | switchingUnsupported (iterator : IteratorKind) (switching : Switching)
  /-- The iterator does not go with the switching scheme yet. -/
  | switchingPending (iterator : IteratorKind) (switching : Switching)
  | unknownIterator (name : String)
  | unknownSwitching (name : String)
  | unknownPattern (name : String)
  | unknownBandwidth (label : String)
  | unknownKeyword (name : String)
  | unknownTuningKeyword (name : String)
  | unknownReceptor (receptor : Receptor)
  | spacingNotPositive (dx dy : Arcsec α)
  | negativeMapSize (width height : Arcsec α)
  | velocityNotPositive (velocity : α)
  | noOffsets
  | emptyPattern (name : String)
  | jigglesPerChop (points : Nat) (given : UInt32)
  | noFocusSteps
  | noSubsystems
  | emptySubsystem (number : Nat) (bandwidth : Frequency α) (channels : UInt32)
  | negativeOverlap (number : Nat) (overlap : Frequency α)
  | noReceptors
  | noRepeats
  | noNyquist
  | nyquistNotPositive (nyquist : Arcsec α)
  | unequalSubbands (number channels subbands : UInt32)
  | cannotPark (mode : BandwidthMode) (low bandwidth : Frequency α)
  | tooFewSlots (receptor : Receptor) (windows slots : Nat)
  | moduleTaken (module : UInt32) (running wanted : String) (window : WindowId)
      (receptor : Receptor)
  | quadrantTaken (quadrant : UInt32) (running wanted : String) (window : WindowId)
      (receptor : Receptor)
  | converterTaken (converter : UInt32) (running wanted : String) (window : WindowId)
      (receptor : Receptor)
  | synthTaken (synth : UInt32) (holder window : WindowId) (receptor : Receptor)
  | emptyGrid
  | gridNyquistNotPositive (nyquist : Arcsec α)
  | noFootprint
  | stepTimeNotPositive (time : Duration α)
  | modeMismatch (mode : Mode) (iterator : IteratorKind)
  | untunedSynth (window : WindowId) (synth : UInt32)
  | malformedWiring
deriving DecidableEq

/-- The kinds of causes. -/
inductive RefusalKind where
  /-- Valid parts that do not go together. -/
  | unsupported
  /-- A part that means nothing. -/
  | unrecognized
  /-- More is asked for than is wired. -/
  | exhausted
  /-- Two windows want one piece of hardware in different states. -/
  | conflict
  /-- A rule that the steps before should have kept is broken. -/
  | inconsistent
  /-- A wiring text that cannot be read. -/
  | malformed
deriving DecidableEq

namespace Refusal

open Heterodyne.Count (text)

/-- The kind of a cause. -/
def kind {α : Type} : Refusal α → RefusalKind
  | switchingUnsupported .. | switchingPending .. => .unsupported
  | tooFewSlots .. => .exhausted
  | moduleTaken .. | quadrantTaken .. | converterTaken .. | synthTaken .. => .conflict
  | emptyGrid | gridNyquistNotPositive .. | noFootprint | stepTimeNotPositive ..
  | modeMismatch .. | untunedSynth .. => .inconsistent
  | malformedWiring => .malformed
  | _ => .unrecognized

/-- The wording of an inconsistency. -/
def inconsistency (s : String) : String := "Internal inconsistency: " ++ s

/-- The wording of a cause. -/
def message : Refusal Binary64 → String
  | switchingUnsupported iterator switching =>
    "Switching mode '" ++ switching.name ++ "' is not supported with the " ++ iterator.name
      ++ " iterator"
  | switchingPending iterator switching =>
    iterator.name ++ " with switching mode '" ++ switching.name ++ "' is not yet supported"
  | unknownIterator name => "Unrecognized observation iterator '" ++ name ++ "'"
  | unknownSwitching name => "Unrecognized switching mode '" ++ name ++ "'"
  | unknownPattern name => "Unknown jiggle pattern '" ++ name ++ "'"
  | unknownBandwidth label =>
    "Bandwidth mode '" ++ label ++ "' is not a supported correlator bandwidth"
  | unknownKeyword name => "Unknown header keyword '" ++ name ++ "'"
  | unknownTuningKeyword name => "Unknown LO2 header keyword '" ++ name ++ "'"
  | unknownReceptor receptor =>
    "Receptor '" ++ receptor ++ "' is not in the correlator wiring map"
  | spacingNotPositive dx dy =>
    "Raster sample spacing must be positive, got dx=" ++ dx.text ++ ", dy=" ++ dy.text
  | negativeMapSize width height =>
    "Raster map size must not be negative, got " ++ width.text ++ " x " ++ height.text
  | velocityNotPositive velocity =>
    "Raster scan velocity must be positive, got " ++ velocity.plain ++ " arcsec/s"
  | noOffsets => "Stare observation without offsets"
  | emptyPattern name => "Jiggle pattern '" ++ name ++ "' has no points"
  | jigglesPerChop points given =>
    "Jiggles per chop must be in 1..=" ++ toString points ++ ", got " ++ text given
  | noFocusSteps => "Focus observation without steps"
  | noSubsystems => "Observation requests no spectral subsystems"
  | emptySubsystem number bandwidth channels =>
    "Subsystem " ++ toString number ++ " requests " ++ bandwidth.text ++ " over "
      ++ text channels ++ " channels"
  | negativeOverlap number overlap =>
    "Subsystem " ++ toString number ++ " has a negative overlap of " ++ overlap.text
  | noReceptors => "Observation enables no receptors"
  | noRepeats => "Integration repeat count must be positive"
  | noNyquist => "Observation has no Nyquist sampling value"
  | nyquistNotPositive nyquist =>
    "Nyquist sampling value must be positive, got " ++ nyquist.text
  | unequalSubbands number channels subbands =>
    "Subsystem " ++ text number ++ ": " ++ text channels ++ " channels cannot be split into "
      ++ text subbands ++ " equal subbands"
  | cannotPark mode low bandwidth =>
    "Cannot park bandwidth mode " ++ mode.name ++ ": low edge " ++ low.text
      ++ " exceeds subband bandwidth " ++ bandwidth.text
  | tooFewSlots receptor windows slots =>
    "Receptor '" ++ receptor ++ "' requires " ++ toString windows
      ++ " spectral windows but only " ++ toString slots ++ " hardware slots are available"
  | moduleTaken module running wanted window receptor =>
    "Correlator module " ++ text module ++ " already runs " ++ running ++ ", cannot run "
      ++ wanted ++ " for " ++ window.name ++ " of receptor " ++ receptor
  | quadrantTaken quadrant running wanted window receptor =>
    "Quadrant " ++ text quadrant ++ " is already in subband mode " ++ running
      ++ ", cannot switch to " ++ wanted ++ " for " ++ window.name ++ " of receptor " ++ receptor
  | converterTaken converter running wanted window receptor =>
    "Down-converter " ++ text converter ++ " is already set to " ++ running ++ ", cannot set "
      ++ wanted ++ " for " ++ window.name ++ " of receptor " ++ receptor
  | synthTaken synth holder window receptor =>
    "Synthesizer slot " ++ text synth ++ " is claimed by both " ++ holder.name ++ " and "
      ++ window.name ++ " (receptor " ++ receptor ++ ")"
  | emptyGrid => inconsistency "Grid requested for an empty offset list"
  | gridNyquistNotPositive nyquist =>
    inconsistency ("Grid synthesis needs a positive Nyquist value, got " ++ nyquist.text)
  | noFootprint => inconsistency "Footprint requested before any cube was laid out"
  | stepTimeNotPositive time =>
    inconsistency ("Step time must be positive, got " ++ time.text)
  | modeMismatch mode iterator =>
    inconsistency ("Mode " ++ mode.name ++ " does not match the " ++ iterator.name
      ++ " iterator parameters")
  | untunedSynth window synth =>
    inconsistency ("No LO2 was planned for " ++ window.name ++ " on synthesizer " ++ text synth)
  | malformedWiring => "Failed to parse the correlator wiring map"

end Refusal

end Heterodyne
