import Heterodyne.Refusal
import Heterodyne.Settings
import Heterodyne.Text.UpperCase
/-!
# The log

What is worth telling while an observation is configured. An event holds what it is about; its
level, its origin and its wording follow from it.
-/

namespace Heterodyne

/-- How much an event matters. -/
inductive Level where
  | debug
  | info
  | warn
deriving DecidableEq

/-- Where in the configuration of an observation an event arises. -/
inductive Origin where
  | instrument
  | spectrum
  | routing
  | grid
  | timing
deriving DecidableEq

/-- The events of a configuration. -/
inductive Event (α : Type) where
  | settingReplaced (change : Change α)
  | classified (mode : Mode)
  | windowTuned (window : WindowId) (exactIf lo2 exactLo2 shift : Frequency α)
  | windowRouted (window : WindowId) (receptor : Receptor) (slot : Slot)
  | trialRejected (trial : α)
  | gridFitted (nx ny : UInt32) (pixelX pixelY : Arcsec α) (angle : Degrees α)
  | rowTimed (rowTime : Duration α) (velocity onSteps : α)
  | traversalsDropped (nodSets perSet dropped required : UInt32)
  | observationFailed (index : Nat) (cause : Refusal α)

namespace Event

open Heterodyne.Count (text)

/-- Diagnostic events are told only on request. -/
def isDiagnostic {α : Type} : Event α → Bool
  | windowTuned .. | windowRouted .. | trialRejected .. | gridFitted .. | rowTimed .. => true
  | _ => false

/-- The level of an event. -/
def level {α : Type} : Event α → Level
  | settingReplaced .. | traversalsDropped .. => .warn
  | classified .. => .debug
  | _ => .info

/-- The origin of an event. -/
def origin {α : Type} : Event α → Origin
  | settingReplaced .. | classified .. | observationFailed .. => .instrument
  | windowTuned .. => .spectrum
  | windowRouted .. => .routing
  | trialRejected .. | gridFitted .. => .grid
  | rowTimed .. | traversalsDropped .. => .timing

/-- Diagnostic events are informative. -/
theorem level_of_isDiagnostic {α : Type} {e : Event α} (h : e.isDiagnostic = true) :
    e.level = .info := by
  cases e <;> first | rfl | cases h

/-- The wording of an event. -/
def message : Event Binary64 → String
  | settingReplaced change =>
    "Translator setting `" ++ String.ofList (Text.upperCase change.setting.name.toList)
      ++ "` is sanitized from " ++ change.setting.valueText change.replaced ++ " to "
      ++ change.setting.valueText change.kept ++ ". Reason: " ++ change.setting.requirement
  | classified mode => "Translating " ++ mode.name ++ " observation"
  | windowTuned window exactIf lo2 exactLo2 shift =>
    window.name ++ ": IF " ++ exactIf.text ++ " LO2 " ++ lo2.text ++ " (exact " ++ exactLo2.text
      ++ ", alignment " ++ shift.text ++ ")"
  | windowRouted window receptor slot =>
    window.name ++ " of " ++ receptor ++ " on CM " ++ text slot.module ++ " DCM "
      ++ text slot.converter ++ " quadrant " ++ text slot.quadrant ++ " synth "
      ++ text slot.synth
  | trialRejected trial =>
    "Trial pixel size " ++ trial.plain ++ " arcsec does not fit, shrinking"
  | gridFitted nx ny pixelX pixelY angle =>
    "Grid of " ++ text nx ++ "x" ++ text ny ++ " pixels of " ++ pixelX.text ++ " x "
      ++ pixelY.text ++ " at " ++ angle.text
  | rowTimed rowTime velocity onSteps =>
    "Raster row takes " ++ rowTime.text ++ " at " ++ velocity.plain ++ " arcsec/s, "
      ++ onSteps.plain ++ " on-steps per reference"
  | traversalsDropped nodSets perSet dropped required =>
    "Scheduling " ++ text nodSets ++ " nod sets of " ++ text perSet ++ " traversals; "
      ++ text dropped ++ " of " ++ text required ++ " requested traversals are dropped"
  | observationFailed index cause =>
    "Observation " ++ toString index ++ " failed to translate: " ++ cause.message

end Event

end Heterodyne
