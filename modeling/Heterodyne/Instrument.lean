import Heterodyne.Configuration
import Heterodyne.Mode.Classify
/-!
# Instruments

An instrument is a wiring with settings that can be used. It configures itself for one
observation, or for many of which each stands on its own.

* `configureAll_nil`: nothing is told of no observations.
-/

namespace Heterodyne

/-- A wiring with repaired settings. -/
structure Instrument (α : Type) where
  settings : Settings α
  wiring : Wiring

namespace Instrument

variable {α : Type} [Scalar α]

/-- The instrument of settings and a wiring. Every setting that has to be replaced is told. -/
def commission (settings : Settings α) (wiring : Wiring) : Run α (Instrument α) := do
  let (settings, changes) := settings.sanitize
  Run.tellAll (changes.map .settingReplaced)
  return ⟨settings, wiring⟩

/-- The configuration of an observation: its mode, its windows, their routes, its cubes and its
timing, in this order. -/
def configure (i : Instrument α) (d : Descriptor α) : Run α (Configuration α) := do
  let mode ← Run.ofCheck (Mode.classify d.iterator d.switching)
  Run.tell (.classified mode)
  let plan ← Plan.ofSubsystems i.settings d.subsystems
  let routing ← Routing.ofPlan plan i.wiring d.receptors
  let cubes ← d.cubes plan i.settings
  let timing ← Timing.budget d mode cubes i.settings
  return .assemble mode plan routing cubes timing

/-- Configures observations one after another, counted from `index`. A refusal concerns its own
observation alone. -/
def configureFrom (i : Instrument α) :
    (index : Nat) → List (Descriptor α) → Run α (List (Except (Refusal α) (Configuration α)))
  | _, [] => pure []
  | index, d :: rest => do
    let result ← (i.configure d).attempt
    match result with
    | .ok _ => pure ()
    | .error cause => Run.tell (.observationFailed index cause)
    let others ← i.configureFrom (index + 1) rest
    return result :: others

/-- Configures observations one after another. -/
def configureAll (i : Instrument α) (ds : List (Descriptor α)) :
    Run α (List (Except (Refusal α) (Configuration α))) :=
  i.configureFrom 0 ds

/-- No observations need nothing done. -/
@[simp] theorem configureAll_nil (i : Instrument α) : i.configureAll [] = pure [] := rfl

end Instrument

end Heterodyne
