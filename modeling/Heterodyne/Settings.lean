import Heterodyne.Quantity
/-!
# Settings

The times, steps and tolerances that observations are configured with, and the repair of values
that cannot be used.

* `get_set`, `get_set_of_ne`: a setting is written alone.
* `repair?_eq_none_iff`: a value is left as it is exactly if it lies in the range of its setting.
-/

namespace Heterodyne

/-- The values that observations are configured with. -/
structure Settings (α : Type) where
  /-- The time of one step of the sequencer. -/
  stepTime : Duration α
  /-- The time spent on one calibration. -/
  calTime : Duration α
  /-- The longest time in one nod position. -/
  maxNodTime : Duration α
  /-- The step on which second local oscillators are tuned. -/
  lo2Step : Frequency α
  /-- The step to which bandwidths are rounded. -/
  bandwidthRounding : Frequency α
  /-- The part of the Nyquist value within which two offsets share a pixel. -/
  gridTolerance : α
deriving DecidableEq

/-- The settings that are repaired. A step time is used as it is given. -/
inductive Setting where
  | calTime
  | maxNodTime
  | lo2Step
  | bandwidthRounding
  | gridTolerance
deriving DecidableEq

namespace Setting

/-- The settings in the order of their repair. -/
def all : List Setting := [.calTime, .maxNodTime, .lo2Step, .bandwidthRounding, .gridTolerance]

/-- The name of a setting. -/
def name : Setting → String
  | .calTime => "cal_time"
  | .maxNodTime => "max_time_between_nods"
  | .lo2Step => "lo2_step"
  | .bandwidthRounding => "bandwidth_rounding"
  | .gridTolerance => "grid_tolerance_factor"

/-- The range of a setting, in words. -/
def requirement : Setting → String
  | .gridTolerance => "Must be in the range (0, 0.5]."
  | _ => "Must be positive."

/-- A value of a setting as it is shown to people. -/
def valueText (setting : Setting) (x : Binary64) : String :=
  match setting with
  | .calTime | .maxNodTime => (⟨x⟩ : Duration Binary64).text
  | .lo2Step | .bandwidthRounding => (⟨x⟩ : Frequency Binary64).text
  | .gridTolerance => x.plain

end Setting

namespace Settings

variable {α : Type}

/-- The value of a setting. -/
def get (s : Settings α) : Setting → α
  | .calTime => s.calTime.value
  | .maxNodTime => s.maxNodTime.value
  | .lo2Step => s.lo2Step.value
  | .bandwidthRounding => s.bandwidthRounding.value
  | .gridTolerance => s.gridTolerance

/-- The settings with one value replaced. -/
def set (s : Settings α) (x : α) : Setting → Settings α
  | .calTime => { s with calTime := ⟨x⟩ }
  | .maxNodTime => { s with maxNodTime := ⟨x⟩ }
  | .lo2Step => { s with lo2Step := ⟨x⟩ }
  | .bandwidthRounding => { s with bandwidthRounding := ⟨x⟩ }
  | .gridTolerance => { s with gridTolerance := x }

/-- A setting that has been set has its new value. -/
theorem get_set (s : Settings α) (x : α) (f : Setting) : (s.set x f).get f = x := by
  cases f <;> rfl

/-- The other settings keep their values. -/
theorem get_set_of_ne (s : Settings α) (x : α) {f g : Setting} (h : g ≠ f) :
    (s.set x f).get g = s.get g := by
  cases f <;> cases g <;> first | rfl | exact absurd rfl h

/-- The step time is none of the settings that are repaired. -/
theorem stepTime_set (s : Settings α) (x : α) (f : Setting) :
    (s.set x f).stepTime = s.stepTime := by
  cases f <;> rfl

variable [Scalar α]

/-- The settings of an instrument that says nothing else. -/
def standard : Settings α where
  stepTime := ⟨Scalar.decimal 1 1⟩
  calTime := ⟨Scalar.decimal 12 1⟩
  maxNodTime := ⟨Scalar.whole 60⟩
  lo2Step := .megahertz (Scalar.decimal 2 1)
  bandwidthRounding := .megahertz (Scalar.whole 10)
  gridTolerance := Scalar.decimal 2 1

/-- The largest grid tolerance. -/
def maxGridTolerance : α := Scalar.decimal 5 1

/-- Whether a value lies in the range of a setting. -/
def usable (f : Setting) (x : α) : Prop :=
  match f with
  | .gridTolerance => Scalar.zero < x ∧ x ≤ maxGridTolerance
  | _ => Scalar.zero < x

instance (f : Setting) (x : α) : Decidable (usable f x) := by
  cases f <;> (unfold usable; infer_instance)

/-- The value that takes the place of one outside its range: the largest grid tolerance for one
that is too large, and the standard value otherwise. -/
def repair? (f : Setting) (x : α) : Option α :=
  if usable f x then none
  else if f = .gridTolerance ∧ maxGridTolerance < x then some maxGridTolerance
  else some (standard.get f)

/-- A value needs no repair exactly if it is usable. -/
theorem repair?_eq_none_iff {f : Setting} {x : α} : repair? f x = none ↔ usable f x := by
  unfold repair?
  split
  · simp_all
  · split <;> simp_all

end Settings

/-- A replaced setting. -/
structure Change (α : Type) where
  setting : Setting
  replaced : α
  kept : α

namespace Settings

variable {α : Type} [Scalar α]

/-- Repairs one setting and reports the replacement. -/
def repair (f : Setting) (s : Settings α) : Settings α × List (Change α) :=
  match repair? f (s.get f) with
  | none => (s, [])
  | some x => (s.set x f, [⟨f, s.get f, x⟩])

/-- Repairs all settings in order and reports every replacement. -/
def sanitize (s : Settings α) : Settings α × List (Change α) :=
  Setting.all.foldl
    (fun done f =>
      let next := repair f done.1
      (next.1, done.2 ++ next.2))
    (s, [])

end Settings

end Heterodyne
