import Heterodyne.Observation.Request
/-!
# Descriptors

An observation is drafted part by part and becomes a descriptor once it is complete and its
parts pass their checks. The checks ask whether a value is out of range, so a value that is not
a number passes them.

* `objectIf_eq_ok_iff`: a check passes exactly if what it objects to does not hold.
-/

namespace Heterodyne

variable {α : Type}

/-- Objects to a request that has a fault. -/
def objectIf (bad : Prop) [Decidable bad] (cause : Refusal α) : Except (Refusal α) Unit :=
  if bad then .error cause else .ok ()

/-- An objection is passed exactly if its ground is missing. -/
theorem objectIf_eq_ok_iff {bad : Prop} [Decidable bad] {cause : Refusal α} :
    objectIf bad cause = .ok () ↔ ¬ bad := by
  unfold objectIf
  split <;> simp_all

variable [Scalar α]

/-- Whether a quantity lies at zero or below. -/
def Quantity.notPositive {u : MeasureUnit} (q : Quantity u α) : Prop := q.value ≤ Scalar.zero

/-- Whether a quantity lies below zero. -/
def Quantity.negative {u : MeasureUnit} (q : Quantity u α) : Prop := q.value < Scalar.zero

instance {u : MeasureUnit} (q : Quantity u α) : Decidable q.notPositive :=
  inferInstanceAs (Decidable (q.value ≤ Scalar.zero))

instance {u : MeasureUnit} (q : Quantity u α) : Decidable q.negative :=
  inferInstanceAs (Decidable (q.value < Scalar.zero))

/-! ## Checks -/

/-- Checks a map scanned row by row. -/
def Raster.check (r : Raster α) : Except (Refusal α) Unit := do
  objectIf (r.dx.notPositive ∨ r.dy.notPositive) (.spacingNotPositive r.dx r.dy)
  objectIf (r.width.negative ∨ r.height.negative) (.negativeMapSize r.width r.height)
  match r.velocity with
  | some v => objectIf (v ≤ Scalar.zero) (.velocityNotPositive v)
  | none => .ok ()

/-- Checks a list of positions. -/
def Stare.check (s : Stare α) : Except (Refusal α) Unit := objectIf (s.offsets = []) .noOffsets

/-- Checks a pattern of points. -/
def Jiggle.check (j : Jiggle α) : Except (Refusal α) Unit := do
  objectIf (j.pattern.points = []) (.emptyPattern j.pattern.name)
  match j.jigglesPerChop with
  | some n =>
    let points := j.pattern.points.length
    objectIf (n = 0 ∨ points < n.toNat) (.jigglesPerChop points n)
  | none => .ok ()

/-- Checks a focus curve. -/
def Focus.check (f : Focus α) : Except (Refusal α) Unit := objectIf (f.steps = 0) .noFocusSteps

/-- Checks a movement. -/
def Movement.check : Movement α → Except (Refusal α) Unit
  | .raster r => r.check
  | .stare s => s.check
  | .jiggle j => j.check
  | .pointing j => j.check
  | .focus f => f.check

/-- Checks a subsystem, which is counted from one. -/
def Subsystem.check (s : Subsystem α) (number : Nat) : Except (Refusal α) Unit := do
  objectIf (s.channels = 0 ∨ s.bandwidth.notPositive)
    (.emptySubsystem number s.bandwidth s.channels)
  objectIf s.overlap.negative (.negativeOverlap number s.overlap)

/-- Checks the subsystems in order. -/
def checkSubsystems : (number : Nat) → List (Subsystem α) → Except (Refusal α) Unit
  | _, [] => .ok ()
  | number, s :: rest => do
    s.check number
    checkSubsystems (number + 1) rest

/-! ## Drafts and descriptors -/

/-- An observation that is still being put together. -/
structure Draft (α : Type) where
  movement : Movement α
  switching : Switching
  subsystems : List (Subsystem α) := []
  repeats : Option UInt32 := none
  receptors : List Receptor := []
  nyquist : Option (Arcsec α) := none

/-- A complete and checked observation. -/
structure Descriptor (α : Type) where
  movement : Movement α
  switching : Switching
  subsystems : List (Subsystem α)
  /-- The repeats of the whole integration. -/
  repeats : UInt32
  receptors : List Receptor
  /-- Half the size of the diffraction-limited beam. -/
  nyquist : Arcsec α

/-- The iterator of an observation. -/
def Descriptor.iterator {α : Type} (d : Descriptor α) : IteratorKind := d.movement.iterator

namespace Draft

/-- Adds a subsystem behind the others. -/
def addSubsystem (d : Draft α) (s : Subsystem α) : Draft α :=
  { d with subsystems := d.subsystems ++ [s] }

/-- Asks for repeats of the whole integration. -/
def withRepeats (d : Draft α) (n : UInt32) : Draft α := { d with repeats := some n }

/-- Enables receptors behind the others. -/
def addReceptors (d : Draft α) (rs : List Receptor) : Draft α :=
  { d with receptors := d.receptors ++ rs }

/-- Sets the Nyquist sampling value. -/
def withNyquist (d : Draft α) (nyquist : Arcsec α) : Draft α :=
  { d with nyquist := some nyquist }

/-- The Nyquist sampling value of a complete draft. -/
def checkedNyquist (d : Draft α) : Except (Refusal α) (Arcsec α) :=
  match d.nyquist with
  | none => .error .noNyquist
  | some nyquist => do
    objectIf nyquist.notPositive (.nyquistNotPositive nyquist)
    return nyquist

/-- Checks a draft, from its movement to its Nyquist sampling value. -/
def build (d : Draft α) : Except (Refusal α) (Descriptor α) := do
  d.movement.check
  objectIf (d.subsystems.isEmpty = true) .noSubsystems
  checkSubsystems 1 d.subsystems
  objectIf (d.receptors = []) .noReceptors
  objectIf (d.repeats = some 0) .noRepeats
  let nyquist ← d.checkedNyquist
  return {
    movement := d.movement
    switching := d.switching
    subsystems := d.subsystems
    repeats := d.repeats.getD 1
    receptors := d.receptors
    nyquist }

end Draft

end Heterodyne
