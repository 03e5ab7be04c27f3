import Heterodyne.Observation.Offset
import Heterodyne.Refusal
/-!
# Jiggle patterns

The points that a jiggling mirror visits around one position: squares of points at unit spacing,
a cross of five points, or points of the observer's own.

* `length_square`: a square pattern of side `n` has `n * n` points.
-/

namespace Heterodyne

/-- A named list of points in the frame of the pattern. -/
structure Pattern (α : Type) where
  name : String
  points : List (Offset α)
deriving DecidableEq

namespace Pattern

variable {α : Type} [Scalar α]

/-- A square of `n` rows of `n` points at unit spacing around the origin, row by row. -/
def square (n : Nat) : List (Offset α) :=
  let half : α := (Scalar.whole n - Scalar.one) / Scalar.whole 2
  (List.range n).flatMap fun j =>
    (List.range n).map fun i => ⟨⟨Scalar.whole i - half⟩, ⟨Scalar.whole j - half⟩⟩

/-- The origin and its four neighbours at unit distance. -/
def cross : List (Offset α) :=
  let zero : α := Scalar.zero
  let one : α := Scalar.one
  [⟨⟨zero⟩, ⟨zero⟩⟩, ⟨⟨one⟩, ⟨zero⟩⟩, ⟨⟨zero⟩, ⟨one⟩⟩, ⟨⟨-one⟩, ⟨zero⟩⟩, ⟨⟨zero⟩, ⟨-one⟩⟩]

/-- The built-in patterns by name. -/
def builtIn : List (String × List (Offset α)) := [
  ("3x3", square 3),
  ("5x5", square 5),
  ("HARP4", square 4),
  ("HARP5", square 5),
  ("5pt", cross)]

/-- The built-in pattern of a name, with its unit spacing scaled. -/
def named (name : String) (scale : Arcsec α) : Except (Refusal α) (Pattern α) :=
  match builtIn.lookup name with
  | some points => .ok ⟨name, points.map (·.scaled scale.value)⟩
  | none => .error (.unknownPattern name)

/-- A square of side `n` has `n * n` points. -/
theorem length_square (n : Nat) : (square n : List (Offset α)).length = n * n := by
  simp [square, List.length_flatMap, List.map_const']

end Pattern

end Heterodyne
