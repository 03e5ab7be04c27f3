import Heterodyne.Quantity
/-!
# Offsets

Positions on the sky beside the target, as coordinates in the tangent plane or in a frame that
is turned by a position angle.
-/

namespace Heterodyne

/-- An angular offset in the tangent plane. -/
structure Offset (α : Type) where
  x : Arcsec α
  y : Arcsec α
deriving DecidableEq

namespace Offset

variable {α : Type} [Scalar α]

/-- The coordinates of an offset in the frame at a position angle. -/
def intoFrame (o : Offset α) (angle : Degrees α) : Offset α :=
  let (s, c) := Scalar.sinCosDegrees angle.value
  ⟨o.x * c + o.y * s, o.y * c - o.x * s⟩

/-- The offset that has the given coordinates in the frame at a position angle. -/
def fromFrame (o : Offset α) (angle : Degrees α) : Offset α :=
  let (s, c) := Scalar.sinCosDegrees angle.value
  ⟨o.x * c - o.y * s, o.x * s + o.y * c⟩

/-- The offset with both coordinates scaled. -/
def scaled (o : Offset α) (factor : α) : Offset α := ⟨o.x * factor, o.y * factor⟩

end Offset

end Heterodyne
