/-!
# Iterators

How an observation moves over the sky, and the names by which a science program asks for it.
-/

namespace Heterodyne

/-- The kinds of movement over the sky. -/
inductive IteratorKind where
  | raster
  | stare
  | jiggle
  | pointing
  | focus
deriving DecidableEq

namespace IteratorKind

/-- The name under which an iterator is reported. -/
def name : IteratorKind → String
  | .raster => "raster"
  | .stare => "stare"
  | .jiggle => "jiggle"
  | .pointing => "pointing"
  | .focus => "focus"

/-- The iterator that a science program asks for; rasters and stares have two names. -/
def ofName? : String → Option IteratorKind
  | "rasterPixel" => some .raster
  | "raster" => some .raster
  | "stare" => some .stare
  | "grid" => some .stare
  | "jiggle" => some .jiggle
  | "pointing" => some .pointing
  | "focus" => some .focus
  | _ => none

/-- An iterator is read back from its name. -/
theorem ofName?_name (kind : IteratorKind) : ofName? kind.name = some kind := by
  cases kind <;> rfl

end IteratorKind

end Heterodyne
