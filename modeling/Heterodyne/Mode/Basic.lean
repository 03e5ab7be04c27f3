/-!
# Observing modes

What an observation does in the telescope's own terms: how it maps, how it switches and what it
is for.
-/

namespace Heterodyne

/-- How the telescope covers its map. -/
inductive Mapping where
  | raster
  | grid
  | jiggle
deriving DecidableEq

/-- How the telescope switches to its reference. -/
inductive SwitchMode where
  | position
  | chop
  | frequency
  | self
  | unswitched
deriving DecidableEq

/-- What an observation is for. -/
inductive Purpose where
  | science
  | pointing
  | focus
  | skydip
  | flatfield
deriving DecidableEq

/-- The label of a way of mapping. -/
def Mapping.label : Mapping → String
  | .raster => "raster"
  | .grid => "grid"
  | .jiggle => "jiggle"

/-- The label of a way of switching. -/
def SwitchMode.label : SwitchMode → String
  | .position => "pssw"
  | .chop => "chop"
  | .frequency => "freqsw"
  | .self => "self"
  | .unswitched => "none"

/-- The label of a purpose. -/
def Purpose.label : Purpose → String
  | .science => "science"
  | .pointing => "pointing"
  | .focus => "focus"
  | .skydip => "skydip"
  | .flatfield => "flatfield"

/-- The way of mapping that bears a label. -/
def Mapping.ofLabel? : String → Option Mapping
  | "raster" => some .raster
  | "grid" => some .grid
  | "jiggle" => some .jiggle
  | _ => none

/-- The way of switching that bears a label. -/
def SwitchMode.ofLabel? : String → Option SwitchMode
  | "pssw" => some .position
  | "chop" => some .chop
  | "freqsw" => some .frequency
  | "self" => some .self
  | "none" => some .unswitched
  | _ => none

/-- The purpose that bears a label. -/
def Purpose.ofLabel? : String → Option Purpose
  | "science" => some .science
  | "pointing" => some .pointing
  | "focus" => some .focus
  | "skydip" => some .skydip
  | "flatfield" => some .flatfield
  | _ => none

/-- A way of mapping is read back from its label. -/
theorem Mapping.ofLabel?_label (m : Mapping) : ofLabel? m.label = some m := by cases m <;> rfl

/-- A way of switching is read back from its label. -/
theorem SwitchMode.ofLabel?_label (m : SwitchMode) : ofLabel? m.label = some m := by
  cases m <;> rfl

/-- A purpose is read back from its label. -/
theorem Purpose.ofLabel?_label (p : Purpose) : ofLabel? p.label = some p := by cases p <;> rfl

/-- An observing mode. -/
structure Mode where
  mapping : Mapping
  switching : SwitchMode
  purpose : Purpose
deriving DecidableEq

namespace Mode

/-- The three labels of a mode, joined. -/
def name (m : Mode) : String :=
  m.mapping.label ++ "_" ++ m.switching.label ++ "_" ++ m.purpose.label

/-- Whether the secondary mirror chops while it jiggles; pointing and focus observations do. -/
def isChopJiggle (m : Mode) : Bool := m.mapping = .jiggle ∧ m.switching = .chop

end Mode

end Heterodyne
