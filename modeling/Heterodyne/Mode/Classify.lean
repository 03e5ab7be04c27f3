import Heterodyne.Refusal
/-!
# Classification

Which observing mode an iterator and a switching scheme make up. Pointing and focus observations
always chop, whatever scheme is asked for.
-/

namespace Heterodyne

variable {α : Type}

/-- The iterator of a name. -/
def IteratorKind.read (name : String) : Except (Refusal α) IteratorKind :=
  match ofName? name with
  | some kind => .ok kind
  | none => .error (.unknownIterator name)

/-- The switching scheme of a name. -/
def Switching.read (name : String) : Except (Refusal α) Switching :=
  match ofName? name with
  | some switching => .ok switching
  | none => .error (.unknownSwitching name)

namespace Mode

/-- The observing mode of an iterator with a switching scheme. -/
def classify (iterator : IteratorKind) (switching : Switching) : Except (Refusal α) Mode :=
  match iterator, switching with
  | .raster, .position => .ok ⟨.raster, .position, .science⟩
  | .raster, .chop => .error (.switchingPending iterator switching)
  | .pointing, _ => .ok ⟨.jiggle, .chop, .pointing⟩
  | .focus, _ => .ok ⟨.jiggle, .chop, .focus⟩
  | .stare, .position => .ok ⟨.grid, .position, .science⟩
  | .stare, .chop => .ok ⟨.jiggle, .chop, .science⟩
  | .stare, .beam => .ok ⟨.jiggle, .chop, .science⟩
  | .jiggle, .chop => .ok ⟨.jiggle, .chop, .science⟩
  | .jiggle, .beam => .ok ⟨.jiggle, .chop, .science⟩
  | .jiggle, .frequency _ => .ok ⟨.jiggle, .frequency, .science⟩
  | .jiggle, .position => .error (.switchingPending iterator switching)
  | _, _ => .error (.switchingUnsupported iterator switching)

/-- The observing mode by the names of iterator and switching scheme. The scheme's name is not
read for pointing and focus observations. -/
def classifyNames (iterator switching : String) : Except (Refusal α) Mode := do
  let iterator ← IteratorKind.read iterator
  match iterator with
  | .pointing => classify .pointing .unswitched
  | .focus => classify .focus .unswitched
  | _ => classify iterator (← Switching.read switching)

end Mode

end Heterodyne
