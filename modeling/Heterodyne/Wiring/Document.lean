import Heterodyne.Json.Reader
import Heterodyne.Json.Writer
import Heterodyne.Refusal
/-!
# Wiring documents

A wiring is written as an object that has a member for every receptor, with the list of its
slots. A slot is an object with five named fields, in any order and among fields of other names,
or an array of the five in their order.
-/

namespace Heterodyne

namespace Slot

/-- The names of the fields of a slot. -/
def fieldNames : List String := ["cm_id", "dcm_id", "quadrant", "sb_mode", "synth"]

/-- An identifier. -/
def readId : Json → Option UInt32
  | .natural n => if n < 1 <<< 32 then some (UInt32.ofNat n) else none
  | _ => none

/-- A text. -/
def readText : Json → Option String
  | .string text => text
  | _ => none

/-- The slot of the five values of its fields. -/
def ofFields (module converter quadrant standby synth : Json) : Option Slot := do
  return {
    module := ← readId module
    converter := ← readId converter
    quadrant := ← readId quadrant
    standby := ← readText standby
    synth := ← readId synth }

/-- The value of a field that occurs once. -/
def field? (members : List (Option String × Json)) (name : String) : Option Json :=
  match members.filter fun m => m.1 == some name with
  | [(_, v)] => some v
  | _ => none

/-- The slot that a document describes. -/
def ofJson? : Json → Option Slot
  | .object members =>
    if members.all fun m => m.1.isSome then do
      ofFields (← field? members "cm_id") (← field? members "dcm_id")
        (← field? members "quadrant") (← field? members "sb_mode") (← field? members "synth")
    else none
  | .array [module, converter, quadrant, standby, synth] =>
    ofFields module converter quadrant standby synth
  | _ => none

/-- The document of a slot. -/
def toJson (slot : Slot) : Json :=
  .object [
    Json.member "cm_id" (.count slot.module),
    Json.member "dcm_id" (.count slot.converter),
    Json.member "quadrant" (.count slot.quadrant),
    Json.member "sb_mode" (.text slot.standby),
    Json.member "synth" (.count slot.synth)]

/-- An identifier is read back from its document. -/
theorem readId_count (n : UInt32) : readId (.count n) = some n := by
  simp [readId, Json.count, n.toNat_lt]

end Slot

namespace Wiring

/-- The slots that a document lists. -/
def readSlots : Json → Option (List Slot)
  | .array elements => elements.mapM Slot.ofJson?
  | _ => none

/-- A receptor with its slots. -/
def readEntry (member : Option String × Json) : Option (Receptor × List Slot) := do
  return (← member.1, ← readSlots member.2)

/-- The wiring that a document describes. A repeated receptor has the slots of its last member
in the place of its first. -/
def ofJson? : Json → Option Wiring
  | .object members => (members.mapM readEntry).map ofList
  | _ => none

/-- The document of a wiring. -/
def toJson (w : Wiring) : Json :=
  .object (w.entries.map fun e => Json.member e.1 (.array (e.2.map Slot.toJson)))

/-- Reads a wiring from its text. -/
def parse {α : Type} (text : String) : Except (Refusal α) Wiring :=
  match (Json.parse? text).bind ofJson? with
  | some w => .ok w
  | none => .error .malformedWiring

/-- The text of a wiring. -/
def render (w : Wiring) : String := w.toJson.render

end Wiring

end Heterodyne
