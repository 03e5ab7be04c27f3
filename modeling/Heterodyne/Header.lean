import Heterodyne.Configuration
import Heterodyne.Scalar
/-!
# Header keywords

The keywords that describe a configuration in the header of its data, each with its value where
it applies.

* `read_name`: a keyword of the table is read back from its name.
-/

namespace Heterodyne

/-- The header keywords. -/
inductive Keyword where
  | samMode
  | swMode
  | obsType
  | stepTime
  | numCyc
  | calSamples
  | josMult
  | numNods
  | josMin
  | rowsPerRef
  | refSamples
  | subbands
  /-- The oscillator frequency of a synthesizer, counted from one. -/
  | lo2 (slot : UInt32)
deriving DecidableEq

/-- The values of keywords. -/
inductive HeaderValue (α : Type) where
  | text (s : String)
  | count (n : UInt32)
  | number (x : α)
deriving DecidableEq

/-- A value as it is written. -/
def HeaderValue.written {α : Type} [Scalar α] : HeaderValue α → String
  | .text s => s
  | .count n => Count.text n
  | .number x => Scalar.plain x

namespace Keyword

/-- The synthesizers that have a keyword. -/
def tuningSlots : UInt32 := 4

/-- The table of keywords. -/
def all : List Keyword := [
  .samMode, .swMode, .obsType, .stepTime, .numCyc, .calSamples, .josMult, .numNods, .josMin,
  .rowsPerRef, .refSamples, .subbands, .lo2 1, .lo2 2, .lo2 3, .lo2 4]

/-- The beginning of the tuning keywords. -/
def tuningStart : String := "LO2_"

/-- The name of a keyword. -/
def name : Keyword → String
  | samMode => "SAM_MODE"
  | swMode => "SW_MODE"
  | obsType => "OBS_TYPE"
  | stepTime => "STEPTIME"
  | numCyc => "NUM_CYC"
  | calSamples => "N_CALSAMPLES"
  | josMult => "JOS_MULT"
  | numNods => "NUM_NODS"
  | josMin => "JOS_MIN"
  | rowsPerRef => "ROWS_PER_REF"
  | refSamples => "NREFSAMPLES"
  | subbands => "NCHNSUBS"
  | lo2 slot => tuningStart ++ Count.text slot

/-! ## Reading names -/

/-- A count in decimal digits, which may have leading zeros and one plus sign. -/
def readCount (s : List Char) : Option UInt32 :=
  let digits := match s with
    | '+' :: rest => rest
    | _ => s
  if digits = [] ∨ ¬ digits.all Char.isDigit then none
  else
    let n := digits.foldl (fun n c => 10 * n + (c.toNat - '0'.toNat)) 0
    if n < 1 <<< 32 then some (UInt32.ofNat n) else none

/-- The tuning keyword of a slot, if the slot has one. -/
def tuning? (slot : UInt32) : Option Keyword :=
  if 1 ≤ slot ∧ slot ≤ tuningSlots then some (.lo2 slot) else none

/-- The keyword of a name. -/
def read {α : Type} (s : String) : Except (Refusal α) Keyword :=
  if tuningStart.toList.isPrefixOf s.toList then
    match (readCount (s.toList.drop tuningStart.length)).bind tuning? with
    | some keyword => .ok keyword
    | none => .error (.unknownTuningKeyword s)
  else
    match all.find? fun keyword => keyword.name == s with
    | some keyword => .ok keyword
    | none => .error (.unknownKeyword s)

/-- A keyword of the table is read back from its name. -/
theorem read_name {α : Type} : ∀ k ∈ all, (read k.name : Except (Refusal α) Keyword) = .ok k := by
  intro k hk
  simp only [all, List.mem_cons, List.not_mem_nil, or_false] at hk
  rcases hk with rfl | rfl | rfl | rfl | rfl | rfl | rfl | rfl | rfl | rfl | rfl | rfl | rfl |
    rfl | rfl | rfl <;> rfl

/-! ## Values -/

variable {α : Type}

/-- The most subbands of any window, at least one. -/
def mostSubbands (c : Configuration α) : UInt32 :=
  max (c.windows.foldl (fun n w => max n (UInt32.ofNat w.subbands.length)) 0) 1

/-- The value of a keyword, if it applies to the configuration. -/
def value? (c : Configuration α) : Keyword → Option (HeaderValue α)
  | samMode => some (.text c.mode.mapping.label)
  | swMode => some (.text c.mode.switching.label)
  | obsType => some (.text c.mode.purpose.label)
  | stepTime => some (.number c.sequence.stepTime)
  | numCyc => some (.count c.sequence.cycles)
  | calSamples => some (.count c.sequence.calSamples)
  | josMult => c.sequence.traversalsPerPhase.map .count
  | numNods => c.sequence.nodSets.map .count
  | josMin => c.sequence.minSteps.map .count
  | rowsPerRef => c.sequence.rowsPerRef.map .count
  | refSamples => c.sequence.refSamples.map .count
  | subbands => some (.count (mostSubbands c))
  | lo2 slot => if slot = 0 then none else (c.ifBlock.lo2.get? (slot - 1)).map .number

end Keyword

/-- The keywords that apply to a configuration, in the order of the table. -/
def Configuration.headers {α : Type} (c : Configuration α) : List (Keyword × HeaderValue α) :=
  Keyword.all.filterMap fun k => (k.value? c).map fun v => (k, v)

end Heterodyne
