/-!
# Switching schemes

How an observation alternates between the source and a reference, as a science program asks
for it.
-/

namespace Heterodyne

/-- The schemes of switching between source and reference. -/
inductive Switching where
  | position
  | chop
  | beam
  /-- Frequency switching, by the full name of the variant asked for. -/
  | frequency (variant : String)
  | unswitched
deriving DecidableEq

namespace Switching

/-- The name under which a scheme is reported. -/
def name : Switching → String
  | .position => "Position"
  | .chop => "Chop"
  | .beam => "Beam"
  | .frequency variant => variant
  | .unswitched => "None"

/-- The beginnings of the names of frequency switching. -/
def frequencyPrefixes : List String := ["Frequency-", "freqsw"]

/-- Whether a name asks for frequency switching. -/
def asksForFrequency (s : String) : Bool :=
  frequencyPrefixes.any fun start => start.toList.isPrefixOf s.toList

/-- The scheme that a science program asks for. -/
def ofName? (s : String) : Option Switching :=
  if s = "Position" ∨ s = "pssw" then some .position
  else if s = "Chop" ∨ s = "chop" then some .chop
  else if s = "Beam" ∨ s = "beam" then some .beam
  else if s = "None" ∨ s = "none" ∨ s = "" then some .unswitched
  else if asksForFrequency s then some (.frequency s)
  else none

end Switching

end Heterodyne
