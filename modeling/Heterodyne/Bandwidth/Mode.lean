import Heterodyne.Quantity
/-!
# Correlator bandwidth modes

The bandwidths that a correlator module can run at, each with its passband and the frequency at
which the band is parked.
-/

namespace Heterodyne

/-- The bandwidths of a correlator module. -/
inductive BandwidthMode where
  | ghz1
  | mhz500
  | mhz250
deriving DecidableEq

/-- A passband, measured from the lower edge of a subband, and where it is parked. -/
structure Passband (α : Type) where
  low : Frequency α
  high : Frequency α
  park : Frequency α

namespace BandwidthMode

/-- All modes, the widest first. -/
def all : List BandwidthMode := [.ghz1, .mhz500, .mhz250]

/-- Every mode is in the list of modes. -/
theorem mem_all (m : BandwidthMode) : m ∈ all := by cases m <;> simp [all]

/-- The name of a mode: its bandwidth in upper case. -/
def name : BandwidthMode → String
  | .ghz1 => "1GHZ"
  | .mhz500 => "500MHZ"
  | .mhz250 => "250MHZ"

/-- The passband of a mode. -/
def passband {α : Type} [Scalar α] : BandwidthMode → Passband α
  | .ghz1 => ⟨⟨Scalar.whole 40000000⟩, ⟨Scalar.whole 960000000⟩, ⟨Scalar.whole 2500000000⟩⟩
  | .mhz500 => ⟨⟨Scalar.whole 20000000⟩, ⟨Scalar.whole 480000000⟩, ⟨Scalar.whole 2250000000⟩⟩
  | .mhz250 => ⟨⟨Scalar.whole 10000000⟩, ⟨Scalar.whole 240000000⟩, ⟨Scalar.whole 2125000000⟩⟩

/-- Modes with one name are one mode. -/
theorem name_injective {m n : BandwidthMode} (h : m.name = n.name) : m = n := by
  cases m <;> cases n <;> first | rfl | exact absurd h (by decide)

end BandwidthMode

end Heterodyne
