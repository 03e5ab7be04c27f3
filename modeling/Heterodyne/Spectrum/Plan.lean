import Heterodyne.Bandwidth.Label
import Heterodyne.Observation.Request
import Heterodyne.Run
/-!
# Spectral plans

How the subsystems of an observation are cut into spectral windows. A subsystem with an overlap
becomes a hybrid of two equal subbands; every window has a second local oscillator on the grid
of tuning steps, and is shifted by what the grid leaves over.

* `shift_quantizeLo2`: the oscillator and the shift add up from the exact frequency.
* `subband?_some`: a window that is found is in the plan.
-/

namespace Heterodyne

/-- One spectral window of a subsystem. -/
structure Subband (α : Type) where
  id : WindowId
  /-- The place among the subbands of the subsystem, from zero. -/
  index : Nat
  /-- The centre in the intermediate frequency band. -/
  exactIf : Frequency α
  /-- The oscillator frequency that would park the window exactly. -/
  exactLo2 : Frequency α
  /-- The oscillator frequency on the tuning grid. -/
  lo2 : Frequency α
  /-- What the tuning grid leaves over. -/
  shift : Frequency α

/-- One subsystem, cut into one or two windows. -/
structure SubsystemPlan (α : Type) where
  number : UInt32
  restFreq : Frequency α
  ifFreq : Frequency α
  channelWidth : Frequency α
  hybridBandwidth : Frequency α
  hybridChannels : UInt32
  overlapChannels : UInt32
  fullBandwidth : Frequency α
  totalChannels : UInt32
  subbandBandwidth : Frequency α
  subbandChannels : UInt32
  label : String
  mode : BandwidthMode
  subbands : List (Subband α)

/-- The plan of all subsystems. -/
structure Plan (α : Type) where
  subsystems : List (SubsystemPlan α)

variable {α : Type} [Scalar α]

/-- The centre of a window after its alignment. -/
def Subband.alignedIf (sb : Subband α) : Frequency α := sb.exactIf - sb.shift

/-- The window of the subsystem as a whole. -/
def SubsystemPlan.id {α : Type} (ss : SubsystemPlan α) : WindowId := .ofSubsystem ss.number

/-- Whether a subsystem has more than one window. -/
def SubsystemPlan.isHybrid {α : Type} (ss : SubsystemPlan α) : Bool := 1 < ss.subbands.length

namespace Plan

/-- The windows of all subsystems in order, each with its subsystem. -/
def subbands {α : Type} (plan : Plan α) : List (SubsystemPlan α × Subband α) :=
  plan.subsystems.flatMap fun ss => ss.subbands.map fun sb => (ss, sb)

/-- The oscillator frequency of every window. -/
def lo2ByWindow {α : Type} (plan : Plan α) : Table WindowId (Frequency α) :=
  .ofList (plan.subbands.map fun w => (w.2.id, w.2.lo2))

/-- A window by its name, with its subsystem. -/
def subband? {α : Type} (plan : Plan α) (id : WindowId) :
    Option (SubsystemPlan α × Subband α) :=
  plan.subbands.find? fun w => w.2.id == id

/-- A subband that is found is in the plan under its window. -/
theorem subband?_some {α : Type} {plan : Plan α} {id : WindowId}
    {w : SubsystemPlan α × Subband α} (h : plan.subband? id = some w) :
    w ∈ plan.subbands ∧ w.2.id = id :=
  ⟨List.mem_of_find?_eq_some h, by simpa using List.find?_some h⟩

end Plan

/-! ## Rounding -/

/-- A bandwidth on the grid of bandwidths. -/
def roundBandwidth (bandwidth rounding : Frequency α) : Frequency α := bandwidth.roundTo rounding

/-- The oscillator frequency at or below the exact one on the tuning grid, and what is left. -/
def quantizeLo2 (exact step : Frequency α) : Frequency α × Frequency α :=
  let quantized := exact.floorTo step
  (quantized, exact - quantized)

/-- The shift is what tuning down takes off the exact frequency. -/
theorem shift_quantizeLo2 (exact step : Frequency α) :
    (quantizeLo2 exact step).2 = exact - (quantizeLo2 exact step).1 := rfl

/-- Refuses a mode whose passband begins beyond the subband. -/
def checkPark (mode : BandwidthMode) (bandwidth : Frequency α) : Except (Refusal α) Unit :=
  let low : Frequency α := mode.passband.low
  if bandwidth.value < low.value then .error (.cannotPark mode low bandwidth) else .ok ()

/-! ## Planning -/

/-- The channels of a subsystem and of its overlaps, over `n` subbands. -/
def totalChannels (channels overlapChannels n : UInt32) : Except Fault UInt32 := do
  let twice ← Count.mul 2 overlapChannels
  let overlaps ← Count.mul twice (← Count.sub n 1)
  Count.add channels overlaps

/-- The windows of a subsystem. The windows lie `channels` channels apart around the centre. -/
def cutSubbands (number n : UInt32) (request : Subsystem α) (channelWidth : Frequency α)
    (channels : α) (park step : Frequency α) : List (Subband α) :=
  let midpoint := Scalar.ofCount (n - 1) / Scalar.whole 2
  (List.range n.toNat).map fun i =>
    let exactIf := request.ifFreq - channelWidth * ((midpoint - Scalar.whole i) * channels)
    let exactLo2 := exactIf - park
    let (lo2, shift) := quantizeLo2 exactLo2 step
    { id := if 1 < n then .ofSubband number (UInt32.ofNat (i + 1)) else .ofSubsystem number
      index := i
      exactIf, exactLo2, lo2, shift }

/-- The event of a window's tuning. -/
def Subband.tuned {α : Type} (sb : Subband α) : Event α :=
  .windowTuned sb.id sb.exactIf sb.lo2 sb.exactLo2 sb.shift

/-- Cuts a subsystem into windows. -/
def planSubsystem (settings : Settings α) (number : UInt32) (request : Subsystem α) :
    Run α (SubsystemPlan α) := do
  let channelWidth := request.bandwidth / (Scalar.ofCount request.channels : α)
  let n : UInt32 := if Scalar.zero < request.overlap.value then 2 else 1
  let overlapChannels := Scalar.toCount (Scalar.round (request.overlap / channelWidth : α))
  let fullBandwidth := roundBandwidth
    (request.bandwidth + request.overlap * (Scalar.whole 2 * Scalar.ofCount (n - 1) : α))
    settings.bandwidthRounding
  let total ← Run.ofCount (totalChannels request.channels overlapChannels n)
  if total % n ≠ 0 then Run.refuse (.unequalSubbands number total n)
  else
    let subbandChannels := total / n
    let subbandBandwidth := fullBandwidth / (Scalar.ofCount n : α)
    let label := Bandwidth.label subbandBandwidth subbandChannels
    let mode ← Run.ofCheck (Bandwidth.read label)
    Run.ofCheck (checkPark mode subbandBandwidth)
    let effective :=
      Scalar.ofCount subbandChannels - Scalar.whole 2 * Scalar.ofCount overlapChannels
    let subbands := cutSubbands number n request channelWidth effective mode.passband.park
      settings.lo2Step
    Run.tellAll (subbands.map Subband.tuned)
    return {
      number
      restFreq := request.restFreq
      ifFreq := request.ifFreq
      channelWidth
      hybridBandwidth := request.bandwidth
      hybridChannels := request.channels
      overlapChannels
      fullBandwidth
      totalChannels := total
      subbandBandwidth
      subbandChannels
      label
      mode
      subbands }

/-- Plans the subsystems in order, counted from `number`. The number of the next subsystem is
drawn before a subsystem is planned, so the largest count numbers none. -/
def planSubsystems (settings : Settings α) :
    (number : UInt32) → List (Subsystem α) → Run α (List (SubsystemPlan α))
  | _, [] => pure []
  | number, request :: rest => do
    let next ← Run.ofCount (Count.add number 1)
    let first ← planSubsystem settings number request
    let others ← planSubsystems settings next rest
    return first :: others

/-- The spectral plan of an observation's subsystems. -/
def Plan.ofSubsystems (settings : Settings α) (requests : List (Subsystem α)) :
    Run α (Plan α) := do
  return ⟨← planSubsystems settings 1 requests⟩

end Heterodyne
