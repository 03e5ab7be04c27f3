import Heterodyne.Proofs.Spectrum.Tiled
/-!
# Labelled bandwidths

A label writes the bandwidth of a window and its number of channels as if the channels covered the
bandwidth. Both come from a rounding, and from two different ones: the overlap is rounded to whole
channels, and the bandwidth of all windows to the grid of bandwidths. In exact numbers the channels
miss the bandwidth by no more than these two roundings together.

* `Quantity.abs_sub_roundTo_le`: a quantity is within half a step of the multiple it is rounded to.
* `excess_mul_length`: the excess of all windows is what the two roundings change.
* `covers_of_yields`: how far the channels of a label miss its bandwidth.
-/

namespace Heterodyne

variable {K : Type} [Field K] [LinearOrder K] [FloorRing K] {F : Apparatus K}

/-! ## Multiples of a step -/

section Multiples

variable {u : MeasureUnit} (q : Quantity u (Exact F)) {step : Quantity u (Exact F)}

/-- A rounded quantity is a whole number of steps. -/
theorem Quantity.val_roundTo :
    (q.roundTo step).value.val = roundAway (q.value.val / step.value.val) * step.value.val :=
  mul_comm _ _

/-- A quantity is within half a step of the multiple that it is rounded to. -/
theorem Quantity.abs_sub_roundTo_le [IsStrictOrderedRing K] (hstep : 0 < step.value.val) :
    |q.value.val - (q.roundTo step).value.val| ≤ step.value.val / 2 := by
  have hsteps : q.value.val - (q.roundTo step).value.val =
      (q.value.val / step.value.val - roundAway (q.value.val / step.value.val)) *
        step.value.val := by
    rw [val_roundTo, sub_mul, div_mul_cancel₀ _ hstep.ne']
  rw [hsteps, abs_mul, abs_of_pos hstep]
  calc _ ≤ 1 / 2 * step.value.val :=
        mul_le_mul_of_nonneg_right (abs_sub_roundAway_le _) hstep.le
    _ = step.value.val / 2 := by ring

end Multiples

/-! ## What a label says -/

namespace SubsystemPlan

/-- What the channels of a window reach beyond the bandwidth in its label. -/
def excess (ss : SubsystemPlan (Exact F)) : K :=
  ss.subbandChannels.toNat * ss.channelWidth.value.val - ss.subbandBandwidth.value.val

/-- The channels in the label of a subsystem cover the bandwidth in it, up to the rounding of the
bandwidth of all windows and, between two windows, that of their overlap. -/
structure Covers (ss : SubsystemPlan (Exact F)) (r : Subsystem (Exact F)) (rounding : K) :
    Prop where
  label : ss.label = Bandwidth.label ss.subbandBandwidth ss.subbandChannels
  /-- The channels asked for and, for every window behind the first, those of the overlap at both
  ends. -/
  channels : ss.subbandChannels.toNat * ss.subbands.length =
    r.channels.toNat + 2 * ss.overlapChannels.toNat * (ss.subbands.length - 1)
  rounded : ∃ k : ℤ, ss.fullBandwidth.value.val = k * rounding
  windows : ss.subbands.length = 1 ∨ ss.subbands.length = 2
  whole : ss.subbands.length = 1 → |ss.excess| ≤ rounding / 2
  hybrid : ss.subbands.length = 2 →
    |ss.excess| ≤ (rounding / 2 + ss.channelWidth.value.val) / 2

end SubsystemPlan

/-! ## All windows of a subsystem -/

section Windows

variable {settings : Settings (Exact F)} {number : UInt32} {r : Subsystem (Exact F)}
  {ss : SubsystemPlan (Exact F)} {d : Bool}

/-- A subsystem has as many windows as it is cut into, which are one or two. -/
theorem length_subbands_of_yields (h : (planSubsystem settings number r).Yields d ss) :
    ss.subbands.length = r.parts.toNat ∧ (r.parts = 1 ∨ r.parts = 2) := by
  obtain ⟨total, mode, -, -, -, -, rfl⟩ := yields_planSubsystem_iff.1 h
  refine ⟨by simp [Subsystem.planned, cutSubbands], ?_⟩
  by_cases hover : Scalar.zero < r.overlap.value
  · exact .inr (if_pos hover)
  · exact .inl (if_neg hover)

/-- The channels of all windows are those asked for and those of the overlaps. -/
theorem subbandChannels_mul_length (h : (planSubsystem settings number r).Yields d ss) :
    ss.subbandChannels.toNat * ss.subbands.length =
      ss.hybridChannels.toNat + 2 * ss.overlapChannels.toNat * (ss.subbands.length - 1) := by
  rcases cut_of_yields h with ⟨-, ⟨first, second, hwindows⟩, hcount⟩ |
    ⟨-, ⟨sb, hwindows, -⟩, hcount⟩
  · rw [hwindows, List.length_cons, List.length_singleton]
    omega
  · rw [hwindows, hcount, List.length_singleton]
    omega

/-- The full bandwidth is divided evenly among the windows. -/
theorem subbandBandwidth_mul_length (h : (planSubsystem settings number r).Yields d ss) :
    ss.subbandBandwidth.value.val * ss.subbands.length = ss.fullBandwidth.value.val := by
  obtain ⟨hlength, hparts⟩ := length_subbands_of_yields h
  obtain ⟨total, mode, -, -, -, -, rfl⟩ := yields_planSubsystem_iff.1 h
  have hne : (r.parts.toNat : K) ≠ 0 := by rcases hparts with hparts | hparts <;> simp [hparts]
  rw [hlength]
  exact div_mul_cancel₀ _ hne

variable [IsStrictOrderedRing K]

/-- The full bandwidth is what was asked for with the overlap at both ends of every window behind
the first, to half the rounding step. -/
theorem abs_sub_fullBandwidth_le (hrounding : 0 < settings.bandwidthRounding.value.val)
    (h : (planSubsystem settings number r).Yields d ss) :
    |r.bandwidth.value.val + 2 * r.overlap.value.val * (ss.subbands.length - 1)
      - ss.fullBandwidth.value.val| ≤ settings.bandwidthRounding.value.val / 2 := by
  obtain ⟨hlength, hparts⟩ := length_subbands_of_yields h
  obtain ⟨total, mode, -, -, -, -, rfl⟩ := yields_planSubsystem_iff.1 h
  have hfurther : (r.parts.toNat : K) - 1 = ((r.parts - 1).toNat : K) := by
    have hfirst : r.parts.toNat = (r.parts - 1).toNat + 1 := by
      rcases hparts with hparts | hparts <;> rw [hparts] <;> rfl
    rw [hfirst, Nat.cast_succ, add_sub_cancel_right]
  have hasked : r.bandwidth.value.val + 2 * r.overlap.value.val * ((r.parts - 1).toNat : K) =
      (r.bandwidth + r.overlap *
        (Scalar.whole 2 * Scalar.ofCount (r.parts - 1) : Exact F)).value.val := by
    simp only [Scalar.ofCount, Quantity.value_add, Quantity.value_mul, Exact.val_add,
      Exact.val_mul, Exact.val_whole]
    push_cast
    ring
  rw [hlength, hfurther, hasked]
  exact Quantity.abs_sub_roundTo_le _ hrounding

/-- The excess of all windows is what rounding takes off the bandwidth and adds to the overlap. -/
theorem excess_mul_length (hchannels : 0 < r.channels)
    (h : (planSubsystem settings number r).Yields d ss) :
    ss.excess * ss.subbands.length =
      (r.bandwidth.value.val + 2 * r.overlap.value.val * (ss.subbands.length - 1)
        - ss.fullBandwidth.value.val) +
      (ss.sharedWidth - 2 * r.overlap.value.val) * (ss.subbands.length - 1) := by
  have hband := bandwidth_of_yields hchannels h
  have hfull := subbandBandwidth_mul_length h
  have hlength : 1 ≤ ss.subbands.length := by
    obtain ⟨hlength, hparts | hparts⟩ := length_subbands_of_yields h <;> rw [hlength, hparts] <;>
      decide
  have hcount : (ss.subbandChannels.toNat : K) * ss.subbands.length =
      ss.hybridChannels.toNat + 2 * ss.overlapChannels.toNat * (ss.subbands.length - 1) := by
    have hcast := congrArg (Nat.cast (R := K)) (subbandChannels_mul_length h)
    push_cast [hlength] at hcast
    exact hcast
  rw [SubsystemPlan.excess, SubsystemPlan.sharedWidth, Nat.cast_mul, Nat.cast_ofNat]
  linear_combination ss.channelWidth.value.val * hcount - hfull + hband

/-- The label of a planned subsystem writes the bandwidth and the channels of a window. Over all
windows the channels are those asked for and those of the overlaps, and the full bandwidth is a
whole number of rounding steps. The channels of a single window miss its bandwidth by half a step
at most, and those of one of two windows by half of this and one channel. Channels and a bandwidth
above zero are what every subsystem of an accepted draft has. -/
theorem covers_of_yields (hchannels : 0 < r.channels) (hbandwidth : 0 < r.bandwidth.value.val)
    (hrounding : 0 < settings.bandwidthRounding.value.val)
    (h : (planSubsystem settings number r).Yields d ss) :
    ss.Covers r settings.bandwidthRounding.value.val := by
  obtain ⟨hlength, hparts⟩ := length_subbands_of_yields h
  have hexcess := excess_mul_length hchannels h
  have hfull := abs_sub_fullBandwidth_le hrounding h
  have hasked : ss.hybridChannels = r.channels ∧
      ∃ k : ℤ, ss.fullBandwidth.value.val = k * settings.bandwidthRounding.value.val := by
    obtain ⟨total, mode, -, -, -, -, rfl⟩ := yields_planSubsystem_iff.1 h
    exact ⟨rfl, _, Quantity.val_roundTo _⟩
  refine ⟨label_of_yields h, hasked.1 ▸ subbandChannels_mul_length h, hasked.2, ?_, ?_, ?_⟩
  · rw [hlength]
    exact hparts.imp (congrArg UInt32.toNat) (congrArg UInt32.toNat)
  · intro hone
    rw [hone, Nat.cast_one, sub_self, mul_zero, mul_zero, mul_one, add_zero, add_zero] at hexcess
    rw [hone, Nat.cast_one, sub_self, mul_zero, add_zero] at hfull
    rw [hexcess]
    exact hfull
  · intro htwo
    -- Two windows share both of the roundings between them.
    have hover : 0 < r.overlap.value.val := by
      by_contra hnot
      have hsingle : r.parts = 1 := if_neg (mt Exact.zero_lt_iff.1 hnot)
      rw [hlength, hsingle] at htwo
      cases htwo
    have hshared := abs_sharedWidth_sub_le hchannels hbandwidth hover h
    rw [htwo] at hexcess hfull
    rw [abs_le] at hfull hshared ⊢
    norm_num at hexcess hfull
    constructor <;> linarith

end Windows

/-- A hybrid of 1873 MHz with an overlap of 61 MHz, neither of which is a whole number of channels
or of rounding steps. -/
def roundedHybrid : Subsystem (Exact rationals) where
  restFreq := ⟨Scalar.whole 345796000000⟩
  bandwidth := ⟨Scalar.whole 1873000000⟩
  channels := 3840
  overlap := ⟨Scalar.whole 61000000⟩
  ifFreq := ⟨Scalar.whole 4000000000⟩

/-- The 2045 channels of its subbands fall short of the gigahertz in their label by more than 2.5
megahertz, of the 2.8 megahertz that the two roundings may make up. -/
theorem covers_roundedHybrid : 0 < roundedHybrid.channels ∧
    0 < roundedHybrid.bandwidth.value.val ∧
    ∃ ss, (planSubsystem Settings.standard 1 roundedHybrid).Yields false ss ∧
      ss.Covers roundedHybrid 10000000 ∧ ss.label = "1GHzx2045" ∧
      ss.excess < -2500000 ∧ |ss.excess| ≤ (10000000 / 2 + ss.channelWidth.value.val) / 2 := by
  have hplan : ∃ ss, (planSubsystem Settings.standard 1 roundedHybrid).Yields false ss ∧
      (ss.label, ss.subbands.length, decide (ss.excess < -2500000)) = ("1GHzx2045", 2, true) :=
    Run.exists_yields_of_toOption (by decide +kernel)
  obtain ⟨ss, hss, hparts⟩ := hplan
  simp only [Prod.mk.injEq, decide_eq_true_eq] at hparts
  obtain ⟨hlabel, hlength, hexcess⟩ := hparts
  have hrounding : (Settings.standard : Settings (Exact rationals)).bandwidthRounding.value.val =
      10000000 := by
    decide +kernel
  have hchannels : 0 < roundedHybrid.channels := by decide
  have hbandwidth : 0 < roundedHybrid.bandwidth.value.val := by decide +kernel
  have hcovers := covers_of_yields hchannels hbandwidth (by rw [hrounding]; norm_num) hss
  rw [hrounding] at hcovers
  exact ⟨hchannels, hbandwidth, ss, hss, hcovers, hlabel, hexcess, hcovers.hybrid hlength⟩

end Heterodyne
