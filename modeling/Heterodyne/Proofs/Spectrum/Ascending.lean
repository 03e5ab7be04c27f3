import Heterodyne.Proofs.Binary64.Round
import Heterodyne.Proofs.Binary64.Spacing
import Heterodyne.Proofs.Observation.Valid
import Heterodyne.Proofs.Spectrum.Labelled
import Heterodyne.Proofs.Spectrum.Numbered
/-!
# Ascending subbands

The centres of two subbands lie beside that of the whole subsystem, by half of the channels that a
subband does not share. Nothing asks that there are such channels: an overlap of half of the
channels lets both centres meet, and a greater one exchanges them. With fewer, the rounded
centres ascend. They do so strictly in any band below a terahertz, as a planned subsystem is so wide
that its channels are not lost beside the centre.

* `sized_of_yields`: how wide a planned hybrid is.
* `le_channelWidth`: how wide its channels are, if the overlap is less than half of them.
* `order_of_subbands`: in which order the subbands of a planned hybrid are.
-/

namespace Heterodyne

variable {settings : Settings Binary64} {number : UInt32} {r : Subsystem Binary64}
  {ss : SubsystemPlan Binary64} {d : Bool}

/-! ## Widths -/

/-- The bandwidth and the overlap of a hybrid that is neither too narrow nor too wide for a mode. -/
structure Subsystem.Sized (r : Subsystem Binary64) : Prop where
  finite : r.bandwidth.value.IsFinite ∧ r.overlap.value.IsFinite
  pos : 0 < r.bandwidth.value.value ∧ 0 < r.overlap.value.value
  ge : 2 ^ 23 ≤ r.bandwidth.value.value + 2 * r.overlap.value.value
  le : r.bandwidth.value.value + 2 * r.overlap.value.value ≤ 2 ^ 36

/-- A finite bandwidth that has passed for positive is positive. -/
theorem Subsystem.Valid.bandwidth_pos (h : r.Valid PassesPositive PassesNonnegative)
    (hfinite : r.bandwidth.value.IsFinite) : 0 < r.bandwidth.value.value := by
  have hzero := Binary64.value_ofNat (n := 0) (by norm_num)
  have hpos : ¬ r.bandwidth.value ≤ Binary64.ofNat 0 := h.bandwidth
  rwa [Binary64.le_iff_value_le hfinite hzero.1, hzero.2, Nat.cast_zero, not_le] at hpos

/-- The bandwidth of both windows together is about twice that of the mode. -/
theorem within_fullBandwidth (hover : Scalar.zero < r.overlap.value)
    (h : (planSubsystem settings number r).Yields d ss) :
    (r.fullBandwidth settings).value.IsFinite ∧
      Binary64.Within 2 (2 * ss.mode.hertz) (r.fullBandwidth settings).value.value := by
  have hmode := subbandBandwidth_of_yields h
  obtain ⟨total, mode, -, -, -, -, rfl⟩ := yields_planSubsystem_iff.1 h
  have hparts : r.parts = 2 := if_pos hover
  have hhalf : (r.fullBandwidth settings).value / Binary64.ofNat 2 = .ofNat mode.hertz := by
    have hvalue := congrArg Quantity.value hmode
    simp only [Subsystem.planned, Subsystem.subbandBandwidth, hparts, Quantity.value_div] at hvalue
    exact hvalue
  have hlarge : 0 < mode.hertz ∧ mode.hertz < 2 ^ 53 := by cases mode <;> decide
  obtain ⟨hfinite, hvalue⟩ := Binary64.value_ofNat hlarge.2
  obtain ⟨htwo, htwovalue⟩ := Binary64.value_ofNat (n := 2) (by norm_num)
  have hvalue0 : (Binary64.ofNat mode.hertz).value ≠ 0 := by
    rw [hvalue]
    exact_mod_cast hlarge.1.ne'
  have hwindow := (Binary64.rounds_div_of_isFinite htwo (hhalf ▸ hfinite)).within (hhalf ▸ hvalue0)
  have hcast : ((2 : ℕ) : ℚ) = 2 := rfl
  rw [hhalf, htwovalue, hvalue, hcast] at hwindow
  have hwhole := hwindow.mul_left 2
  rw [mul_div_cancel₀ _ two_ne_zero] at hwhole
  exact ⟨Binary64.isFinite_of_div (hhalf ▸ hfinite), hwhole⟩

/-- The bandwidth of both windows together is about that which was asked for, with the overlap at
both ends. -/
theorem within_sum (hover : Scalar.zero < r.overlap.value)
    (hfinite : (r.fullBandwidth settings).value.IsFinite)
    (h0 : (r.fullBandwidth settings).value.value ≠ 0) :
    r.bandwidth.value.IsFinite ∧ r.overlap.value.IsFinite ∧
      Binary64.Within 16 (r.fullBandwidth settings).value.value
        (r.bandwidth.value.value + 2 * r.overlap.value.value) := by
  have hparts : r.parts = 2 := if_pos hover
  have hcounts : (Scalar.whole 2 * Scalar.ofCount ((2 : UInt32) - 1) : Binary64) = .ofNat 2 := by
    decide +kernel
  rw [Subsystem.fullBandwidth, hparts, hcounts, roundBandwidth] at hfinite h0 ⊢
  obtain ⟨hsumfinite, hstep⟩ := Binary64.within_roundTo hfinite h0
  have hsum := (Binary64.rounds_add_of_isFinite hsumfinite).within (hstep.ne_zero h0)
  obtain ⟨hbandwidth, hends⟩ := Binary64.isFinite_of_add hsumfinite
  have hdouble : (r.overlap.value * Binary64.ofNat 2).value = 2 * r.overlap.value.value := by
    have hround := Binary64.rounds_mul_of_isFinite hends
    have hcast : ((2 : ℕ) : ℚ) = 2 := rfl
    rw [(Binary64.value_ofNat (n := 2) (by norm_num)).2, hcast, mul_comm] at hround
    exact hround.value_eq (Binary64.representable_value _).two_mul
  refine ⟨hbandwidth, (Binary64.isFinite_of_mul hends).1, ?_⟩
  have hfactor : (16 : ℚ) = 8 * 2 := by norm_num
  rw [hfactor, ← hdouble]
  exact hstep.trans hsum (by norm_num) (by norm_num)

/-- The bandwidth and the overlaps at both ends, rounded and halved, have become the bandwidth of a
mode, so they are not far from it. -/
theorem sized_of_yields (hvalid : r.Valid PassesPositive PassesNonnegative)
    (hover : Scalar.zero < r.overlap.value) (h : (planSubsystem settings number r).Yields d ss) :
    r.Sized := by
  obtain ⟨hfinite, hwhole⟩ := within_fullBandwidth hover h
  have hlarge : 250000000 ≤ ss.mode.hertz ∧ ss.mode.hertz ≤ 1000000000 := by
    cases ss.mode <;> decide
  have hlow : (250000000 : ℚ) ≤ ss.mode.hertz := by exact_mod_cast hlarge.1
  have hhigh : (ss.mode.hertz : ℚ) ≤ 1000000000 := by exact_mod_cast hlarge.2
  obtain ⟨hbandwidth, hoverlap, hsum⟩ := within_sum hover hfinite (hwhole.ne_zero (by linarith))
  have hbandwidthpos := hvalid.bandwidth_pos hbandwidth
  have hoverlappos : 0 < r.overlap.value.value := by
    have hzero := Binary64.value_ofNat (n := 0) (by norm_num)
    have hlt : Binary64.ofNat 0 < r.overlap.value := hover
    rwa [Binary64.lt_iff_value_lt hzero.1 hoverlap, hzero.2, Nat.cast_zero] at hlt
  obtain ⟨hle, hge⟩ := hwhole.trans hsum (by norm_num) (by norm_num)
  rw [abs_of_pos (by linarith), abs_of_pos (by linarith)] at hle hge
  refine ⟨⟨hbandwidth, hoverlap⟩, ⟨hbandwidthpos, hoverlappos⟩, ?_, ?_⟩ <;> linarith

/-! ## Channels -/

section Channels

variable (hsized : r.Sized) (hchannels : 1 ≤ r.channels.toNat)

include hsized hchannels

/-- The exact width of a channel is no more than the widest bandwidth. -/
theorem quotient_bounds : 0 ≤ r.bandwidth.value.value / r.channels.toNat ∧
    r.bandwidth.value.value / r.channels.toNat ≤ 2 ^ 36 := by
  have hone : (1 : ℚ) ≤ r.channels.toNat := by exact_mod_cast hchannels
  refine ⟨div_nonneg hsized.pos.1.le (by linarith), (div_le_self hsized.pos.1.le hone).trans ?_⟩
  linarith [hsized.le, hsized.pos.2]

/-- The width of a channel is rounded, and it has no sign even if it is rounded to zero. -/
theorem rounds_channelWidth :
    Binary64.Rounds r.channelWidth.value (r.bandwidth.value.value / r.channels.toNat) ∧
      r.channelWidth.value.isNegative = false := by
  have hcount := r.channels.toNat_lt
  obtain ⟨hfinite, hvalue⟩ := Binary64.value_ofNat (n := r.channels.toNat) (by omega)
  have hcount0 : (Binary64.ofNat r.channels.toNat).significand ≠ 0 := by
    intro hzero
    rw [Binary64.value, hzero, Nat.cast_zero, zero_mul, Binary64.withSign_zero] at hvalue
    have hnone : r.channels.toNat = 0 := by exact_mod_cast hvalue.symm
    omega
  have hmax : (2 : ℚ) ^ 36 ≤ Binary64.maxValue :=
    Binary64.two_zpow_le_maxValue (e := 36) (by norm_num)
  obtain ⟨hnonneg, hle⟩ := quotient_bounds hsized hchannels
  have hwidth : r.channelWidth.value = r.bandwidth.value / Binary64.ofNat r.channels.toNat := rfl
  rw [← hvalue] at hnonneg hle ⊢
  rw [hwidth]
  constructor
  · refine Binary64.rounds_div hsized.finite.1 hfinite hcount0 ?_
    rw [abs_of_nonneg hnonneg]
    exact hle.trans hmax
  · rw [Binary64.isNegative_div hsized.finite.1 hfinite hcount0,
      Binary64.isNegative_of_value_pos hsized.pos.1, Binary64.isNegative_ofNat (by omega)]
    rfl

/-- A channel is no wider than the widest bandwidth. -/
theorem channelWidth_bounds :
    0 ≤ r.channelWidth.value.value ∧ r.channelWidth.value.value ≤ 2 ^ 36 := by
  have hnear := (rounds_channelWidth hsized hchannels).1.isNearest
  obtain ⟨hnonneg, hle⟩ := quotient_bounds hsized hchannels
  exact ⟨hnear.ge Binary64.representable_zero hnonneg,
    hnear.le (Binary64.representable_two_zpow (e := 36) (by norm_num)) hle⟩

/-- If the overlap is less than half of the channels, they are not narrow. -/
theorem le_channelWidth (hfew : 2 * r.overlapChannels.toNat < r.channels.toNat) :
    2 ^ (-11 : ℤ) ≤ r.channelWidth.value.value := by
  obtain ⟨hround, hsign⟩ := rounds_channelWidth hsized hchannels
  by_contra hnarrow
  have hcount := r.channels.toNat_lt
  have hpos : (0 : ℚ) < r.channels.toNat := by exact_mod_cast hchannels
  have hquotient : r.bandwidth.value.value / r.channels.toNat < 2 ^ (-11 : ℤ) := by
    by_contra hwide
    have hleast := Binary64.representable_two_zpow (e := -11) (by norm_num)
    exact hnarrow (hround.isNearest.ge hleast (not_lt.1 hwide))
  have hunit : (2 : ℚ) ^ (-11 : ℤ) = 1 / 2 ^ 11 := by norm_num
  rw [div_lt_iff₀ hpos, hunit] at hquotient
  rw [hunit] at hnarrow
  have hmost : (r.channels.toNat : ℚ) ≤ 2 ^ 32 := by exact_mod_cast hcount.le
  have hwide := hsized.ge
  have hoverlap : r.channelWidth.value.value * (2 ^ 32 : ℕ) ≤ r.overlap.value.value := by
    push_cast
    linarith
  -- such an overlap has more channels than can be counted
  obtain ⟨hnan, hlarge⟩ := Binary64.le_value_div hsized.finite.2 hsized.pos.2 hround.isFinite hsign
    (Binary64.representable_natCast (by norm_num)) (by norm_num)
    (Binary64.natCast_le_maxValue (by norm_num)) hoverlap
  have hrounded := Binary64.le_toNat_round hnan hlarge
  have htoNat : r.overlapChannels.toNat =
      min (r.overlap.value / r.channelWidth.value).round.toNat Scalar.maxCount :=
    Scalar.toNat_toCount _
  have hmaxCount : Scalar.maxCount = 2 ^ 32 - 1 := rfl
  omega

end Channels

/-! ## Centres -/

/-- The channels of a window besides those that it shares at both of its ends, as they are
computed. -/
def SubsystemPlan.ownChannels (ss : SubsystemPlan Binary64) : Binary64 :=
  Scalar.ofCount ss.subbandChannels - Scalar.whole 2 * Scalar.ofCount ss.overlapChannels

/-- How many windows before the middle of two the centre of one of them lies. -/
def sideOf (i : ℕ) : Binary64 := Scalar.ofCount ((2 : UInt32) - 1) / Scalar.whole 2 - Scalar.whole i

/-- How far below the centre of a hybrid that of one of its windows lies. -/
def SubsystemPlan.offset (ss : SubsystemPlan Binary64) (i : ℕ) : Binary64 :=
  ss.channelWidth.value * (sideOf i * ss.ownChannels)

/-- The centres of the windows of a hybrid. -/
theorem centres_of_hybrid (hover : Scalar.zero < r.overlap.value)
    (h : (planSubsystem settings number r).Yields d ss) :
    ∃ first second, ss.subbands = [first, second] ∧
      first.exactIf.value = r.ifFreq.value - ss.offset 0 ∧
      second.exactIf.value = r.ifFreq.value - ss.offset 1 := by
  obtain ⟨total, mode, -, -, -, -, rfl⟩ := yields_planSubsystem_iff.1 h
  have hparts : r.parts = 2 := if_pos hover
  simp only [Subsystem.planned, SubsystemPlan.offset, SubsystemPlan.ownChannels, cutSubbands,
    hparts]
  exact ⟨_, _, rfl, rfl, rfl⟩

/-- The first window lies half a window before the middle, and the second one half a window behind
it. -/
theorem value_sideOf {i : ℕ} (hi : i ≤ 1) :
    (sideOf i).IsFinite ∧ (sideOf i).value = ((1 - 2 * i : ℤ) : ℚ) / 2 := by
  rcases Nat.le_one_iff_eq_zero_or_eq_one.1 hi with rfl | rfl
  · have hside : sideOf 0 = ⟨0x3FE0000000000000⟩ := by decide +kernel
    have hvalue : (⟨0x3FE0000000000000⟩ : Binary64).value = (2 ^ 52 : ℕ) * 2 ^ (-53 : ℤ) := rfl
    rw [hside, hvalue]
    exact ⟨by decide, by norm_num⟩
  · have hside : sideOf 1 = ⟨0xBFE0000000000000⟩ := by decide +kernel
    have hvalue : (⟨0xBFE0000000000000⟩ : Binary64).value = -((2 ^ 52 : ℕ) * 2 ^ (-53 : ℤ)) := rfl
    rw [hside, hvalue]
    exact ⟨by decide, by norm_num⟩

/-- The channels of a window besides those that it shares, below zero if it shares more. -/
def SubsystemPlan.own (ss : SubsystemPlan Binary64) : ℤ :=
  ss.subbandChannels.toNat - 2 * ss.overlapChannels.toNat

/-- They are no more than can be counted, or twice as many below zero. -/
theorem abs_own_le (ss : SubsystemPlan Binary64) : |ss.own| ≤ 2 ^ 33 := by
  have hsubband := ss.subbandChannels.toNat_lt
  have hoverlap := ss.overlapChannels.toNat_lt
  rw [abs_le, SubsystemPlan.own]
  omega

/-- The channels of a window are counted without an error. -/
theorem value_ownChannels (ss : SubsystemPlan Binary64) :
    ss.ownChannels.IsFinite ∧ ss.ownChannels.value = ss.own := by
  have hsubband := ss.subbandChannels.toNat_lt
  have hoverlap := ss.overlapChannels.toNat_lt
  obtain ⟨hs, hsvalue⟩ := Binary64.value_ofNat (n := ss.subbandChannels.toNat) (by omega)
  obtain ⟨ho, hovalue⟩ := Binary64.value_ofNat (n := ss.overlapChannels.toNat) (by omega)
  obtain ⟨htwo, htwovalue⟩ := Binary64.value_ofNat (n := 2) (by norm_num)
  obtain ⟨htwice, htwicevalue⟩ := Binary64.value_mul_of_half (k := 4 * ss.overlapChannels.toNat)
    htwo ho (by rw [abs_le]; omega) (by rw [htwovalue, hovalue]; push_cast; ring)
  obtain ⟨hown, hownvalue⟩ := Binary64.value_sub_of_half (k := 2 * ss.own)
    hs htwice (by have := abs_le.1 (abs_own_le ss); rw [abs_le]; omega)
    (by rw [hsvalue, htwicevalue, SubsystemPlan.own]; push_cast; ring)
  have hdouble : ((2 * ss.own : ℤ) : ℚ) / 2 = ss.own := by
    push_cast
    ring
  rw [hdouble] at hownvalue
  exact ⟨hown, hownvalue⟩

/-- A window lies half of its own channels before or behind the middle, rounded once. -/
theorem rounds_offset {i : ℕ} (hi : i ≤ 1) (hfinite : ss.channelWidth.value.IsFinite)
    (hwidth : |ss.channelWidth.value.value| ≤ 2 ^ 36) :
    Binary64.Rounds (ss.offset i)
        (ss.channelWidth.value.value * (((1 - 2 * i) * ss.own : ℤ) / 2)) ∧
      |(ss.offset i).value| < 2 ^ (970 : ℤ) := by
  obtain ⟨σ, hσ⟩ : ∃ σ : ℤ, σ = 1 - 2 * i := ⟨_, rfl⟩
  have hone : |σ| = 1 := by
    rcases Nat.le_one_iff_eq_zero_or_eq_one.1 hi with rfl | rfl <;> rw [hσ] <;> rfl
  obtain ⟨hside, hsidevalue⟩ := value_sideOf hi
  rw [← hσ] at hsidevalue ⊢
  obtain ⟨hown, hownvalue⟩ := value_ownChannels ss
  have hbound := abs_own_le ss
  obtain ⟨hplace, hplacevalue⟩ := Binary64.value_mul_of_half (k := σ * ss.own) hside hown
    (by rw [abs_mul, hone]; omega) (by rw [hsidevalue, hownvalue]; push_cast; ring)
  have hle : |ss.channelWidth.value.value * ((σ * ss.own : ℤ) / 2)| ≤ 2 ^ (68 : ℤ) := by
    have hown' : |((σ * ss.own : ℤ) : ℚ)| ≤ 2 ^ 33 := by
      rw [Int.cast_mul, abs_mul, ← Int.cast_abs, hone, Int.cast_one, one_mul]
      exact_mod_cast hbound
    rw [abs_mul, abs_div, abs_two]
    calc _ ≤ (2 : ℚ) ^ 36 * (2 ^ 33 / 2) :=
          mul_le_mul hwidth (div_le_div_of_nonneg_right hown' zero_le_two)
            (div_nonneg (abs_nonneg _) zero_le_two) (pow_nonneg zero_le_two _)
      _ = 2 ^ (68 : ℤ) := by norm_num
  have hmax : |ss.channelWidth.value.value * (sideOf i * ss.ownChannels).value| ≤
      Binary64.maxValue := by
    rw [hplacevalue]
    exact hle.trans (Binary64.two_zpow_le_maxValue (by norm_num))
  have hround := Binary64.rounds_mul hfinite hplace hmax
  rw [hplacevalue] at hround
  have hsize := hround.isNearest.abs_le_of_abs_le
    (Binary64.representable_two_zpow (by norm_num)) hle
  exact ⟨hround, hsize.trans_lt (zpow_lt_zpow_right₀ one_lt_two (by norm_num))⟩

/-- Both windows of a hybrid together have as many channels of their own as are left by the
overlaps. -/
theorem two_mul_own_of_yields (hover : Scalar.zero < r.overlap.value)
    (h : (planSubsystem settings number r).Yields d ss) :
    2 * ss.own = r.channels.toNat - 2 * ss.overlapChannels.toNat := by
  rcases cut_of_yields h with ⟨-, -, hcount⟩ | ⟨hnot, -⟩
  · obtain ⟨total, mode, -, -, -, -, rfl⟩ := yields_planSubsystem_iff.1 h
    have hchannels : (r.planned settings number total mode).hybridChannels = r.channels := rfl
    rw [hchannels] at hcount
    rw [SubsystemPlan.own]
    omega
  · exact absurd hover hnot

/-- A plan has the channels of its request. -/
theorem shared_of_yields (h : (planSubsystem settings number r).Yields d ss) :
    ss.channelWidth = r.channelWidth ∧ ss.overlapChannels = r.overlapChannels := by
  obtain ⟨total, mode, -, -, -, -, rfl⟩ := yields_planSubsystem_iff.1 h
  exact ⟨rfl, rfl⟩

section Offsets

variable (hsized : r.Sized) (hchannels : 1 ≤ r.channels.toNat)
  (h : (planSubsystem settings number r).Yields d ss)

include hsized hchannels h

/-- The windows of a hybrid lie equally far before and behind the middle, but for rounding. -/
theorem nearest_offset :
    (∀ i ≤ 1, (ss.offset i).IsFinite ∧ |(ss.offset i).value| < 2 ^ (970 : ℤ)) ∧
      Binary64.IsNearest (ss.offset 0).value (r.channelWidth.value.value * ss.own / 2) ∧
      Binary64.IsNearest (ss.offset 1).value (-(r.channelWidth.value.value * ss.own / 2)) := by
  obtain ⟨hround, -⟩ := rounds_channelWidth hsized hchannels
  obtain ⟨hnonneg, hwidth⟩ := channelWidth_bounds hsized hchannels
  rw [← abs_of_nonneg hnonneg] at hwidth
  rw [← (shared_of_yields h).1] at hround hwidth ⊢
  have hrounds (i : ℕ) (hi : i ≤ 1) := rounds_offset hi hround.isFinite hwidth
  refine ⟨fun i hi => ⟨(hrounds i hi).1.isFinite, (hrounds i hi).2⟩, ?_, ?_⟩
  · convert (hrounds 0 zero_le_one).1.isNearest using 1
    push_cast
    ring
  · convert (hrounds 1 le_rfl).1.isNearest using 1
    push_cast
    ring

/-- The first window of a hybrid lies below the middle, and the second one above, if the overlap is
less than half of the channels; otherwise they do not. -/
theorem offset_of_yields (hover : Scalar.zero < r.overlap.value) :
    (2 * ss.overlapChannels.toNat < r.channels.toNat →
        2 ^ (-12 : ℤ) ≤ (ss.offset 0).value ∧ (ss.offset 1).value ≤ -2 ^ (-12 : ℤ)) ∧
      (r.channels.toNat ≤ 2 * ss.overlapChannels.toNat →
        (ss.offset 0).value ≤ 0 ∧ 0 ≤ (ss.offset 1).value) := by
  have hown := two_mul_own_of_yields hover h
  obtain ⟨hnonneg, -⟩ := channelWidth_bounds hsized hchannels
  obtain ⟨-, hfirst, hsecond⟩ := nearest_offset hsized hchannels h
  constructor
  · intro hfew
    have hone : (1 : ℚ) ≤ ss.own := by exact_mod_cast (by omega : 1 ≤ ss.own)
    have hproduct := le_mul_of_one_le_right hnonneg hone
    rw [(shared_of_yields h).2] at hfew
    have hwide := le_channelWidth hsized hchannels hfew
    have hleast := Binary64.representable_two_zpow (e := -12) (by norm_num)
    have hhalf : 2 ^ (-12 : ℤ) ≤ r.channelWidth.value.value * ss.own / 2 := by
      rw [le_div_iff₀ two_pos]
      calc (2 : ℚ) ^ (-12 : ℤ) * 2 = 2 ^ (-11 : ℤ) := by norm_num
        _ ≤ r.channelWidth.value.value := hwide
        _ ≤ r.channelWidth.value.value * ss.own := hproduct
    exact ⟨hfirst.ge hleast hhalf, hsecond.le hleast.neg (neg_le_neg hhalf)⟩
  · intro hmany
    have hnone : (ss.own : ℚ) ≤ 0 := by exact_mod_cast (by omega : ss.own ≤ 0)
    have hproduct := mul_nonpos_of_nonneg_of_nonpos hnonneg hnone
    exact ⟨hfirst.le Binary64.representable_zero (by linarith),
      hsecond.ge Binary64.representable_zero (by linarith)⟩

end Offsets

/-! ## Order -/

/-- Every subsystem of an accepted draft has passed for valid. -/
theorem Draft.valid_of_build {α : Type} [Scalar α] {draft : Draft α} {o : Descriptor α}
    {r : Subsystem α} (h : draft.build = .ok o) (hr : r ∈ o.subsystems) :
    r.Valid PassesPositive PassesNonnegative := by
  obtain ⟨-, -, hcheck, -, -, nyquist, -, -, rfl⟩ := Draft.build_eq_ok_iff.1 h
  exact checkSubsystems_eq_ok_iff.1 hcheck r hr

/-- The subbands of a planned hybrid lie on both sides of the centre that was asked for. They
ascend if the overlap is less than half of the channels, strictly so if the centre is within a
terahertz, and otherwise they do not. About a centre that is no number or infinite, both are it. -/
theorem order_of_subbands {draft : Draft Binary64} {o : Descriptor Binary64}
    (hbuild : draft.build = .ok o) (hr : r ∈ o.subsystems) (hover : Scalar.zero < r.overlap.value)
    (h : (planSubsystem settings number r).Yields d ss) :
    ∃ first second, ss.subbands = [first, second] ∧
      (r.ifFreq.value.IsFinite → 2 * ss.overlapChannels.toNat < r.channels.toNat →
        first.exactIf.value ≤ r.ifFreq.value ∧ r.ifFreq.value ≤ second.exactIf.value ∧
          (|r.ifFreq.value.value| ≤ 10 ^ 12 → first.exactIf.value < second.exactIf.value)) ∧
      (r.ifFreq.value.IsFinite → r.channels.toNat ≤ 2 * ss.overlapChannels.toNat →
        second.exactIf.value ≤ r.ifFreq.value ∧ r.ifFreq.value ≤ first.exactIf.value) ∧
      (¬ r.ifFreq.value.IsFinite →
        first.exactIf.value = r.ifFreq.value ∧ second.exactIf.value = r.ifFreq.value) := by
  have hvalid := Draft.valid_of_build hbuild hr
  have hsized := sized_of_yields hvalid hover h
  obtain ⟨hoffset, -⟩ := nearest_offset hsized hvalid.channels h
  obtain ⟨hfew, hmany⟩ := offset_of_yields hsized hvalid.channels h hover
  obtain ⟨hfirst, hfirstsmall⟩ := hoffset 0 zero_le_one
  obtain ⟨hsecond, hsecondsmall⟩ := hoffset 1 le_rfl
  obtain ⟨first, second, hsubbands, hfirstif, hsecondif⟩ := centres_of_hybrid hover h
  have hunit := Binary64.two_zpow_pos (-12)
  refine ⟨first, second, hsubbands, ?_, ?_, ?_⟩ <;> rw [hfirstif, hsecondif]
  · intro hif hless
    obtain ⟨hlow, hhigh⟩ := hfew hless
    have hbelow := Binary64.sub_le_self_of_nonneg hif hfirst hfirstsmall (hunit.le.trans hlow)
    have habove := Binary64.le_sub_of_nonpos hif hsecond hsecondsmall (by linarith)
    refine ⟨hbelow, habove, fun hcentre => ?_⟩
    have hunits : |r.ifFreq.value.value| ≤ 2 ^ 52 * 2 ^ (-12 : ℤ) :=
      hcentre.trans (by norm_num)
    exact Binary64.le_lt_trans hbelow
      (Binary64.lt_sub_of_le_neg hif hsecond hsecondsmall (by norm_num) hunits hhigh)
  · intro hif hless
    obtain ⟨hlow, hhigh⟩ := hmany hless
    exact ⟨Binary64.sub_le_self_of_nonneg hif hsecond hsecondsmall hhigh,
      Binary64.le_sub_of_nonpos hif hfirst hfirstsmall hlow⟩
  · intro hif
    exact ⟨Binary64.sub_eq_self hif hfirst, Binary64.sub_eq_self hif hsecond⟩

/-- A stare with one receptor over one subsystem. -/
def stareOver (r : Subsystem Binary64) : Draft Binary64 where
  movement := .stare ⟨[⟨.zero, .zero⟩], .zero, ⟨Scalar.whole 1⟩⟩
  switching := .position
  subsystems := [r]
  receptors := ["H00"]
  nyquist := some ⟨Scalar.whole 7⟩

/-- The stare is accepted if the subsystem passes its checks. -/
theorem exists_build_stareOver (hchannels : 1 ≤ r.channels.toNat)
    (hbandwidth : ¬ r.bandwidth.notPositive) (hoverlap : ¬ r.overlap.negative) :
    ∃ o, (stareOver r).build = .ok o ∧ r ∈ o.subsystems := by
  have hnyquist : ¬ (⟨Scalar.whole 7⟩ : Arcsec Binary64).notPositive := by decide +kernel
  refine ⟨_, Draft.build_eq_ok_iff.2 ⟨rfl, List.cons_ne_nil _ _, ?_, List.cons_ne_nil _ _, ?_,
    _, rfl, hnyquist, rfl⟩, List.mem_singleton_self r⟩
  · exact checkSubsystems_eq_ok_iff.2
      (List.forall_mem_singleton.2 ⟨hchannels, hbandwidth, hoverlap⟩)
  · rintro ⟨⟩

/-- The subbands of the hybrid of 1875 MHz around 4 GHz ascend. -/
theorem order_of_subbands_hybrid : ∃ r ∈ Routing.twoSubsystems, ∃ o ss,
    (stareOver r).build = .ok o ∧ r ∈ o.subsystems ∧ Scalar.zero < r.overlap.value ∧
      (planSubsystem Settings.standard 1 r).Yields false ss ∧
      ∃ first second, ss.subbands = [first, second] ∧
        first.exactIf.value < second.exactIf.value := by
  obtain ⟨r, hr⟩ : ∃ r, r = Routing.twoSubsystems.head (by decide) := ⟨_, rfl⟩
  obtain ⟨o, hbuild, hmem⟩ := exists_build_stareOver (r := r) (by rw [hr]; decide)
    (by rw [hr]; decide +kernel) (by rw [hr]; decide +kernel)
  have hover : Scalar.zero < r.overlap.value := by
    rw [hr]
    decide +kernel
  obtain ⟨ss, hss, hshared⟩ : ∃ ss, (planSubsystem Settings.standard 1 r).Yields false ss ∧
      ss.overlapChannels = 128 := by
    rw [hr]
    exact Run.exists_yields_of_toOption (by decide +kernel)
  have hcentre : r.ifFreq.value = .ofNat 4000000000 := by rw [hr]; rfl
  obtain ⟨hfinite, hvalue⟩ := Binary64.value_ofNat (n := 4000000000) (by norm_num)
  rw [← hcentre] at hfinite hvalue
  obtain ⟨first, second, hsubbands, hfew, -, -⟩ := order_of_subbands hbuild hmem hover hss
  have hfew' : 2 * ss.overlapChannels.toNat < r.channels.toNat := by
    rw [hshared, hr]
    decide
  refine ⟨r, hr ▸ List.head_mem _, o, ss, hbuild, hmem, hover, hss, first, second,
    hsubbands, ?_⟩
  exact (hfew hfinite hfew').2.2 (by rw [hvalue]; norm_num)

/-- A hybrid whose overlap is wider than its bandwidth. -/
def wideOverlap : Subsystem Binary64 :=
  ⟨⟨.ofNat 345796000000⟩, ⟨.ofNat 500000000⟩, 1024, ⟨.ofNat 750000000⟩, ⟨.ofNat 4000000000⟩⟩

/-- It is accepted and planned, and its second subband lies below the first one. -/
theorem not_ascending_wideOverlap : ∃ o, (stareOver wideOverlap).build = .ok o ∧
    wideOverlap ∈ o.subsystems ∧ Scalar.zero < wideOverlap.overlap.value ∧
    ∃ ss, (planSubsystem Settings.standard 1 wideOverlap).Yields false ss ∧
      ∃ first second, ss.subbands = [first, second] ∧
        ¬ first.exactIf.value < second.exactIf.value := by
  obtain ⟨o, hbuild, hmem⟩ := exists_build_stareOver (r := wideOverlap) (by decide)
    (by decide +kernel) (by decide +kernel)
  obtain ⟨ss, hss, hcentres⟩ : ∃ ss,
      (planSubsystem Settings.standard 1 wideOverlap).Yields false ss ∧
        ss.subbands.map (·.exactIf.value) = [.ofNat 4250000000, .ofNat 3750000000] :=
    Run.exists_yields_of_toOption (by decide +kernel)
  obtain ⟨first, second, hsubbands⟩ : ∃ first second, ss.subbands = [first, second] :=
    List.length_eq_two.1 (by simpa using congrArg List.length hcentres)
  rw [hsubbands] at hcentres
  obtain ⟨hfirst, hsecond⟩ : _ ∧ _ := by
    simpa only [List.map_cons, List.map_nil, List.cons.injEq, and_true] using hcentres
  refine ⟨o, hbuild, hmem, by decide +kernel, ss, hss, first, second, hsubbands, ?_⟩
  rw [hfirst, hsecond]
  decide +kernel

end Heterodyne
