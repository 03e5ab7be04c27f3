import Heterodyne.Proofs.Configuration.ExactlyTuned
/-!
# Tiled bands

The channels of a subsystem are counted, those of its overlap are rounded, and the total is halved
for two subbands, whose centres are computed from what is left of their channels between the
overlaps. In exact numbers the pieces fit: whatever the overlap is rounded to, the windows of a
subsystem reach over the band that was asked for and not beyond it.

* `centres_of_yields`: the centres of the windows, in order.
* `abs_sharedWidth_sub_le`: the overlap at both ends is what was asked for, to a channel.
* `tiles_of_yields`: the edges of the windows of a planned subsystem.
-/

namespace Heterodyne

variable {K : Type} [Field K] [LinearOrder K] [FloorRing K] {F : Apparatus K}

namespace SubsystemPlan

/-- Where a window begins, half of its channels below its centre. -/
def lowerEdge (ss : SubsystemPlan (Exact F)) (sb : Subband (Exact F)) : K :=
  sb.exactIf.value.val - ss.subbandChannels.toNat * ss.channelWidth.value.val / (2 : ℕ)

/-- Where a window ends, half of its channels above its centre. -/
def upperEdge (ss : SubsystemPlan (Exact F)) (sb : Subband (Exact F)) : K :=
  sb.exactIf.value.val + ss.subbandChannels.toNat * ss.channelWidth.value.val / (2 : ℕ)

/-- The width of the channels that two subbands have in common. -/
def sharedWidth (ss : SubsystemPlan (Exact F)) : K :=
  (2 * ss.overlapChannels.toNat : ℕ) * ss.channelWidth.value.val

/-- The windows of a subsystem tile the band that was asked for. -/
inductive Tiles (ss : SubsystemPlan (Exact F)) (r : Subsystem (Exact F)) : Prop where
  /-- The one window without an overlap is the whole band. -/
  | whole (hover : ¬ 0 < r.overlap.value.val) (sb : Subband (Exact F))
      (windows : ss.subbands = [sb])
      (lower : ss.lowerEdge sb = r.ifFreq.value.val - r.bandwidth.value.val / 2)
      (upper : ss.upperEdge sb = r.ifFreq.value.val + r.bandwidth.value.val / 2)
  /-- The first subband of a hybrid begins with the band, the second one ends with it, and the
  first one ends behind the beginning of the second one by what they share. -/
  | hybrid (hover : 0 < r.overlap.value.val) (first second : Subband (Exact F))
      (windows : ss.subbands = [first, second])
      (lower : ss.lowerEdge first = r.ifFreq.value.val - r.bandwidth.value.val / 2)
      (upper : ss.upperEdge second = r.ifFreq.value.val + r.bandwidth.value.val / 2)
      (shared : ss.upperEdge first - ss.lowerEdge second = ss.sharedWidth)

end SubsystemPlan

section Edges

variable {settings : Settings (Exact F)} {number : UInt32} {r : Subsystem (Exact F)}
  {ss : SubsystemPlan (Exact F)} {d : Bool}

/-- The centres of the windows, as many channels apart as they have besides those that they share
at both of their ends. -/
theorem centres_of_yields [IsStrictOrderedRing K]
    (h : (planSubsystem settings number r).Yields d ss) :
    ss.subbands.map (·.exactIf.value.val) =
      if 0 < r.overlap.value.val then
        [r.ifFreq.value.val - (ss.subbandChannels.toNat * ss.channelWidth.value.val -
            ss.sharedWidth) / 2,
          r.ifFreq.value.val + (ss.subbandChannels.toNat * ss.channelWidth.value.val -
            ss.sharedWidth) / 2]
      else [r.ifFreq.value.val] := by
  obtain ⟨total, mode, -, -, -, -, rfl⟩ := yields_planSubsystem_iff.1 h
  split
  next hover =>
    have hparts : r.parts = 2 := if_pos (Exact.zero_lt_iff.2 hover)
    have hrange : List.range (2 : UInt32).toNat = [0, 1] := rfl
    simp only [Subsystem.planned, SubsystemPlan.sharedWidth, cutSubbands, hparts, hrange,
      List.map_cons, List.map_nil, Scalar.ofCount, Quantity.value_sub, Quantity.value_mul,
      Exact.val_sub, Exact.val_mul, Exact.val_div, Exact.val_whole, List.cons.injEq, and_true]
    have hmid : ((((2 : UInt32) - 1).toNat : ℕ) : K) = 1 := Nat.cast_one
    rw [hmid]
    push_cast
    constructor <;> ring
  next hover =>
    have hparts : r.parts = 1 := if_neg (mt Exact.zero_lt_iff.1 hover)
    simp [Subsystem.planned, cutSubbands, hparts, Scalar.ofCount]

/-- The channels that were asked for make up the bandwidth, if there are any. -/
theorem bandwidth_of_yields [IsStrictOrderedRing K] (hchannels : 0 < r.channels)
    (h : (planSubsystem settings number r).Yields d ss) :
    ss.hybridChannels.toNat * ss.channelWidth.value.val = r.bandwidth.value.val := by
  obtain ⟨total, mode, -, -, -, -, rfl⟩ := yields_planSubsystem_iff.1 h
  have hne : (r.channels.toNat : K) ≠ 0 := by
    have hpos : 0 < r.channels.toNat := UInt32.lt_iff_toNat_lt.1 hchannels
    exact_mod_cast hpos.ne'
  exact mul_div_cancel₀ _ hne

/-- The overlap at both of their ends is what was asked for, to within a channel. -/
theorem abs_sharedWidth_sub_le [IsStrictOrderedRing K] (hchannels : 0 < r.channels)
    (hbandwidth : 0 < r.bandwidth.value.val) (hover : 0 < r.overlap.value.val)
    (h : (planSubsystem settings number r).Yields d ss) :
    |ss.sharedWidth - 2 * r.overlap.value.val| ≤ ss.channelWidth.value.val := by
  have hcount : ss.hybridChannels.toNat + 2 * ss.overlapChannels.toNat =
      ss.subbandChannels.toNat + ss.subbandChannels.toNat := by
    rcases cut_of_yields h with ⟨-, -, hcount⟩ | ⟨hnot, -⟩
    · exact hcount
    · exact absurd (Exact.zero_lt_iff.2 hover) hnot
  obtain ⟨total, mode, -, -, -, -, rfl⟩ := yields_planSubsystem_iff.1 h
  have hpos : 0 < r.channels.toNat := UInt32.lt_iff_toNat_lt.1 hchannels
  have hwidth : 0 < r.channelWidth.value.val := div_pos hbandwidth (Nat.cast_pos.2 hpos)
  have hround : 0 ≤ roundAway (r.overlap.value.val / r.channelWidth.value.val) :=
    roundAway_nonneg (div_pos hover hwidth).le
  -- An overlap beyond the counts would have made the total overflow.
  have hoverlap : (r.overlapChannels.toNat : ℤ) =
      roundAway (r.overlap.value.val / r.channelWidth.value.val) := by
    have hsaturated : r.overlapChannels.toNat =
        min (roundAway (r.overlap.value.val / r.channelWidth.value.val)).toNat
          Scalar.maxCount := by
      rw [Subsystem.overlapChannels, Scalar.toNat_toCount]
      simp
    have hhalf := (total / r.parts).toNat_lt
    have hmax : Scalar.maxCount = 2 ^ 32 - 1 := rfl
    simp only [Subsystem.planned] at hcount
    omega
  have hnear := abs_sub_roundAway_le (r.overlap.value.val / r.channelWidth.value.val)
  rw [← hoverlap, Int.cast_natCast, abs_sub_comm] at hnear
  have hshared : (r.planned settings number total mode).sharedWidth - 2 * r.overlap.value.val =
      (r.overlapChannels.toNat - r.overlap.value.val / r.channelWidth.value.val) *
        (2 * r.channelWidth.value.val) := by
    simp only [SubsystemPlan.sharedWidth, Subsystem.planned, Nat.cast_mul, Nat.cast_ofNat]
    field_simp
  rw [hshared, abs_mul, abs_of_pos (mul_pos two_pos hwidth)]
  calc _ ≤ 1 / 2 * (2 * r.channelWidth.value.val) :=
        mul_le_mul_of_nonneg_right hnear (mul_pos two_pos hwidth).le
    _ = r.channelWidth.value.val := by ring

/-- The windows of a planned subsystem tile the band that was asked for: a single window from half
the bandwidth below the centre to half of it above, and two subbands from the same beginning to the
same end, which share exactly the channels of the overlap at both of their ends. -/
theorem tiles_of_yields [IsStrictOrderedRing K] (hchannels : 0 < r.channels)
    (h : (planSubsystem settings number r).Yields d ss) : ss.Tiles r := by
  have hband := bandwidth_of_yields hchannels h
  have hcentres := centres_of_yields h
  rcases cut_of_yields h with ⟨hover, ⟨first, second, hwindows⟩, hcount⟩ |
    ⟨hover, ⟨sb, hwindows, -⟩, hcount⟩
  · rw [Exact.zero_lt_iff] at hover
    rw [hwindows, if_pos hover, List.map_cons, List.map_cons, List.map_nil] at hcentres
    obtain ⟨hfirst, hsecond⟩ : _ ∧ _ := by simpa only [List.cons.injEq, and_true] using hcentres
    -- The channels of both subbands are those of the band and those of the overlap twice.
    have hsum : (ss.subbandChannels.toNat * ss.channelWidth.value.val) * 2 =
        r.bandwidth.value.val + ss.sharedWidth := by
      have hcast : (ss.hybridChannels.toNat : K) + 2 * ss.overlapChannels.toNat =
          ss.subbandChannels.toNat + ss.subbandChannels.toNat := by exact_mod_cast hcount
      rw [← hband, SubsystemPlan.sharedWidth, Nat.cast_mul, Nat.cast_ofNat]
      linear_combination -ss.channelWidth.value.val * hcast
    refine .hybrid hover first second hwindows ?_ ?_ ?_
    · rw [SubsystemPlan.lowerEdge, hfirst]
      linear_combination -hsum / 2
    · rw [SubsystemPlan.upperEdge, hsecond]
      linear_combination hsum / 2
    · rw [SubsystemPlan.upperEdge, SubsystemPlan.lowerEdge, hfirst, hsecond]
      ring
  · rw [Exact.zero_lt_iff] at hover
    rw [hwindows, if_neg hover, List.map_cons, List.map_nil] at hcentres
    have hcentre := List.head_eq_of_cons_eq hcentres
    rw [← hcount] at hband
    refine .whole hover sb hwindows ?_ ?_
    · rw [SubsystemPlan.lowerEdge, hcentre, hband, Nat.cast_ofNat]
    · rw [SubsystemPlan.upperEdge, hcentre, hband, Nat.cast_ofNat]

end Edges

/-- The hybrid of the stare reaches over its band of 1875 MHz around 4 GHz, and its subbands share
256 channels. -/
theorem tiles_exactHybrid : ∃ r ∈ exactStare.subsystems, ∃ ss,
    0 < r.channels ∧ (planSubsystem Settings.standard 1 r).Yields false ss ∧ ss.Tiles r ∧
      ss.subbands.length = 2 ∧ ss.overlapChannels = 128 ∧ ss.subbandChannels = 2048 := by
  have hplan : ∃ ss, (planSubsystem Settings.standard 1
      (exactStare.subsystems.head (by decide))).Yields false ss ∧
      (ss.subbands.length, ss.overlapChannels, ss.subbandChannels) = (2, 128, 2048) :=
    Run.exists_yields_of_toOption (by decide +kernel)
  obtain ⟨ss, hss, hparts⟩ := hplan
  simp only [Prod.mk.injEq] at hparts
  exact ⟨_, List.head_mem _, ss, by decide, hss, tiles_of_yields (by decide) hss, hparts⟩

end Heterodyne
