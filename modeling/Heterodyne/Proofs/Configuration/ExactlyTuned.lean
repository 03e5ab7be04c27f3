import Heterodyne.Proofs.Configuration.Refusal
import Heterodyne.Proofs.Configuration.WindowTree
import Heterodyne.Proofs.Exact
import Heterodyne.Proofs.Spectrum.Tuning
/-!
# Exactly tuned windows

The centre that a window is asked for, its oscillator frequency on the grid of tuning steps, its
shift and the frequency that is written are computed one from the other. In exact numbers nothing
is lost on the way: the written frequency is the oscillator's and that at which the band is parked,
and with the shift it is the centre that was asked for.

* `quantizeLo2_exact`: tuning down by less than a step.
* `val_alignedIf_of_plans`: a planned window is parked on its oscillator.
* `askedAt_of_plans`: the centre that a planned window is asked for.
* `exactlyTuned_ofSubband`: a planned window is exactly tuned.
* `exactlyTuned_of_yields`: the tuned windows of a configuration.
-/

namespace Heterodyne

variable {K : Type} [Field K] [LinearOrder K] [FloorRing K] {F : Apparatus K}

/-! ## The grid of tuning steps -/

section Steps

variable [IsStrictOrderedRing K]

/-- A frequency is tuned down to a whole number of steps, by less than a step. This holds below
zero too, where rounding to zero would tune up. -/
theorem quantizeLo2_exact (exact : Frequency (Exact F)) {step : Frequency (Exact F)}
    (hstep : 0 < step.value.val) :
    (∃ n : ℤ, (quantizeLo2 exact step).1.value.val = n * step.value.val) ∧
      0 ≤ (quantizeLo2 exact step).2.value.val ∧
      (quantizeLo2 exact step).2.value.val < step.value.val := by
  have hlo2 : (quantizeLo2 exact step).1.value.val =
      ⌊exact.value.val / step.value.val⌋ * step.value.val := mul_comm _ _
  have hshift : (quantizeLo2 exact step).2.value.val =
      exact.value.val - ⌊exact.value.val / step.value.val⌋ * step.value.val := by
    rw [shift_quantizeLo2, Quantity.value_sub, Exact.val_sub, hlo2]
  rw [hshift]
  exact ⟨⟨_, hlo2⟩, Int.sub_floor_div_mul_nonneg _ hstep, Int.sub_floor_div_mul_lt _ hstep⟩

end Steps

/-! ## Planned windows -/

section Planned

variable {settings : Settings (Exact F)} {r : Subsystem (Exact F)} {k : ℕ}
  {ss : SubsystemPlan (Exact F)} {sb : Subband (Exact F)} {d : Bool}

/-- The centre of a window behind its alignment is its oscillator frequency and that at which the
band is parked: the shift has left the difference between the two. -/
theorem val_alignedIf_of_plans (h : Plans settings d (r, k) ss) (hsb : sb ∈ ss.subbands) :
    sb.alignedIf.value.val =
      sb.lo2.value.val + (ss.mode.passband.park : Frequency (Exact F)).value.val := by
  obtain ⟨total, mode, -, -, -, -, rfl⟩ := yields_planSubsystem_iff.1 h
  obtain ⟨j, -, rfl⟩ := List.mem_map.1 hsb
  simp only [Subband.alignedIf, shift_quantizeLo2, Subsystem.planned, Quantity.value_sub,
    Exact.val_sub]
  ring

variable [IsStrictOrderedRing K]

/-- Whether a subsystem is a hybrid is told by its overlap. -/
theorem isHybrid_of_plans (h : Plans settings d (r, k) ss) :
    ss.isHybrid = true ↔ 0 < r.overlap.value.val := by
  rw [← Exact.val_zero (F := F), ← Exact.lt_iff, SubsystemPlan.isHybrid, decide_eq_true_eq]
  rcases cut_of_yields h with ⟨hover, ⟨a, b, hsubbands⟩, -⟩ | ⟨hover, ⟨a, hsubbands, -⟩, -⟩
  · exact iff_of_true (by simp [hsubbands]) hover
  · exact iff_of_false (by simp [hsubbands]) hover

/-- The window of a subsystem without an overlap lies where it was asked for. -/
theorem whole_of_plans (h : Plans settings d (r, k) ss) (hover : ¬ 0 < r.overlap.value.val)
    (hsb : sb ∈ ss.subbands) : sb.id = ss.id ∧ sb.exactIf.value.val = r.ifFreq.value.val := by
  obtain ⟨total, mode, -, -, -, -, rfl⟩ := yields_planSubsystem_iff.1 h
  have hparts : r.parts = 1 := if_neg (by rwa [Exact.lt_iff, Exact.val_zero])
  obtain ⟨j, hj, rfl⟩ := List.mem_map.1 hsb
  rw [hparts, List.mem_range, UInt32.toNat_one, Nat.lt_one_iff] at hj
  subst hj
  simp only [hparts]
  refine ⟨rfl, ?_⟩
  simp [Scalar.ofCount]

/-- The subbands of a hybrid lie around its centre, as many channels apart as they have besides
those that they share at both of their ends. -/
theorem subband_of_plans (h : Plans settings d (r, k) ss) (hover : 0 < r.overlap.value.val)
    (hsb : sb ∈ ss.subbands) : ∃ j < 2, sb.id = .ofSubband ss.number (UInt32.ofNat (j + 1)) ∧
      sb.exactIf.value.val = r.ifFreq.value.val - ss.channelWidth.value.val *
        ((1 / 2 - j) * (ss.subbandChannels.toNat - 2 * ss.overlapChannels.toNat)) := by
  obtain ⟨total, mode, -, -, -, -, rfl⟩ := yields_planSubsystem_iff.1 h
  have hparts : r.parts = 2 := if_pos (by rwa [Exact.lt_iff, Exact.val_zero])
  obtain ⟨j, hj, rfl⟩ := List.mem_map.1 hsb
  rw [hparts, List.mem_range] at hj
  refine ⟨j, hj, ?_, ?_⟩
  · simp only [hparts]
    rfl
  · simp [Scalar.ofCount, Subsystem.planned, hparts]

end Planned

/-! ## Windows -/

/-- A window of the request that is counted `k` is asked for at a centre. -/
inductive Window.AskedAt (w : Window (Exact F)) (r : Subsystem (Exact F)) (k : ℕ) : K → Prop where
  /-- Without an overlap, the window of the subsystem has its centre. -/
  | whole (hover : ¬ 0 < r.overlap.value.val) (hid : w.id = "SPW" ++ toString k)
      (hparent : w.parent = none) : w.AskedAt r k r.ifFreq.value.val
  /-- The two subbands of a hybrid have their centres below and above its own. -/
  | subband (hover : 0 < r.overlap.value.val) (j : ℕ) (hj : j < 2)
      (hid : w.id = "SPW" ++ toString k ++ "." ++ toString (j + 1))
      (hparent : w.parent = some ("SPW" ++ toString k)) :
      w.AskedAt r k (r.ifFreq.value.val - w.channelWidth.val *
        ((1 / 2 - j) * (w.channels.toNat - 2 * w.overlapChannels.toNat)))

/-- A window has an oscillator on the grid of steps and a shift of less than a step. Its frequency
is the oscillator's and that at which the band is parked, and the shift leads on to the centre. -/
structure Window.ExactlyTuned (w : Window (Exact F)) (lo2 shift : Exact F)
    (step park centre : K) : Prop where
  tuned : w.lo2 = some lo2
  shifted : w.shift = some shift
  steps : ∃ n : ℤ, lo2.val = n * step
  nonneg : 0 ≤ shift.val
  lt_step : shift.val < step
  parked : w.ifFreq.val = lo2.val + park
  centred : w.ifFreq.val + shift.val = centre

section Windows

variable [IsStrictOrderedRing K] {settings : Settings (Exact F)} {r : Subsystem (Exact F)} {k : ℕ}
  {ss : SubsystemPlan (Exact F)} {sb : Subband (Exact F)} {d : Bool}

/-- The window of a planned subband is asked for at its exact centre. -/
theorem askedAt_of_plans (h : Plans settings d (r, k) ss) (hk : k < 2 ^ 32)
    (hsb : sb ∈ ss.subbands) :
    (Window.ofSubband ss sb).AskedAt r k sb.exactIf.value.val := by
  have hname := name_id_of_plans h hk
  have hhybrid := isHybrid_of_plans h
  by_cases hover : 0 < r.overlap.value.val
  · obtain ⟨j, hj, hid, hcentre⟩ := subband_of_plans h hover hsb
    have hsubband : sb.id.name = "SPW" ++ toString k ++ "." ++ toString (j + 1) := by
      have hcount : Count.text (UInt32.ofNat (j + 1)) = toString (j + 1) := by
        rw [Count.text, UInt32.toNat_ofNat_of_lt' (show j + 1 < 2 ^ 32 by omega)]
      rw [hid, ← hname, ← hcount]
      rfl
    rw [hcentre]
    refine .subband hover j hj hsubband ?_
    rw [Window.ofSubband, if_pos (hhybrid.2 hover), hname]
  · obtain ⟨hid, hcentre⟩ := whole_of_plans h hover hsb
    rw [hcentre]
    refine .whole hover ?_ ?_
    · rw [← hname, ← hid]
      rfl
    · rw [Window.ofSubband, if_neg (mt hhybrid.1 hover)]

/-- The window of a planned subband is exactly tuned. -/
theorem exactlyTuned_ofSubband (hstep : 0 < settings.lo2Step.value.val)
    (h : Plans settings d (r, k) ss) (hsb : sb ∈ ss.subbands) :
    (Window.ofSubband ss sb).ExactlyTuned sb.lo2.value sb.shift.value settings.lo2Step.value.val
      (ss.mode.passband.park : Frequency (Exact F)).value.val sb.exactIf.value.val := by
  have hgrid := quantizeLo2_exact sb.exactLo2 hstep
  rw [← quantized_of_yields_planSubsystem h hsb] at hgrid
  obtain ⟨hsteps, hnonneg, hlt⟩ := hgrid
  exact ⟨rfl, rfl, hsteps, hnonneg, hlt, val_alignedIf_of_plans h hsb, sub_add_cancel _ _⟩

end Windows

/-! ## Configurations -/

/-- Every window of a configuration that has an oscillator is that of a request. Its oscillator
stands on a whole number of steps, its shift lies between zero and the step, and its frequency is
the oscillator's and that at which its mode is parked; with the shift it is the centre at which the
window was asked for. -/
theorem exactlyTuned_of_yields [IsStrictOrderedRing K] {i : Instrument (Exact F)}
    {o : Descriptor (Exact F)} {c : Configuration (Exact F)} {d : Bool}
    (hstep : 0 < i.settings.lo2Step.value.val) (h : (i.configure o).Yields d c) :
    ∀ w ∈ c.windows, ∀ lo2, w.lo2 = some lo2 →
      ∃ q ∈ o.subsystems.zipIdx 1, ∃ (mode : BandwidthMode) (shift : Exact F) (centre : K),
        w.mode = mode.name ∧ w.AskedAt q.1 q.2 centre ∧
        w.ExactlyTuned lo2 shift i.settings.lo2Step.value.val
          (mode.passband.park : Frequency (Exact F)).value.val centre := by
  obtain ⟨mode, plan, routing, cubes, timing, -, hplan, -, -, -, rfl⟩ := yields_configure_iff.1 h
  obtain ⟨hcounted, hplans⟩ := yields_planSubsystems_iff.1 (yields_ofSubsystems_iff.1 hplan)
  intro w hw lo2 hlo2
  obtain ⟨ss, hss, hmem⟩ := List.mem_flatMap.1 hw
  rcases eq_ofHybrid_or_ofSubband hmem with ⟨rfl, -⟩ | ⟨sb, hsb, rfl⟩
  · cases hlo2
  · obtain rfl := Option.some.inj hlo2
    obtain ⟨q, hq, hplanned⟩ := exists_plans_of_mem hplans hss
    have hnumber : q.2 < 2 ^ 32 := by
      have hlt := List.snd_lt_add_of_mem_zipIdx hq
      omega
    exact ⟨q, hq, ss.mode, sb.shift.value, _, rfl, askedAt_of_plans hplanned hnumber hsb,
      exactlyTuned_ofSubband hstep hplanned hsb⟩

/-! ## A stare -/

/-- A stare at its target in exact numbers, with a hybrid, and with a window so low in the band
that its oscillator lies below zero. -/
def exactStare : Descriptor (Exact rationals) where
  movement := .stare ⟨[⟨.zero, .zero⟩], .zero, ⟨Scalar.whole 1⟩⟩
  switching := .position
  subsystems := [
    ⟨⟨Scalar.whole 345796000000⟩, ⟨Scalar.whole 1875000000⟩, 3840, ⟨Scalar.whole 62500000⟩,
      ⟨Scalar.whole 4000000000⟩⟩,
    ⟨⟨Scalar.whole 345796000000⟩, ⟨Scalar.whole 250000000⟩, 8192, ⟨Scalar.zero⟩,
      ⟨Scalar.whole 1000050000⟩⟩]
  repeats := 1
  receptors := ["H00"]
  nyquist := ⟨Scalar.whole 7⟩

/-- The stare is configured with any plan of its subsystems into the windows that it asks for. -/
theorem exists_yields_exactStare {plan : Plan (Exact rationals)}
    (hplan : (Plan.ofSubsystems Settings.standard exactStare.subsystems).Yields false plan)
    (hleaves : plan.leaves = [(.ofSubband 1 1, "1GHzx2048"), (.ofSubband 1 2, "1GHzx2048"),
      (.ofSubsystem 2, "250MHzx8192")]) :
    ∃ c, ((⟨Settings.standard, Routing.twoReceptors⟩ : Instrument (Exact rationals)).configure
        exactStare).Yields false c ∧ c.windows = plan.subsystems.flatMap Window.ofSubsystem := by
  have hwindows : Routing.windows plan = _ :=
    (Routing.windows_eq_leaves (wellFormed_of_yields hplan)).trans hleaves
  obtain ⟨routing, hrouting⟩ := Routing.exists_yields_ofPlan_iff.2
    (show Routing.Routable Routing.twoReceptors (Routing.windows plan) exactStare.receptors by
      rw [hwindows]
      decide +kernel)
  have hgrid : ∃ grid, (exactStare.spatialGrid Settings.standard).Yields false grid ∧
      grid.nx = 1 := Run.exists_yields_of_toOption (by decide +kernel)
  obtain ⟨grid, hgrid, -⟩ := hgrid
  have hcubes : ∃ cubes, (exactStare.cubes plan Settings.standard).Yields false cubes :=
    exists_yields_cubes_iff.2 ⟨grid, hgrid⟩
  obtain ⟨cubes, hcubes⟩ := hcubes
  have hstep : Timing.stepTimeOf exactStare Settings.standard = .ok ⟨Scalar.decimal 1 1⟩ :=
    if_pos (by decide +kernel)
  have htiming : ∃ timing, (Timing.budget exactStare ⟨.grid, .position, .science⟩ cubes
      Settings.standard).Yields false timing := by
    simp only [Timing.budget, hstep]
    exact ⟨_, rfl⟩
  obtain ⟨timing, htiming⟩ := htiming
  exact ⟨_, yields_configure_iff.2
    ⟨_, plan, routing, cubes, timing, rfl, hplan, hrouting, hcubes, htiming, rfl⟩, rfl⟩

/-- The window below zero is tuned down to a frequency further below, with a shift of fifty
kilohertz. -/
theorem exactlyTuned_of_exactStare :
    ∃ c, ((⟨Settings.standard, Routing.twoReceptors⟩ : Instrument (Exact rationals)).configure
        exactStare).Yields false c ∧
      ∃ w ∈ c.windows, ∃ q ∈ exactStare.subsystems.zipIdx 1,
        ∃ (mode : BandwidthMode) (shift : Exact rationals) (centre : ℚ),
          w.mode = mode.name ∧ w.AskedAt q.1 q.2 centre ∧
          w.ExactlyTuned ⟨-1125000000⟩ shift 200000
            (mode.passband.park : Frequency (Exact rationals)).value.val centre ∧
          shift.val = 50000 := by
  have hplan : ∃ plan, (Plan.ofSubsystems Settings.standard exactStare.subsystems).Yields false
      plan ∧ (plan.leaves, plan.subbands.map fun q => (q.2.lo2.value, q.2.shift.value)) =
        ([(.ofSubband 1 1, "1GHzx2048"), (.ofSubband 1 2, "1GHzx2048"),
          (.ofSubsystem 2, "250MHzx8192")],
        [(⟨1062400000⟩, ⟨100000⟩), (⟨1937400000⟩, ⟨100000⟩), (⟨-1125000000⟩, ⟨50000⟩)]) :=
    Run.exists_yields_of_toOption (by decide +kernel)
  obtain ⟨plan, hplan, hparts⟩ := hplan
  obtain ⟨hleaves, htunings⟩ := Prod.mk.inj hparts
  obtain ⟨c, hyields, hwindows⟩ := exists_yields_exactStare hplan hleaves
  have hlast : (⟨-1125000000⟩, ⟨50000⟩) ∈
      plan.subbands.map fun q => (q.2.lo2.value, q.2.shift.value) := by
    rw [htunings]
    exact List.mem_of_getLast? rfl
  obtain ⟨⟨ss, sb⟩, hmem, htuning⟩ := List.mem_map.1 hlast
  obtain ⟨hlo2, hshift⟩ := Prod.mk.inj htuning
  have hstep : (Settings.standard : Settings (Exact rationals)).lo2Step.value.val = 200000 := by
    decide +kernel
  have hw : Window.ofSubband ss sb ∈ c.windows := by
    rw [hwindows]
    exact ofSubband_mem_windows hmem
  obtain ⟨q, hq, mode, shift, centre, hmode, hasked, htuned⟩ :=
    exactlyTuned_of_yields (by rw [hstep]; norm_num) hyields _ hw _ (congrArg some hlo2)
  rw [hstep] at htuned
  refine ⟨c, hyields, _, hw, q, hq, mode, shift, centre, hmode, hasked, htuned, ?_⟩
  rw [← Option.some.inj htuned.shifted, hshift]

end Heterodyne
