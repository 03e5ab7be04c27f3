import Heterodyne.Proofs.Configuration.Batch
import Heterodyne.Proofs.Configuration.WindowTree
import Heterodyne.Proofs.Settings
import Heterodyne.Proofs.Spectrum.Tuning
/-!
# Tuned windows

The windows without subbands are tuned: each has the oscillator and the shift of a planned window.
An instrument's tuning step lies above zero, so wherever the plan can be tuned without rounding
the oscillators are finite and the shifts lie between zero and the step. A step that lies above
zero need not be such a step: on the smallest one, every oscillator is infinite.

* `tuned_of_yields`: the tuning of the windows of a configuration.
* `not_tuned_finestStep`: windows that are not tuned.
-/

namespace Heterodyne

variable {settings : Settings Binary64} {wiring : Wiring} {i : Instrument Binary64}
  {o : Descriptor Binary64} {c : Configuration Binary64} {b d : Bool}

/-- The tuning step of an instrument lies above zero. -/
theorem lo2Step_pos_of_commission (h : (Instrument.commission settings wiring).Yields b i) :
    (Scalar.zero : Binary64) < i.settings.lo2Step.value := by
  have husable := Settings.usable_sanitize Settings.repairsUsable_binary64 settings .lo2Step
  -- the repaired settings get a name, so that they are not computed
  obtain ⟨repaired, hrepaired⟩ : ∃ s, settings.sanitize.1 = s := ⟨_, rfl⟩
  rw [yields_commission_iff, hrepaired] at h
  rw [hrepaired] at husable
  subst h
  exact husable

/-- The window has this oscillator and this shift, and they tune the exact frequency on the
step. -/
structure Window.TunedBy (w : Window Binary64) (step : Frequency Binary64)
    (sb : Subband Binary64) : Prop where
  lo2 : w.lo2 = some sb.lo2.value
  shift : w.shift = some sb.shift.value
  tuned : Tuned sb.exactLo2 step sb.lo2 sb.shift

/-- Every window without subbands is a planned one. If the exact oscillator frequency of that can
be tuned on the instrument's step without rounding, the window has a finite oscillator, which is a
multiple of the step, and a shift that lies between zero and the step and leads back to the exact
frequency. -/
theorem tuned_of_yields (hi : (Instrument.commission settings wiring).Yields b i)
    (h : (i.configure o).Yields d c) :
    ∃ plan, (Plan.ofSubsystems i.settings o.subsystems).Yields d plan ∧
      ∀ w ∈ c.windows, w.subbands = [] → ∃ ss sb, (ss, sb) ∈ plan.subbands ∧
        w = .ofSubband ss sb ∧
        (Tunable sb.exactLo2 i.settings.lo2Step → w.TunedBy i.settings.lo2Step sb) := by
  obtain ⟨mode, plan, routing, cubes, timing, -, hplan, -, -, -, rfl⟩ := yields_configure_iff.1 h
  refine ⟨plan, hplan, ?_⟩
  intro w hw hleaf
  obtain ⟨ss, hss, hmem⟩ := List.mem_flatMap.1 hw
  rcases eq_ofHybrid_or_ofSubband hmem with ⟨-, hsome⟩ | ⟨sb, hsb, rfl⟩
  · exact absurd hleaf hsome
  · have hplanned : (ss, sb) ∈ plan.subbands := Plan.mem_subbands_iff.2 ⟨hss, hsb⟩
    have hquantized := quantized_of_yields hplan hplanned
    refine ⟨ss, sb, hplanned, rfl, fun htunable => ⟨rfl, rfl, ?_⟩⟩
    have htuned := tuned_quantizeLo2 htunable (lo2Step_pos_of_commission hi)
    rw [← hquantized] at htuned
    exact htuned

/-- The windows of the small map are tuned on the standard step. -/
theorem tuned_of_smallMap :
    ∃ (i : Instrument Binary64) (c : Configuration Binary64) (plan : Plan Binary64),
      (Instrument.commission (.standard : Settings Binary64) Routing.twoReceptors).Yields false i ∧
      (i.configure smallMap).Yields false c ∧
      (Plan.ofSubsystems i.settings smallMap.subsystems).Yields false plan ∧
      plan.subbands.length = 3 ∧
      ∀ w ∈ c.windows, w.subbands = [] →
        ∃ ss sb, (ss, sb) ∈ plan.subbands ∧ w.TunedBy i.settings.lo2Step sb := by
  have hi : (Instrument.commission (.standard : Settings Binary64) Routing.twoReceptors).Yields false
      ⟨Settings.standard, Routing.twoReceptors⟩ :=
    yields_commission_of_sanitize_eq (by decide +kernel)
  obtain ⟨c, hyields, -⟩ := exists_yields_smallMap
  obtain ⟨plan, hplan, hwindows⟩ := tuned_of_yields hi hyields
  -- the exact frequencies, with units of at most a hertz in their last places
  have hexact : ∃ plan, (Plan.ofSubsystems Settings.standard smallMap.subsystems).Yields false
      plan ∧ plan.subbands.map (fun q => q.2.exactLo2) =
        [⟨⟨4742196104366391296⟩⟩, ⟨⟨4745913271993761792⟩⟩, ⟨⟨4745651127993761792⟩⟩] :=
    Run.exists_yields_of_toOption (by decide +kernel)
  obtain ⟨plan', hplan', hexact⟩ := hexact
  obtain rfl := hplan.unique hplan'
  have hstep : (Settings.standard : Settings Binary64).lo2Step = ⟨.ofNat 200000⟩ := by
    decide +kernel
  have htunable : ∀ f ∈ plan.subbands.map (fun q => q.2.exactLo2),
      Tunable f ⟨.ofNat 200000⟩ := by
    intro f hf
    have hparts : f.value.IsFinite ∧ (Scalar.zero : Binary64) ≤ f.value ∧
        f.value.exponent ≤ 0 := by
      rw [hexact] at hf
      revert f
      decide +kernel
    exact tunable_of_whole hparts.1 hparts.2.1 hparts.2.2 (by norm_num)
  refine ⟨_, c, plan, hi, hyields, hplan, ?_, ?_⟩
  · rw [← List.length_map (fun q => q.2.exactLo2), hexact]
    rfl
  · intro w hw hleaf
    obtain ⟨ss, sb, hmem, -, htuned⟩ := hwindows w hw hleaf
    refine ⟨ss, sb, hmem, htuned ?_⟩
    show Tunable sb.exactLo2 (Settings.standard : Settings Binary64).lo2Step
    rw [hstep]
    exact htunable _ (List.mem_map_of_mem hmem)

/-- The standard settings with the smallest step that lies above zero. -/
def finestStep : Settings Binary64 := { Settings.standard with lo2Step := ⟨⟨1⟩⟩ }

/-- The smallest step passes the repair of the settings, and the small map, all of whose
frequencies are finite, is accepted and configured. It has a tuned window with an infinite
oscillator and a shift below zero. -/
theorem not_tuned_finestStep :
    ∃ i c w lo2 shift, (Instrument.commission finestStep Routing.twoReceptors).Yields false i ∧
      (mapDraft Routing.twoSubsystems).build = .ok smallMap ∧
      (∀ r ∈ smallMap.subsystems, r.restFreq.value.IsFinite ∧ r.bandwidth.value.IsFinite ∧
        r.overlap.value.IsFinite ∧ r.ifFreq.value.IsFinite) ∧
      (i.configure smallMap).Yields false c ∧ w ∈ c.windows ∧ w.subbands = [] ∧
      w.lo2 = some lo2 ∧ w.shift = some shift ∧ ¬ lo2.IsFinite ∧
      ¬ (Scalar.zero : Binary64) ≤ shift := by
  have hi : (Instrument.commission finestStep Routing.twoReceptors).Yields false
      ⟨finestStep, Routing.twoReceptors⟩ :=
    yields_commission_of_sanitize_eq (by decide +kernel)
  -- the quotient by the smallest step overflows, and so every oscillator is infinite
  have hplan : ∃ plan, (Plan.ofSubsystems finestStep smallMap.subsystems).Yields false plan ∧
      (plan.leaves, plan.subbands.map fun q => (q.2.lo2.value, q.2.shift.value)) =
        ([(.ofSubband 1 1, "1GHzx2048"), (.ofSubband 1 2, "1GHzx2048"),
          (.ofSubsystem 2, "250MHzx8192")],
        List.replicate 3 (⟨0x7FF0000000000000⟩, ⟨0xFFF0000000000000⟩)) :=
    Run.exists_yields_of_toOption (by decide +kernel)
  obtain ⟨plan, hplan, hparts⟩ := hplan
  obtain ⟨hleaves, htunings⟩ := Prod.mk.inj hparts
  have htiming : ∃ timing, (smallMapTiming finestStep).Yields false timing ∧
      timing.cycles = 1 := Run.exists_yields_of_toOption (by decide +kernel)
  obtain ⟨timing, htiming, -⟩ := htiming
  obtain ⟨c, hyields, hwindows, -⟩ := exists_yields_smallMap_of hplan hleaves htiming
  have hfirst : (⟨0x7FF0000000000000⟩, ⟨0xFFF0000000000000⟩) ∈
      plan.subbands.map fun q => (q.2.lo2.value, q.2.shift.value) := by
    rw [htunings]
    exact List.mem_cons_self
  obtain ⟨⟨ss, sb⟩, hmem, htuning⟩ := List.mem_map.1 hfirst
  obtain ⟨hlo2, hshift⟩ := Prod.mk.inj htuning
  refine ⟨_, c, .ofSubband ss sb, sb.lo2.value, sb.shift.value, hi,
    build_mapDraft (List.cons_ne_nil _ _) rfl, by decide +kernel, hyields, ?_, rfl, rfl, rfl, ?_,
    ?_⟩
  · rw [hwindows]
    exact ofSubband_mem_windows hmem
  · rw [hlo2]
    decide +kernel
  · rw [hshift]
    decide +kernel

end Heterodyne
