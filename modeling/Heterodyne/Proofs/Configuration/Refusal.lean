import Heterodyne.Proofs.Configuration.Batch
import Heterodyne.Proofs.Spectrum.Numbered
/-!
# Why observations are refused

An observation that has been accepted as a descriptor can still be refused by an instrument. The
kind of the cause tells the step that refuses it: an observing mode that is not offered, a part
that means nothing, or hardware that is missing or taken. What the steps rely on among each other
has been established before, so it is not the cause of a refusal; the one exception is a step
time that is not positive, which nobody checks before the timing.

* `refuses_configure_iff`: at which step an observation is refused.
* `not_refuses_cubes`, `not_refuses_cadenceOf`: the steps that refuse no accepted observation.
* `refusal_of_accepted`: what each kind of refusal says about an accepted observation.
-/

namespace Heterodyne

variable {α : Type} {d : Bool} {cause : Refusal α}

/-! ## Classification and routing -/

/-- A mode is refused because it is not supported. -/
theorem kind_of_classify {iterator : IteratorKind} {switching : Switching}
    (h : Mode.classify iterator switching = .error cause) : cause.kind = .unsupported := by
  unfold Mode.classify at h
  split at h <;> cases h <;> rfl

/-- Routing refuses a receptor that is not wired, one that has too few slots, or one that wants
hardware that is taken; a synthesizer without a frequency does not occur. -/
theorem kind_of_refuses_ofPlan {plan : Plan α} {wiring : Wiring} {rs : List Receptor}
    (h : (Routing.ofPlan plan wiring rs).Refuses d cause) :
    cause.kind = .unrecognized ∨ cause.kind = .exhausted ∨ cause.kind = .conflict := by
  -- what is routable is routed, so an obstruction is met
  have hnot : ¬ Routing.Routable wiring (Routing.windows plan) rs := by
    intro hroutable
    obtain ⟨r, hr⟩ := Routing.exists_yields_ofPlan_iff.2 hroutable
    exact hr.not_refuses cause h
  obtain ⟨-, q, -, cause', -, -, -, hcause', hobstructed⟩ :=
    Routing.exists_refuses_ofPlan (d := d) hnot
  obtain rfl := h.unique hcause'
  unfold Routing.Obstructed at hobstructed
  split at hobstructed
  · subst hobstructed
    exact .inl rfl
  · split at hobstructed
    · subst hobstructed
      exact .inr (.inl rfl)
    · exact .inr (.inr hobstructed)

/-! ## Planning -/

variable [Scalar α]

/-- A subsystem is refused because it means nothing. -/
theorem kind_of_refuses_planSubsystem {settings : Settings α} {number : UInt32}
    {r : Subsystem α} (h : (planSubsystem settings number r).Refuses d cause) :
    cause.kind = .unrecognized := by
  rw [planSubsystem_eq] at h
  simp only [Run.refuses_bind, Run.not_refuses_ofCount, false_or] at h
  obtain ⟨total, -, h⟩ := h
  split at h
  · rw [Run.refuses_refuse] at h
    subst h
    rfl
  · simp only [Run.refuses_bind, Run.refuses_ofCheck, Run.not_refuses_tellAll,
      Run.not_refuses_pure, and_false, exists_false, or_false] at h
    -- The label may name no mode, and the mode that it names may not fit into the window.
    rcases h with hread | ⟨mode, -, hpark⟩
    · unfold Bandwidth.read at hread
      split at hread <;> cases hread
      rfl
    · simp only [checkPark] at hpark
      split at hpark <;> cases hpark
      rfl

/-- Subsystems in a row are refused because one of them means nothing. -/
theorem kind_of_refuses_planSubsystems {settings : Settings α} {number : UInt32}
    {requests : List (Subsystem α)}
    (h : (planSubsystems settings number requests).Refuses d cause) :
    cause.kind = .unrecognized := by
  induction requests generalizing number with
  | nil => exact absurd h Run.not_refuses_pure
  | cons r rest ih =>
    simp only [planSubsystems, Run.refuses_bind, Run.not_refuses_ofCount, Run.not_refuses_pure,
      and_false, exists_false, or_false, false_or] at h
    obtain ⟨next, -, hfirst | ⟨first, -, hothers⟩⟩ := h
    · exact kind_of_refuses_planSubsystem hfirst
    · exact ih hothers

/-- Planning refuses subsystems that mean nothing. -/
theorem kind_of_refuses_ofSubsystems {settings : Settings α} {requests : List (Subsystem α)}
    (h : (Plan.ofSubsystems settings requests).Refuses d cause) : cause.kind = .unrecognized := by
  simp only [Plan.ofSubsystems, Run.refuses_bind, Run.not_refuses_pure, and_false, exists_false,
    or_false] at h
  exact kind_of_refuses_planSubsystems h

/-! ## Laying out -/

/-- A grid is fitted to offsets, if there are any and the Nyquist value has been checked. -/
theorem Grid.not_refuses_fit {offsets : List (Offset α)} {angle : Degrees α}
    {nyquist : Arcsec α} {toleranceFactor : α} (hsome : offsets ≠ [])
    (hpositive : ¬ nyquist.notPositive) :
    ¬ (Grid.fit offsets angle nyquist toleranceFactor).Refuses d cause := by
  unfold Grid.fit
  rw [if_neg (show ¬ nyquist.value ≤ Scalar.zero from hpositive)]
  simp only [Run.refuses_bind, Run.not_refuses_tell, Run.not_refuses_ofCount, and_false,
    exists_false, or_false]
  -- Both axes have as many positions as there are offsets.
  rintro (hx | ⟨x, -, hy⟩)
  · exact hsome (by simpa using Axis.eq_nil_of_refuses_fit hx)
  · exact hsome (by simpa using Axis.eq_nil_of_refuses_fit hy)

/-- A checked pattern has offsets. -/
theorem Jiggle.offsets_ne_nil {j : Jiggle α} (h : j.check = .ok ()) : j.offsets ≠ [] := by
  rw [Jiggle.check, check_then_eq_ok, objectIf_eq_ok_iff] at h
  rw [Jiggle.offsets, Ne, List.map_eq_nil_iff]
  exact h.1

/-- The grid of an observation is not refused once its movement and its Nyquist value have been
checked. -/
theorem not_refuses_spatialGrid {o : Descriptor α} {settings : Settings α}
    (hmovement : o.movement.check = .ok ()) (hpositive : ¬ o.nyquist.notPositive) :
    ¬ (o.spatialGrid settings).Refuses d cause := by
  unfold Descriptor.spatialGrid
  cases hmove : o.movement with
  | raster r => exact Run.not_refuses_ofCount
  | stare s =>
    rw [hmove] at hmovement
    exact Grid.not_refuses_fit (objectIf_eq_ok_iff.1 hmovement) hpositive
  | jiggle j =>
    rw [hmove] at hmovement
    exact Grid.not_refuses_fit (Jiggle.offsets_ne_nil hmovement) hpositive
  | pointing j =>
    rw [hmove] at hmovement
    exact Grid.not_refuses_fit (Jiggle.offsets_ne_nil hmovement) hpositive
  | focus f => exact Grid.not_refuses_fit (List.cons_ne_nil _ _) hpositive

/-- The cubes of an observation are not refused once its movement and its Nyquist value have been
checked. -/
theorem not_refuses_cubes {o : Descriptor α} {plan : Plan α} {settings : Settings α}
    (hmovement : o.movement.check = .ok ()) (hpositive : ¬ o.nyquist.notPositive) :
    ¬ (o.cubes plan settings).Refuses d cause := by
  rw [Descriptor.cubes, Run.refuses_bind]
  rintro (hgrid | ⟨grid, -, hpure⟩)
  · exact not_refuses_spatialGrid hmovement hpositive hgrid
  · exact Run.not_refuses_pure hpure

/-- There are as many cubes as subsystems are asked for. -/
theorem length_of_yields_cubes {o : Descriptor α} {plan : Plan α} {settings : Settings α}
    {cubes : List (Cube α)}
    (hplan : (Plan.ofSubsystems settings o.subsystems).Yields d plan)
    (hcubes : (o.cubes plan settings).Yields d cubes) :
    cubes.length = o.subsystems.length := by
  simp only [Descriptor.cubes, Run.yields_bind, Run.yields_pure] at hcubes
  obtain ⟨grid, -, rfl⟩ := hcubes
  rw [Cube.ofPlan, List.length_map, length_of_yields_ofSubsystems hplan]

/-! ## Timing -/

namespace Timing

/-- A chopped jiggle is never refused. -/
theorem not_refuses_ofChop {r : ChopRequest α} {step maxNodTime : Duration α} :
    ¬ (ofChop r step maxNodTime).Refuses d cause := by
  simp only [ofChop, Run.refuses_bind, Run.not_refuses_ofCount, false_or]
  rintro ⟨steps, -, required, -, schedule, -, h⟩
  -- Whether traversals are dropped is told, and has no influence otherwise.
  split at h <;>
    simp only [Run.refuses_bind, Run.not_refuses_tell, Run.not_refuses_ofCount,
      Run.not_refuses_pure, and_false, exists_false, or_false] at h

/-- A raster is not refused if cubes have been laid out. -/
theorem not_refuses_ofRaster {r : Raster α} {step : Duration α} {cubes : List (Cube α)}
    (hcubes : cubes ≠ []) : ¬ (ofRaster r step cubes).Refuses d cause := by
  simp only [ofRaster, Run.refuses_bind, Run.not_refuses_ofCount, Run.refuses_ofCheck,
    Run.not_refuses_tell, Run.not_refuses_pure, and_false, exists_false, or_false, false_or]
  rintro ⟨ratio, -, hfootprint⟩
  cases cubes with
  | nil => exact hcubes rfl
  | cons cube rest => cases hfootprint

/-- A classified observation whose cubes have been laid out has a cadence in its mode. -/
theorem not_refuses_cadenceOf {o : Descriptor α} {mode : Mode} {cubes : List (Cube α)}
    {settings : Settings α} {step : Duration α}
    (hmode : Mode.classify (α := α) o.iterator o.switching = .ok mode) (hcubes : cubes ≠ []) :
    ¬ (cadenceOf o mode cubes settings step).Refuses d cause := by
  unfold Descriptor.iterator at hmode
  unfold cadenceOf
  -- The classification is read case by case, and each mode that it gives has a cadence.
  cases hmove : o.movement with
  | raster r =>
    rw [hmove] at hmode
    cases hswitch : o.switching <;> rw [hswitch] at hmode <;> cases hmode
    exact not_refuses_ofRaster hcubes
  | stare s =>
    rw [hmove] at hmode
    cases hswitch : o.switching <;> rw [hswitch] at hmode <;> cases hmode
    · exact Run.not_refuses_pure
    · exact not_refuses_ofChop
    · exact not_refuses_ofChop
  | jiggle j =>
    rw [hmove] at hmode
    cases hswitch : o.switching <;> rw [hswitch] at hmode <;> cases hmode
    · exact not_refuses_ofChop
    · exact not_refuses_ofChop
    · exact Run.not_refuses_pure
  | pointing j =>
    rw [hmove] at hmode
    cases hmode
    exact not_refuses_ofChop
  | focus f =>
    rw [hmove] at hmode
    cases hmode
    exact Run.not_refuses_pure

/-- The time of one step of an observation, whether it can be used or not. -/
def requestedStep (o : Descriptor α) (settings : Settings α) : Duration α :=
  match o.movement with
  | .raster r => r.sampleTime
  | _ => settings.stepTime

/-- The step time of an observation is checked. -/
theorem stepTimeOf_eq (o : Descriptor α) (settings : Settings α) :
    stepTimeOf o settings = checkStepTime (requestedStep o settings) := by
  unfold stepTimeOf requestedStep
  cases o.movement <;> rfl

/-- A step time is refused exactly if it does not lie above zero. -/
theorem checkStepTime_eq_error_iff {time : Duration α} :
    checkStepTime time = .error cause ↔
      ¬ Scalar.zero < time.value ∧ cause = .stepTimeNotPositive time := by
  unfold checkStepTime
  split
  · rename_i hpositive
    simp [hpositive]
  · rename_i hnot
    simp [hnot, eq_comm]

/-- The timing of a classified observation with cubes is refused exactly if its step time does
not lie above zero. -/
theorem refuses_budget_iff {o : Descriptor α} {mode : Mode} {cubes : List (Cube α)}
    {settings : Settings α}
    (hmode : Mode.classify (α := α) o.iterator o.switching = .ok mode) (hcubes : cubes ≠ []) :
    (budget o mode cubes settings).Refuses d cause ↔
      ¬ Scalar.zero < (requestedStep o settings).value ∧
        cause = .stepTimeNotPositive (requestedStep o settings) := by
  simp only [budget, Run.refuses_bind, Run.refuses_ofCheck, Run.not_refuses_pure, and_false,
    exists_false, or_false, stepTimeOf_eq, checkStepTime_eq_error_iff]
  refine or_iff_left ?_
  rintro ⟨step, -, hcadence⟩
  exact not_refuses_cadenceOf hmode hcubes hcadence

end Timing

/-! ## Observations -/

section Observations

variable {i : Instrument α} {o : Descriptor α}

/-- An observation is refused by the first of its steps that refuses. -/
theorem refuses_configure_iff :
    (i.configure o).Refuses d cause ↔
      Mode.classify o.iterator o.switching = .error cause ∨
        ∃ mode, Mode.classify (α := α) o.iterator o.switching = .ok mode ∧
          ((Plan.ofSubsystems i.settings o.subsystems).Refuses d cause ∨
            ∃ plan, (Plan.ofSubsystems i.settings o.subsystems).Yields d plan ∧
              ((Routing.ofPlan plan i.wiring o.receptors).Refuses d cause ∨
                ∃ routing, (Routing.ofPlan plan i.wiring o.receptors).Yields d routing ∧
                  ((o.cubes plan i.settings).Refuses d cause ∨
                    ∃ cubes, (o.cubes plan i.settings).Yields d cubes ∧
                      (Timing.budget o mode cubes i.settings).Refuses d cause))) := by
  simp only [Instrument.configure, Run.refuses_bind, Run.refuses_ofCheck, Run.yields_ofCheck,
    Run.not_refuses_tell, Run.yields_tell, Run.not_refuses_pure, true_and, exists_const,
    and_false, exists_false, or_false, false_or]

/-- The steps of an observation up to the layout of its cubes succeed. -/
def Descriptor.LaidOut (o : Descriptor α) (i : Instrument α) (d : Bool) : Prop :=
  ∃ mode plan routing cubes, Mode.classify (α := α) o.iterator o.switching = .ok mode ∧
    (Plan.ofSubsystems i.settings o.subsystems).Yields d plan ∧
    (Routing.ofPlan plan i.wiring o.receptors).Yields d routing ∧
    (o.cubes plan i.settings).Yields d cubes

/-- An accepted observation is refused by its classification, by planning, by routing, or because
of its step time once its cubes are laid out. -/
theorem refuses_configure_accepted_iff {draft : Draft α} (h : draft.build = .ok o) :
    (i.configure o).Refuses d cause ↔
      Mode.classify o.iterator o.switching = .error cause ∨
      (∃ mode, Mode.classify (α := α) o.iterator o.switching = .ok mode ∧
        (Plan.ofSubsystems i.settings o.subsystems).Refuses d cause) ∨
      (∃ mode plan, Mode.classify (α := α) o.iterator o.switching = .ok mode ∧
        (Plan.ofSubsystems i.settings o.subsystems).Yields d plan ∧
        (Routing.ofPlan plan i.wiring o.receptors).Refuses d cause) ∨
      (o.LaidOut i d ∧ ¬ Scalar.zero < (Timing.requestedStep o i.settings).value ∧
        cause = .stepTimeNotPositive (Timing.requestedStep o i.settings)) := by
  obtain ⟨hmovement, hsome, -, -, -, nyquist, -, hpositive, ho⟩ := Draft.build_eq_ok_iff.1 h
  have hlayout : ∀ plan, ¬ (o.cubes plan i.settings).Refuses d cause := by
    intro plan
    subst ho
    exact not_refuses_cubes hmovement hpositive
  have hcubes : ∀ plan cubes, (Plan.ofSubsystems i.settings o.subsystems).Yields d plan →
      (o.cubes plan i.settings).Yields d cubes → cubes ≠ [] := by
    intro plan cubes hplan hyields
    rw [← List.length_pos_iff, length_of_yields_cubes hplan hyields, List.length_pos_iff]
    subst ho
    exact hsome
  rw [refuses_configure_iff]
  constructor
  · rintro (hmode | ⟨mode, hmode, hplan | ⟨plan, hplan, hrouting | ⟨routing, hrouting,
      hcube | ⟨cubes, hcube, htiming⟩⟩⟩⟩)
    · exact .inl hmode
    · exact .inr (.inl ⟨mode, hmode, hplan⟩)
    · exact .inr (.inr (.inl ⟨mode, plan, hmode, hplan, hrouting⟩))
    · exact absurd hcube (hlayout plan)
    · rw [Timing.refuses_budget_iff hmode (hcubes plan cubes hplan hcube)] at htiming
      exact .inr (.inr (.inr ⟨⟨mode, plan, routing, cubes, hmode, hplan, hrouting, hcube⟩,
        htiming⟩))
  · rintro (hmode | ⟨mode, hmode, hplan⟩ | ⟨mode, plan, hmode, hplan, hrouting⟩ |
      ⟨⟨mode, plan, routing, cubes, hmode, hplan, hrouting, hcube⟩, htiming⟩)
    · exact .inl hmode
    · exact .inr ⟨mode, hmode, .inl hplan⟩
    · exact .inr ⟨mode, hmode, .inr ⟨plan, hplan, .inl hrouting⟩⟩
    · rw [← Timing.refuses_budget_iff hmode (hcubes plan cubes hplan hcube)] at htiming
      exact .inr ⟨mode, hmode, .inr ⟨plan, hplan, .inr ⟨routing, hrouting, .inr
        ⟨cubes, hcube, htiming⟩⟩⟩⟩

/-- The kind of the cause tells the step that refuses an accepted observation. -/
theorem kind_of_refuses_configure {draft : Draft α} (h : draft.build = .ok o)
    (hrefused : (i.configure o).Refuses d cause) :
    Mode.classify o.iterator o.switching = .error cause ∧ cause.kind = .unsupported ∨
    cause.kind = .unrecognized ∨
    (∃ mode plan, Mode.classify (α := α) o.iterator o.switching = .ok mode ∧
      (Plan.ofSubsystems i.settings o.subsystems).Yields d plan ∧
      (Routing.ofPlan plan i.wiring o.receptors).Refuses d cause) ∧
        (cause.kind = .exhausted ∨ cause.kind = .conflict) ∨
    (o.LaidOut i d ∧ ¬ Scalar.zero < (Timing.requestedStep o i.settings).value ∧
      cause = .stepTimeNotPositive (Timing.requestedStep o i.settings)) ∧
        cause.kind = .inconsistent := by
  rcases (refuses_configure_accepted_iff h).1 hrefused with
    hmode | ⟨mode, -, hplan⟩ | hrouting | htiming
  · exact .inl ⟨hmode, kind_of_classify hmode⟩
  · exact .inr (.inl (kind_of_refuses_ofSubsystems hplan))
  · have ⟨_, _, _, _, hrefuses⟩ := hrouting
    rcases kind_of_refuses_ofPlan hrefuses with hkind | hkind
    · exact .inr (.inl hkind)
    · exact .inr (.inr (.inl ⟨hrouting, hkind⟩))
  · have ⟨_, _, hcause⟩ := htiming
    rw [hcause] at htiming ⊢
    exact .inr (.inr (.inr ⟨htiming, rfl⟩))

/-- An accepted observation is refused as unsupported exactly if its classification refuses it,
and for hardware that is missing or taken only if its routing refuses it. It is never refused for
a wiring that cannot be read. It is refused for an inconsistency exactly if its cubes are laid
out and its step time does not lie above zero, and then for this step time. -/
theorem refusal_of_accepted {draft : Draft α} (h : draft.build = .ok o) :
    (∀ cause, (i.configure o).Refuses d cause ∧ cause.kind = .unsupported ↔
      Mode.classify o.iterator o.switching = .error cause) ∧
    (∀ cause, (i.configure o).Refuses d cause →
      cause.kind = .exhausted ∨ cause.kind = .conflict →
      ∃ mode plan, Mode.classify (α := α) o.iterator o.switching = .ok mode ∧
        (Plan.ofSubsystems i.settings o.subsystems).Yields d plan ∧
        (Routing.ofPlan plan i.wiring o.receptors).Refuses d cause) ∧
    (∀ cause, (i.configure o).Refuses d cause → cause.kind ≠ .malformed) ∧
    ∀ cause, (i.configure o).Refuses d cause ∧ cause.kind = .inconsistent ↔
      o.LaidOut i d ∧ ¬ Scalar.zero < (Timing.requestedStep o i.settings).value ∧
        cause = .stepTimeNotPositive (Timing.requestedStep o i.settings) := by
  refine ⟨fun cause => ⟨?_, ?_⟩, ?_, ?_, fun cause => ⟨?_, ?_⟩⟩
  · rintro ⟨hrefused, hkind⟩
    have hstep := kind_of_refuses_configure h hrefused
    simpa [hkind] using hstep
  · intro hmode
    exact ⟨(refuses_configure_accepted_iff h).2 (.inl hmode), kind_of_classify hmode⟩
  · intro cause hrefused hkind
    have hstep := kind_of_refuses_configure h hrefused
    rcases hkind with hkind | hkind <;> simpa [hkind] using hstep
  · intro cause hrefused hkind
    have hstep := kind_of_refuses_configure h hrefused
    simp [hkind] at hstep
  · rintro ⟨hrefused, hkind⟩
    have hstep := kind_of_refuses_configure h hrefused
    simpa [hkind] using hstep
  · rintro ⟨hlaid, hnot, rfl⟩
    exact ⟨(refuses_configure_accepted_iff h).2 (.inr (.inr (.inr ⟨hlaid, hnot, rfl⟩))), rfl⟩

/-- The small map with samples that take no time. -/
def instantMap : Descriptor Binary64 :=
  { smallMap with movement := .raster ⟨⟨.ofNat 120⟩, ⟨.ofNat 60⟩, ⟨.ofNat 7⟩, ⟨.ofNat 30⟩,
      ⟨.ofNat 0⟩, ⟨.ofNat 0⟩, none, none, none⟩ }

/-- The cubes of the instant map are laid out. -/
theorem laidOut_instantMap :
    instantMap.LaidOut ⟨Settings.standard, Routing.twoReceptors⟩ false := by
  obtain ⟨plan, hplan, hleaves⟩ := Routing.exists_plan_twoSubsystems
  obtain ⟨routing, hrouting, -⟩ := exists_routing_smallMap hplan hleaves
  have hgrid : ∃ grid, (instantMap.spatialGrid Settings.standard).Yields false grid ∧
      grid.nx = 19 := Run.exists_yields_of_toOption (by decide +kernel)
  obtain ⟨grid, hgrid, -⟩ := hgrid
  have hcubes : ∃ cubes, (instantMap.cubes plan Settings.standard).Yields false cubes :=
    exists_yields_cubes_iff.2 ⟨grid, hgrid⟩
  obtain ⟨cubes, hcubes⟩ := hcubes
  exact ⟨_, plan, routing, cubes, rfl, hplan, hrouting, hcubes⟩

/-- The instant map is accepted, and it is refused because of its step time. -/
theorem refusal_of_instantMap :
    ∃ draft : Draft Binary64, draft.build = .ok instantMap ∧
      ((⟨Settings.standard, Routing.twoReceptors⟩ : Instrument Binary64).configure
        instantMap).Refuses false (.stepTimeNotPositive ⟨.ofNat 0⟩) := by
  have hbuild : ({ mapDraft Routing.twoSubsystems with movement := instantMap.movement }
      : Draft Binary64).build = .ok instantMap :=
    build_mapDraft_with rfl (List.cons_ne_nil _ _) rfl
  obtain ⟨-, -, -, hinconsistent⟩ := refusal_of_accepted
    (i := ⟨Settings.standard, Routing.twoReceptors⟩) (d := false) hbuild
  have hnot : ¬ Scalar.zero < (Binary64.ofNat 0) := by decide +kernel
  exact ⟨_, hbuild, ((hinconsistent _).2 ⟨laidOut_instantMap, hnot, rfl⟩).1⟩

end Observations

end Heterodyne
