import Heterodyne.Header
import Heterodyne.Proofs.Configuration.Consistent
/-!
# What applies to an observing mode

The sequencer has fields that only some observations fill, and the header has keywords that only
some configurations show. The fields come from the timing, the mode from the classification and
the keywords from the configuration, and they agree: each mode has one group of fields, and the
header shows the keywords of that group.

* `has_ofTiming_iff`: the fields of a timing are those of the group of its cadence.
* `group_of_yields_cadenceOf`: the group of a cadence is that of the mode.
* `applicable_of_yields`: the mode, the fields and the keywords of a configuration agree.
-/

namespace Heterodyne

variable {α : Type}

/-! ## Fields and their groups -/

/-- The fields of the sequencer that only some observations fill. -/
inductive SequenceField where
  | traversalsPerPhase
  | nodSets
  | minSteps
  | jigglesPerChop
  | rowsPerRef
  | rowsPerCal
  | refToCalRatio
  | refSamples
  | velocity
  | focusAxis
  | focusSteps
  | focusStepSize
deriving DecidableEq

/-- Whether a field is filled. -/
def Sequence.has (s : Sequence α) : SequenceField → Bool
  | .traversalsPerPhase => s.traversalsPerPhase.isSome
  | .nodSets => s.nodSets.isSome
  | .minSteps => s.minSteps.isSome
  | .jigglesPerChop => s.jigglesPerChop.isSome
  | .rowsPerRef => s.rowsPerRef.isSome
  | .rowsPerCal => s.rowsPerCal.isSome
  | .refToCalRatio => s.refToCalRatio.isSome
  | .refSamples => s.refSamples.isSome
  | .velocity => s.velocity.isSome
  | .focusAxis => s.focusAxis.isSome
  | .focusSteps => s.focusSteps.isSome
  | .focusStepSize => s.focusStepSize.isSome

/-- The groups of fields that are filled together. -/
inductive FieldGroup where
  | rows
  | nods
  | steps
  | focus
deriving DecidableEq

namespace FieldGroup

/-- The fields of a group. -/
def fields : FieldGroup → List SequenceField
  | rows => [.rowsPerRef, .rowsPerCal, .refToCalRatio, .refSamples, .velocity]
  | nods => [.traversalsPerPhase, .nodSets, .jigglesPerChop]
  | steps => [.minSteps]
  | focus => [.focusAxis, .focusSteps, .focusStepSize]

/-- The keywords that show fields of a group, in the order of the table. -/
def keywords : FieldGroup → List Keyword
  | rows => [.rowsPerRef, .refSamples]
  | nods => [.josMult, .numNods]
  | steps => [.josMin]
  | focus => []

/-- The modes of observations, by name, and the group that each one has. -/
def ofModeName? : String → Option FieldGroup
  | "raster_pssw_science" => some rows
  | "grid_pssw_science" => some steps
  | "jiggle_freqsw_science" => some steps
  | "jiggle_chop_focus" => some focus
  | "jiggle_chop_science" => some nods
  | "jiggle_chop_pointing" => some nods
  | _ => none

end FieldGroup

/-- The group of fields that a cadence fills. -/
def Cadence.group : Cadence α → FieldGroup
  | raster _ => .rows
  | chopJiggle _ => .nods
  | grid _ => .steps
  | frequencySwitch _ => .steps
  | focus _ _ _ => .focus

/-- The fields of a timing that are filled are those of the group of its cadence. -/
theorem has_ofTiming_iff (t : Timing α) (field : SequenceField) :
    (Sequence.ofTiming t).has field = true ↔ field ∈ t.cadence.group.fields := by
  unfold Sequence.ofTiming
  cases t.cadence <;> cases field <;> simp [Sequence.has, Cadence.group, FieldGroup.fields]

/-! ## Cadences of modes -/

section Cadences

variable [Scalar α] {d : Bool} {steps : UInt32} {cadence : Cadence α}

/-- A raster has the cadence of a raster. -/
theorem group_of_yields_ofRaster {r : Raster α} {step : Duration α} {cubes : List (Cube α)}
    (h : (Timing.ofRaster r step cubes).Yields d (steps, cadence)) : cadence.group = .rows := by
  simp only [Timing.ofRaster, Run.yields_bind, Run.yields_pure, Prod.mk.injEq] at h
  obtain ⟨ratio, -, diagonal, -, -, -, -, rfl⟩ := h
  rfl

/-- A chopped observation has the cadence of a chopped jiggle. -/
theorem group_of_yields_ofChop {r : Timing.ChopRequest α} {step maxNodTime : Duration α}
    (h : (Timing.ofChop r step maxNodTime).Yields d (steps, cadence)) :
    cadence.group = .nods := by
  simp only [Timing.ofChop, Run.yields_bind] at h
  obtain ⟨perTraversal, -, required, -, schedule, -, h⟩ := h
  -- Whether traversals are dropped is told, and has no influence otherwise.
  split at h
  · simp only [Run.yields_bind, Run.yields_pure, Prod.mk.injEq] at h
    obtain ⟨-, -, stepsPerRef, -, -, rfl⟩ := h
    rfl
  · simp only [Run.yields_bind, Run.yields_pure, Prod.mk.injEq] at h
    obtain ⟨stepsPerRef, -, -, rfl⟩ := h
    rfl

/-- The cadence of an observation fills the group of fields that its mode has. -/
theorem group_of_yields_cadenceOf {o : Descriptor α} {mode : Mode} {cubes : List (Cube α)}
    {settings : Settings α} {step : Duration α}
    (hmode : Mode.classify (α := α) o.iterator o.switching = .ok mode)
    (h : (Timing.cadenceOf o mode cubes settings step).Yields d (steps, cadence)) :
    FieldGroup.ofModeName? mode.name = some cadence.group := by
  unfold Descriptor.iterator at hmode
  unfold Timing.cadenceOf at h
  -- The classification is read case by case, and the cadence follows the mode that it gives.
  cases hmove : o.movement with
  | raster r =>
    rw [hmove] at hmode h
    cases hswitch : o.switching <;> rw [hswitch] at hmode <;> cases hmode
    rw [group_of_yields_ofRaster h]
    rfl
  | stare s =>
    rw [hmove] at hmode h
    cases hswitch : o.switching <;> rw [hswitch] at hmode <;> cases hmode
    · obtain ⟨-, rfl⟩ := Prod.mk.inj (Run.yields_pure.1 h)
      rfl
    · rw [group_of_yields_ofChop h]
      rfl
    · rw [group_of_yields_ofChop h]
      rfl
  | jiggle j =>
    rw [hmove] at hmode h
    cases hswitch : o.switching <;> rw [hswitch] at hmode <;> cases hmode
    · rw [group_of_yields_ofChop h]
      rfl
    · rw [group_of_yields_ofChop h]
      rfl
    · obtain ⟨-, rfl⟩ := Prod.mk.inj (Run.yields_pure.1 h)
      rfl
  | pointing j =>
    rw [hmove] at hmode h
    cases hmode
    rw [group_of_yields_ofChop h]
    rfl
  | focus f =>
    rw [hmove] at hmode h
    cases hmode
    obtain ⟨-, rfl⟩ := Prod.mk.inj (Run.yields_pure.1 h)
    rfl

end Cadences

/-! ## Keywords of configurations -/

section Keywords

variable {c : Configuration α} {group : FieldGroup}

/-- The header lists the keywords that have a value, in the order of the table. -/
theorem map_fst_headers (c : Configuration α) :
    c.headers.map (·.1) = Keyword.all.filter fun k => (k.value? c).isSome := by
  rw [Configuration.headers, List.map_filterMap, ← List.filterMap_eq_filter]
  congr 1
  funext k
  cases h : k.value? c <;> simp [Option.guard, h]

/-- A tuning keyword of the table has a value exactly if its synthesizer is routed. -/
theorem isSome_value?_lo2 (h : c.Consistent) {slot : UInt32} (hslot : slot ≠ 0) :
    ((Keyword.lo2 slot).value? c).isSome = true ↔
      ∃ r ∈ c.correlator.routes, r.synth = slot - 1 := by
  rw [Keyword.value?, if_neg hslot, Option.isSome_map, ← h.lo2, Table.mem_keys,
    Option.isSome_iff_exists]

/-- The keywords that every configuration shows first. -/
def commonKeywords : List Keyword := [.samMode, .swMode, .obsType, .stepTime, .numCyc, .calSamples]

/-- The tuning keywords of the synthesizers that are routed. -/
def tuningKeywords (c : Configuration α) : List Keyword :=
  ([1, 2, 3, 4].filter fun slot => ∃ r ∈ c.correlator.routes, r.synth = slot - 1).map .lo2

/-- The keywords that show fields, in the order of the table, with the fields that they show. -/
def fieldKeywords : List (Keyword × SequenceField) := [
  (.josMult, .traversalsPerPhase), (.numNods, .nodSets), (.josMin, .minSteps),
  (.rowsPerRef, .rowsPerRef), (.refSamples, .refSamples)]

/-- A keyword that shows a field has a value exactly if the field is filled. -/
theorem isSome_value?_of_mem {q : Keyword × SequenceField} (hq : q ∈ fieldKeywords) :
    (q.1.value? c).isSome = c.sequence.has q.2 := by
  simp only [fieldKeywords, List.mem_cons, List.not_mem_nil, or_false] at hq
  rcases hq with rfl | rfl | rfl | rfl | rfl <;> exact Option.isSome_map

/-- The keywords that show the fields of a group are the keywords of the group. -/
theorem map_fst_fieldKeywords (group : FieldGroup) :
    (fieldKeywords.filter fun q => q.2 ∈ group.fields).map (·.1) = group.keywords := by
  cases group <;> rfl

/-- The header of a configuration shows the common keywords, those of the group of fields that its
sequencer fills, the number of subbands and the tuning of the synthesizers that are routed. -/
theorem map_fst_headers_of_has (h : c.Consistent)
    (hfields : ∀ field, c.sequence.has field = true ↔ field ∈ group.fields) :
    c.headers.map (·.1) =
      commonKeywords ++ (group.keywords ++ (.subbands :: tuningKeywords c)) := by
  have hall : Keyword.all = commonKeywords ++ (fieldKeywords.map (·.1) ++
    (.subbands :: [1, 2, 3, 4].map .lo2)) := rfl
  have hcommon : commonKeywords.filter (fun k => (k.value? c).isSome) = commonKeywords := rfl
  have hgroup : (fieldKeywords.map (·.1)).filter (fun k => (k.value? c).isSome) =
      group.keywords := by
    rw [List.filter_map, ← map_fst_fieldKeywords]
    congr 1
    refine List.filter_congr fun q hq => ?_
    rw [Function.comp_apply, isSome_value?_of_mem hq, Bool.eq_iff_iff, hfields, decide_eq_true_eq]
  have htuning : ([1, 2, 3, 4].map .lo2).filter (fun k => (k.value? c).isSome) =
      tuningKeywords c := by
    rw [List.filter_map, tuningKeywords]
    congr 1
    refine List.filter_congr fun slot hslot => ?_
    have hne : slot ≠ 0 := by
      rintro rfl
      exact absurd hslot (by decide)
    rw [Function.comp_apply, Bool.eq_iff_iff, isSome_value?_lo2 h hne, decide_eq_true_eq]
  rw [map_fst_headers, hall, List.filter_append, List.filter_append, hcommon, hgroup,
    List.filter_cons_of_pos rfl, htuning]

end Keywords

/-! ## Configured observations -/

/-- The mode of a configuration is one of six. It decides which one of the groups of fields the
sequencer fills, and the header shows the keywords of this group between the common ones and those
of the subbands and of the synthesizers that are routed. -/
theorem applicable_of_yields [Scalar α] {i : Instrument α} {o : Descriptor α}
    {c : Configuration α} {d : Bool} (h : (i.configure o).Yields d c) :
    ∃ group, FieldGroup.ofModeName? c.mode.name = some group ∧
      (∀ field, c.sequence.has field = true ↔ field ∈ group.fields) ∧
      c.headers.map (·.1) =
        commonKeywords ++ (group.keywords ++ (.subbands :: tuningKeywords c)) := by
  have hconsistent := consistent_of_yields h
  obtain ⟨mode, plan, routing, cubes, timing, hmode, -, -, -, htiming, rfl⟩ :=
    yields_configure_iff.1 h
  simp only [Timing.budget, Run.yields_bind, Run.yields_pure] at htiming
  obtain ⟨step, -, ⟨steps, cadence⟩, hcadence, rfl⟩ := htiming
  have hfields := has_ofTiming_iff (α := α) ⟨step, o.repeats, steps,
    Timing.stepsFor step i.settings.calTime, cadence⟩
  exact ⟨cadence.group, group_of_yields_cadenceOf hmode hcadence, hfields,
    map_fst_headers_of_has hconsistent hfields⟩

/-- The small map fills the fields of rows, and its header shows their keywords and the tuning of
the three synthesizers that are routed. -/
theorem applicable_of_smallMap :
    ∃ c, ((⟨Settings.standard, Routing.twoReceptors⟩ : Instrument Binary64).configure
        smallMap).Yields false c ∧ c.mode.name = "raster_pssw_science" ∧
      c.sequence.has .velocity = true ∧ c.sequence.has .nodSets = false ∧
      c.headers.map (·.1) =
        commonKeywords ++ ([.rowsPerRef, .refSamples] ++ (.subbands :: tuningKeywords c)) := by
  obtain ⟨c, hyields, -⟩ := exists_yields_smallMap
  obtain ⟨group, hgroup, hfields, hheaders⟩ := applicable_of_yields hyields
  have hname : c.mode.name = "raster_pssw_science" := by
    obtain ⟨mode, -, -, -, -, hmode, -, -, -, -, rfl⟩ := yields_configure_iff.1 hyields
    cases hmode
    rfl
  rw [hname] at hgroup
  obtain rfl := Option.some.inj hgroup
  refine ⟨c, hyields, hname, (hfields _).2 (by decide), ?_, hheaders⟩
  rw [← Bool.not_eq_true, hfields]
  decide

end Heterodyne
