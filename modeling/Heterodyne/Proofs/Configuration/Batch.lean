import Heterodyne.Proofs.Configuration.Consistent
import Heterodyne.Proofs.Grid.Overflow
import Heterodyne.Proofs.Observation.Descriptor
import Heterodyne.Proofs.Spectrum.Overflow
import Heterodyne.Proofs.Timing.Overflow
import Mathlib.Data.List.Forall2
/-!
# Observations one after another

Many observations are configured one after another, and a refusal concerns its own observation
alone. An overflow does not: it is no refusal, so it takes with it what was configured before and
what comes behind. The observations that overflow are known beforehand.

* `breaksOff_configure_iff`: an observation breaks off exactly if it overflows.
* `yields_configureFrom_iff`: every entry is what its own observation settles for.
* `configureAll_outcome`: there are entries exactly if no observation overflows.
-/

namespace Heterodyne

variable {α : Type} [Scalar α] {i : Instrument α} {d : Bool}

/-! ## Single observations -/

/-- An observation overflows when it is planned, when its grid is laid out or when it is timed, and
all that comes before is accepted. -/
def Descriptor.Overflows (o : Descriptor α) (i : Instrument α) (d : Bool) : Prop :=
  ∃ mode, Mode.classify (α := α) o.iterator o.switching = .ok mode ∧
    (PlanningOverflows i.settings 1 o.subsystems ∨
      ∃ plan, (Plan.ofSubsystems i.settings o.subsystems).Yields d plan ∧
        Routing.Routable i.wiring plan.leaves o.receptors ∧
        (o.GridOverflows i.settings ∨
          (∃ grid, (o.spatialGrid i.settings).Yields d grid) ∧
            ∃ step, Timing.stepTimeOf o i.settings = .ok step ∧
              Timing.CadenceOverflows o mode i.settings step))

/-- The cubes of an observation are laid out if its grid is. -/
theorem exists_yields_cubes_iff {o : Descriptor α} {plan : Plan α} {settings : Settings α} :
    (∃ cubes, (o.cubes plan settings).Yields d cubes) ↔
      ∃ grid, (o.spatialGrid settings).Yields d grid := by
  simp only [Descriptor.cubes, Run.yields_bind, Run.yields_pure]
  constructor
  · rintro ⟨cubes, grid, hgrid, -⟩
    exact ⟨grid, hgrid⟩
  · rintro ⟨grid, hgrid⟩
    exact ⟨_, grid, hgrid, rfl⟩

/-- Configuring an observation breaks off exactly if the observation overflows. -/
theorem breaksOff_configure_iff {o : Descriptor α} :
    (i.configure o).BreaksOff d ↔ o.Overflows i d := by
  simp only [Instrument.configure, Run.breaksOff_bind, Run.not_breaksOff_ofCheck,
    Run.yields_ofCheck, Run.not_breaksOff_tell, Run.yields_tell, true_and, exists_const,
    breaksOff_ofSubsystems_iff, Routing.not_breaksOff_ofPlan, breaksOff_cubes_iff,
    Timing.breaksOff_budget_iff, Run.not_breaksOff_pure, and_false, exists_false, or_false,
    false_or]
  -- Routing and the layout come before timing, so they have to be accepted for it to overflow.
  refine exists_congr fun mode => and_congr_right fun _ => or_congr_right ?_
  refine exists_congr fun plan => and_congr_right fun hplan => ?_
  rw [exists_and_right, Routing.exists_yields_ofPlan_iff,
    Routing.windows_eq_leaves (wellFormed_of_yields hplan), exists_and_right,
    exists_yields_cubes_iff]

/-! ## Batches -/

section Batches

variable {index : Nat} {o : Descriptor α} {os rest : List (Descriptor α)}
  {entries : List (Except (Refusal α) (Configuration α))}

/-- The first entry is what the first observation settles for. -/
theorem yields_configureFrom_cons_iff :
    (i.configureFrom index (o :: rest)).Yields d entries ↔
      ∃ e others, (i.configure o).Settles d e ∧
        (i.configureFrom (index + 1) rest).Yields d others ∧ e :: others = entries := by
  simp only [Instrument.configureFrom, Run.yields_bind, Run.yields_attempt]
  refine exists_congr fun e => ?_
  cases e with
  | ok c => simp only [Run.yields_bind, Run.yields_pure, exists_and_left]
  | error cause =>
    simp only [Run.yields_bind, Run.yields_tell, Run.yields_pure, true_and, exists_const,
      exists_and_left]

/-- A batch breaks off at its first observation, or behind it. -/
theorem breaksOff_configureFrom_cons_iff :
    (i.configureFrom index (o :: rest)).BreaksOff d ↔
      (i.configure o).BreaksOff d ∨ (∃ e, (i.configure o).Settles d e) ∧
        (i.configureFrom (index + 1) rest).BreaksOff d := by
  simp only [Instrument.configureFrom, Run.breaksOff_bind, Run.breaksOff_attempt,
    Run.yields_attempt]
  rw [← exists_and_right]
  refine or_congr_right (exists_congr fun e => and_congr_right fun _ => ?_)
  cases e with
  | ok c => simp only [Run.breaksOff_bind, Run.not_breaksOff_pure, and_false, exists_false, or_false]
  | error cause =>
    simp only [Run.breaksOff_bind, Run.not_breaksOff_tell, Run.yields_tell,
      Run.not_breaksOff_pure, true_and, exists_const, and_false, or_false, false_or]

/-- Configuring observations one after another yields what each of them settles for. -/
theorem yields_configureFrom_iff :
    (i.configureFrom index os).Yields d entries ↔
      List.Forall₂ (fun o e => (i.configure o).Settles d e) os entries := by
  induction os generalizing index entries with
  | nil =>
    rw [Instrument.configureFrom, Run.yields_pure, List.forall₂_nil_left_iff]
    exact eq_comm
  | cons o rest ih =>
    rw [yields_configureFrom_cons_iff]
    constructor
    · rintro ⟨e, others, he, hothers, rfl⟩
      exact .cons he (ih.1 hothers)
    · rintro (_ | ⟨he, hothers⟩)
      exact ⟨_, _, he, ih.2 hothers, rfl⟩

/-- A batch breaks off exactly if one of its observations does. -/
theorem breaksOff_configureFrom_iff :
    (i.configureFrom index os).BreaksOff d ↔ ∃ o ∈ os, (i.configure o).BreaksOff d := by
  induction os generalizing index with
  | nil => simp [Instrument.configureFrom]
  | cons o rest ih =>
    rw [breaksOff_configureFrom_cons_iff, ih, Run.exists_settles_iff, List.exists_mem_cons_iff]
    -- Whether the rest is reached does not matter if the first one breaks off.
    by_cases hfirst : (i.configure o).BreaksOff d
    · simp only [hfirst, true_or]
    · simp only [hfirst, not_false_eq_true, true_and, false_or]

/-- A batch is never refused. -/
theorem not_refuses_configureFrom {cause : Refusal α} :
    ¬ (i.configureFrom index os).Refuses d cause := by
  induction os generalizing index with
  | nil => simp [Instrument.configureFrom]
  | cons o rest ih =>
    simp only [Instrument.configureFrom, Run.refuses_bind, Run.not_refuses_attempt, false_or]
    rintro ⟨e, -, hrest⟩
    cases e with
    | ok c =>
      simp only [Run.refuses_bind, Run.not_refuses_pure, and_false, exists_false, or_false] at hrest
      exact ih hrest
    | error c =>
      simp only [Run.refuses_bind, Run.not_refuses_tell, Run.not_refuses_pure, Run.yields_tell,
        true_and, exists_const, and_false, or_false, false_or] at hrest
      exact ih hrest

/-- A batch has an entry for every observation exactly if none of them overflows, and every entry
is then what its own observation settles for. Otherwise the batch breaks off as a whole. -/
theorem configureAll_outcome (i : Instrument α) (os : List (Descriptor α)) (d : Bool) :
    ((∃ entries, (i.configureAll os).Yields d entries) ↔ ∀ o ∈ os, ¬ o.Overflows i d) ∧
    (∀ entries, (i.configureAll os).Yields d entries →
      List.Forall₂ (fun o e => (i.configure o).Settles d e) os entries) ∧
    ((i.configureAll os).BreaksOff d ↔ ∃ o ∈ os, o.Overflows i d) := by
  have hbreaks : (i.configureAll os).BreaksOff d ↔ ∃ o ∈ os, o.Overflows i d := by
    simp only [Instrument.configureAll, breaksOff_configureFrom_iff, breaksOff_configure_iff]
  refine ⟨?_, fun entries h => yields_configureFrom_iff.1 h, hbreaks⟩
  constructor
  · rintro ⟨entries, h⟩ o ho hover
    exact h.not_breaksOff (hbreaks.2 ⟨o, ho, hover⟩)
  · intro hnone
    have hgoes : ¬ (i.configureAll os).BreaksOff d := by
      rw [hbreaks]
      rintro ⟨o, ho, hover⟩
      exact hnone o ho hover
    rcases Run.yields_or_refuses hgoes with hyields | ⟨cause, hcause⟩
    · exact hyields
    · exact absurd hcause not_refuses_configureFrom

/-- The draft of the small map with subsystems of its own. -/
def mapDraft (subsystems : List (Subsystem Binary64)) : Draft Binary64 where
  movement := smallMap.movement
  switching := smallMap.switching
  subsystems := subsystems
  receptors := smallMap.receptors
  nyquist := some smallMap.nyquist

/-- The draft is accepted with any movement and any subsystems that pass their checks. -/
theorem build_mapDraft_with {movement : Movement Binary64}
    {subsystems : List (Subsystem Binary64)} (hmovement : movement.check = .ok ())
    (hne : subsystems ≠ []) (hcheck : checkSubsystems 1 subsystems = .ok ()) :
    ({ mapDraft subsystems with movement } : Draft Binary64).build =
      .ok { smallMap with movement, subsystems } := by
  have hreceptors : smallMap.receptors ≠ [] := List.cons_ne_nil _ _
  have hpositive : ¬ smallMap.nyquist.notPositive := by decide +kernel
  have hrepeats : (none : Option UInt32) ≠ some 0 := by decide
  exact Draft.build_eq_ok_iff.2
    ⟨hmovement, hne, hcheck, hreceptors, hrepeats, _, rfl, hpositive, rfl⟩

/-- The draft is accepted with any subsystems that pass their checks. -/
theorem build_mapDraft {subsystems : List (Subsystem Binary64)} (hne : subsystems ≠ [])
    (hcheck : checkSubsystems 1 subsystems = .ok ()) :
    (mapDraft subsystems).build = .ok { smallMap with subsystems } :=
  build_mapDraft_with rfl hne hcheck

/-- A subsystem of two windows with as many channels as can be asked for. -/
def crowdedSubsystem : Subsystem Binary64 :=
  ⟨⟨.ofNat 345796000000⟩, ⟨.ofNat 1000000000⟩, 4294967295, ⟨.ofNat 24⟩, ⟨.ofNat 4000000000⟩⟩

/-- The channels of the crowded subsystem and of its overlap are too many to be counted. -/
theorem overflows_crowdedSubsystem : crowdedSubsystem.Overflows := by
  right
  decide +kernel

/-- The small map is accepted and configured on its own, and a map with a crowded subsystem is
accepted too. One after the other they have no entries at all. -/
theorem not_exists_entries_crowded :
    ∃ crowded, (mapDraft Routing.twoSubsystems).build = .ok smallMap ∧
      (mapDraft [crowdedSubsystem]).build = .ok crowded ∧
      (∃ c, ((⟨Settings.standard, Routing.twoReceptors⟩ : Instrument Binary64).configure
        smallMap).Yields false c) ∧
      ¬ ∃ entries, ((⟨Settings.standard, Routing.twoReceptors⟩ : Instrument Binary64).configureAll
        [smallMap, crowded]).Yields false entries := by
  obtain ⟨c, hyields, -⟩ := exists_yields_smallMap
  refine ⟨{ smallMap with subsystems := [crowdedSubsystem] },
    build_mapDraft (List.cons_ne_nil _ _) rfl, build_mapDraft (List.cons_ne_nil _ _) rfl,
    ⟨c, hyields⟩, ?_⟩
  rintro ⟨entries, hentries⟩
  refine hentries.not_breaksOff (breaksOff_configureFrom_iff.2
    ⟨_, List.mem_cons_of_mem _ List.mem_cons_self, breaksOff_configure_iff.2 ?_⟩)
  exact ⟨⟨.raster, .position, .science⟩, rfl, .inl ⟨[], crowdedSubsystem, [], rfl,
    fun _ hq => absurd hq List.not_mem_nil, .inr overflows_crowdedSubsystem⟩⟩

end Batches

end Heterodyne
