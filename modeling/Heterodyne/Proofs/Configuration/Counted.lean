import Heterodyne.Proofs.Ensures
import Heterodyne.Proofs.Observation.Valid
import Heterodyne.Proofs.Timing.Rows
import Heterodyne.Proofs.Timing.Scheduled
/-!
# Counts of configurations

Every count that the telescope is told is at least one, although it may come from a number that
is infinite or none at all: numbers are made at least one before they are cut to counts. For the
same reason no division by a count and no difference of counts goes wrong, and configuring breaks
off for excess only. One lemma for each pass says what the pass ensures.

* `ensures_ofSubsystems`, `ensures_cubes`: channels and pixels.
* `Timing.ensures_cadenceOf`, `Timing.ensures_budget`: the counts of the sequencer.
* `counted_of_accepted`: what configuring an accepted observation ensures.
-/

namespace Heterodyne

section Passes

variable {α : Type} [Scalar α] {settings : Settings α} {d : Bool}

/-! ## Spectra -/

/-- A subsystem has a window. -/
theorem Subsystem.one_le_parts (r : Subsystem α) : 1 ≤ r.parts.toNat := by
  unfold parts
  split <;> decide

/-- The channels of all windows are counted safely. -/
theorem ensures_totalChannels (r : Subsystem α) :
    Count.Ensures (totalChannels r.channels r.overlapChannels r.parts) fun _ => True := by
  refine Count.ensures_bind (Count.ensures_mul 2 r.overlapChannels) fun twice _ => ?_
  refine Count.ensures_bind (Count.ensures_sub r.one_le_parts) fun further _ => ?_
  refine Count.ensures_bind (Count.ensures_mul twice further) fun overlaps _ => ?_
  exact (Count.ensures_add r.channels overlaps).mono fun _ _ => trivial

/-- A planned subsystem has the channels that are asked for. -/
theorem ensures_planSubsystem (number : UInt32) (r : Subsystem α) :
    (planSubsystem settings number r).Ensures d fun ss => ss.hybridChannels = r.channels := by
  rw [planSubsystem_eq]
  refine Run.ensures_bind (Run.ensures_ofCount (ensures_totalChannels r)) fun total _ => ?_
  split
  · exact Run.ensures_refuse
  · refine Run.ensures_bind (Run.ensures_ofCheck _) fun mode _ => ?_
    refine Run.ensures_bind (Run.ensures_ofCheck _) fun _ _ => ?_
    exact Run.ensures_tellAll_bind (Run.ensures_pure rfl)

/-- Subsystems in a row have the channels that are asked for. -/
theorem ensures_planSubsystems (number : UInt32) (requests : List (Subsystem α)) :
    (planSubsystems settings number requests).Ensures d fun sss =>
      ∀ ss ∈ sss, ∃ r ∈ requests, ss.hybridChannels = r.channels := by
  induction requests generalizing number with
  | nil => exact Run.ensures_pure fun _ hss => absurd hss List.not_mem_nil
  | cons r rest ih =>
    refine Run.ensures_bind (Run.ensures_ofCount (Count.ensures_add number 1)) fun next _ => ?_
    refine Run.ensures_bind (ensures_planSubsystem number r) fun first hfirst => ?_
    refine Run.ensures_bind (ih next) fun others hothers => Run.ensures_pure ?_
    intro ss hss
    rcases List.mem_cons.1 hss with rfl | hss
    · exact ⟨r, List.mem_cons_self, hfirst⟩
    · obtain ⟨q, hq, hchannels⟩ := hothers ss hss
      exact ⟨q, List.mem_cons_of_mem r hq, hchannels⟩

/-- The subsystems of a plan have the channels that are asked for. -/
theorem ensures_ofSubsystems (requests : List (Subsystem α)) :
    (Plan.ofSubsystems settings requests).Ensures d fun plan =>
      ∀ ss ∈ plan.subsystems, ∃ r ∈ requests, ss.hybridChannels = r.channels :=
  Run.ensures_bind (ensures_planSubsystems 1 requests) fun _ hsss => Run.ensures_pure hsss

/-! ## Grids -/

/-- Two axes with pixels make up a grid with their pixels. -/
theorem ensures_ofAxes {x y : Axis α} (angle : Degrees α) (hx : 1 ≤ x.count.toNat)
    (hy : 1 ≤ y.count.toNat) :
    Count.Ensures (Grid.ofAxes x y angle) fun g => 1 ≤ g.nx.toNat ∧ 1 ≤ g.ny.toNat := by
  have hcentre : ∀ {a : Axis α}, 1 ≤ a.count.toNat → Count.Ensures a.centre fun _ => True := by
    intro a ha
    exact Count.ensures_bind (Count.ensures_sub ha) fun _ _ => Count.ensures_ok trivial
  refine Count.ensures_bind (hcentre hx) fun _ _ => ?_
  refine Count.ensures_bind (hcentre hy) fun _ _ => ?_
  exact Count.ensures_ok ⟨hx, hy⟩

/-- The axis of a raster has a pixel. -/
theorem Raster.ensures_axis (length spacing : Arcsec α) :
    Count.Ensures (Raster.axis length spacing) fun a => 1 ≤ a.count.toNat := by
  refine Count.ensures_bind (Count.ensures_add_one _) fun count hcount => ?_
  refine Count.ensures_bind (Count.ensures_sub hcount) fun last _ => ?_
  exact Count.ensures_ok hcount

/-- The search for a divisor divides by numbers that are not counts. -/
theorem Axis.ensures_fittingDivisor (values : List α) (reference gap tolerance : α) :
    Count.Ensures (Axis.fittingDivisor values reference gap tolerance) fun _ => True := by
  unfold fittingDivisor
  dsimp only
  split
  · exact Count.ensures_ok trivial
  · exact Count.ensures_error (.inr (.inr rfl))

/-- A fitted axis has a pixel. -/
theorem Axis.ensures_fit (positions : List α) (nyquist tolerance : Arcsec α) :
    (Axis.fit positions nyquist tolerance).Ensures d fun a => 1 ≤ a.count.toNat := by
  unfold fit
  split
  · exact Run.ensures_refuse
  · exact Run.ensures_pure (show 1 ≤ (1 : UInt32).toNat by decide)
  · exact Run.ensures_pure (show 1 ≤ (2 : UInt32).toNat by decide)
  · unfold fitLattice
    split
    · exact Run.ensures_pure (show 1 ≤ (1 : UInt32).toNat by decide)
    · refine Run.ensures_bind (Run.ensures_ofCount (ensures_fittingDivisor _ _ _ _)) ?_
      intro divisor _
      refine Run.ensures_tellAll_bind ?_
      refine Run.ensures_bind (Run.ensures_ofCount (Count.ensures_add_one _)) ?_
      intro count hcount
      exact Run.ensures_pure hcount

/-- A fitted grid has pixels. -/
theorem Grid.ensures_fit (offsets : List (Offset α)) (angle : Degrees α) (nyquist : Arcsec α)
    (toleranceFactor : α) :
    (Grid.fit offsets angle nyquist toleranceFactor).Ensures d fun g =>
      1 ≤ g.nx.toNat ∧ 1 ≤ g.ny.toNat := by
  unfold fit
  split
  · exact Run.ensures_refuse
  · refine Run.ensures_bind (Axis.ensures_fit _ _ _) fun x hx => ?_
    refine Run.ensures_bind (Axis.ensures_fit _ _ _) fun y hy => ?_
    exact Run.ensures_tell_bind (Run.ensures_ofCount (ensures_ofAxes angle hx hy))

/-- The grid of an observation has pixels. -/
theorem ensures_spatialGrid (o : Descriptor α) :
    (o.spatialGrid settings).Ensures d fun g => 1 ≤ g.nx.toNat ∧ 1 ≤ g.ny.toNat := by
  unfold Descriptor.spatialGrid
  cases o.movement with
  | raster r =>
    refine Run.ensures_ofCount ?_
    refine Count.ensures_bind (Raster.ensures_axis _ _) fun x hx => ?_
    refine Count.ensures_bind (Raster.ensures_axis _ _) fun y hy => ?_
    exact ensures_ofAxes r.angle hx hy
  | stare s => exact Grid.ensures_fit _ _ _ _
  | jiggle j => exact Grid.ensures_fit _ _ _ _
  | pointing j => exact Grid.ensures_fit _ _ _ _
  | focus f => exact Grid.ensures_fit _ _ _ _

/-- The cubes of an observation have pixels, and the channels of its subsystems. -/
theorem ensures_cubes (o : Descriptor α) (plan : Plan α) :
    (o.cubes plan settings).Ensures d fun cubes => ∀ c ∈ cubes,
      1 ≤ c.grid.nx.toNat ∧ 1 ≤ c.grid.ny.toNat ∧
        ∃ ss ∈ plan.subsystems, c.channels = ss.hybridChannels := by
  refine Run.ensures_bind (ensures_spatialGrid o) fun g hg => Run.ensures_pure ?_
  intro c hc
  obtain ⟨ss, hss, rfl⟩ := List.mem_map.1 hc
  exact ⟨hg.1, hg.2, ss, hss, rfl⟩

end Passes

/-! ## Cadences -/

/-- The counts of a cadence that the sequencer is told. -/
def Cadence.counts {α : Type} : Cadence α → List UInt32
  | .raster c => [c.rowsPerRef, c.rowsPerCal, c.refToCalRatio, c.refSamples]
  | .chopJiggle c => [c.traversalsPerPhase, c.nodSets, c.jigglesPerChop]
  | .grid steps => [steps]
  | .frequencySwitch steps => [steps]
  | .focus _ steps _ => [steps]

/-- What a movement asks for can be counted: the rows of a raster, as far as they are given, and
the points of a pattern. -/
structure Movement.InRange {α : Type} (m : Movement α) : Prop where
  rows : ∀ r, m = .raster r → (∀ n, r.rowsPerRef = some n → n < 2 ^ 32) ∧
    ∀ n, r.rowsPerCal = some n → n < 2 ^ 32
  points : ∀ j, m = .jiggle j ∨ m = .pointing j → j.pattern.points.length < 2 ^ 32

namespace Timing

/-- The steps per reference and the counts of the cadence are at least one. -/
def Timed {α : Type} (timed : UInt32 × Cadence α) : Prop :=
  1 ≤ timed.1.toNat ∧ ∀ n ∈ timed.2.counts, 1 ≤ n.toNat

/-- A number that is made at least one gives a count of at least one. -/
theorem one_le_toCount_atLeastOne (x : Binary64) :
    1 ≤ (Scalar.toCount (Scalar.atLeastOne x)).toNat := by
  rw [Scalar.toNat_toCount]
  exact Nat.le_min.2 ⟨one_le_toNat_atLeastOne x, by decide⟩

/-- A count, or else one, is at least one. -/
theorem one_le_max_one (n : UInt32) : 1 ≤ (max n 1).toNat := by
  rw [UInt32.toNat_max, UInt32.toNat_one]
  exact Nat.le_max_right _ _

/-- Rows in range are at least one. -/
theorem one_le_rowsOr {rows : Option Int} {otherwise : UInt32}
    (hrows : ∀ n, rows = some n → n < 2 ^ 32) (hother : 1 ≤ otherwise.toNat) :
    1 ≤ (rowsOr rows otherwise).toNat := by
  have hcount := otherwise.toNat_lt
  rw [toNat_rowsOr]
  unfold requestedRows
  cases rows with
  | none =>
    dsimp only
    omega
  | some n =>
    have hn := hrows n rfl
    dsimp only
    split <;> omega

variable {d : Bool}

/-- The counts of a raster whose rows are in range. -/
theorem ensures_ofRaster {r : Raster Binary64} (hperRef : ∀ n, r.rowsPerRef = some n → n < 2 ^ 32)
    (hperCal : ∀ n, r.rowsPerCal = some n → n < 2 ^ 32) (step : Duration Binary64)
    (cubes : List (Cube Binary64)) : (ofRaster r step cubes).Ensures d Timed := by
  have hrows : 1 ≤ (rowsOr r.rowsPerRef 1).toNat := one_le_rowsOr hperRef (by decide)
  refine Run.ensures_bind (Run.ensures_ofCount (Count.ensures_div hrows)) fun ratio _ => ?_
  refine Run.ensures_bind (Run.ensures_ofCheck _) fun diagonal _ => ?_
  refine Run.ensures_tell_bind (Run.ensures_pure ⟨one_le_toCount_atLeastOne _, ?_⟩)
  simp only [Cadence.counts, List.forall_mem_cons, List.not_mem_nil, false_imp_iff, implies_true,
    and_true]
  exact ⟨hrows, one_le_rowsOr hperCal hrows, one_le_max_one ratio, one_le_toCount_atLeastOne _⟩

/-- A traversal of a pattern with points has steps. -/
theorem ensures_traversalSteps {α : Type} {r : ChopRequest α} (hpoints : 1 ≤ r.points.toNat)
    (hjiggles : 1 ≤ r.jigglesPerChop.toNat) :
    Count.Ensures (traversalSteps r) fun n => 1 ≤ n.toNat := by
  refine Count.ensures_bind (Count.ensures_ceilDiv hjiggles) fun chops hchops => ?_
  refine Count.ensures_bind (Count.ensures_mul 2 r.offCycles) fun off _ => ?_
  refine Count.ensures_bind (Count.ensures_add r.jigglesPerChop off) fun chop hchop => ?_
  refine (Count.ensures_mul chops chop).mono fun n hn => ?_
  have hone : 1 ≤ chops.toNat := by
    rw [hchops]
    exact Nat.div_pos (by omega) hjiggles
  rw [hn]
  exact Nat.mul_pos hone (by omega)

/-- Nods are scheduled in sets with traversals. -/
theorem ensures_nodSchedule {required most : UInt32} (hrequired : 1 ≤ required.toNat)
    (hmost : most ≠ 0) : Count.Ensures (nodSchedule required most) fun s =>
      1 ≤ s.nodSets.toNat ∧ 1 ≤ s.perPhase.toNat := by
  obtain ⟨s, hs, -⟩ := exists_nodSchedule required hmost
  obtain ⟨hsets, hphase, -⟩ := scheduled_of_nodSchedule hs hrequired (one_le_toNat_iff.2 hmost)
  rw [hs]
  exact Count.ensures_ok ⟨hsets, hphase⟩

/-- The steps per reference are those of the traversals in a nod phase. -/
theorem ensures_stepsPerRef {perTraversal perPhase : UInt32} {next : UInt32 → Cadence Binary64}
    (hsteps : 1 ≤ perTraversal.toNat) (hphase : 1 ≤ perPhase.toNat)
    (hnext : ∀ steps, ∀ n ∈ (next steps).counts, 1 ≤ n.toNat) :
    (do
      let stepsPerRef ← Run.ofCount (Count.mul perTraversal perPhase)
      return (stepsPerRef, next stepsPerRef) : Run Binary64 _).Ensures d Timed := by
  refine Run.ensures_bind (Run.ensures_ofCount (Count.ensures_mul _ _)) fun steps hproduct => ?_
  refine Run.ensures_pure ⟨?_, hnext steps⟩
  rw [hproduct]
  exact Nat.mul_pos hsteps hphase

/-- The counts of a chopped jiggle with points. -/
theorem ensures_ofChop {r : ChopRequest Binary64} (hpoints : 1 ≤ r.points.toNat)
    (hjiggles : 1 ≤ r.jigglesPerChop.toNat) (step maxNodTime : Duration Binary64) :
    (ofChop r step maxNodTime).Ensures d Timed := by
  have hphases : 1 ≤ nodPhases.toNat := by decide
  have hsteps := ensures_traversalSteps hpoints hjiggles
  refine Run.ensures_bind (Run.ensures_ofCount hsteps) fun perTraversal hperTraversal => ?_
  refine Run.ensures_bind (Run.ensures_ofCount (Count.ensures_ceilDiv hphases)) ?_
  intro required hrequired
  have hone : 1 ≤ required.toNat := by
    have hrepeats := repeatsFor_pos r.secondsPerPoint step
    have hfour : nodPhases.toNat = 4 := rfl
    rw [hrequired, hfour]
    omega
  have hschedule := ensures_nodSchedule hone (traversalsBetweenNods_ne_zero maxNodTime
    (step * (Scalar.ofCount perTraversal : Binary64)))
  refine Run.ensures_bind (Run.ensures_ofCount hschedule) fun schedule hscheduled => ?_
  have hcounts : ∀ n ∈ [schedule.perPhase, schedule.nodSets, r.jigglesPerChop], 1 ≤ n.toNat := by
    simp only [List.forall_mem_cons, List.not_mem_nil, false_imp_iff, implies_true, and_true]
    exact ⟨hscheduled.2, hscheduled.1, hjiggles⟩
  -- Whether traversals are dropped is told, and has no influence otherwise.
  split
  · exact Run.ensures_tell_bind
      (ensures_stepsPerRef hperTraversal hscheduled.2 fun _ => hcounts)
  · exact ensures_stepsPerRef hperTraversal hscheduled.2 fun _ => hcounts

/-- A stare is chopped as a pattern of one point. -/
theorem ensures_ofStare (s : Stare Binary64) (step maxNodTime : Duration Binary64) :
    (ofChop (.ofStare s) step maxNodTime).Ensures d Timed :=
  ensures_ofChop (show 1 ≤ (1 : UInt32).toNat by decide)
    (show 1 ≤ (1 : UInt32).toNat by decide) step maxNodTime

/-- The counts of a pattern that passes its check and whose points can be counted. -/
theorem ensures_ofJiggle {j : Jiggle Binary64} (hcheck : j.check = .ok ())
    (hcount : j.pattern.points.length < 2 ^ 32) (step maxNodTime : Duration Binary64) :
    (ofChop (.ofJiggle j) step maxNodTime).Ensures d Timed := by
  have hjiggles := one_le_toNat_iff.2 (jigglesPerChop_ne_zero hcheck hcount)
  have hpoints : 1 ≤ (ChopRequest.ofJiggle j).points.toNat := by
    rw [Jiggle.check, check_then_eq_ok, objectIf_eq_ok_iff] at hcheck
    show 1 ≤ (UInt32.ofNat j.pattern.points.length).toNat
    rw [UInt32.toNat_ofNat_of_lt' hcount]
    exact List.length_pos_iff.2 hcheck.1
  exact ensures_ofChop hpoints hjiggles step maxNodTime

/-- The counts of a cadence that is told by its steps alone. -/
theorem ensures_ofSteps {perRef steps : UInt32} {cadence : Cadence Binary64}
    (hperRef : 1 ≤ perRef.toNat) (hcounts : cadence.counts = [steps])
    (hsteps : 1 ≤ steps.toNat) : (pure (perRef, cadence) : Run Binary64 _).Ensures d Timed := by
  refine Run.ensures_pure ⟨hperRef, ?_⟩
  rw [hcounts]
  intro n hn
  rwa [List.mem_singleton.1 hn]

/-- The counts of an observation whose movement passes its check and is in range. -/
theorem ensures_cadenceOf {o : Descriptor Binary64} (hcheck : o.movement.check = .ok ())
    (hrange : o.movement.InRange) (mode : Mode) (cubes : List (Cube Binary64))
    (settings : Settings Binary64) (step : Duration Binary64) :
    (cadenceOf o mode cubes settings step).Ensures d Timed := by
  unfold cadenceOf
  split
  · rename_i r hmove _
    obtain ⟨hperRef, hperCal⟩ := hrange.rows r hmove
    exact ensures_ofRaster hperRef hperCal step cubes
  · rename_i f hmove _ _
    rw [hmove] at hcheck
    have hsteps := one_le_toNat_iff.2 (objectIf_eq_ok_iff.1 hcheck)
    exact ensures_ofSteps (one_le_toCount_atLeastOne _) rfl hsteps
  · exact ensures_ofSteps (one_le_toCount_atLeastOne _) rfl (one_le_toCount_atLeastOne _)
  · exact ensures_ofStare _ step settings.maxNodTime
  · rename_i j hmove _ _
    rw [hmove] at hcheck
    exact ensures_ofJiggle hcheck (hrange.points j (.inl hmove)) step settings.maxNodTime
  · rename_i j hmove _ _
    rw [hmove] at hcheck
    exact ensures_ofJiggle hcheck (hrange.points j (.inr hmove)) step settings.maxNodTime
  · exact ensures_ofSteps (by decide) rfl (one_le_toCount_atLeastOne _)
  · exact Run.ensures_refuse

/-- The counts of a timing are at least one. -/
theorem ensures_budget {o : Descriptor Binary64} (hcheck : o.movement.check = .ok ())
    (hrange : o.movement.InRange) (hrepeats : 1 ≤ o.repeats.toNat) (mode : Mode)
    (cubes : List (Cube Binary64)) (settings : Settings Binary64) :
    (budget o mode cubes settings).Ensures d fun t =>
      1 ≤ t.cycles.toNat ∧ 1 ≤ t.stepsPerRef.toNat ∧ 1 ≤ t.calSamples.toNat ∧
        ∀ n ∈ t.cadence.counts, 1 ≤ n.toNat := by
  refine Run.ensures_bind (Run.ensures_ofCheck _) fun step _ => ?_
  refine Run.ensures_bind (ensures_cadenceOf hcheck hrange mode cubes settings step) ?_
  intro timed htimed
  exact Run.ensures_pure ⟨hrepeats, htimed.1, one_le_toCount_atLeastOne _, htimed.2⟩

end Timing

/-! ## Configurations -/

/-- The counts that the sequencer is told, as far as they apply. -/
def Sequence.counts {α : Type} (s : Sequence α) : List UInt32 :=
  [s.cycles, s.stepsPerRef, s.calSamples] ++
    [s.traversalsPerPhase, s.nodSets, s.minSteps, s.jigglesPerChop, s.rowsPerRef, s.rowsPerCal,
      s.refToCalRatio, s.refSamples, s.focusSteps].filterMap id

/-- The sequencer is told the counts of the timing and of its cadence. -/
theorem counts_ofTiming {α : Type} (t : Timing α) :
    (Sequence.ofTiming t).counts = [t.cycles, t.stepsPerRef, t.calSamples] ++ t.cadence.counts := by
  unfold Sequence.ofTiming
  cases t.cadence <;> rfl

/-- Every count of the sequencer is at least one, and every cube has pixels and channels. -/
structure Configuration.Counted {α : Type} (c : Configuration α) : Prop where
  sequence : ∀ n ∈ c.sequence.counts, 1 ≤ n.toNat
  cubes : ∀ b ∈ c.cubes, 1 ≤ b.nx.toNat ∧ 1 ≤ b.ny.toNat ∧ 1 ≤ b.channels.toNat

/-- What passes the checks of a draft passes for valid. -/
theorem valid_of_build {α : Type} [Scalar α] {draft : Draft α} {o : Descriptor α}
    (h : draft.build = .ok o) : o.Valid PassesPositive PassesNonnegative := by
  rw [Draft.build_eq_ok_iff, checkSubsystems_eq_ok_iff, Movement.check_eq_ok_iff] at h
  obtain ⟨hmovement, hsubsystems, hvalid, hreceptors, hrepeats, nyquist, -, hpositive, rfl⟩ := h
  refine ⟨hpositive, hsubsystems, hvalid, hreceptors, one_le_toNat_iff.2 ?_, hmovement⟩
  intro hzero
  cases hrep : draft.repeats with
  | none =>
    rw [hrep] at hzero
    have hone : (1 : UInt32) = 0 := hzero
    exact absurd hone (by decide)
  | some n =>
    rw [hrep] at hzero hrepeats
    have hnone : n = 0 := hzero
    exact hrepeats (congrArg some hnone)

/-- Configuring an observation that is valid and in range ensures its counts. -/
theorem ensures_configure {o : Descriptor Binary64}
    (hvalid : o.Valid PassesPositive PassesNonnegative) (hrange : o.movement.InRange)
    (i : Instrument Binary64) (d : Bool) : (i.configure o).Ensures d Configuration.Counted := by
  have hcheck := Movement.check_eq_ok_iff.2 hvalid.movement
  refine Run.ensures_bind (Run.ensures_ofCheck _) fun mode _ => Run.ensures_tell_bind ?_
  refine Run.ensures_bind (ensures_ofSubsystems o.subsystems) fun plan hplan => ?_
  have hrouting : (Routing.ofPlan plan i.wiring o.receptors).Ensures d fun _ => True :=
    Run.ensures_of_not_breaksOff Routing.not_breaksOff_ofPlan fun _ _ => trivial
  refine Run.ensures_bind hrouting fun routing _ => ?_
  refine Run.ensures_bind (ensures_cubes o plan) fun cubes hcubes => ?_
  refine Run.ensures_bind (Timing.ensures_budget hcheck hrange hvalid.repeats mode cubes
    i.settings) fun timing htiming => Run.ensures_pure ⟨?_, ?_⟩
  · show ∀ n ∈ (Sequence.ofTiming timing).counts, 1 ≤ n.toNat
    rw [counts_ofTiming]
    simp only [List.cons_append, List.nil_append, List.forall_mem_cons]
    exact htiming
  · intro b hb
    obtain ⟨c, hc, rfl⟩ := List.mem_map.1 hb
    obtain ⟨hx, hy, ss, hss, hchannels⟩ := hcubes c hc
    obtain ⟨r, hr, hrequested⟩ := hplan ss hss
    refine ⟨hx, hy, ?_⟩
    show 1 ≤ c.channels.toNat
    rw [hchannels, hrequested]
    exact (hvalid.subsystem r hr).channels

/-- Configuring an observation that has been accepted, and whose rows and points can be counted,
breaks off for excess only: nothing is divided by zero, and nothing is taken away that is not
there. This holds as well of the number of windows by which the channels of a subsystem are
divided, and from which one is taken away. Every count of the configuration is at least one,
whatever numbers it comes from. -/
theorem counted_of_accepted {draft : Draft Binary64} {o : Descriptor Binary64}
    (hbuild : draft.build = .ok o) (hrange : o.movement.InRange) (i : Instrument Binary64)
    (d : Bool) :
    (∀ fault, (i.configure o).Faults d fault →
      fault = .addition ∨ fault = .multiplication ∨ fault = .search) ∧
    (∀ r ∈ o.subsystems, 1 ≤ r.parts.toNat) ∧
    ∀ c, (i.configure o).Yields d c → c.Counted := by
  obtain ⟨hyields, hfaults⟩ := ensures_configure (valid_of_build hbuild) hrange i d
  exact ⟨hfaults, fun r _ => r.one_le_parts, hyields⟩

/-- The small map is accepted, and has a configuration with counts of at least one. -/
theorem counted_of_smallMap :
    (mapDraft Routing.twoSubsystems).build = .ok smallMap ∧ smallMap.movement.InRange ∧
      ∃ c, ((⟨Settings.standard, Routing.twoReceptors⟩ : Instrument Binary64).configure
        smallMap).Yields false c ∧ c.Counted := by
  have hbuild : (mapDraft Routing.twoSubsystems).build = .ok smallMap :=
    build_mapDraft (List.cons_ne_nil _ _) rfl
  have hrange : smallMap.movement.InRange := by
    refine ⟨?_, ?_⟩
    · rintro r hr
      cases hr
      constructor <;> intro n hn <;> cases hn
    · rintro j (hj | hj) <;> cases hj
  obtain ⟨c, hyields, -⟩ := exists_yields_smallMap
  exact ⟨hbuild, hrange, c, hyields, (counted_of_accepted hbuild hrange _ false).2.2 c hyields⟩

end Heterodyne
