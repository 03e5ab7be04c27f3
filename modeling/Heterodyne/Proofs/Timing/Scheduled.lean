import Heterodyne.Proofs.Binary64.Whole
import Heterodyne.Proofs.Timing.Overflow
import Mathlib.Algebra.Order.Floor.Div
/-!
# Scheduled traversals

A chopped jiggle divides the traversals that are required among nod sets of equal length. The
required ones fit into one set, or as many full sets are scheduled as they fill and the rest, less
than a set, is dropped, which is told.

* `repeatsFor_pos`: a pattern is repeated at least once, whatever time is asked for.
* `nodSchedule_cases`: one set of all traversals, or full sets of the most.
* `scheduled_of_nodSchedule`: what is scheduled and what is dropped.
* `ofChop_apply`: the cadence of a chopped jiggle, and what is told of it.
* `budget_chopped`: the timing of chopped jiggle observations.
-/

namespace Heterodyne

variable {α : Type}

/-- What is told of a chopped jiggle: a warning if traversals are dropped. -/
def ChopCadence.warnings (c : ChopCadence α) : List (Event α) :=
  if 0 < c.dropped then
    [.traversalsDropped c.nodSets c.traversalsPerPhase c.dropped c.requiredTraversals]
  else []

/-- The traversals of a chopped jiggle: the required ones are scheduled in nod sets but for less
than a set, and at least one set is scheduled. -/
structure ChopCadence.IsScheduled (c : ChopCadence α) : Prop where
  required_eq : c.requiredTraversals.toNat = c.requiredRepeats.toNat ⌈/⌉ 4
  one_le_required : 1 ≤ c.requiredTraversals.toNat
  one_le_phase : 1 ≤ c.traversalsPerPhase.toNat
  phase_le : c.traversalsPerPhase.toNat ≤ c.maxTraversals.toNat
  one_le_sets : 1 ≤ c.nodSets.toNat
  isCount : c.nodSets.toNat * c.traversalsPerPhase.toNat < 2 ^ 32
  sum_eq : c.nodSets.toNat * c.traversalsPerPhase.toNat + c.dropped.toNat =
    c.requiredTraversals.toNat
  dropped_lt : c.dropped.toNat < c.traversalsPerPhase.toNat
  dropped_eq_zero : c.requiredTraversals ≤ c.maxTraversals → c.dropped = 0
  half_le : c.requiredTraversals.toNat ≤ 2 * (c.nodSets.toNat * c.traversalsPerPhase.toNat)

/-- What a descriptor asks to be chopped. -/
def Descriptor.chopRequest? (o : Descriptor α) : Option (Timing.ChopRequest α) :=
  match o.movement with
  | .jiggle j | .pointing j => some (.ofJiggle j)
  | .stare s => some (.ofStare s)
  | _ => none

/-- There is one warning if traversals are dropped. -/
theorem ChopCadence.countP_warnings (c : ChopCadence α) :
    (c.warnings.countP fun e => e.level = .warn) = if 0 < c.dropped then 1 else 0 := by
  unfold warnings
  split
  · rfl
  · rfl

/-- An event that is not diagnostic is told in any case. -/
theorem Run.tell_apply {event : Event α} (h : event.isDiagnostic = false) (d : Bool) :
    tell event d = ⟨.ok (), [event]⟩ := by
  simp [tell, tellAll, h]

namespace Timing

/-! ## Repeats -/

/-- At least one is at least one, also where it is made of infinity or of what is no number. -/
theorem one_le_toNat_atLeastOne (x : Binary64) : 1 ≤ Scalar.toNat (Scalar.atLeastOne x) := by
  have hone : (Binary64.ofNat 1).IsFinite ∧ (Binary64.ofNat 1).value = 1 := by
    exact_mod_cast Binary64.value_ofNat (n := 1) (by norm_num)
  unfold Scalar.atLeastOne
  split
  · rename_i habove
    have hlt : Binary64.ofNat 1 < x := habove
    obtain ⟨-, hnan, hrank⟩ := Binary64.lt_iff_rank_lt.1 hlt
    rw [Binary64.rank_lt_iff, hone.2] at hrank
    show 1 ≤ x.toNat
    rw [Binary64.toNat_eq_floor hnan]
    exact Nat.le_floor (by exact_mod_cast hrank.le)
  · show 1 ≤ (Binary64.ofNat 1).toNat
    rw [Binary64.toNat_eq_floor hone.1.isNaN, hone.2, Nat.floor_one]

/-- A pattern is repeated at least once, whatever time is asked for. -/
theorem repeatsFor_pos (secondsPerPoint step : Duration Binary64) :
    1 ≤ (repeatsFor secondsPerPoint step).toNat := by
  rw [repeatsFor, Scalar.toNat_toCount]
  exact Nat.le_min.2 ⟨one_le_toNat_atLeastOne _, by decide⟩

/-! ## Nod sets -/

section NodSets

variable {required most : UInt32} {s : NodSchedule}

/-- Nods are scheduled as one set of all traversals, or as the full sets that they fill. -/
theorem nodSchedule_cases (h : nodSchedule required most = .ok s) :
    (required ≤ most ∧ s.nodSets.toNat = 1 ∧ s.perPhase = required) ∨
      (most < required ∧ s.nodSets.toNat = required.toNat / most.toNat ∧ s.perPhase = most) := by
  unfold nodSchedule at h
  by_cases hfits : required ≤ most
  · simp only [hfits, if_true, Count.ok_bind, check_bind_eq_ok, pure, Except.pure,
      Except.ok.injEq] at h
    obtain ⟨scheduled, -, rfl⟩ := h
    exact .inl ⟨hfits, rfl, rfl⟩
  · simp only [hfits, if_false, check_bind_eq_ok, pure, Except.pure, Except.ok.injEq] at h
    obtain ⟨sets, hsets, scheduled, -, rfl⟩ := h
    exact .inr ⟨UInt32.not_le.1 hfits, Count.toNat_div hsets, rfl⟩

/-- There is at least one nod set with at least one traversal in each phase. Less than a set is
dropped, and nothing if all traversals fit between two nods. -/
theorem scheduled_of_nodSchedule (h : nodSchedule required most = .ok s)
    (hrequired : 1 ≤ required.toNat) (hmost : 1 ≤ most.toNat) :
    1 ≤ s.nodSets.toNat ∧ 1 ≤ s.perPhase.toNat ∧ s.perPhase.toNat ≤ most.toNat ∧
      s.dropped.toNat < s.perPhase.toNat ∧ (required ≤ most → s.dropped = 0) := by
  have hsum := nodSchedule_eq h
  obtain ⟨hfits, hsets, hphase⟩ | ⟨hmore, hsets, hphase⟩ := nodSchedule_cases h
  · have hnone : s.dropped.toNat = 0 := by
      rw [hsets, hphase] at hsum
      omega
    rw [hsets, hphase, hnone]
    exact ⟨le_rfl, hrequired, UInt32.le_iff_toNat_le.1 hfits, hrequired,
      fun _ => UInt32.toNat_inj.1 hnone⟩
  · have hle : most.toNat ≤ required.toNat := (UInt32.lt_iff_toNat_lt.1 hmore).le
    have hrest : s.dropped.toNat = required.toNat % most.toNat := by
      have hparts := Nat.div_add_mod' required.toNat most.toNat
      rw [hsets, hphase] at hsum
      omega
    rw [hsets, hphase, hrest]
    exact ⟨Nat.div_pos hle hmost, hmost, le_rfl, Nat.mod_lt _ hmost,
      fun hfits => absurd hmore (UInt32.not_lt.2 hfits)⟩

/-- A schedule of nod sets with at least one repeat and one traversal between nods. -/
theorem isScheduled_of_nodSchedule {c : ChopCadence α} (hrepeats : 1 ≤ c.requiredRepeats.toNat)
    (hmost : c.maxTraversals ≠ 0)
    (hrequired : Count.ceilDiv c.requiredRepeats nodPhases = .ok c.requiredTraversals)
    (hschedule : nodSchedule c.requiredTraversals c.maxTraversals =
      .ok ⟨c.nodSets, c.traversalsPerPhase, c.dropped⟩) : c.IsScheduled := by
  have hfour : nodPhases.toNat = 4 := rfl
  have hceil : c.requiredTraversals.toNat = c.requiredRepeats.toNat ⌈/⌉ 4 := by
    rw [Count.toNat_ceilDiv hrequired, hfour, Nat.ceilDiv_eq_add_pred_div]
  have hone : 1 ≤ c.requiredTraversals.toNat := by
    rw [hceil, Nat.ceilDiv_eq_add_pred_div]
    omega
  have hmany : 1 ≤ c.maxTraversals.toNat := by
    rw [Nat.one_le_iff_ne_zero]
    exact fun hzero => hmost (UInt32.toNat_inj.1 hzero)
  have hsum := nodSchedule_eq hschedule
  obtain ⟨hsets, hphase, hle, hless, hfits⟩ := scheduled_of_nodSchedule hschedule hone hmany
  dsimp only at hsum hsets hphase hle hless hfits
  have hset : c.traversalsPerPhase.toNat ≤ c.nodSets.toNat * c.traversalsPerPhase.toNat :=
    Nat.le_mul_of_pos_left _ hsets
  have hcount := c.requiredTraversals.toNat_lt
  exact {
    required_eq := hceil
    one_le_required := hone
    one_le_phase := hphase
    phase_le := hle
    one_le_sets := hsets
    isCount := by omega
    sum_eq := hsum
    dropped_lt := hless
    dropped_eq_zero := hfits
    half_le := by omega }

end NodSets

/-! ## Chopped jiggles -/

section Chopped

variable [Scalar α]

/-- The cadence of a chopped jiggle whose steps can be counted, and what is told of it. -/
theorem ofChop_apply {r : ChopRequest α} {step maxNodTime : Duration α} (d : Bool)
    (h : ¬ r.Overflows step maxNodTime) :
    ∃ stepsPerRef c, ofChop r step maxNodTime d = ⟨.ok (stepsPerRef, .chopJiggle c), c.warnings⟩ ∧
      stepsPerRef.toNat = c.stepsPerTraversal.toNat * c.traversalsPerPhase.toNat ∧
      c.requiredRepeats = repeatsFor r.secondsPerPoint step ∧
      c.maxTraversals = traversalsBetweenNods maxNodTime c.traversalTime ∧
      Count.ceilDiv c.requiredRepeats nodPhases = .ok c.requiredTraversals ∧
      nodSchedule c.requiredTraversals c.maxTraversals =
        .ok ⟨c.nodSets, c.traversalsPerPhase, c.dropped⟩ := by
  have hfails : ¬ Count.Fails (traversalSteps r) := by
    rw [fails_traversalSteps_iff]
    intro hfails
    exact h (hfails.imp_right (Or.imp_right .inl))
  obtain ⟨steps, hsteps⟩ := Count.not_fails_iff.1 hfails
  obtain ⟨required, schedule, hrequired, hschedule, hphase⟩ :=
    exists_schedule r step maxNodTime hsteps
  have hproduct : steps.toNat * schedule.perPhase.toNat < 2 ^ 32 := by
    rw [toNat_traversalSteps hsteps, hphase]
    by_contra hlarge
    exact h (.inr (.inr (.inr (Nat.not_lt.1 hlarge))))
  obtain ⟨stepsPerRef, hstepsPerRef⟩ := Count.exists_mul_eq_ok hproduct
  refine ⟨stepsPerRef, ⟨r.points, r.jigglesPerChop, r.offCycles, steps,
    step * (Scalar.ofCount steps : α), repeatsFor r.secondsPerPoint step, required,
    traversalsBetweenNods maxNodTime (step * (Scalar.ofCount steps : α)), schedule.nodSets,
    schedule.perPhase, schedule.dropped⟩, ?_, (Count.mul_eq_ok_iff.1 hstepsPerRef).symm, rfl, rfl,
    hrequired, hschedule⟩
  simp only [ofChop, Run.ofCount, pure_bind, hsteps, hrequired, hschedule, hstepsPerRef,
    ChopCadence.warnings]
  split
  · rw [Run.bind_ok (Run.tell_apply rfl d)]
    rfl
  · rfl

end Chopped

/-! ## Observations -/

/-- An accepted pattern has points in every chop, unless its points cannot be counted. -/
theorem jigglesPerChop_ne_zero {α : Type} [Scalar α] {j : Jiggle α} (h : j.check = .ok ())
    (hcount : j.pattern.points.length < 2 ^ 32) :
    (ChopRequest.ofJiggle j).jigglesPerChop ≠ 0 := by
  rw [Jiggle.check, check_then_eq_ok, objectIf_eq_ok_iff] at h
  obtain ⟨hpoints, hjiggles⟩ := h
  unfold ChopRequest.ofJiggle
  cases hsome : j.jigglesPerChop with
  | some n =>
    simp only [hsome, objectIf_eq_ok_iff, not_or] at hjiggles
    exact hjiggles.1
  | none =>
    have hlength : 0 < j.pattern.points.length := List.length_pos_iff.2 hpoints
    intro hzero
    have hwraps : j.pattern.points.length % 2 ^ 32 = 0 := by
      rw [← UInt32.toNat_ofNat']
      exact congrArg UInt32.toNat hzero
    omega

/-- An accepted pattern overflows only by too many steps, unless its points cannot be counted. -/
theorem overflows_ofJiggle_iff {α : Type} [Scalar α] {j : Jiggle α} (h : j.check = .ok ())
    (hcount : j.pattern.points.length < 2 ^ 32) (step maxNodTime : Duration α) :
    (ChopRequest.ofJiggle j).Overflows step maxNodTime ↔
      2 ^ 32 ≤ (ChopRequest.ofJiggle j).jigglesPerChop.toNat + 2 * j.offCycles.toNat ∨
        2 ^ 32 ≤ (ChopRequest.ofJiggle j).traversalLength ∨
        2 ^ 32 ≤ (ChopRequest.ofJiggle j).traversalLength *
          (ChopRequest.ofJiggle j).phaseTraversals step maxNodTime :=
  or_iff_right (jigglesPerChop_ne_zero h hcount)

/-- A chopped observation in a jiggling mode has the cadence of its request. -/
theorem cadenceOf_chopped [Scalar α] {o : Descriptor α} {mode : Mode} {r : ChopRequest α}
    (hmapping : mode.mapping = .jiggle) (hswitching : mode.switching = .chop)
    (hrequest : o.chopRequest? = some r) (cubes : List (Cube α)) (settings : Settings α)
    (step : Duration α) :
    cadenceOf o mode cubes settings step = ofChop r step settings.maxNodTime ∧
      stepTimeOf o settings = checkStepTime settings.stepTime := by
  unfold Descriptor.chopRequest? at hrequest
  unfold cadenceOf stepTimeOf
  rw [hmapping, hswitching]
  cases hmovement : o.movement with
  | jiggle j =>
    simp only [hmovement, Option.some.injEq] at hrequest
    exact ⟨by rw [← hrequest], rfl⟩
  | pointing j =>
    simp only [hmovement, Option.some.injEq] at hrequest
    exact ⟨by rw [← hrequest], rfl⟩
  | stare s =>
    simp only [hmovement, Option.some.injEq] at hrequest
    exact ⟨by rw [← hrequest], rfl⟩
  | raster _ => simp [hmovement] at hrequest
  | focus _ => simp [hmovement] at hrequest

/-- The timing of a chopped jiggle, pointing or stare whose steps can be counted, for any time per
point: the required traversals are a quarter of the repeats, rounded up; they are scheduled in nod
sets but for less than a set, so at least half of them are; and there is one warning if traversals
are dropped and none otherwise. -/
theorem budget_chopped {o : Descriptor Binary64} {mode : Mode} {cubes : List (Cube Binary64)}
    {settings : Settings Binary64} {r : ChopRequest Binary64} (d : Bool)
    (hmapping : mode.mapping = .jiggle) (hswitching : mode.switching = .chop)
    (hrequest : o.chopRequest? = some r) (hstep : Scalar.zero < settings.stepTime.value)
    (hcounted : ¬ r.Overflows settings.stepTime settings.maxNodTime) :
    ∃ timing c, (budget o mode cubes settings).Yields d timing ∧
      timing.cadence = .chopJiggle c ∧
      c.requiredRepeats = repeatsFor r.secondsPerPoint settings.stepTime ∧
      c.maxTraversals = traversalsBetweenNods settings.maxNodTime c.traversalTime ∧
      c.IsScheduled ∧
      timing.stepsPerRef.toNat = c.stepsPerTraversal.toNat * c.traversalsPerPhase.toNat ∧
      (budget o mode cubes settings d).log = c.warnings ∧
      ((budget o mode cubes settings d).log.countP fun e => e.level = .warn) =
        if 0 < c.dropped then 1 else 0 := by
  obtain ⟨hcadence, hstepTime⟩ :=
    cadenceOf_chopped hmapping hswitching hrequest cubes settings settings.stepTime
  obtain ⟨stepsPerRef, c, hchop, hproduct, hrepeats, hmost, hrequired, hschedule⟩ :=
    ofChop_apply d hcounted
  have hbudget : budget o mode cubes settings d =
      ⟨.ok ⟨settings.stepTime, o.repeats, stepsPerRef,
        stepsFor settings.stepTime settings.calTime, .chopJiggle c⟩, c.warnings⟩ := by
    rw [budget, hstepTime, checkStepTime, if_pos hstep]
    simp only [Run.ofCheck, pure_bind, hcadence]
    rw [Run.bind_ok hchop]
    simp only [Run.pure_apply, List.append_nil]
  have hscheduled : c.IsScheduled := by
    apply isScheduled_of_nodSchedule _ _ hrequired hschedule
    · rw [hrepeats]
      exact repeatsFor_pos _ _
    · rw [hmost]
      exact traversalsBetweenNods_ne_zero _ _
  refine ⟨_, c, congrArg Outcome.result hbudget, rfl, hrepeats, hmost, hscheduled, hproduct, ?_, ?_⟩
  · rw [hbudget]
  · rw [hbudget]
    exact c.countP_warnings

/-- A pattern of one point at the target, visited for two hundred seconds. -/
def singlePoint : Jiggle Binary64 :=
  ⟨⟨"point", [⟨⟨.ofNat 0⟩, ⟨.ofNat 0⟩⟩]⟩, ⟨.ofNat 0⟩, ⟨.ofNat 200⟩, none, 1⟩

/-- An observation that chops a single point. -/
def choppedPoint : Descriptor Binary64 where
  movement := .jiggle singlePoint
  switching := .chop
  subsystems := [⟨⟨.ofNat 345796000000⟩, ⟨.ofNat 250000000⟩, 8192, ⟨.ofNat 0⟩,
    ⟨.ofNat 4000000000⟩⟩]
  repeats := 1
  receptors := ["H00"]
  nyquist := ⟨.ofNat 7⟩

/-- A single point has three steps per traversal, so that it can be chopped for any time. Of the
fifty traversals that two hundred seconds require, twenty fit between two nods, and the ten that
two full sets leave are dropped, with a warning. -/
theorem budget_choppedPoint :
    let mode : Mode := ⟨.jiggle, .chop, .science⟩
    let settings : Settings Binary64 := { Settings.standard with stepTime := ⟨.ofNat 1⟩ }
    let r := ChopRequest.ofJiggle singlePoint
    mode.mapping = .jiggle ∧ mode.switching = .chop ∧ choppedPoint.chopRequest? = some r ∧
      Scalar.zero < settings.stepTime.value ∧
      ¬ r.Overflows settings.stepTime settings.maxNodTime ∧
      ∃ timing c, (budget choppedPoint mode [] settings).Yields true timing ∧
        timing.cadence = .chopJiggle c ∧
        c.requiredRepeats = repeatsFor r.secondsPerPoint settings.stepTime ∧
        c.maxTraversals = traversalsBetweenNods settings.maxNodTime c.traversalTime ∧
        c.IsScheduled ∧
        timing.stepsPerRef.toNat = c.stepsPerTraversal.toNat * c.traversalsPerPhase.toNat ∧
        (budget choppedPoint mode [] settings true).log = c.warnings ∧
        ((budget choppedPoint mode [] settings true).log.countP fun e => e.level = .warn) =
          (if 0 < c.dropped then 1 else 0) ∧
        c.maxTraversals < c.requiredTraversals ∧ 0 < c.dropped ∧
        (budget choppedPoint mode [] settings true).log.map Event.message =
          ["Scheduling 2 nod sets of 20 traversals; 10 of 50 requested traversals are dropped"] := by
  intro mode settings r
  have hstep : Scalar.zero < settings.stepTime.value := by decide +kernel
  have hcounted : ¬ r.Overflows settings.stepTime settings.maxNodTime :=
    ChopRequest.not_overflows_of_le_three (by decide) (by decide) (by decide)
  have htold : (budget choppedPoint mode [] settings true).log.map Event.message =
      ["Scheduling 2 nod sets of 20 traversals; 10 of 50 requested traversals are dropped"] := by
    decide +kernel
  obtain ⟨timing, c, hyields, hcadence, hrepeats, hmost, hscheduled, hsteps, hlog, hwarnings⟩ :=
    @budget_chopped choppedPoint mode [] settings r true rfl rfl rfl hstep hcounted
  have hdropped : 0 < c.dropped := by
    by_contra hnone
    rw [hlog, ChopCadence.warnings, if_neg hnone] at htold
    cases htold
  have hmore : c.maxTraversals < c.requiredTraversals := by
    by_contra hfits
    rw [hscheduled.dropped_eq_zero (UInt32.not_lt.1 hfits)] at hdropped
    exact absurd hdropped (by decide)
  exact ⟨rfl, rfl, rfl, hstep, hcounted, timing, c, hyields, hcadence, hrepeats, hmost, hscheduled,
    hsteps, hlog, hwarnings, hmore, hdropped, htold⟩

end Timing

end Heterodyne
