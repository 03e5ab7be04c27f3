import Heterodyne.Proofs.Outcome
import Heterodyne.Timing
import Mathlib.Algebra.Group.Int.Defs
import Mathlib.Logic.Basic
/-!
# When timing overflows

The timing of an observation breaks off for two reasons. A raster divides by its rows per
reference, of which only the low thirty-two bits are kept, so that they can be none. A chopped
jiggle multiplies its steps, and the products can be too large for a count.

* `breaksOff_ofRaster_iff`: rasters break off if they have no rows per reference.
* `breaksOff_ofChop_iff`: chopped jiggles break off if their steps overflow.
* `breaksOff_budget_iff`: when the timing of an observation breaks off.
-/

namespace Heterodyne

namespace Timing

open Heterodyne.Count (Fails)

variable {α : Type} [Scalar α] {d : Bool}

/-! ## Rasters -/

/-- At least one row is asked for, but none is left of its low thirty-two bits. -/
def RowsVanish (rows : Option Int) : Prop := ∃ n, rows = some n ∧ 1 ≤ n ∧ n % 2 ^ 32 = 0

/-- The rows per reference are none exactly if they vanish. -/
theorem rowsOr_one_eq_zero_iff {rows : Option Int} : rowsOr rows 1 = 0 ↔ RowsVanish rows := by
  unfold rowsOr RowsVanish
  cases rows with
  | none => simp
  | some n =>
    simp only [Option.some.injEq, exists_eq_left']
    split
    · rename_i hn
      rw [← UInt32.toNat_inj, UInt32.toNat_ofNat']
      show n.toNat % 2 ^ 32 = 0 ↔ _
      omega
    · rename_i hn
      exact iff_of_false (by decide) fun h => hn h.1

/-- Timing a raster breaks off exactly if its rows per reference vanish. -/
theorem breaksOff_ofRaster_iff {raster : Raster α} {step : Duration α} {cubes : List (Cube α)} :
    (ofRaster raster step cubes).BreaksOff d ↔ RowsVanish raster.rowsPerRef := by
  rw [ofRaster, Run.breaksOff_bind, Run.breaksOff_ofCount, Count.fails_div,
    rowsOr_one_eq_zero_iff]
  refine or_iff_left ?_
  simp only [Run.breaksOff_bind, Run.not_breaksOff_ofCheck, Run.not_breaksOff_tell,
    Run.not_breaksOff_pure, and_false, exists_false, or_false, not_false_eq_true]

/-! ## Traversals -/

namespace ChopRequest

/-- The steps of one traversal of a pattern: every chop has its points on the source and its off
cycles before and after. -/
def traversalLength {α : Type} (r : ChopRequest α) : Nat :=
  (r.points.toNat + r.jigglesPerChop.toNat - 1) / r.jigglesPerChop.toNat *
    (r.jigglesPerChop.toNat + 2 * r.offCycles.toNat)

/-- The traversals that are required: a quarter of the repeats, rounded up. -/
def requiredTraversals (r : ChopRequest α) (step : Duration α) : Nat :=
  ((repeatsFor r.secondsPerPoint step).toNat + 3) / 4

/-- The traversals in one nod phase: the required ones, or as many as fit between two nods. -/
def phaseTraversals (r : ChopRequest α) (step maxNodTime : Duration α) : Nat :=
  min (r.requiredTraversals step)
    (traversalsBetweenNods maxNodTime (step * (Scalar.whole r.traversalLength : α))).toNat

/-- A chop without points on the source, or more steps than can be counted in a chop, in a
traversal or in a nod phase. -/
def Overflows (r : ChopRequest α) (step maxNodTime : Duration α) : Prop :=
  r.jigglesPerChop = 0 ∨
    2 ^ 32 ≤ r.jigglesPerChop.toNat + 2 * r.offCycles.toNat ∨
    2 ^ 32 ≤ r.traversalLength ∨
    2 ^ 32 ≤ r.traversalLength * r.phaseTraversals step maxNodTime

end ChopRequest

/-- The steps of a traversal, if a chop is not empty and can be counted. -/
theorem traversalSteps_eq {α : Type} {r : ChopRequest α} (hzero : r.jigglesPerChop ≠ 0)
    (hchop : r.jigglesPerChop.toNat + 2 * r.offCycles.toNat < 2 ^ 32) :
    ∃ chops chop, traversalSteps r = Count.mul chops chop ∧
      chops.toNat * chop.toNat = r.traversalLength := by
  obtain ⟨chops, hchops⟩ := Count.exists_ceilDiv_eq_ok (a := r.points) hzero
  have hsmall : 2 * r.offCycles.toNat < 2 ^ 32 := by omega
  obtain ⟨off, hoff⟩ := Count.exists_mul_eq_ok (a := 2) (b := r.offCycles) hsmall
  have hoffs : 2 * r.offCycles.toNat = off.toNat := Count.mul_eq_ok_iff.1 hoff
  obtain ⟨chop, hsum⟩ := Count.exists_add_eq_ok (a := r.jigglesPerChop) (b := off) (by omega)
  have hsums := Count.add_eq_ok_iff.1 hsum
  refine ⟨chops, chop, ?_, ?_⟩
  · rw [traversalSteps, hchops, Count.ok_bind, hoff, Count.ok_bind, hsum, Count.ok_bind]
  · rw [ChopRequest.traversalLength, Count.toNat_ceilDiv hchops, ← hsums, ← hoffs]

/-- Counting the steps of a traversal fails if a chop is empty, or for too many steps. -/
theorem fails_traversalSteps_iff {α : Type} {r : ChopRequest α} :
    Fails (traversalSteps r) ↔ r.jigglesPerChop = 0 ∨
      2 ^ 32 ≤ r.jigglesPerChop.toNat + 2 * r.offCycles.toNat ∨ 2 ^ 32 ≤ r.traversalLength := by
  by_cases hzero : r.jigglesPerChop = 0
  · refine iff_of_true ?_ (.inl hzero)
    exact Count.fails_bind.2 (.inl (Count.fails_ceilDiv.2 hzero))
  rcases Nat.lt_or_ge (r.jigglesPerChop.toNat + 2 * r.offCycles.toNat) (2 ^ 32) with hlt | hge
  · obtain ⟨chops, chop, hsteps, hlength⟩ := traversalSteps_eq hzero hlt
    rw [hsteps, Count.fails_mul, hlength]
    simp only [hzero, Nat.not_le.2 hlt, false_or]
  · refine iff_of_true ?_ (.inr (.inl hge))
    obtain ⟨chops, hchops⟩ := Count.exists_ceilDiv_eq_ok (a := r.points) hzero
    rw [traversalSteps, hchops, Count.ok_bind, Count.fails_bind]
    rcases Nat.lt_or_ge (2 * r.offCycles.toNat) (2 ^ 32) with hsmall | hlarge
    · obtain ⟨off, hoff⟩ := Count.exists_mul_eq_ok (a := 2) (b := r.offCycles) hsmall
      have hoffs : 2 * r.offCycles.toNat = off.toNat := Count.mul_eq_ok_iff.1 hoff
      refine .inr ⟨off, hoff, Count.fails_bind.2 (.inl (Count.fails_add.2 ?_))⟩
      omega
    · exact .inl (Count.fails_mul.2 hlarge)

/-- The steps of a traversal that can be counted are its length. -/
theorem toNat_traversalSteps {α : Type} {r : ChopRequest α} {steps : UInt32}
    (h : traversalSteps r = .ok steps) : steps.toNat = r.traversalLength := by
  have hok : ¬ Fails (traversalSteps r) := Count.not_fails_iff.2 ⟨steps, h⟩
  rw [fails_traversalSteps_iff, not_or, not_or, Nat.not_le] at hok
  obtain ⟨chops, chop, hsteps, hlength⟩ := traversalSteps_eq hok.1 hok.2.1
  rw [hsteps, Count.mul_eq_ok_iff, hlength] at h
  exact h.symm

/-! ## Nods -/

/-- Between two nods there is at least one traversal. -/
theorem traversalsBetweenNods_ne_zero (maxNodTime traversalTime : Duration α) :
    traversalsBetweenNods maxNodTime traversalTime ≠ 0 := by
  unfold traversalsBetweenNods
  generalize Scalar.toCount (Scalar.floor ((maxNodTime / traversalTime : α) + ratioSlack)) = fitting
  show (if fitting ≤ 1 then (1 : UInt32) else fitting) ≠ 0
  split
  · decide
  · rename_i hmore
    rintro rfl
    exact hmore (by decide)

/-- Nods can always be scheduled, with the required traversals in a phase or the most. -/
theorem exists_nodSchedule (required : UInt32) {most : UInt32} (h : most ≠ 0) :
    ∃ s, nodSchedule required most = .ok s ∧
      s.perPhase.toNat = min required.toNat most.toNat := by
  have hle := UInt32.le_iff_toNat_le (a := required) (b := most)
  unfold nodSchedule
  by_cases hfits : required ≤ most
  · have honce : (1 : UInt32).toNat * required.toNat < 2 ^ 32 := by
      rw [UInt32.toNat_one, Nat.one_mul]
      exact required.toNat_lt
    obtain ⟨scheduled, hscheduled⟩ := Count.exists_mul_eq_ok honce
    simp only [hfits, if_true, Count.ok_bind, hscheduled]
    refine ⟨_, rfl, ?_⟩
    rw [hle] at hfits
    exact (Nat.min_eq_left hfits).symm
  · have hdiv : Count.div required most = .ok (required / most) := if_neg h
    have hproduct : (required / most).toNat * most.toNat ≤ required.toNat := by
      rw [UInt32.toNat_div]
      exact Nat.div_mul_le_self _ _
    have hrequired := required.toNat_lt
    obtain ⟨scheduled, hscheduled⟩ :=
      Count.exists_mul_eq_ok (a := required / most) (b := most) (by omega)
    simp only [hfits, if_false, hdiv, Count.ok_bind, hscheduled]
    refine ⟨_, rfl, ?_⟩
    rw [hle] at hfits
    have hmost : most.toNat ≤ required.toNat := by omega
    exact (Nat.min_eq_right hmost).symm

/-- The traversals in a nod phase, as they are scheduled. -/
theorem exists_schedule (r : ChopRequest α) (step maxNodTime : Duration α) {steps : UInt32}
    (hsteps : traversalSteps r = .ok steps) :
    ∃ required schedule,
      Count.ceilDiv (repeatsFor r.secondsPerPoint step) nodPhases = .ok required ∧
      nodSchedule required
        (traversalsBetweenNods maxNodTime (step * (Scalar.ofCount steps : α))) = .ok schedule ∧
      schedule.perPhase.toNat = r.phaseTraversals step maxNodTime := by
  have hfour : nodPhases.toNat = 4 := rfl
  obtain ⟨required, hrequired⟩ := Count.exists_ceilDiv_eq_ok
    (a := repeatsFor r.secondsPerPoint step) (b := nodPhases) (by decide)
  obtain ⟨schedule, hschedule, hphase⟩ := exists_nodSchedule required
    (traversalsBetweenNods_ne_zero maxNodTime (step * (Scalar.ofCount steps : α)))
  refine ⟨required, schedule, hrequired, hschedule, ?_⟩
  rw [hphase, Count.toNat_ceilDiv hrequired, hfour, Scalar.ofCount, toNat_traversalSteps hsteps]
  rfl

/-- Timing a chopped jiggle breaks off exactly if its steps overflow. -/
theorem breaksOff_ofChop_iff {r : ChopRequest α} {step maxNodTime : Duration α} :
    (ofChop r step maxNodTime).BreaksOff d ↔ r.Overflows step maxNodTime := by
  unfold ChopRequest.Overflows
  by_cases hfails : Fails (traversalSteps r)
  · have hwhy := fails_traversalSteps_iff.1 hfails
    refine iff_of_true (Run.breaksOff_bind.2 (.inl (Run.breaksOff_ofCount.2 hfails))) ?_
    exact hwhy.imp_right (Or.imp_right .inl)
  · obtain ⟨steps, hsteps⟩ := Count.not_fails_iff.1 hfails
    obtain ⟨required, schedule, hrequired, hschedule, hphase⟩ :=
      exists_schedule r step maxNodTime hsteps
    have hlength := toNat_traversalSteps hsteps
    rw [fails_traversalSteps_iff, not_or, not_or] at hfails
    simp only [hfails, false_or, ← hlength, ← hphase]
    simp only [ofChop, Run.breaksOff_bind, Run.breaksOff_ofCount, Run.yields_ofCount, hsteps,
      hrequired, hschedule, Except.ok.injEq, exists_eq_left', Count.not_fails_ok, false_or]
    have hcounted : ¬ 2 ^ 32 ≤ steps.toNat := Nat.not_le.2 steps.toNat_lt
    -- Whether traversals are dropped is told, and has no influence otherwise.
    split <;>
      simp only [Run.breaksOff_bind, Run.breaksOff_ofCount, Run.not_breaksOff_tell,
        Run.not_breaksOff_pure, Run.yields_tell, Count.fails_mul, hcounted, true_and,
        exists_const, and_false, or_false, false_or]

/-! ## Observations -/

/-- The cadence of an observation in a mode overflows. -/
def CadenceOverflows (o : Descriptor α) (mode : Mode) (settings : Settings α)
    (step : Duration α) : Prop :=
  match o.movement, mode.mapping, mode.switching with
  | .raster r, .raster, _ => RowsVanish r.rowsPerRef
  | .jiggle j, .jiggle, .chop => (ChopRequest.ofJiggle j).Overflows step settings.maxNodTime
  | .pointing j, .jiggle, .chop => (ChopRequest.ofJiggle j).Overflows step settings.maxNodTime
  | _, _, _ => False

/-- Traversals of at most three steps are too short to overflow: a quarter of the repeats leaves
room for a factor of three. -/
theorem ChopRequest.not_overflows_of_le_three {r : ChopRequest α} {step maxNodTime : Duration α}
    (hzero : r.jigglesPerChop ≠ 0)
    (hchop : r.jigglesPerChop.toNat + 2 * r.offCycles.toNat < 2 ^ 32)
    (hlength : r.traversalLength ≤ 3) : ¬ r.Overflows step maxNodTime := by
  have hphase : r.phaseTraversals step maxNodTime ≤ r.requiredTraversals step :=
    Nat.min_le_left _ _
  have hrepeats := (repeatsFor r.secondsPerPoint step).toNat_lt
  rintro (h | h | h | h)
  · exact hzero h
  · omega
  · omega
  · have hproduct := Nat.mul_le_mul hlength hphase
    unfold ChopRequest.requiredTraversals at hproduct
    omega

/-- A chopped stare has too few steps to overflow. -/
theorem not_overflows_ofStare {s : Stare α} {step maxNodTime : Duration α} :
    ¬ (ChopRequest.ofStare s).Overflows step maxNodTime := by
  have hlength : (ChopRequest.ofStare s).traversalLength = 3 := by
    simp [ChopRequest.ofStare, ChopRequest.traversalLength]
  exact ChopRequest.not_overflows_of_le_three (by decide : ¬ (1 : UInt32) = 0)
    (by decide : (1 : UInt32).toNat + 2 * (1 : UInt32).toNat < 2 ^ 32) (Nat.le_of_eq hlength)

/-- The cadence of an observation breaks off exactly if it overflows. -/
theorem breaksOff_cadenceOf_iff {o : Descriptor α} {mode : Mode} {cubes : List (Cube α)}
    {settings : Settings α} {step : Duration α} :
    (cadenceOf o mode cubes settings step).BreaksOff d ↔
      CadenceOverflows o mode settings step := by
  obtain ⟨mapping, switching, purpose⟩ := mode
  unfold cadenceOf CadenceOverflows
  have hrefused : ∀ cause, (Run.refuse cause : Run α (UInt32 × Cadence α)).BreaksOff d ↔ False :=
    fun _ => iff_false_intro Run.not_breaksOff_refuse
  have htimed : ∀ timed, (pure timed : Run α (UInt32 × Cadence α)).BreaksOff d ↔ False :=
    fun _ => iff_false_intro Run.not_breaksOff_pure
  cases o.movement with
  | raster r =>
    cases mapping with
    | raster => exact breaksOff_ofRaster_iff
    | _ => exact hrefused _
  | stare s =>
    cases mapping with
    | raster => exact hrefused _
    | grid =>
      cases switching with
      | position => exact htimed _
      | _ => exact hrefused _
    | jiggle =>
      cases switching with
      | chop => exact iff_false_intro (mt breaksOff_ofChop_iff.1 not_overflows_ofStare)
      | _ => exact hrefused _
  | jiggle j =>
    cases mapping with
    | jiggle =>
      cases switching with
      | chop => exact breaksOff_ofChop_iff
      | frequency => exact htimed _
      | _ => exact hrefused _
    | _ => exact hrefused _
  | pointing j =>
    cases mapping with
    | jiggle =>
      cases switching with
      | chop => exact breaksOff_ofChop_iff
      | _ => exact hrefused _
    | _ => exact hrefused _
  | focus f =>
    cases mapping with
    | jiggle =>
      cases switching with
      | chop => exact htimed _
      | _ => exact hrefused _
    | _ => exact hrefused _

/-- The timing of an observation breaks off exactly if it has a step time and its cadence
overflows. -/
theorem breaksOff_budget_iff {o : Descriptor α} {mode : Mode} {cubes : List (Cube α)}
    {settings : Settings α} :
    (budget o mode cubes settings).BreaksOff d ↔
      ∃ step, stepTimeOf o settings = .ok step ∧ CadenceOverflows o mode settings step := by
  simp only [budget, Run.breaksOff_bind, Run.not_breaksOff_ofCheck, Run.yields_ofCheck,
    breaksOff_cadenceOf_iff, Run.not_breaksOff_pure, and_false, exists_false, or_false, false_or]

end Timing

end Heterodyne
