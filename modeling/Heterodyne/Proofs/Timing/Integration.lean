import Heterodyne.Proofs.Exact
import Heterodyne.Proofs.Grid.Jiggled
import Heterodyne.Proofs.Timing.Scheduled
/-!
# Integration times

A chopped jiggle is asked for a time on every point, and may stay in a nod position for a limited
time. Both are counted: the one in steps, rounded up, and the other in traversals, rounded down. A
slack on the ratios keeps whole numbers whole. In exact numbers the slack is all that the counts
miss: the time on every point is spent, with less than four steps too much, and the time in a nod
position is kept and used.

* `repeatsFor_lt`, `le_repeatsFor`: the repeats of a pattern, from above and below.
* `traversalsBetweenNods_le`, `lt_traversalsBetweenNods`: the same of the traversals between nods.
* `keepsTimes_of_isScheduled`: a cadence whose nods are scheduled keeps its times.
* `budget_integration`: the times of chopped jiggle observations.
-/

namespace Heterodyne

variable {K : Type} [Field K] [LinearOrder K] [FloorRing K] {F : Apparatus K}

/-- The time on every point of the traversals that are scheduled and of those that are dropped; a
traversal is made once in each of the four phases of a nod set. -/
def ChopCadence.integration (c : ChopCadence (Exact F)) (step : Duration (Exact F)) : K :=
  4 * step.value.val * (c.nodSets.toNat * c.traversalsPerPhase.toNat + c.dropped.toNat : ℕ)

/-- The times of a chopped jiggle are those that it is asked for: a nod position takes no longer
than it may, unless by a single traversal, and one more traversal would be too long, unless none
is missing; every point has its time, and less than four steps too much. Whole numbers of steps
and of traversals are counted as such. -/
structure ChopCadence.KeepsTimes (c : ChopCadence (Exact F))
    (secondsPerPoint step maxNodTime : Duration (Exact F)) : Prop where
  nod_kept : c.traversalsPerPhase = 1 ∨
    c.traversalsPerPhase.toNat * c.traversalTime.value.val ≤
      maxNodTime.value.val + 1 / 10 ^ 9 * c.traversalTime.value.val
  nod_used : c.traversalsPerPhase = c.requiredTraversals ∨
    maxNodTime.value.val < (c.traversalsPerPhase.toNat + 1) * c.traversalTime.value.val
  covered : secondsPerPoint.value.val - 1 / 10 ^ 9 * step.value.val ≤ c.integration step
  not_overshot : c.integration step < secondsPerPoint.value.val + 4 * step.value.val
  whole_steps : ∀ k : ℕ, 1 ≤ k → secondsPerPoint.value.val = k * step.value.val →
    c.requiredRepeats.toNat = k
  whole_traversals : ∀ m : ℕ, 1 ≤ m → maxNodTime.value.val = m * c.traversalTime.value.val →
    c.maxTraversals.toNat = m

/-! ## Ratios -/

namespace Timing

/-- The slack of ratios as a number of the field. -/
theorem val_ratioSlack : (ratioSlack : Exact F).val = 1 / 10 ^ 9 := by
  rw [ratioSlack, Exact.val_decimal, Nat.cast_one]

variable [IsStrictOrderedRing K]

/-- The whole part of a number that is made at least one. -/
theorem toNat_atLeastOne (x : Exact F) :
    Scalar.toNat (Scalar.atLeastOne x) = max 1 ⌊x.val⌋.toNat := by
  have hone : (Scalar.one : Exact F).val = 1 := Nat.cast_one
  unfold Scalar.atLeastOne
  split
  · rename_i habove
    rw [Exact.lt_iff, hone] at habove
    have hfloor : 1 ≤ ⌊x.val⌋ := Int.le_floor.2 (by exact_mod_cast habove.le)
    rw [Exact.toNat_eq]
    omega
  · rename_i hle
    rw [Exact.lt_iff, hone, not_lt] at hle
    have hfloor : ⌊x.val⌋ ≤ 1 := by
      have hmono := Int.floor_mono hle
      rwa [Int.floor_one] at hmono
    rw [Exact.toNat_eq, hone, Int.floor_one]
    omega

section Repeats

variable {secondsPerPoint step : Duration (Exact F)} {k : ℕ}

/-- The repeats of a pattern are the steps that are asked for, rounded up behind the slack. There
is at least one, and they are cut off at the largest count. -/
theorem toNat_repeatsFor (secondsPerPoint step : Duration (Exact F)) :
    ((repeatsFor secondsPerPoint step).toNat : ℤ) =
      min (max 1 ⌈secondsPerPoint.value.val / step.value.val - 1 / 10 ^ 9⌉) (2 ^ 32 - 1) := by
  have hmax : Scalar.maxCount = 2 ^ 32 - 1 := rfl
  rw [repeatsFor, Scalar.toNat_toCount, toNat_atLeastOne, Exact.val_ceil, Int.floor_intCast,
    Exact.val_sub, val_ratioSlack, Quantity.div_eq, Exact.val_div, hmax]
  omega

/-- The repeats are less than a step too many. -/
theorem repeatsFor_lt (h : 0 < secondsPerPoint.value.val / step.value.val) :
    ((repeatsFor secondsPerPoint step).toNat : K) <
      secondsPerPoint.value.val / step.value.val + 1 := by
  have hcount := toNat_repeatsFor secondsPerPoint step
  have hceil := Int.ceil_lt_add_one (secondsPerPoint.value.val / step.value.val - 1 / 10 ^ 9)
  have hslack : (0 : K) < 1 / 10 ^ 9 := by positivity
  generalize secondsPerPoint.value.val / step.value.val = x at *
  -- a single repeat is less than a step too many for any time
  obtain hone | hle : ((repeatsFor secondsPerPoint step).toNat : ℤ) ≤ 1 ∨
      ((repeatsFor secondsPerPoint step).toNat : ℤ) ≤ ⌈x - 1 / 10 ^ 9⌉ := by omega
  · have hcast : ((repeatsFor secondsPerPoint step).toNat : K) ≤ 1 := by exact_mod_cast hone
    linarith
  · have hcast : ((repeatsFor secondsPerPoint step).toNat : K) ≤ (⌈x - 1 / 10 ^ 9⌉ : ℤ) := by
      exact_mod_cast hle
    linarith

/-- The repeats miss no more than the slack, unless they are cut off. -/
theorem le_repeatsFor (secondsPerPoint step : Duration (Exact F)) :
    secondsPerPoint.value.val / step.value.val - 1 / 10 ^ 9 ≤
        (repeatsFor secondsPerPoint step).toNat ∨
      (repeatsFor secondsPerPoint step).toNat = 2 ^ 32 - 1 := by
  have hcount := toNat_repeatsFor secondsPerPoint step
  have hceil := Int.le_ceil (secondsPerPoint.value.val / step.value.val - 1 / 10 ^ 9)
  generalize secondsPerPoint.value.val / step.value.val = x at *
  obtain hle | hcut : ⌈x - 1 / 10 ^ 9⌉ ≤ ((repeatsFor secondsPerPoint step).toNat : ℤ) ∨
      (repeatsFor secondsPerPoint step).toNat = 2 ^ 32 - 1 := by omega
  · left
    have hcast : ((⌈x - 1 / 10 ^ 9⌉ : ℤ) : K) ≤ (repeatsFor secondsPerPoint step).toNat := by
      exact_mod_cast hle
    exact hceil.trans hcast
  · exact .inr hcut

/-- A whole number is not changed by rounding up behind the slack. -/
theorem ceil_sub_slack (k : ℕ) : ⌈(k : K) - 1 / 10 ^ 9⌉ = k := by
  rw [Int.ceil_eq_iff, Int.cast_natCast]
  constructor
  · linarith [show (1 / 10 ^ 9 : K) < 1 by norm_num]
  · linarith [show (0 : K) < 1 / 10 ^ 9 by positivity]

/-- A whole number of steps is repeated as often. -/
theorem repeatsFor_eq (hone : 1 ≤ k) (hcount : k < 2 ^ 32)
    (h : secondsPerPoint.value.val / step.value.val = k) :
    (repeatsFor secondsPerPoint step).toNat = k := by
  have hrepeats := toNat_repeatsFor secondsPerPoint step
  rw [h, ceil_sub_slack] at hrepeats
  omega

end Repeats

section Nods

variable {maxNodTime traversalTime : Duration (Exact F)} {m : ℕ}

/-- The traversals between two nods are those that fit, rounded down behind the slack. They are
cut off at the largest count, and there is at least one. -/
theorem toNat_traversalsBetweenNods (maxNodTime traversalTime : Duration (Exact F)) :
    ((traversalsBetweenNods maxNodTime traversalTime).toNat : ℤ) =
      max (min ⌊maxNodTime.value.val / traversalTime.value.val + 1 / 10 ^ 9⌋ (2 ^ 32 - 1)) 1 := by
  have hmax : Scalar.maxCount = 2 ^ 32 - 1 := rfl
  rw [traversalsBetweenNods, UInt32.toNat_max, Scalar.toNat_toCount, Exact.toNat_eq,
    Exact.val_floor, Int.floor_intCast, Exact.val_add, val_ratioSlack, Quantity.div_eq,
    Exact.val_div, hmax, UInt32.toNat_one]
  omega

/-- Traversals between two nods take no more time than there is, but for the slack, unless there
is only one. -/
theorem traversalsBetweenNods_le (maxNodTime traversalTime : Duration (Exact F)) :
    (traversalsBetweenNods maxNodTime traversalTime).toNat = 1 ∨
      ((traversalsBetweenNods maxNodTime traversalTime).toNat : K) ≤
        maxNodTime.value.val / traversalTime.value.val + 1 / 10 ^ 9 := by
  have hcount := toNat_traversalsBetweenNods maxNodTime traversalTime
  have hfloor := Int.floor_le (maxNodTime.value.val / traversalTime.value.val + 1 / 10 ^ 9)
  generalize maxNodTime.value.val / traversalTime.value.val = x at *
  obtain hone | hle : (traversalsBetweenNods maxNodTime traversalTime).toNat = 1 ∨
      ((traversalsBetweenNods maxNodTime traversalTime).toNat : ℤ) ≤ ⌊x + 1 / 10 ^ 9⌋ := by omega
  · exact .inl hone
  · right
    have hcast : ((traversalsBetweenNods maxNodTime traversalTime).toNat : K) ≤
        (⌊x + 1 / 10 ^ 9⌋ : ℤ) := by exact_mod_cast hle
    exact hcast.trans hfloor

/-- One traversal more does not fit between two nods. -/
theorem lt_traversalsBetweenNods
    (h : maxNodTime.value.val / traversalTime.value.val < 2 ^ 32) :
    maxNodTime.value.val / traversalTime.value.val <
      (traversalsBetweenNods maxNodTime traversalTime).toNat + 1 := by
  have hcount := toNat_traversalsBetweenNods maxNodTime traversalTime
  have hfloor :=
    Int.lt_floor_add_one (maxNodTime.value.val / traversalTime.value.val + 1 / 10 ^ 9)
  have hslack : (0 : K) < 1 / 10 ^ 9 := by positivity
  generalize maxNodTime.value.val / traversalTime.value.val = x at *
  obtain hle | hcut : ⌊x + 1 / 10 ^ 9⌋ ≤
      ((traversalsBetweenNods maxNodTime traversalTime).toNat : ℤ) ∨
      2 ^ 32 - 1 ≤ ((traversalsBetweenNods maxNodTime traversalTime).toNat : ℤ) := by omega
  · have hcast : ((⌊x + 1 / 10 ^ 9⌋ : ℤ) : K) ≤
        (traversalsBetweenNods maxNodTime traversalTime).toNat := by exact_mod_cast hle
    linarith
  · have hcast : (2 ^ 32 - 1 : K) ≤ (traversalsBetweenNods maxNodTime traversalTime).toNat := by
      exact_mod_cast hcut
    linarith

/-- A whole number is not changed by rounding down behind the slack. -/
theorem floor_add_slack (m : ℕ) : ⌊(m : K) + 1 / 10 ^ 9⌋ = m := by
  rw [Int.floor_eq_iff, Int.cast_natCast]
  constructor
  · linarith [show (0 : K) < 1 / 10 ^ 9 by positivity]
  · linarith [show (1 / 10 ^ 9 : K) < 1 by norm_num]

/-- A whole number of traversals fits between two nods. -/
theorem traversalsBetweenNods_eq (hone : 1 ≤ m) (hcount : m < 2 ^ 32)
    (h : maxNodTime.value.val / traversalTime.value.val = m) :
    (traversalsBetweenNods maxNodTime traversalTime).toNat = m := by
  have htraversals := toNat_traversalsBetweenNods maxNodTime traversalTime
  rw [h, floor_add_slack] at htraversals
  omega

end Nods

/-! ## Cadences -/

/-- The required traversals, made in each of the four phases, cover the steps that are asked for
but for the slack, and are less than four steps too many. -/
theorem required_bounds {c : ChopCadence (Exact F)} {secondsPerPoint step : Duration (Exact F)}
    (hscheduled : c.IsScheduled) (hrepeats : c.requiredRepeats = repeatsFor secondsPerPoint step)
    (hseconds : 0 < secondsPerPoint.value.val / step.value.val)
    (hsteps : secondsPerPoint.value.val / step.value.val < 2 ^ 32) :
    secondsPerPoint.value.val / step.value.val - 1 / 10 ^ 9 ≤
        4 * (c.requiredTraversals.toNat : K) ∧
      4 * (c.requiredTraversals.toNat : K) <
        secondsPerPoint.value.val / step.value.val + 4 := by
  have hquarter := hscheduled.required_eq
  rw [Nat.ceilDiv_eq_add_pred_div] at hquarter
  have hlow := le_repeatsFor secondsPerPoint step
  have hhigh := repeatsFor_lt hseconds
  rw [← hrepeats] at hlow hhigh
  have hmany : (c.requiredRepeats.toNat : K) ≤ 4 * (c.requiredTraversals.toNat : K) := by
    exact_mod_cast (by omega : c.requiredRepeats.toNat ≤ 4 * c.requiredTraversals.toNat)
  have hfew : 4 * (c.requiredTraversals.toNat : K) ≤ c.requiredRepeats.toNat + 3 := by
    exact_mod_cast (by omega : 4 * c.requiredTraversals.toNat ≤ c.requiredRepeats.toNat + 3)
  constructor
  · rcases hlow with hle | hcut
    · exact hle.trans hmany
    · -- repeats that are cut off are rounded up to a number that no ratio reaches
      have hall : (2 ^ 32 : K) ≤ 4 * (c.requiredTraversals.toNat : K) := by
        exact_mod_cast (by omega : 2 ^ 32 ≤ 4 * c.requiredTraversals.toNat)
      linarith [show (0 : K) < 1 / 10 ^ 9 by positivity]
  · linarith

/-- A chopped jiggle whose nods are scheduled keeps its times, if the steps on a point and the
traversals between two nods can be counted. -/
theorem keepsTimes_of_isScheduled {c : ChopCadence (Exact F)}
    {secondsPerPoint step maxNodTime : Duration (Exact F)} (hscheduled : c.IsScheduled)
    (hphase : c.traversalsPerPhase = c.requiredTraversals ∨ c.traversalsPerPhase = c.maxTraversals)
    (hrepeats : c.requiredRepeats = repeatsFor secondsPerPoint step)
    (hmost : c.maxTraversals = traversalsBetweenNods maxNodTime c.traversalTime)
    (hstep : 0 < step.value.val) (htraversal : 0 < c.traversalTime.value.val)
    (hseconds : 0 < secondsPerPoint.value.val / step.value.val)
    (hsteps : secondsPerPoint.value.val / step.value.val < 2 ^ 32)
    (htraversals : maxNodTime.value.val / c.traversalTime.value.val < 2 ^ 32) :
    c.KeepsTimes secondsPerPoint step maxNodTime := by
  have htime : c.integration step = 4 * (c.requiredTraversals.toNat : K) * step.value.val := by
    rw [ChopCadence.integration, hscheduled.sum_eq]
    ring
  have hpoint : secondsPerPoint.value.val / step.value.val * step.value.val =
      secondsPerPoint.value.val := div_mul_cancel₀ _ hstep.ne'
  obtain ⟨hcovers, hless⟩ := required_bounds hscheduled hrepeats hseconds hsteps
  refine ⟨?_, ?_, ?_, ?_, ?_, ?_⟩
  · rcases traversalsBetweenNods_le maxNodTime c.traversalTime with hone | hle
    · left
      have hlow := hscheduled.one_le_phase
      have hhigh := hscheduled.phase_le
      rw [hmost, hone] at hhigh
      exact UInt32.toNat_inj.1 (by rw [UInt32.toNat_one]; omega)
    · right
      have hcast : (c.traversalsPerPhase.toNat : K) ≤ c.maxTraversals.toNat := by
        exact_mod_cast hscheduled.phase_le
      rw [← hmost] at hle
      have hmul := mul_le_mul_of_nonneg_right (hcast.trans hle) htraversal.le
      rwa [add_mul, div_mul_cancel₀ _ htraversal.ne'] at hmul
  · refine hphase.imp_right fun hmany => ?_
    have hlt := lt_traversalsBetweenNods htraversals
    rwa [← hmost, ← hmany, div_lt_iff₀ htraversal] at hlt
  · have hmul := mul_le_mul_of_nonneg_right hcovers hstep.le
    rwa [sub_mul, hpoint, ← htime] at hmul
  · have hmul := mul_lt_mul_of_pos_right hless hstep
    rwa [add_mul, hpoint, ← htime] at hmul
  · intro k hone hwhole
    rw [hwhole, mul_div_cancel_right₀ _ hstep.ne'] at hsteps
    rw [hrepeats]
    refine repeatsFor_eq hone (by exact_mod_cast hsteps) ?_
    rw [hwhole, mul_div_cancel_right₀ _ hstep.ne']
  · intro m hone hwhole
    rw [hwhole, mul_div_cancel_right₀ _ htraversal.ne'] at htraversals
    rw [hmost]
    refine traversalsBetweenNods_eq hone (by exact_mod_cast htraversals) ?_
    rw [hwhole, mul_div_cancel_right₀ _ htraversal.ne']

section Chopped

variable {r : ChopRequest (Exact F)} {step maxNodTime : Duration (Exact F)} {d : Bool}

omit [IsStrictOrderedRing K] in
/-- The time of a traversal is that of its steps. -/
theorem traversalTime_of_yields_ofChop {stepsPerRef : UInt32} {c : ChopCadence (Exact F)}
    (h : (ofChop r step maxNodTime).Yields d (stepsPerRef, .chopJiggle c)) :
    c.traversalTime.value.val = step.value.val * (r.traversalLength : K) := by
  simp only [ofChop, Run.yields_bind, Run.yields_ofCount] at h
  obtain ⟨perTraversal, hsteps, required, -, schedule, -, h⟩ := h
  have htime : (step * (Scalar.ofCount perTraversal : Exact F)).value.val =
      step.value.val * (r.traversalLength : K) := by
    rw [Quantity.value_mul, Exact.val_mul, Scalar.ofCount, Exact.val_whole,
      toNat_traversalSteps hsteps]
  split at h
  · simp only [Run.yields_bind, Run.yields_pure, Prod.mk.injEq, Cadence.chopJiggle.injEq] at h
    obtain ⟨-, -, stepsPerRef, -, -, rfl⟩ := h
    exact htime
  · simp only [Run.yields_bind, Run.yields_pure, Prod.mk.injEq, Cadence.chopJiggle.injEq] at h
    obtain ⟨stepsPerRef, -, -, rfl⟩ := h
    exact htime

/-- The cadence of a chopped jiggle whose steps can be counted keeps its times. -/
theorem exists_yields_ofChop (d : Bool) (hcounted : ¬ r.Overflows step maxNodTime)
    (hstep : 0 < step.value.val) (hnod : 0 < maxNodTime.value.val)
    (hseconds : 0 < r.secondsPerPoint.value.val)
    (hsteps : r.secondsPerPoint.value.val / step.value.val < 2 ^ 32)
    (htraversals : maxNodTime.value.val < 2 ^ 32 * (step.value.val * r.traversalLength)) :
    ∃ stepsPerRef c, (ofChop r step maxNodTime).Yields d (stepsPerRef, .chopJiggle c) ∧
      c.traversalTime.value.val = step.value.val * (r.traversalLength : K) ∧
      c.IsScheduled ∧ c.KeepsTimes r.secondsPerPoint step maxNodTime := by
  obtain ⟨stepsPerRef, c, hchop, -, hrepeats, hmost, hrequired, hschedule⟩ :=
    ofChop_apply d hcounted
  have hyields : (ofChop r step maxNodTime).Yields d (stepsPerRef, .chopJiggle c) :=
    congrArg Outcome.result hchop
  have htime := traversalTime_of_yields_ofChop hyields
  have hpositive : 0 < c.traversalTime.value.val := by
    rw [htime]
    by_contra hnone
    linarith
  have hratio : 0 < r.secondsPerPoint.value.val / step.value.val := div_pos hseconds hstep
  have hscheduled : c.IsScheduled := by
    apply isScheduled_of_nodSchedule _ _ hrequired hschedule
    · rw [hrepeats]
      have hcount := toNat_repeatsFor r.secondsPerPoint step
      omega
    · rw [hmost]
      exact traversalsBetweenNods_ne_zero _ _
  refine ⟨stepsPerRef, c, hyields, htime, hscheduled, ?_⟩
  apply keepsTimes_of_isScheduled hscheduled _ hrepeats hmost hstep hpositive hratio hsteps
  · rwa [div_lt_iff₀ hpositive, htime]
  · rcases nodSchedule_cases hschedule with ⟨-, -, hall⟩ | ⟨-, -, hmany⟩
    · exact .inl hall
    · exact .inr hmany

end Chopped

/-! ## Observations -/

section Observations

variable {α : Type} [Scalar α] {o : Descriptor α} {mode : Mode} {settings : Settings α}
  {r : ChopRequest α} {d : Bool}

/-- The timing of a chopped observation with a step time is that of its cadence. -/
theorem budget_eq_ofChop (hmapping : mode.mapping = .jiggle) (hswitching : mode.switching = .chop)
    (hrequest : o.chopRequest? = some r) (hstep : Scalar.zero < settings.stepTime.value)
    (cubes : List (Cube α)) :
    budget o mode cubes settings = (do
      let (stepsPerRef, cadence) ← ofChop r settings.stepTime settings.maxNodTime
      return ⟨settings.stepTime, o.repeats, stepsPerRef,
        stepsFor settings.stepTime settings.calTime, cadence⟩) := by
  obtain ⟨hcadence, hstepTime⟩ :=
    cadenceOf_chopped hmapping hswitching hrequest cubes settings settings.stepTime
  rw [budget, hstepTime, checkStepTime, if_pos hstep]
  simp only [Run.ofCheck, pure_bind, hcadence]

end Observations

variable {o : Descriptor (Exact F)} {mode : Mode} {settings : Settings (Exact F)}
  {r : ChopRequest (Exact F)}

/-- The timing of a chopped jiggle, pointing or stare breaks off exactly if its steps overflow.
Otherwise it keeps the times that it is asked for, in exact numbers, for every time per point and
every longest time between nods whose ratios to the step and to a traversal are below the largest
count. -/
theorem budget_integration (d : Bool) (cubes : List (Cube (Exact F)))
    (hmapping : mode.mapping = .jiggle) (hswitching : mode.switching = .chop)
    (hrequest : o.chopRequest? = some r)
    (hstep : 0 < settings.stepTime.value.val) (hnod : 0 < settings.maxNodTime.value.val)
    (hseconds : 0 < r.secondsPerPoint.value.val)
    (hsteps : r.secondsPerPoint.value.val / settings.stepTime.value.val < 2 ^ 32)
    (htraversals : settings.maxNodTime.value.val <
      2 ^ 32 * (settings.stepTime.value.val * r.traversalLength)) :
    ((budget o mode cubes settings).BreaksOff d ↔
        r.Overflows settings.stepTime settings.maxNodTime) ∧
      (¬ r.Overflows settings.stepTime settings.maxNodTime →
        ∃ timing c, (budget o mode cubes settings).Yields d timing ∧
          timing.cadence = .chopJiggle c ∧
          c.traversalTime.value.val = settings.stepTime.value.val * (r.traversalLength : K) ∧
          c.IsScheduled ∧
          c.KeepsTimes r.secondsPerPoint settings.stepTime settings.maxNodTime) := by
  have hpositive : Scalar.zero < settings.stepTime.value := by
    rwa [Exact.lt_iff, Exact.val_zero]
  rw [budget_eq_ofChop hmapping hswitching hrequest hpositive]
  constructor
  · rw [Run.breaksOff_bind, breaksOff_ofChop_iff]
    simp only [Run.not_breaksOff_pure, and_false, exists_false, or_false]
  · intro hcounted
    obtain ⟨stepsPerRef, c, hyields, htime, hscheduled, hkeeps⟩ :=
      exists_yields_ofChop d hcounted hstep hnod hseconds hsteps htraversals
    exact ⟨_, c, Run.yields_bind.2 ⟨_, hyields, Run.yields_pure.2 rfl⟩, rfl, htime, hscheduled,
      hkeeps⟩

/-- Sixteen points are visited for thirty seconds each, three hundred steps, and nod after thirty
seconds, fifteen traversals of twenty steps. Both ratios are whole numbers. -/
theorem budget_integration_sixteen :
    let o := Descriptor.jiggling (Descriptor.scaledSquare "HARP4" 4 7) 37 7
    let mode : Mode := ⟨.jiggle, .chop, .science⟩
    let settings := Descriptor.tolerating (1 / 5)
    let r := ChopRequest.ofJiggle ⟨Descriptor.scaledSquare "HARP4" 4 7, ⟨⟨37⟩⟩, ⟨⟨30⟩⟩, none, 2⟩
    mode.mapping = .jiggle ∧ mode.switching = .chop ∧ o.chopRequest? = some r ∧
      0 < settings.stepTime.value.val ∧ 0 < settings.maxNodTime.value.val ∧
      0 < r.secondsPerPoint.value.val ∧
      r.secondsPerPoint.value.val / settings.stepTime.value.val < 2 ^ 32 ∧
      settings.maxNodTime.value.val < 2 ^ 32 * (settings.stepTime.value.val * r.traversalLength) ∧
      ¬ r.Overflows settings.stepTime settings.maxNodTime ∧
      ∃ timing c, (budget o mode [] settings).Yields true timing ∧
        timing.cadence = .chopJiggle c ∧
        c.traversalTime.value.val = settings.stepTime.value.val * (r.traversalLength : ℚ) ∧
        c.IsScheduled ∧
        c.KeepsTimes r.secondsPerPoint settings.stepTime settings.maxNodTime ∧
        c.requiredRepeats.toNat = 300 ∧ c.maxTraversals.toNat = 15 := by
  intro o mode settings r
  have hmapping : mode.mapping = .jiggle := rfl
  have hswitching : mode.switching = .chop := rfl
  have hrequest : o.chopRequest? = some r := rfl
  have hlength : r.traversalLength = 20 := by decide +kernel
  have hstep : settings.stepTime.value.val = 1 / 10 := rfl
  have hnod : settings.maxNodTime.value.val = 30 := rfl
  have hseconds : r.secondsPerPoint.value.val = 30 := rfl
  have hcounted : ¬ r.Overflows settings.stepTime settings.maxNodTime := by
    unfold ChopRequest.Overflows
    decide +kernel
  have hpositive : 0 < settings.stepTime.value.val := by norm_num [hstep]
  have hnodPositive : 0 < settings.maxNodTime.value.val := by norm_num [hnod]
  have hsecondsPositive : 0 < r.secondsPerPoint.value.val := by norm_num [hseconds]
  have hsteps : r.secondsPerPoint.value.val / settings.stepTime.value.val < 2 ^ 32 := by
    norm_num [hseconds, hstep]
  have htraversals : settings.maxNodTime.value.val <
      2 ^ 32 * (settings.stepTime.value.val * r.traversalLength) := by
    norm_num [hlength, hnod, hstep]
  obtain ⟨timing, c, hyields, hcadence, htime, hscheduled, hkeeps⟩ :=
    (budget_integration true [] hmapping hswitching hrequest hpositive hnodPositive
      hsecondsPositive hsteps htraversals).2 hcounted
  refine ⟨hmapping, hswitching, hrequest, hpositive, hnodPositive, hsecondsPositive, hsteps,
    htraversals, hcounted, timing, c, hyields, hcadence, htime, hscheduled, hkeeps, ?_, ?_⟩
  · exact hkeeps.whole_steps 300 (by norm_num) (by norm_num [hseconds, hstep])
  · exact hkeeps.whole_traversals 15 (by norm_num) (by norm_num [htime, hlength, hnod, hstep])

end Timing

end Heterodyne
