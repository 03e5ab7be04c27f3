import Heterodyne.Proofs.Grid.Raster
import Heterodyne.Proofs.Timing.Integration
import Heterodyne.Proofs.Timing.Rows
import Mathlib.Analysis.SpecialFunctions.Trigonometric.Basic
/-!
# References of rasters

Between two visits of its reference a raster takes steps on the source, and at the reference it
takes samples, as many as the square root of the steps. Steps and samples are counted on their own:
both are rounded, made at least one and cut off at the largest count. In real numbers there are
never more samples than steps, and more rows per reference never have fewer of them.

* `nearestCount_mono`, `abs_sub_nearestCount_le`: the count nearest to a number.
* `nearestCount_sqrt_le`: the count nearest to a root.
* `Timing.nearestCounts_of_yields_budget`: steps and samples in the timing of a raster.
* `Timing.budget_reference`: what comes of them with more rows per reference.
-/

namespace Heterodyne

/-! ## Nearest counts -/

section Nearest

variable {K : Type} [Field K] [LinearOrder K] [FloorRing K]

/-- The count nearest to a number. It is at least one and at most the largest count. -/
def nearestCount (x : K) : ℤ := min (max 1 (roundAway x)) (2 ^ 32 - 1)

/-- There is at least one. -/
theorem one_le_nearestCount (x : K) : 1 ≤ nearestCount x :=
  le_min (le_max_left _ _) (by norm_num)

variable [IsStrictOrderedRing K] {F : Apparatus K} {x y : K}

/-- A number is rounded and cut off at one and at the largest count. -/
theorem toNat_toCount_round (x : Exact F) :
    ((Scalar.toCount (Scalar.atLeastOne (Scalar.round x))).toNat : ℤ) = nearestCount x.val := by
  have hmax : Scalar.maxCount = 2 ^ 32 - 1 := rfl
  rw [Scalar.toNat_toCount, Timing.toNat_atLeastOne, Exact.val_round, Int.floor_intCast, hmax,
    nearestCount]
  omega

/-- Greater numbers are not nearer to smaller counts. -/
theorem nearestCount_mono (h : x ≤ y) : nearestCount x ≤ nearestCount y :=
  min_le_min_right _ (max_le_max_left _ (roundAway_mono h))

/-- Numbers up to one are counted as one. -/
theorem nearestCount_of_le_one (h : x ≤ 1) : nearestCount x = 1 := by
  have hround : roundAway x ≤ roundAway ((1 : ℤ) : K) := roundAway_mono (by rwa [Int.cast_one])
  rw [roundAway_intCast] at hround
  rw [nearestCount, max_eq_left hround]
  norm_num

/-- The count nearest to a number in their range is no further away than a half. -/
theorem abs_sub_nearestCount_le (hone : 1 ≤ x) (hlt : x < 2 ^ 32 - 1) :
    |x - nearestCount x| ≤ 1 / 2 := by
  have hlow : roundAway ((1 : ℤ) : K) ≤ roundAway x := roundAway_mono (by rwa [Int.cast_one])
  have hhigh : roundAway x ≤ roundAway ((2 ^ 32 - 1 : ℤ) : K) :=
    roundAway_mono (by exact_mod_cast hlt.le)
  rw [roundAway_intCast] at hlow hhigh
  rw [nearestCount, max_eq_right hlow, min_eq_left hhigh]
  exact abs_sub_roundAway_le x

/-- More of the same are not nearer to a smaller count; less than nothing is counted as one, however
often it is taken. -/
theorem nearestCount_mul_le (q : K) {m n : ℕ} (h : m ≤ n) :
    nearestCount (q * m) ≤ nearestCount (q * n) := by
  rcases le_total 0 q with hq | hq
  · exact nearestCount_mono (mul_le_mul_of_nonneg_left (Nat.cast_le.2 h) hq)
  · have hle : q * m ≤ 1 := (mul_nonpos_of_nonpos_of_nonneg hq m.cast_nonneg).trans zero_le_one
    rw [nearestCount_of_le_one hle]
    exact one_le_nearestCount _

end Nearest

/-- The root of a number is not nearer to a greater count than the number: below one both are
counted as one. -/
theorem nearestCount_sqrt_le (x : ℝ) : nearestCount √x ≤ nearestCount x := by
  rcases le_total 1 x with hone | hle
  · exact nearestCount_mono (Real.sqrt_le_self_iff.2 (.inr hone))
  · rw [nearestCount_of_le_one (Real.sqrt_le_one.2 hle)]
    exact one_le_nearestCount x

/-- The same of roots; less than nothing has none. -/
theorem nearestCount_sqrt_mul_le (q : ℝ) {m n : ℕ} (h : m ≤ n) :
    nearestCount √(q * m) ≤ nearestCount √(q * n) := by
  rcases le_total 0 q with hq | hq
  · have hle : q * m ≤ q * n := mul_le_mul_of_nonneg_left (Nat.cast_le.2 h) hq
    exact nearestCount_mono (Real.sqrt_le_sqrt hle)
  · have hroot : √(q * m) = 0 :=
      Real.sqrt_eq_zero_of_nonpos (mul_nonpos_of_nonpos_of_nonneg hq m.cast_nonneg)
    rw [hroot, nearestCount_of_le_one zero_le_one]
    exact one_le_nearestCount _

/-! ## Other rows -/

section Rescanned

variable {α : Type}

/-- A raster with other rows between two visits of its reference. -/
def Raster.withRowsPerRef (r : Raster α) (rows : Option Int) : Raster α :=
  { r with rowsPerRef := rows }

/-- An observation with another raster as its movement. -/
def Descriptor.rescanned (o : Descriptor α) (r : Raster α) : Descriptor α :=
  { o with movement := .raster r }

/-- The rows of a raster do not change its cubes. -/
theorem cubes_rescanned [Scalar α] {o : Descriptor α} {r : Raster α}
    (hmove : o.movement = .raster r) (rows : Option Int) (plan : Plan α) (settings : Settings α) :
    (o.rescanned (r.withRowsPerRef rows)).cubes plan settings = o.cubes plan settings := by
  simp only [Descriptor.cubes, Descriptor.spatialGrid, Descriptor.rescanned, hmove]
  rfl

end Rescanned

/-! ## Steps and samples -/

namespace Timing

section Rasters

variable {α : Type} [Scalar α] {o : Descriptor α} {r : Raster α} {mode : Mode}
  {cubes : List (Cube α)} {settings : Settings α} {d : Bool} {t : Timing α}

/-- A raster that is timed has a positive sample time. -/
theorem sampleTime_pos_of_yields_budget (hmove : o.movement = .raster r)
    (h : (budget o mode cubes settings).Yields d t) : Scalar.zero < r.sampleTime.value := by
  rw [budget, Run.yields_bind] at h
  obtain ⟨step, hstep, -⟩ := h
  rw [Run.yields_ofCheck, stepTimeOf, hmove] at hstep
  by_contra hpos
  simp only [checkStepTime, if_neg hpos, reduceCtorEq] at hstep

/-- The steps and samples of a raster are counted for the rows between two visits of the reference,
and each row takes as long as the footprint is scanned. -/
theorem exists_cadence_of_yields_budget (hmove : o.movement = .raster r)
    (h : (budget o mode cubes settings).Yields d t) :
    ∃ c diagonal, t.stepTime = r.sampleTime ∧ t.cadence = .raster c ∧
      footprint cubes = .ok diagonal ∧
      c.rowTime.value =
        diagonal.value / r.velocity.getD (r.dx.value / r.sampleTime.value) ∧
      c.rowsPerRef = rowsOr r.rowsPerRef 1 ∧
      (t.stepsPerRef, c.refSamples) =
        referenceSteps ((c.rowTime / t.stepTime : α) * Scalar.ofCount c.rowsPerRef) := by
  have hstep := sampleTime_pos_of_yields_budget hmove h
  have hmapping := ((exists_yields_budget_raster_iff hmove hstep).1 ⟨t, h⟩).1
  rw [budget_eq_ofRaster hmove hstep, if_pos hmapping] at h
  simp only [Run.yields_bind, Run.yields_pure, ofRaster, Run.yields_ofCount, Run.yields_ofCheck,
    Prod.exists, Prod.mk.injEq] at h
  obtain ⟨steps, cadence, ⟨ratio, -, diagonal, hdiagonal, -, -, rfl, rfl⟩, rfl⟩ := h
  exact ⟨_, diagonal, rfl, rfl, hdiagonal, rfl, rfl, rfl⟩

end Rasters

section Counts

variable {K : Type} [Field K] [LinearOrder K] [FloorRing K] {F : Apparatus K}
  {o : Descriptor (Exact F)} {r : Raster (Exact F)} {mode : Mode}
  {cubes : List (Cube (Exact F))} {settings : Settings (Exact F)} {d : Bool}
  {t : Timing (Exact F)}

/-- The steps in the time of one row over a footprint. -/
def stepsOfRow (r : Raster (Exact F)) (diagonal : Arcsec (Exact F)) : K :=
  (diagonal.value / r.velocity.getD (r.dx.value / r.sampleTime.value) : Exact F).val /
    r.sampleTime.value.val

/-- A row takes the same steps with other rows between two visits. -/
@[simp] theorem stepsOfRow_withRowsPerRef (r : Raster (Exact F)) (rows : Option Int)
    (diagonal : Arcsec (Exact F)) :
    stepsOfRow (r.withRowsPerRef rows) diagonal = stepsOfRow r diagonal := rfl

/-- The steps in the time of the rows between two visits of the reference. -/
def onSteps (t : Timing (Exact F)) (c : RasterCadence (Exact F)) : K :=
  c.rowTime.value.val / t.stepTime.value.val * c.rowsPerRef.toNat

variable [IsStrictOrderedRing K]

/-- The timing of a raster has the counts nearest to its steps and to their root. -/
theorem nearestCounts_of_yields_budget (hmove : o.movement = .raster r)
    (h : (budget o mode cubes settings).Yields d t) :
    ∃ c diagonal, t.cadence = .raster c ∧ footprint cubes = .ok diagonal ∧
      t.onSteps c = stepsOfRow r diagonal * (rowsPerRefOf r % 2 ^ 32 : ℕ) ∧
      (t.stepsPerRef.toNat : ℤ) = nearestCount (t.onSteps c) ∧
      (c.refSamples.toNat : ℤ) = nearestCount (F.sqrt (t.onSteps c)) := by
  obtain ⟨c, diagonal, hstep, hcadence, hdiagonal, hrow, hrows, hcounts⟩ :=
    exists_cadence_of_yields_budget hmove h
  obtain ⟨hsteps, hsamples⟩ := Prod.mk.inj hcounts
  refine ⟨c, diagonal, hcadence, hdiagonal, ?_, ?_, ?_⟩
  · have hcount : c.rowsPerRef.toNat = rowsPerRefOf r % 2 ^ 32 := by
      rw [hrows, toNat_rowsOr]
      rfl
    rw [onSteps, hrow, hstep, hcount, stepsOfRow]
  · rw [hsteps, toNat_toCount_round]
    rfl
  · rw [hsamples, toNat_toCount_round]
    rfl

end Counts

/-! ## Rasters in real numbers -/

section Reals

variable {F : Apparatus ℝ} {o : Descriptor (Exact F)} {r : Raster (Exact F)} {mode : Mode}
  {cubes : List (Cube (Exact F))} {settings : Settings (Exact F)} {d : Bool}
  {t : Timing (Exact F)}

/-- The reference of a raster is sampled at least once, but not more often than the source, and
where steps can be counted, steps and samples are the nearest counts. -/
structure SamplesReference (t : Timing (Exact F)) (c : RasterCadence (Exact F)) : Prop where
  one_le : 1 ≤ c.refSamples.toNat
  samples_le_steps : c.refSamples.toNat ≤ t.stepsPerRef.toNat
  samples_near : 1 ≤ t.onSteps c → t.onSteps c < 2 ^ 32 - 1 →
    |(c.refSamples.toNat : ℝ) - √(t.onSteps c)| ≤ 1 / 2
  steps_near : 1 ≤ t.onSteps c → t.onSteps c < 2 ^ 32 - 1 →
    |(t.stepsPerRef.toNat : ℝ) - t.onSteps c| ≤ 1 / 2

/-- Nearest counts sample the reference. -/
theorem samplesReference_of_nearestCounts {c : RasterCadence (Exact F)}
    (hsteps : (t.stepsPerRef.toNat : ℤ) = nearestCount (t.onSteps c))
    (hsamples : (c.refSamples.toNat : ℤ) = nearestCount √(t.onSteps c)) :
    t.SamplesReference c where
  one_le := by
    have hone := one_le_nearestCount √(t.onSteps c)
    omega
  samples_le_steps := by
    have hle := nearestCount_sqrt_le (t.onSteps c)
    omega
  samples_near hone hlt := by
    have hroot : √(t.onSteps c) ≤ t.onSteps c := Real.sqrt_le_self_iff.2 (.inr hone)
    have hnear := abs_sub_nearestCount_le (Real.one_le_sqrt.2 hone) (hroot.trans_lt hlt)
    rwa [← hsamples, Int.cast_natCast, abs_sub_comm] at hnear
  steps_near hone hlt := by
    have hnear := abs_sub_nearestCount_le hone hlt
    rwa [← hsteps, Int.cast_natCast, abs_sub_comm] at hnear

/-- With more rows between two visits, no steps and samples are lost. -/
theorem counts_le_of_rows (hroot : F.sqrt = Real.sqrt) (hmove : o.movement = .raster r)
    {rows : Option Int} (hle : rowsPerRefOf r ≤ rowsPerRefOf (r.withRowsPerRef rows))
    (hlt : rowsPerRefOf (r.withRowsPerRef rows) < 2 ^ 32)
    (h : (budget o mode cubes settings).Yields d t) :
    ∃ t' c c', (budget (o.rescanned (r.withRowsPerRef rows)) mode cubes settings).Yields d t' ∧
      t.cadence = .raster c ∧ t'.cadence = .raster c' ∧
      c.refSamples.toNat ≤ c'.refSamples.toNat ∧ t.stepsPerRef.toNat ≤ t'.stepsPerRef.toNat := by
  have hstep := sampleTime_pos_of_yields_budget hmove h
  obtain ⟨hmapping, -, hcubes⟩ := (exists_yields_budget_raster_iff hmove hstep).1 ⟨t, h⟩
  have hmove' : (o.rescanned (r.withRowsPerRef rows)).movement =
      .raster (r.withRowsPerRef rows) := rfl
  have hgiven : ∃ t', (budget (o.rescanned (r.withRowsPerRef rows)) mode cubes
      settings).Yields d t' :=
    (exists_yields_budget_raster_iff hmove' hstep).2
      ⟨hmapping, not_rowsVanish_of_lt hlt, hcubes⟩
  obtain ⟨t', ht'⟩ := hgiven
  obtain ⟨c, diagonal, hcadence, hdiagonal, hon, hsteps, hsamples⟩ :=
    nearestCounts_of_yields_budget hmove h
  obtain ⟨c', diagonal', hcadence', hdiagonal', hon', hsteps', hsamples'⟩ :=
    nearestCounts_of_yields_budget hmove' ht'
  -- over the same footprint a row takes the same steps
  cases hdiagonal.symm.trans hdiagonal'
  rw [Nat.mod_eq_of_lt (hle.trans_lt hlt)] at hon
  rw [Nat.mod_eq_of_lt hlt, stepsOfRow_withRowsPerRef] at hon'
  rw [hroot, hon] at hsamples
  rw [hroot, hon'] at hsamples'
  rw [hon] at hsteps
  rw [hon'] at hsteps'
  have hmoreSteps := nearestCount_mul_le (stepsOfRow r diagonal) hle
  have hmoreSamples := nearestCount_sqrt_mul_le (stepsOfRow r diagonal) hle
  exact ⟨t', c, c', ht', hcadence, hcadence', by omega, by omega⟩

/-- In real numbers, the timing of a raster samples its reference. With more rows between two
visits of the reference, over the same cubes, there are at least as many steps and samples. -/
theorem budget_reference (hroot : F.sqrt = Real.sqrt) (hmove : o.movement = .raster r)
    (mode : Mode) (cubes : List (Cube (Exact F))) (settings : Settings (Exact F)) (d : Bool) :
    (∀ t, (budget o mode cubes settings).Yields d t →
      ∃ c, t.cadence = .raster c ∧ t.SamplesReference c) ∧
    ∀ rows,
      (∀ plan, (o.rescanned (r.withRowsPerRef rows)).cubes plan settings =
        o.cubes plan settings) ∧
      (rowsPerRefOf r ≤ rowsPerRefOf (r.withRowsPerRef rows) →
        rowsPerRefOf (r.withRowsPerRef rows) < 2 ^ 32 →
        ∀ t, (budget o mode cubes settings).Yields d t →
          ∃ t' c c', (budget (o.rescanned (r.withRowsPerRef rows)) mode cubes
              settings).Yields d t' ∧
            t.cadence = .raster c ∧ t'.cadence = .raster c' ∧
            c.refSamples.toNat ≤ c'.refSamples.toNat ∧
            t.stepsPerRef.toNat ≤ t'.stepsPerRef.toNat) := by
  constructor
  · intro t ht
    obtain ⟨c, -, hcadence, -, -, hsteps, hsamples⟩ := nearestCounts_of_yields_budget hmove ht
    rw [hroot] at hsamples
    exact ⟨c, hcadence, samplesReference_of_nearestCounts hsteps hsamples⟩
  · intro rows
    refine ⟨fun plan => cubes_rescanned hmove rows plan settings, ?_⟩
    intro hle hlt t ht
    exact counts_le_of_rows hroot hmove hle hlt ht

end Reals

/-! ## A raster in real numbers -/

/-- The real numbers. Of their written form there is the whole part only. -/
noncomputable def reals : Apparatus ℝ where
  sqrt := Real.sqrt
  hypot x y := √(x ^ 2 + y ^ 2)
  rotation angle :=
    ⟨Real.sin (angle * (Real.pi / 180)), Real.cos (angle * (Real.pi / 180)),
      Real.sin_sq_add_cos_sq _⟩
  plain x := toString ⌊x⌋

/-- A raster over nine by nine pixels with a diagonal of 180 arc seconds, which is scanned in nine
seconds. -/
noncomputable def realRaster (rows : Option Int) : Raster (Exact reals) :=
  ⟨⟨⟨120⟩⟩, ⟨⟨90⟩⟩, ⟨⟨16⟩⟩, ⟨⟨12⟩⟩, ⟨⟨37⟩⟩, ⟨⟨1⟩⟩, some ⟨20⟩, rows, none⟩

/-- The raster as an observation. -/
noncomputable def realMap (rows : Option Int) : Descriptor (Exact reals) :=
  ⟨.raster (realRaster rows), .position, [], 1, ["H00"], ⟨⟨7⟩⟩⟩

/-- A cube of nine by nine pixels. -/
noncomputable def realCube : Cube (Exact reals) :=
  ⟨.ofSubsystem 1, ⟨9, 9, ⟨⟨16⟩⟩, ⟨⟨12⟩⟩, ⟨.zero, .zero⟩, ⟨⟨37⟩⟩⟩, ⟨⟨345796000000⟩⟩, ⟨⟨488281⟩⟩,
    2048⟩

/-- The raster is scanned over the cube in nine steps. -/
theorem stepsOfRow_realRaster {rows : Option Int} {diagonal : Arcsec (Exact reals)}
    (h : footprint [realCube] = .ok diagonal) : stepsOfRow (realRaster rows) diagonal = 9 := by
  have hroot : √((16 * (9 : UInt32).toNat : ℝ) ^ 2 + (12 * (9 : UInt32).toNat : ℝ) ^ 2) = 180 := by
    rw [show (9 : UInt32).toNat = 9 from rfl,
      Real.sqrt_eq_iff_mul_self_eq (by positivity) (by norm_num)]
    norm_num
  cases h
  show √((16 * (9 : UInt32).toNat : ℝ) ^ 2 + (12 * (9 : UInt32).toNat : ℝ) ^ 2) / 20 / 1 = 9
  rw [hroot]
  norm_num

/-- Natural numbers that are less than one apart are the same. -/
theorem eq_of_abs_sub_lt_one {m n : ℕ} (h : |(m : ℝ) - n| < 1) : m = n := by
  have hint : |(m : ℤ) - n| < 1 := by exact_mod_cast h
  have hzero := Int.abs_lt_one_iff.1 hint
  omega

/-- Two rows take eighteen steps, whose root is about 4.2. -/
theorem budget_reference_twoRows :
    ∃ t t' c c', reals.sqrt = Real.sqrt ∧
      (realMap (some 2)).movement = .raster (realRaster (some 2)) ∧
      rowsPerRefOf (realRaster (some 2)) ≤ rowsPerRefOf (realRaster (some 5)) ∧
      rowsPerRefOf (realRaster (some 5)) < 2 ^ 32 ∧
      (budget (realMap (some 2)) ⟨.raster, .position, .science⟩ [realCube]
        Settings.standard).Yields false t ∧
      (budget (realMap (some 5)) ⟨.raster, .position, .science⟩ [realCube]
        Settings.standard).Yields false t' ∧
      t.cadence = .raster c ∧ t'.cadence = .raster c' ∧ t.onSteps c = 18 ∧
      c.refSamples.toNat = 4 ∧ t.stepsPerRef.toNat = 18 ∧
      4 ≤ c'.refSamples.toNat ∧ 18 ≤ t'.stepsPerRef.toNat := by
  have hmove : (realMap (some 2)).movement = .raster (realRaster (some 2)) := rfl
  have hstep : Scalar.zero < (realRaster (some 2)).sampleTime.value :=
    Exact.zero_lt_iff.2 zero_lt_one
  have hle : rowsPerRefOf (realRaster (some 2)) ≤ rowsPerRefOf (realRaster (some 5)) := by
    show 2 ≤ 5
    decide
  have hlt : rowsPerRefOf (realRaster (some 5)) < 2 ^ 32 := by
    show 5 < 2 ^ 32
    decide
  obtain ⟨hsampled, hmore⟩ := budget_reference rfl hmove ⟨.raster, .position, .science⟩ [realCube]
    Settings.standard false
  have hgiven : ∃ t, (budget (realMap (some 2)) ⟨.raster, .position, .science⟩ [realCube]
      Settings.standard).Yields false t :=
    (exists_yields_budget_raster_iff hmove hstep).2
      ⟨rfl, not_rowsVanish_of_lt (hle.trans_lt hlt), List.cons_ne_nil realCube []⟩
  obtain ⟨t, ht⟩ := hgiven
  obtain ⟨c, hcadence, hreference⟩ := hsampled t ht
  obtain ⟨t', c₁, c', ht', hcadence₁, hcadence', hsamples', hsteps'⟩ :=
    (hmore (some 5)).2 hle hlt t ht
  cases Cadence.raster.inj (hcadence.symm.trans hcadence₁)
  have hon : t.onSteps c = 18 := by
    obtain ⟨c₂, diagonal, hcadence₂, hdiagonal, hon, -⟩ := nearestCounts_of_yields_budget hmove ht
    cases Cadence.raster.inj (hcadence.symm.trans hcadence₂)
    rw [hon, stepsOfRow_realRaster hdiagonal]
    show (9 : ℝ) * (2 : ℕ) = 18
    norm_num
  have hone : 1 ≤ t.onSteps c := by
    rw [hon]
    norm_num
  have hcounted : t.onSteps c < 2 ^ 32 - 1 := by
    rw [hon]
    norm_num
  have hsteps : t.stepsPerRef.toNat = 18 := by
    have hnear := hreference.steps_near hone hcounted
    rw [hon] at hnear
    exact eq_of_abs_sub_lt_one (hnear.trans_lt one_half_lt_one)
  have hsamples : c.refSamples.toNat = 4 := by
    have hnear := abs_le.1 (hreference.samples_near hone hcounted)
    rw [hon] at hnear
    have hroot : 4 < √(18 : ℝ) := (Real.lt_sqrt (by norm_num)).2 (by norm_num)
    have hroot' : √(18 : ℝ) < 9 / 2 := (Real.sqrt_lt' (by norm_num)).2 (by norm_num)
    apply eq_of_abs_sub_lt_one
    push_cast
    rw [abs_lt]
    constructor <;> linarith
  exact ⟨t, t', c, c', rfl, hmove, hle, hlt, ht, ht', hcadence, hcadence', hon, hsamples, hsteps,
    hsamples ▸ hsamples', hsteps ▸ hsteps'⟩

end Timing

end Heterodyne
