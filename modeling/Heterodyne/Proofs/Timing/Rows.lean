import Heterodyne.Proofs.Configuration.Refusal
/-!
# Rows of rasters

A raster asks for the rows between two visits of its reference and between two calibrations. Of
what it asks for the timing counts the low thirty-two bits. Requests below `2 ^ 32` are met as they
are; a multiple of `2 ^ 32` leaves no rows per reference, and the ratio of both is a division by
zero.

* `toNat_rowsOr`: which rows are counted.
* `faults_budget_raster_iff`: the timing of a raster breaks off if no rows are left.
* `reportsRows_of_yields_budget`: the rows that the timing of a raster reports.
* `budget_rows`: what comes of a raster with any rows.
-/

namespace Heterodyne

namespace Timing

variable {α : Type}

/-! ## Rows -/

/-- The rows that are asked for if there is at least one. -/
def requestedRows (rows : Option Int) (otherwise : Nat) : Nat :=
  match rows with
  | some n => if 1 ≤ n then n.toNat else otherwise
  | none => otherwise

/-- Rows are counted by the low thirty-two bits of those that are asked for. -/
theorem toNat_rowsOr (rows : Option Int) (otherwise : UInt32) :
    (rowsOr rows otherwise).toNat = requestedRows rows otherwise.toNat % 2 ^ 32 := by
  have hcount : otherwise.toNat = otherwise.toNat % 2 ^ 32 :=
    (Nat.mod_eq_of_lt otherwise.toNat_lt).symm
  unfold rowsOr requestedRows
  cases rows with
  | none => exact hcount
  | some n =>
    dsimp only
    split
    · exact UInt32.toNat_ofNat'
    · exact hcount

/-- The rows per reference that a raster asks for, which is one by default. -/
def rowsPerRefOf (r : Raster α) : Nat := requestedRows r.rowsPerRef 1

/-- The rows per calibration that a raster asks for, by default as many as per reference. -/
def rowsPerCalOf (r : Raster α) : Nat := requestedRows r.rowsPerCal (rowsPerRefOf r)

/-- Rows that a count holds do not vanish. -/
theorem not_rowsVanish_of_lt {r : Raster α} (h : rowsPerRefOf r < 2 ^ 32) :
    ¬ RowsVanish r.rowsPerRef := by
  rintro ⟨n, hn, hpositive, hvanish⟩
  have hrows : rowsPerRefOf r = n.toNat := by
    rw [rowsPerRefOf, hn]
    exact if_pos hpositive
  omega

/-- The ratio of two counts is the quotient of the numbers, and at least one. -/
theorem toNat_ratio {a b ratio : UInt32} (h : Count.div a b = .ok ratio) :
    (max ratio 1).toNat = max 1 (a.toNat / b.toNat) := by
  rw [UInt32.toNat_max, UInt32.toNat_one, Count.toNat_div h, Nat.max_comm]

/-- A timing reports rows per reference and per calibration, and their ratio, which is at least
one. The sequencer is told the same. -/
def ReportsRows (t : Timing α) (perRef perCal : Nat) : Prop :=
  ∃ c, t.cadence = .raster c ∧
    c.rowsPerRef.toNat = perRef ∧ c.rowsPerCal.toNat = perCal ∧
    c.refToCalRatio.toNat = max 1 (perCal / perRef) ∧
    (Sequence.ofTiming t).rowsPerRef = some c.rowsPerRef ∧
    (Sequence.ofTiming t).rowsPerCal = some c.rowsPerCal ∧
    (Sequence.ofTiming t).refToCalRatio = some c.refToCalRatio

namespace ReportsRows

variable {t : Timing α} {perRef perCal perRef' perCal' : Nat}

/-- Reported rows are counts. -/
theorem lt (h : t.ReportsRows perRef perCal) : perRef < 2 ^ 32 ∧ perCal < 2 ^ 32 := by
  obtain ⟨c, -, rfl, rfl, -⟩ := h
  exact ⟨c.rowsPerRef.toNat_lt, c.rowsPerCal.toNat_lt⟩

/-- A timing reports one number of rows per reference. -/
theorem perRef_unique (h : t.ReportsRows perRef perCal) (h' : t.ReportsRows perRef' perCal') :
    perRef = perRef' := by
  obtain ⟨c, hc, rfl, -⟩ := h
  obtain ⟨c', hc', rfl, -⟩ := h'
  obtain rfl := Cadence.raster.inj (hc.symm.trans hc')
  rfl

end ReportsRows

/-- A timing reports the rows that are asked for exactly if they are counts. -/
theorem reportsRows_asked_iff {r : Raster α} {t : Timing α}
    (h : t.ReportsRows (rowsPerRefOf r % 2 ^ 32)
      (requestedRows r.rowsPerCal (rowsPerRefOf r % 2 ^ 32) % 2 ^ 32)) :
    t.ReportsRows (rowsPerRefOf r) (rowsPerCalOf r) ↔
      rowsPerRefOf r < 2 ^ 32 ∧ rowsPerCalOf r < 2 ^ 32 := by
  refine ⟨ReportsRows.lt, ?_⟩
  rintro ⟨href, hcal⟩
  rw [Nat.mod_eq_of_lt href] at h
  rwa [← rowsPerCalOf, Nat.mod_eq_of_lt hcal] at h

/-! ## Cadences -/

section Rasters

variable [Scalar α] {r : Raster α} {step : Duration α} {cubes : List (Cube α)} {d : Bool}

/-- The cadence of a raster fails for the division by its rows per reference, if at all. -/
theorem faults_ofRaster_iff {fault : Fault} :
    (ofRaster r step cubes).Faults d fault ↔ fault = .division ∧ RowsVanish r.rowsPerRef := by
  have hdivision : ∀ {a b : UInt32}, Count.div a b = .error fault ↔ fault = .division ∧ b = 0 := by
    intro a b
    unfold Count.div
    split <;> simp [*, eq_comm]
  simp only [ofRaster, Run.faults_bind, Run.faults_ofCount, hdivision, rowsOr_one_eq_zero_iff,
    Run.not_faults_ofCheck, Run.not_faults_tell, Run.not_faults_pure, and_false, exists_false,
    or_false]

/-- The rows of the cadence of a raster are those that are counted. -/
theorem rows_of_yields_ofRaster {steps : UInt32} {cadence : Cadence α}
    (h : (ofRaster r step cubes).Yields d (steps, cadence)) :
    ∃ c, cadence = .raster c ∧ c.rowsPerRef = rowsOr r.rowsPerRef 1 ∧
      c.rowsPerCal = rowsOr r.rowsPerCal c.rowsPerRef ∧
      ∃ ratio, Count.div c.rowsPerCal c.rowsPerRef = .ok ratio ∧
        c.refToCalRatio = max ratio 1 := by
  simp only [ofRaster, Run.yields_bind, Run.yields_ofCount, Run.yields_pure, Prod.mk.injEq] at h
  obtain ⟨ratio, hratio, diagonal, -, -, -, -, rfl⟩ := h
  exact ⟨_, rfl, rfl, rfl, ratio, hratio, rfl⟩

/-- A raster over some cube has a cadence unless its rows per reference vanish. -/
theorem exists_yields_ofRaster_iff :
    (∃ timed, (ofRaster r step cubes).Yields d timed) ↔
      ¬ RowsVanish r.rowsPerRef ∧ cubes ≠ [] := by
  constructor
  · rintro ⟨timed, h⟩
    refine ⟨fun hvanish => h.not_breaksOff (breaksOff_ofRaster_iff.2 hvanish), ?_⟩
    rintro rfl
    simp only [ofRaster, footprint_nil, Run.yields_bind, Run.yields_ofCheck, reduceCtorEq,
      false_and, exists_false, and_false] at h
  · rintro ⟨hrows, hcubes⟩
    rcases Run.yields_or_refuses (mt breaksOff_ofRaster_iff.1 hrows) with hyields | ⟨cause, hcause⟩
    · exact hyields
    · exact absurd hcause (not_refuses_ofRaster hcubes)

/-! ## Timing -/

variable {o : Descriptor α} {mode : Mode} {settings : Settings α} {fault : Fault} {t : Timing α}

/-- A raster is timed by its own sample time, with the cadence of its rows in the mode of a
raster. -/
theorem budget_eq_ofRaster (hmove : o.movement = .raster r)
    (hstep : Scalar.zero < r.sampleTime.value) (mode : Mode) (cubes : List (Cube α))
    (settings : Settings α) :
    budget o mode cubes settings = (do
      let (stepsPerRef, cadence) ←
        (if mode.mapping = .raster then ofRaster r r.sampleTime cubes
          else Run.refuse (.modeMismatch mode o.iterator) : Run α (UInt32 × Cadence α))
      return ⟨r.sampleTime, o.repeats, stepsPerRef,
        stepsFor r.sampleTime settings.calTime, cadence⟩) := by
  have hstepTime : stepTimeOf o settings = .ok r.sampleTime := by
    rw [stepTimeOf, hmove]
    exact if_pos hstep
  have hcadence : cadenceOf o mode cubes settings r.sampleTime =
      if mode.mapping = .raster then ofRaster r r.sampleTime cubes
      else Run.refuse (.modeMismatch mode o.iterator) := by
    rw [cadenceOf, hmove]
    cases mode.mapping <;> simp
  rw [budget, hstepTime]
  simp only [Run.ofCheck, pure_bind, hcadence]

/-- The timing of a raster breaks off at the division by its rows per reference, and nowhere
else. -/
theorem faults_budget_raster_iff (hmove : o.movement = .raster r)
    (hstep : Scalar.zero < r.sampleTime.value) :
    (budget o mode cubes settings).Faults d fault ↔
      fault = .division ∧ mode.mapping = .raster ∧ RowsVanish r.rowsPerRef := by
  rw [budget_eq_ofRaster hmove hstep, Run.faults_bind]
  simp only [Run.not_faults_pure, and_false, exists_false, or_false]
  split
  · rename_i hmapping
    rw [faults_ofRaster_iff]
    simp only [hmapping, true_and]
  · rename_i hmapping
    simp only [Run.not_faults_refuse, hmapping, false_and, and_false]

/-- A raster is timed in the mode of a raster, over some cube, unless its rows per reference
vanish. -/
theorem exists_yields_budget_raster_iff (hmove : o.movement = .raster r)
    (hstep : Scalar.zero < r.sampleTime.value) :
    (∃ t, (budget o mode cubes settings).Yields d t) ↔
      mode.mapping = .raster ∧ ¬ RowsVanish r.rowsPerRef ∧ cubes ≠ [] := by
  have hcadence : (∃ timed, (ofRaster r r.sampleTime cubes).Yields d timed) ↔
      ¬ RowsVanish r.rowsPerRef ∧ cubes ≠ [] := exists_yields_ofRaster_iff
  rw [← hcadence, budget_eq_ofRaster hmove hstep]
  simp only [Run.yields_bind, Run.yields_pure]
  split
  · rename_i hmapping
    simp only [hmapping, true_and]
    rw [exists_comm]
    simp only [exists_and_left, exists_eq', and_true]
  · rename_i hmapping
    simp only [Run.not_yields_refuse, hmapping, false_and, exists_false]

/-- The timing of a raster reports the low thirty-two bits of the rows that are asked for. -/
theorem reportsRows_of_yields_budget (hmove : o.movement = .raster r)
    (hstep : Scalar.zero < r.sampleTime.value) (h : (budget o mode cubes settings).Yields d t) :
    t.ReportsRows (rowsPerRefOf r % 2 ^ 32)
      (requestedRows r.rowsPerCal (rowsPerRefOf r % 2 ^ 32) % 2 ^ 32) := by
  have hmapping := ((exists_yields_budget_raster_iff hmove hstep).1 ⟨t, h⟩).1
  rw [budget_eq_ofRaster hmove hstep, if_pos hmapping] at h
  simp only [Run.yields_bind, Run.yields_pure] at h
  obtain ⟨⟨steps, cadence⟩, hcadence, rfl⟩ := h
  obtain ⟨c, rfl, href, hcal, ratio, hratio, hmax⟩ := rows_of_yields_ofRaster hcadence
  have hperRef : c.rowsPerRef.toNat = rowsPerRefOf r % 2 ^ 32 := by
    rw [href, toNat_rowsOr]
    rfl
  have hperCal : c.rowsPerCal.toNat =
      requestedRows r.rowsPerCal (rowsPerRefOf r % 2 ^ 32) % 2 ^ 32 := by
    rw [hcal, toNat_rowsOr, hperRef]
  refine ⟨c, rfl, hperRef, hperCal, ?_, rfl, rfl, rfl⟩
  rw [hmax, toNat_ratio hratio, hperRef, hperCal]

end Rasters

/-! ## Maps with rows -/

/-- The raster of the small map with rows. -/
def rowRaster (perRef perCal : Option Int) : Raster Binary64 :=
  ⟨⟨.ofNat 120⟩, ⟨.ofNat 60⟩, ⟨.ofNat 7⟩, ⟨.ofNat 30⟩, ⟨.ofNat 0⟩, ⟨.ofNat 1⟩, none, perRef, perCal⟩

/-- The small map with rows. -/
def rowMap (perRef perCal : Option Int) : Descriptor Binary64 :=
  { smallMap with movement := .raster (rowRaster perRef perCal) }

/-- The small map is accepted with any rows. -/
theorem build_rowMap (perRef perCal : Option Int) :
    ({ mapDraft Routing.twoSubsystems with
      movement := .raster (rowRaster perRef perCal) } : Draft Binary64).build =
      .ok (rowMap perRef perCal) :=
  build_mapDraft_with rfl (List.cons_ne_nil _ _) rfl

/-- The small map is planned and laid out, with any rows. -/
theorem exists_cubes_rowMap : ∃ plan cubes, cubes ≠ [] ∧
    (Plan.ofSubsystems Settings.standard Routing.twoSubsystems).Yields false plan ∧
    ∀ perRef perCal, ((rowMap perRef perCal).cubes plan Settings.standard).Yields false cubes := by
  obtain ⟨plan, hplan, -⟩ := Routing.exists_plan_twoSubsystems
  have hgrid : ∃ grid, (smallMap.spatialGrid Settings.standard).Yields false grid ∧
      grid.nx = 19 := Run.exists_yields_of_toOption (by decide +kernel)
  obtain ⟨grid, hgrid, -⟩ := hgrid
  have hcubes : ∃ cubes, (smallMap.cubes plan Settings.standard).Yields false cubes :=
    exists_yields_cubes_iff.2 ⟨grid, hgrid⟩
  obtain ⟨cubes, hcubes⟩ := hcubes
  have hlength : cubes.length = smallMap.subsystems.length := length_of_yields_cubes hplan hcubes
  exact ⟨plan, cubes, List.ne_nil_of_length_pos (hlength ▸ Nat.zero_lt_two), hplan,
    fun _ _ => hcubes⟩

/-! ## Requests of rows -/

/-- The timing of a raster with a positive sample time is given in the mode of a raster, over some
cube, unless the rows per reference vanish; then it breaks off at a division by zero. It reports
the low thirty-two bits of the rows that are asked for, which are at least one per reference by
default, and as many per calibration as per reference; these are all rows exactly if they are
less than `2 ^ 32`. -/
theorem budget_rows [Scalar α] {o : Descriptor α} {r : Raster α}
    (hmove : o.movement = .raster r) (hstep : Scalar.zero < r.sampleTime.value) (mode : Mode)
    (cubes : List (Cube α)) (settings : Settings α) (d : Bool) :
    (∀ fault, (budget o mode cubes settings).Faults d fault ↔
      fault = .division ∧ mode.mapping = .raster ∧ RowsVanish r.rowsPerRef) ∧
    (rowsPerRefOf r < 2 ^ 32 → ¬ (budget o mode cubes settings).BreaksOff d) ∧
    ((∃ t, (budget o mode cubes settings).Yields d t) ↔
      mode.mapping = .raster ∧ ¬ RowsVanish r.rowsPerRef ∧ cubes ≠ []) ∧
    ∀ t, (budget o mode cubes settings).Yields d t →
      t.ReportsRows (rowsPerRefOf r % 2 ^ 32)
        (requestedRows r.rowsPerCal (rowsPerRefOf r % 2 ^ 32) % 2 ^ 32) ∧
      (t.ReportsRows (rowsPerRefOf r) (rowsPerCalOf r) ↔
        rowsPerRefOf r < 2 ^ 32 ∧ rowsPerCalOf r < 2 ^ 32) := by
  have hfaults : ∀ fault, (budget o mode cubes settings).Faults d fault ↔
      fault = .division ∧ mode.mapping = .raster ∧ RowsVanish r.rowsPerRef :=
    fun fault => faults_budget_raster_iff hmove hstep
  refine ⟨hfaults, ?_, exists_yields_budget_raster_iff hmove hstep, ?_⟩
  · rintro hlt ⟨fault, hfault⟩
    exact not_rowsVanish_of_lt hlt ((hfaults fault).1 hfault).2.2
  · intro t ht
    have hreports := reportsRows_of_yields_budget hmove hstep ht
    exact ⟨hreports, reportsRows_asked_iff hreports⟩

/-- A map that asks for two rows per reference and for six per calibration is told so. -/
theorem budget_rows_twoAndSix :
    ∃ plan cubes t, (Plan.ofSubsystems Settings.standard Routing.twoSubsystems).Yields false plan ∧
      ((rowMap (some 2) (some 6)).cubes plan Settings.standard).Yields false cubes ∧
      (budget (rowMap (some 2) (some 6)) ⟨.raster, .position, .science⟩ cubes
        Settings.standard).Yields false t ∧
      t.ReportsRows 2 6 := by
  obtain ⟨plan, cubes, hne, hplan, hcubes⟩ := exists_cubes_rowMap
  have hmove : (rowMap (some 2) (some 6)).movement = .raster (rowRaster (some 2) (some 6)) := rfl
  have hstep : Scalar.zero < (rowRaster (some 2) (some 6)).sampleTime.value := by decide +kernel
  obtain ⟨-, -, hgiven, hreports⟩ :=
    budget_rows hmove hstep ⟨.raster, .position, .science⟩ cubes Settings.standard false
  have hlt : rowsPerRefOf (rowRaster (some 2) (some 6)) < 2 ^ 32 := by decide
  obtain ⟨t, ht⟩ := hgiven.2 ⟨rfl, not_rowsVanish_of_lt hlt, hne⟩
  exact ⟨plan, cubes, t, hplan, hcubes _ _, ht, (hreports t ht).2.2 ⟨hlt, by decide⟩⟩

/-- Two maps that are accepted and laid out. One asks for `2 ^ 32` rows per reference, and its
timing divides by zero; the other asks for three more, and its timing reports three. -/
theorem not_budget_rows_asked :
    ∃ many manyMore plan cubes,
      ({ mapDraft Routing.twoSubsystems with
        movement := .raster (rowRaster (some (2 ^ 32)) none) } : Draft Binary64).build =
          .ok many ∧
      ({ mapDraft Routing.twoSubsystems with
        movement := .raster (rowRaster (some (2 ^ 32 + 3)) none) } : Draft Binary64).build =
          .ok manyMore ∧
      (Plan.ofSubsystems Settings.standard Routing.twoSubsystems).Yields false plan ∧
      (many.cubes plan Settings.standard).Yields false cubes ∧
      (manyMore.cubes plan Settings.standard).Yields false cubes ∧
      (budget many ⟨.raster, .position, .science⟩ cubes Settings.standard).Faults false .division ∧
      ∃ t, (budget manyMore ⟨.raster, .position, .science⟩ cubes Settings.standard).Yields false t ∧
        t.ReportsRows 3 3 ∧ ¬ t.ReportsRows (2 ^ 32 + 3) (2 ^ 32 + 3) := by
  obtain ⟨plan, cubes, hne, hplan, hcubes⟩ := exists_cubes_rowMap
  have hstep : ∀ perRef, Scalar.zero < (rowRaster perRef none).sampleTime.value := by
    intro perRef
    show Scalar.zero < (Binary64.ofNat 1)
    decide +kernel
  have hdivision : (budget (rowMap (some (2 ^ 32)) none) ⟨.raster, .position, .science⟩ cubes
      Settings.standard).Faults false .division :=
    (faults_budget_raster_iff rfl (hstep _)).2 ⟨rfl, rfl, 2 ^ 32, rfl, by decide, by decide⟩
  have hrest : ¬ RowsVanish (some (2 ^ 32 + 3)) := by
    rintro ⟨n, hn, -, hvanish⟩
    obtain rfl := Option.some.inj hn
    exact absurd hvanish (by decide)
  have hgiven : ∃ t, (budget (rowMap (some (2 ^ 32 + 3)) none) ⟨.raster, .position, .science⟩ cubes
      Settings.standard).Yields false t :=
    (exists_yields_budget_raster_iff rfl (hstep _)).2 ⟨rfl, hrest, hne⟩
  obtain ⟨t, ht⟩ := hgiven
  have hkept : rowsPerRefOf (rowRaster (some (2 ^ 32 + 3)) none) % 2 ^ 32 = 3 := by decide
  have hthree : t.ReportsRows 3 3 := by
    have hreports := reportsRows_of_yields_budget rfl (hstep (some (2 ^ 32 + 3))) ht
    rwa [hkept] at hreports
  refine ⟨_, _, plan, cubes, build_rowMap _ _, build_rowMap _ _, hplan, hcubes _ _, hcubes _ _,
    hdivision, t, ht, hthree, fun hasked => ?_⟩
  exact absurd (hthree.perRef_unique hasked) (by decide)

end Timing

end Heterodyne
