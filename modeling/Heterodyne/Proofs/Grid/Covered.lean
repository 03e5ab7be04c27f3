import Heterodyne.Proofs.Grid.Lattice
/-!
# Covered positions

A grid that is fitted to offsets has a pixel for each of them: in exact numbers both coordinates
of the offset, in the frame of the grid, lie within the tolerance and the closeness of positions
from those of the pixel. A row of pixels starts at its reference, and no pixel is missing at its
end, since the nearest pixel of every position is counted.

* `Axis.exists_pixel_near`: every position has a pixel on its axis.
* `Grid.pixelCentres_ofAxes`: the pixels of a grid are those of its axes.
* `Grid.exists_pixel_near_offset`: every offset has a pixel in the grid.
-/

namespace Heterodyne

variable {d : Bool}

namespace Axis

section Definitions

variable {α : Type} [Scalar α]

/-- The centre of the pixel with the given number; the first one has the number zero. -/
def pixelAt (a : Axis α) (k : Nat) : Arcsec α := a.reference + a.pixel * (Scalar.whole k : α)

/-- There are at most two distinct positions, or a gap between neighbouring ones that is above the
tolerance. -/
def Spread (positions : List α) (tolerance : Arcsec α) : Prop :=
  (distinctSorted positions).length ≤ 2 ∨
    ∃ gap ∈ gaps (distinctSorted positions), tolerance.value < gap

/-- The steps of a lattice that is fitted to the positions can be counted, and so can its pixels. -/
def StepsCounted (positions : List α) (tolerance : Arcsec α) : Prop :=
  ∀ steps, HasSteps positions tolerance steps → steps < 2 ^ 32 - 1

end Definitions

variable {K : Type} [Field K] [LinearOrder K] [IsStrictOrderedRing K] [FloorRing K]
  {F : Apparatus K}

/-! ## Positions and their pixels -/

section Lattice

variable {values : List (Exact F)} {first last reference trial tolerance v : Exact F}

/-- The nearest pixel of a position between the first and the last one is counted, and the
position lies within the tolerance of it. -/
theorem exists_step_near (htrial : 0 < trial.val)
    (haccept : trial < tolerance ∨ fits values reference trial tolerance = true)
    (hreference : |first.val - reference.val| < tolerance.val)
    (hlast : last ∈ values) (hv : v ∈ values) (hfirstv : first.val ≤ v.val)
    (hvlast : v.val ≤ last.val) :
    ∃ k ≤ Scalar.toNat (stepsTo last reference trial tolerance),
      |v.val - (reference.val + trial.val * k)| ≤ tolerance.val := by
  rw [toNat_stepsTo htrial haccept hlast]
  rcases lt_or_ge v.val reference.val with hbelow | habove
  · -- In front of the first pixel, the position is as near to it as the first position.
    refine ⟨0, Nat.zero_le _, ?_⟩
    rw [abs_lt] at hreference
    rw [Nat.cast_zero, mul_zero, add_zero, abs_le]
    constructor <;> linarith
  · have hquotient : 0 ≤ (v.val - reference.val) / trial.val :=
      div_nonneg (by linarith) htrial.le
    refine ⟨(roundAway ((v.val - reference.val) / trial.val)).toNat, ?_, ?_⟩
    · refine Int.toNat_le_toNat (roundAway_mono ?_)
      exact (div_le_div_iff_of_pos_right htrial).2 (by linarith)
    · have hcast : (((roundAway ((v.val - reference.val) / trial.val)).toNat : ℕ) : K) =
          roundAway ((v.val - reference.val) / trial.val) := by
        exact_mod_cast congrArg (Int.cast (R := K))
          (Int.toNat_of_nonneg (roundAway_nonneg hquotient))
      rw [hcast]
      exact abs_sub_step_le htrial (offWhole_le htrial haccept hv)

end Lattice

section Fitted

variable {positions : List (Exact F)} {nyquist tolerance : Arcsec (Exact F)} {a : Axis (Exact F)}

/-- Every distinct position has a pixel of the lattice. -/
theorem exists_pixel_near_distinct {v w x u : Exact F} {rest : List (Exact F)}
    (hsorted : (v :: w :: x :: rest).Pairwise fun a b => Scalar.before a b = true)
    (htolerance : 0 < tolerance.value.val) {gap : Exact F} {divisor : ℕ}
    (h : IsLattice (v :: w :: x :: rest) v ((x :: rest).getLast (List.cons_ne_nil x rest))
      tolerance.value gap divisor a) (hu : u ∈ v :: w :: x :: rest) :
    ∃ k < a.count.toNat, |u.val - (a.pixelAt k).value.val| ≤ tolerance.value.val := by
  obtain ⟨hdivisor, haccept⟩ := accept_of_fittingDivisor h.divisor_eq
  have hgap : 0 < gap.val := htolerance.trans (mem_gaps_of_least? h.gap_eq).2
  have htrial := (trial_bounds hgap hdivisor).1
  obtain ⟨hfirst, hlast⟩ := le_and_le_getLast hsorted hu
  obtain ⟨k, hk, hnear⟩ := exists_step_near htrial haccept (abs_sub_snapped_lt htolerance)
    (List.mem_cons_of_mem v (List.mem_cons_of_mem w (List.getLast_mem _))) hu hfirst hlast
  refine ⟨k, ?_, ?_⟩
  · rw [h.count_eq]
    omega
  · rw [pixelAt, h.reference_eq, h.pixel_eq]
    exact hnear

/-- Every position has a pixel on the axis that is fitted to the positions. -/
theorem exists_pixel_near (h : (fit positions nyquist tolerance).Yields d a)
    (htolerance : 0 < tolerance.value.val) (hspread : Spread positions tolerance) {p : Exact F}
    (hp : p ∈ positions) :
    ∃ k < a.count.toNat,
      |p.val - (a.pixelAt k).value.val| ≤ tolerance.value.val + 1 / 10 ^ 9 := by
  -- The position is close to a distinct one, which has a pixel.
  obtain ⟨u, hu, hclose⟩ := exists_distinct_close (Exact.close_self p) hp
  rw [Exact.close_iff] at hclose
  have hsorted := pairwise_distinctSorted positions
  suffices hdistinct : ∃ k < a.count.toNat,
      |u.val - (a.pixelAt k).value.val| ≤ tolerance.value.val by
    obtain ⟨k, hk, hnear⟩ := hdistinct
    refine ⟨k, hk, ?_⟩
    have htriangle := abs_sub_le p.val u.val (a.pixelAt k).value.val
    linarith
  unfold Spread at hspread
  cases fitted_of_yields h with
  | single hdistinct =>
    rw [hdistinct, List.mem_singleton] at hu
    subst hu
    refine ⟨0, (by decide : 0 < (1 : UInt32).toNat), ?_⟩
    simp [pixelAt, htolerance.le]
  | pair hdistinct =>
    rw [hdistinct] at hu
    rcases List.mem_pair.1 hu with rfl | rfl
    · refine ⟨0, (by decide : 0 < (2 : UInt32).toNat), ?_⟩
      simp [pixelAt, htolerance.le]
    · refine ⟨1, (by decide : 1 < (2 : UInt32).toNat), ?_⟩
      simp [pixelAt, htolerance.le]
  | together hdistinct hgaps =>
    rw [hdistinct] at hspread
    rcases hspread with hlength | ⟨gap, hgap, hlt⟩
    · simp at hlength
    · exact absurd hlt (hgaps gap hgap)
  | lattice hdistinct hlattice =>
    rw [hdistinct] at hu hsorted
    exact exists_pixel_near_distinct hsorted htolerance hlattice hu

/-- An axis overflows only if its steps cannot be counted. -/
theorem not_fitOverflows (htolerance : 0 < tolerance.value.val)
    (hcounted : StepsCounted positions tolerance) : ¬ FitOverflows positions tolerance := by
  rintro ⟨v, w, x, rest, hdistinct, gap, hgap, hendless | ⟨divisor, hdivisor, hsteps⟩⟩
  · exact not_searchEndless htolerance (htolerance.trans (mem_gaps_of_least? hgap).2) hendless
  · have hlt := hcounted _ ⟨v, w, x, rest, gap, divisor, hdistinct, hgap, hdivisor, rfl⟩
    omega

end Fitted

end Axis

/-! ## Grids of two axes -/

/-- Both coordinates of two offsets in a frame are at most a distance apart. -/
def Offset.Near {K : Type} [Field K] [LinearOrder K] [FloorRing K] {F : Apparatus K}
    (o p : Offset (Exact F)) (angle : Degrees (Exact F)) (distance : K) : Prop :=
  |(o.intoFrame angle).x.value.val - (p.intoFrame angle).x.value.val| ≤ distance ∧
    |(o.intoFrame angle).y.value.val - (p.intoFrame angle).y.value.val| ≤ distance

namespace Grid

section Definitions

variable {α : Type} [Scalar α]

/-- The first coordinates of offsets in a frame. -/
def columns (offsets : List (Offset α)) (angle : Degrees α) : List α :=
  offsets.map fun o => (o.intoFrame angle).x.value

/-- The second coordinates of offsets in a frame. -/
def rows (offsets : List (Offset α)) (angle : Degrees α) : List α :=
  offsets.map fun o => (o.intoFrame angle).y.value

/-- The pixels of two axes in the tangent plane, row by row. -/
def lattice (x y : Axis α) (angle : Degrees α) : List (Offset α) :=
  (List.range y.count.toNat).flatMap fun j =>
    (List.range x.count.toNat).map fun i => Offset.fromFrame ⟨x.pixelAt i, y.pixelAt j⟩ angle

/-- The pixel in a column and a row is one of the pixels. -/
theorem mem_lattice {x y : Axis α} {angle : Degrees α} {i j : ℕ} (hi : i < x.count.toNat)
    (hj : j < y.count.toNat) :
    Offset.fromFrame ⟨x.pixelAt i, y.pixelAt j⟩ angle ∈ lattice x y angle := by
  rw [lattice, List.mem_flatMap]
  exact ⟨j, List.mem_range.2 hj, List.mem_map.2 ⟨i, List.mem_range.2 hi, rfl⟩⟩

/-- A grid is fitted by its two axes. -/
theorem yields_fit_of_axes {offsets : List (Offset α)} {angle : Degrees α} {nyquist : Arcsec α}
    {factor : α} {x y : Axis α} (hnyquist : ¬ nyquist.value ≤ Scalar.zero)
    (hx : (Axis.fit (columns offsets angle) nyquist (nyquist * factor)).Yields d x)
    (hy : (Axis.fit (rows offsets angle) nyquist (nyquist * factor)).Yields d y) :
    ∃ grid, ofAxes x y angle = .ok grid ∧ (fit offsets angle nyquist factor).Yields d grid := by
  have hfails : ¬ Count.Fails (ofAxes x y angle) :=
    not_fails_ofAxes (Axis.count_fit_pos hx) (Axis.count_fit_pos hy)
  obtain ⟨grid, hgrid⟩ := Count.not_fails_iff.1 hfails
  refine ⟨grid, hgrid, ?_⟩
  rw [fit, if_neg hnyquist]
  simp only [List.map_map, Run.yields_bind, Run.yields_tell, Run.yields_ofCount, true_and]
  exact ⟨x, hx, y, hy, (), hgrid⟩

end Definitions

variable {K : Type} [Field K] [LinearOrder K] [FloorRing K] {F : Apparatus K}
  {x y : Axis (Exact F)} {angle : Degrees (Exact F)} {grid : Grid (Exact F)}

/-- A pixel is as far from the middle of its axis as its number is from half the last one. -/
theorem pixelAt_of_centre {a : Axis (Exact F)} {centre : Arcsec (Exact F)}
    (h : a.centre = .ok centre) :
    ∃ last, Count.sub a.count 1 = .ok last ∧ ∀ k : ℕ,
      (centre + a.pixel * (Scalar.whole k - Scalar.ofCount last / Scalar.whole 2 : Exact F)
        ).value.val = (a.pixelAt k).value.val := by
  rw [Axis.centre, check_bind_eq_ok] at h
  obtain ⟨last, hlast, h⟩ := h
  cases h
  refine ⟨last, hlast, fun k => ?_⟩
  simp only [Axis.pixelAt, Quantity.value_add, Quantity.value_mul, Exact.val_add, Exact.val_mul,
    Exact.val_sub, Exact.val_div]
  ring

/-- The pixels of a grid are those of its axes: the middle that the grid keeps is turned back, and
the pixels around it are where the axes have them. -/
theorem pixelCentres_ofAxes (h : ofAxes x y angle = .ok grid) :
    grid.pixelCentres = .ok (lattice x y angle) := by
  simp only [ofAxes, check_bind_eq_ok, pure, Except.pure, Except.ok.injEq] at h
  obtain ⟨cx, hcx, cy, hcy, rfl⟩ := h
  obtain ⟨lastX, hlastX, hpixelX⟩ := pixelAt_of_centre hcx
  obtain ⟨lastY, hlastY, hpixelY⟩ := pixelAt_of_centre hcy
  simp only [pixelCentres, hlastX, hlastY, Count.ok_bind, Exact.intoFrame_fromFrame, pure,
    Except.pure, Except.ok.injEq]
  refine List.flatMap_congr fun j _ => List.map_congr_left fun i _ => ?_
  exact congrArg (Offset.fromFrame · angle) (Exact.offset_ext (hpixelX i) (hpixelY j))

variable [IsStrictOrderedRing K]

/-- The grid that is fitted to offsets has a pixel for each of them, within the tolerance and the
closeness of positions along both axes of its frame; its pixels are those of the two fitted
axes. -/
theorem exists_pixel_near_offset {offsets : List (Offset (Exact F))}
    {nyquist : Arcsec (Exact F)} {factor : Exact F} (hoffsets : offsets ≠ [])
    (hnyquist : 0 < nyquist.value.val) (hfactor : 0 < factor.val)
    (hspreadX : Axis.Spread (columns offsets angle) (nyquist * factor))
    (hspreadY : Axis.Spread (rows offsets angle) (nyquist * factor))
    (hcountedX : Axis.StepsCounted (columns offsets angle) (nyquist * factor))
    (hcountedY : Axis.StepsCounted (rows offsets angle) (nyquist * factor)) :
    ∃ x y grid,
      (Axis.fit (columns offsets angle) nyquist (nyquist * factor)).Yields d x ∧
      (Axis.fit (rows offsets angle) nyquist (nyquist * factor)).Yields d y ∧
      (fit offsets angle nyquist factor).Yields d grid ∧
      grid.pixelCentres = .ok (lattice x y angle) ∧
      ∀ o ∈ offsets, ∃ p ∈ lattice x y angle,
        o.Near p angle (nyquist.value.val * factor.val + 1 / 10 ^ 9) := by
  have htolerance : 0 < (nyquist * factor).value.val := mul_pos hnyquist hfactor
  have hpositive : ¬ nyquist.value ≤ Scalar.zero := by
    rw [Exact.le_iff, Exact.val_zero]
    exact hnyquist.not_ge
  obtain ⟨x, hx⟩ :
      ∃ x, (Axis.fit (columns offsets angle) nyquist (nyquist * factor)).Yields d x :=
    Axis.exists_yields_fit (mt List.map_eq_nil_iff.1 hoffsets)
      (Axis.not_fitOverflows htolerance hcountedX)
  obtain ⟨y, hy⟩ : ∃ y, (Axis.fit (rows offsets angle) nyquist (nyquist * factor)).Yields d y :=
    Axis.exists_yields_fit (mt List.map_eq_nil_iff.1 hoffsets)
      (Axis.not_fitOverflows htolerance hcountedY)
  obtain ⟨grid, hgrid, hfit⟩ := yields_fit_of_axes hpositive hx hy
  refine ⟨x, y, grid, hx, hy, hfit, pixelCentres_ofAxes hgrid, fun o ho => ?_⟩
  obtain ⟨i, hi, hnearX⟩ := Axis.exists_pixel_near hx htolerance hspreadX
    (List.mem_map.2 ⟨o, ho, rfl⟩)
  obtain ⟨j, hj, hnearY⟩ := Axis.exists_pixel_near hy htolerance hspreadY
    (List.mem_map.2 ⟨o, ho, rfl⟩)
  refine ⟨Offset.fromFrame ⟨x.pixelAt i, y.pixelAt j⟩ angle, mem_lattice hi hj, ?_⟩
  rw [Offset.Near, Exact.intoFrame_fromFrame]
  exact ⟨hnearX, hnearY⟩

/-- Three offsets with the coordinates 25, 0, 10 and 7, 0, 0 in a turned frame. -/
def threeOffsets : List (Offset (Exact rationals)) :=
  [⟨⟨⟨79 / 5⟩⟩, ⟨⟨103 / 5⟩⟩⟩, ⟨⟨⟨0⟩⟩, ⟨⟨0⟩⟩⟩, ⟨⟨⟨8⟩⟩, ⟨⟨6⟩⟩⟩]

/-- Half of the smallest gap between the first coordinates is a pixel that fits. -/
theorem exists_pixel_near_threeOffsets :
    let angle : Degrees (Exact rationals) := ⟨⟨37⟩⟩
    let nyquist : Arcsec (Exact rationals) := ⟨⟨7⟩⟩
    let factor : Exact rationals := ⟨1 / 5⟩
    threeOffsets ≠ [] ∧ 0 < nyquist.value.val ∧ 0 < factor.val ∧
      Axis.Spread (columns threeOffsets angle) (nyquist * factor) ∧
      Axis.Spread (rows threeOffsets angle) (nyquist * factor) ∧
      Axis.StepsCounted (columns threeOffsets angle) (nyquist * factor) ∧
      Axis.StepsCounted (rows threeOffsets angle) (nyquist * factor) ∧
      ∃ x y grid,
        (Axis.fit (columns threeOffsets angle) nyquist (nyquist * factor)).Yields true x ∧
        (Axis.fit (rows threeOffsets angle) nyquist (nyquist * factor)).Yields true y ∧
        (fit threeOffsets angle nyquist factor).Yields true grid ∧
        grid.pixelCentres = .ok (lattice x y angle) ∧
        ∀ o ∈ threeOffsets, ∃ p ∈ lattice x y angle,
          o.Near p angle (nyquist.value.val * factor.val + 1 / 10 ^ 9) := by
  intro angle nyquist factor
  have hcolumns : columns threeOffsets angle = [⟨25⟩, ⟨0⟩, ⟨10⟩] := by decide +kernel
  have hrows : rows threeOffsets angle = [⟨7⟩, ⟨0⟩, ⟨0⟩] := by decide +kernel
  have hx : Axis.distinctSorted (columns threeOffsets angle) = [⟨0⟩, ⟨10⟩, ⟨25⟩] := by
    have hsort : (columns threeOffsets angle).mergeSort Scalar.before = [⟨0⟩, ⟨10⟩, ⟨25⟩] :=
      Axis.mergeSort_eq_of_perm (by rw [hcolumns]; decide +kernel) (by decide +kernel)
    rw [Axis.distinctSorted, hsort]
    decide +kernel
  have hy : Axis.distinctSorted (rows threeOffsets angle) = [⟨0⟩, ⟨7⟩] := by
    have hsort : (rows threeOffsets angle).mergeSort Scalar.before = [⟨0⟩, ⟨0⟩, ⟨7⟩] :=
      Axis.mergeSort_eq_of_perm (by rw [hrows]; decide +kernel) (by decide +kernel)
    rw [Axis.distinctSorted, hsort]
    decide +kernel
  have hspreadX : Axis.Spread (columns threeOffsets angle) (nyquist * factor) := by
    rw [Axis.Spread, hx]
    exact .inr ⟨⟨10⟩, by decide +kernel, by decide +kernel⟩
  have hspreadY : Axis.Spread (rows threeOffsets angle) (nyquist * factor) := by
    rw [Axis.Spread, hy]
    exact .inl (by decide)
  have hcountedX : Axis.StepsCounted (columns threeOffsets angle) (nyquist * factor) := by
    rintro steps ⟨v, w, x, rest, gap, divisor, hsorted, hgap, hdivisor, rfl⟩
    rw [hx] at hsorted
    cases hsorted
    have hten : gap = ⟨10⟩ := Option.some.inj (hgap.symm.trans (by decide +kernel))
    subst hten
    have htwo : divisor = 2 := Except.ok.inj (hdivisor.symm.trans (by decide +kernel))
    subst htwo
    decide +kernel
  have hcountedY : Axis.StepsCounted (rows threeOffsets angle) (nyquist * factor) := by
    rintro steps ⟨v, w, x, rest, gap, divisor, hsorted, -⟩
    rw [hy] at hsorted
    cases hsorted
  have hoffsets : threeOffsets ≠ [] := List.cons_ne_nil _ _
  have hnyquist : 0 < nyquist.value.val := by decide +kernel
  have hfactor : 0 < factor.val := by decide +kernel
  exact ⟨hoffsets, hnyquist, hfactor, hspreadX, hspreadY, hcountedX, hcountedY,
    exists_pixel_near_offset hoffsets hnyquist hfactor hspreadX hspreadY hcountedX hcountedY⟩

end Grid

end Heterodyne
