import Heterodyne.Proofs.Grid.Row
/-!
# Grids found again

The pixel centres of a grid, fitted at the angle of the grid, give the grid back: its pixels in
number and size, and its centre but for less than the tolerance. The centre moves only along an
axis of at least three pixels, whose reference is put on a multiple of the pixel if one is near.

* `pixelCentres_eq_crossings`: the pixel centres are the crossings of two rows.
* `fit_pixelCentres`: the grid that is fitted to them.
* `not_yields_fit_pixelCentres`: a Nyquist value below zero has no grid, whatever the tolerance.
-/

namespace Heterodyne

namespace Grid

open Axis (IsRow rowReference snapped abs_sub_snapped_lt)

variable {d : Bool} {K : Type} [Field K] {F : Apparatus K} {g : Grid (Exact F)}

/-- The place of the first of `n` pixels around a middle. -/
def firstPixel (middle pixel : K) (n : ℕ) : K := middle - pixel * ((n - 1) / (2 : ℕ))

/-- The first of `n` pixels is half of the last one's number away from the middle. -/
theorem firstPixel_eq (middle pixel : K) (n : ℕ) :
    firstPixel middle pixel n = middle - pixel * ((n - 1) / 2) := by
  rw [firstPixel, Nat.cast_ofNat]

/-- The middle of the pixels around a middle. -/
theorem firstPixel_add_half (middle pixel : K) (n : ℕ) :
    firstPixel middle pixel n + pixel * ((n - 1) / 2) = middle := by
  rw [firstPixel_eq, sub_add_cancel]

variable [LinearOrder K] [FloorRing K]

/-- The pixels of a grid are the crossings of two rows around its centre. -/
theorem pixelCentres_eq_crossings (hnx : 1 ≤ g.nx.toNat) (hny : 1 ≤ g.ny.toNat) :
    g.pixelCentres = .ok (crossings
      (firstPixel (g.centre.intoFrame g.angle).x.value.val g.pixelX.value.val g.nx.toNat)
      g.pixelX.value.val
      (firstPixel (g.centre.intoFrame g.angle).y.value.val g.pixelY.value.val g.ny.toNat)
      g.pixelY.value.val g.nx.toNat g.ny.toNat g.angle) := by
  obtain ⟨lastX, hlastX, hhalfX⟩ := Axis.exists_half (F := F) hnx
  obtain ⟨lastY, hlastY, hhalfY⟩ := Axis.exists_half (F := F) hny
  simp only [pixelCentres, hlastX, hlastY, Count.ok_bind, pure, Except.pure, Except.ok.injEq]
  unfold crossings
  refine List.flatMap_congr fun j _ => List.map_congr_left fun i _ => ?_
  apply congrArg (Offset.fromFrame · g.angle)
  apply Exact.offset_ext
  · simp only [pixelAt, Quantity.value_add, Quantity.value_mul, Exact.val_add, Exact.val_mul,
      Exact.val_sub, Exact.val_whole, hhalfX, firstPixel_eq]
    ring
  · simp only [pixelAt, Quantity.value_add, Quantity.value_mul, Exact.val_add, Exact.val_mul,
      Exact.val_sub, Exact.val_whole, hhalfY, firstPixel_eq]
    ring

/-- The coordinates of the pixel centres are those of two rows. -/
theorem exists_pixelCentres (hnx : 1 ≤ g.nx.toNat) (hny : 1 ≤ g.ny.toNat) :
    ∃ centres, g.pixelCentres = .ok centres ∧
      (∀ v, v ∈ columns centres g.angle ↔ v ∈ Axis.row
        (firstPixel (g.centre.intoFrame g.angle).x.value.val g.pixelX.value.val g.nx.toNat)
        g.pixelX.value.val g.nx.toNat) ∧
      (∀ v, v ∈ rows centres g.angle ↔ v ∈ Axis.row
        (firstPixel (g.centre.intoFrame g.angle).y.value.val g.pixelY.value.val g.ny.toNat)
        g.pixelY.value.val g.ny.toNat) :=
  ⟨_, pixelCentres_eq_crossings hnx hny, mem_columns_crossings g.angle hny,
    mem_rows_crossings g.angle hnx⟩

variable [IsStrictOrderedRing K] {nyquist : Arcsec (Exact F)} {factor : Exact F}

/-- The reference of a fitted row lies less than the tolerance beside its first position. -/
theorem abs_rowReference_sub_lt {tolerance : Arcsec (Exact F)} {n : ℕ}
    (htolerance : 0 < tolerance.value.val) (first step : K) :
    |(rowReference tolerance first step n).val - first| < tolerance.value.val := by
  unfold rowReference
  split
  · rwa [sub_self, abs_zero]
  · rw [abs_sub_comm]
    exact abs_sub_snapped_lt htolerance

/-- A row whose step is at least twice the tolerance and not below the closeness is found
again. -/
theorem isRow_of_two_mul_le {positions : List (Exact F)} (tolerance : Arcsec (Exact F))
    {first step : K} {n : UInt32} (hmem : ∀ v, v ∈ positions ↔ v ∈ Axis.row first step n.toNat)
    (hn : 1 ≤ n.toNat) (htolerance : 0 < tolerance.value.val)
    (hstep : 2 * tolerance.value.val ≤ step) (hclose : 1 / 10 ^ 9 ≤ step) :
    IsRow positions tolerance first step n.toNat where
  mem_iff := hmem
  one_le := hn
  isCount := n.toNat_lt
  closeness_le := hclose
  tolerance_lt := by linarith
  phase_lt := by
    have hnear : |first - (snapped ⟨first⟩ ⟨step⟩ tolerance.value).val| < tolerance.value.val :=
      abs_sub_snapped_lt htolerance
    linarith

/-- Nothing is fitted if the Nyquist value is not above zero. -/
theorem refuses_fit (offsets : List (Offset (Exact F))) (angle : Degrees (Exact F))
    (h : nyquist.value.val ≤ 0) :
    (fit offsets angle nyquist factor).Refuses d (.gridNyquistNotPositive nyquist) := by
  rw [fit, if_pos (Exact.le_zero_iff.2 h)]
  exact Run.refuses_refuse.2 rfl

/-- The pixel centres of a grid with at least one pixel, whose pixels are at least twice the
tolerance and not below the closeness, are fitted at its angle with a grid of as many pixels of
the same size; a single pixel gets the Nyquist size. The centre is less than the tolerance away on
each axis, and in its place on an axis of at most two pixels. If the Nyquist value is below zero,
as the tolerance is positive if both its factors are, the fit is refused. -/
theorem fit_pixelCentres (hnx : 1 ≤ g.nx.toNat) (hny : 1 ≤ g.ny.toNat)
    (htolerance : 0 < nyquist.value.val * factor.val)
    (hpixelX : 2 * (nyquist.value.val * factor.val) ≤ g.pixelX.value.val)
    (hpixelY : 2 * (nyquist.value.val * factor.val) ≤ g.pixelY.value.val)
    (hcloseX : 1 / 10 ^ 9 ≤ g.pixelX.value.val) (hcloseY : 1 / 10 ^ 9 ≤ g.pixelY.value.val) :
    ∃ centres, g.pixelCentres = .ok centres ∧
      (nyquist.value.val < 0 →
        (fit centres g.angle nyquist factor).Refuses d (.gridNyquistNotPositive nyquist)) ∧
      (0 < nyquist.value.val →
        ∃ found, (fit centres g.angle nyquist factor).Yields d found ∧
          found.nx = g.nx ∧ found.ny = g.ny ∧ found.angle = g.angle ∧
          found.pixelX = (if g.nx = 1 then nyquist else g.pixelX) ∧
          found.pixelY = (if g.ny = 1 then nyquist else g.pixelY) ∧
          |(found.centre.intoFrame g.angle).x.value.val -
            (g.centre.intoFrame g.angle).x.value.val| < nyquist.value.val * factor.val ∧
          |(found.centre.intoFrame g.angle).y.value.val -
            (g.centre.intoFrame g.angle).y.value.val| < nyquist.value.val * factor.val ∧
          (g.nx ≤ 2 → (found.centre.intoFrame g.angle).x = (g.centre.intoFrame g.angle).x) ∧
          (g.ny ≤ 2 → (found.centre.intoFrame g.angle).y = (g.centre.intoFrame g.angle).y)) := by
  obtain ⟨centres, hcentres, hcolumns, hrows⟩ := exists_pixelCentres hnx hny
  refine ⟨centres, hcentres, ?_, ?_⟩
  · intro hnegative
    exact refuses_fit centres g.angle hnegative.le
  · intro hpositive
    have hx := isRow_of_two_mul_le (nyquist * factor) hcolumns hnx htolerance
      hpixelX hcloseX
    have hy := isRow_of_two_mul_le (nyquist * factor) hrows hny htolerance
      hpixelY hcloseY
    obtain ⟨found, hyields, hcountX, hcountY, hangle, hsizeX, hsizeY, hmiddleX, hmiddleY⟩ :=
      exists_yields_fit_rows (d := d) hpositive htolerance hx hy
    rw [firstPixel_add_half] at hmiddleX hmiddleY
    refine ⟨found, hyields, UInt32.toNat_inj.1 hcountX, UInt32.toNat_inj.1 hcountY, hangle,
      ?_, ?_, ?_, ?_, ?_, ?_⟩
    · simp only [hsizeX, ← UInt32.toNat_inj, UInt32.toNat_one]
    · simp only [hsizeY, ← UInt32.toNat_inj, UInt32.toNat_one]
    · rw [hmiddleX, add_sub_cancel_left]
      exact abs_rowReference_sub_lt htolerance _ _
    · rw [hmiddleY, add_sub_cancel_left]
      exact abs_rowReference_sub_lt htolerance _ _
    · intro hfew
      have htwo : g.nx.toNat ≤ 2 := UInt32.le_iff_toNat_le.1 hfew
      rw [rowReference, if_pos htwo, sub_self, add_zero] at hmiddleX
      exact congrArg Quantity.mk (Exact.ext hmiddleX)
    · intro hfew
      have htwo : g.ny.toNat ≤ 2 := UInt32.le_iff_toNat_le.1 hfew
      rw [rowReference, if_pos htwo, sub_self, add_zero] at hmiddleY
      exact congrArg Quantity.mk (Exact.ext hmiddleY)

/-- Pixels of 3 arc seconds around an offset that is 2 and 1 arc seconds from the origin in the
frame at 37 degrees. -/
def fourByTwo (angle : Degrees (Exact rationals)) : Grid (Exact rationals) :=
  ⟨4, 2, ⟨⟨3⟩⟩, ⟨⟨3⟩⟩, ⟨⟨⟨1⟩⟩, ⟨⟨2⟩⟩⟩, angle⟩

/-- A turned grid whose first column, at -2.5, is put at -3. -/
theorem fit_pixelCentres_fourByTwo :
    let g := fourByTwo ⟨⟨37⟩⟩
    let nyquist : Arcsec (Exact rationals) := ⟨⟨7⟩⟩
    let factor : Exact rationals := ⟨1 / 5⟩
    1 ≤ g.nx.toNat ∧ 1 ≤ g.ny.toNat ∧ 0 < nyquist.value.val * factor.val ∧
      2 * (nyquist.value.val * factor.val) ≤ g.pixelX.value.val ∧
      2 * (nyquist.value.val * factor.val) ≤ g.pixelY.value.val ∧
      1 / 10 ^ 9 ≤ g.pixelX.value.val ∧ 1 / 10 ^ 9 ≤ g.pixelY.value.val ∧
      0 < nyquist.value.val ∧
      ∃ centres found, g.pixelCentres = .ok centres ∧
        (fit centres g.angle nyquist factor).Yields true found ∧
        found.nx = 4 ∧ found.ny = 2 ∧ found.pixelX = ⟨⟨3⟩⟩ ∧ found.pixelY = ⟨⟨3⟩⟩ ∧
        |(found.centre.intoFrame g.angle).x.value.val - 2| < 7 / 5 ∧
        (found.centre.intoFrame g.angle).y = ⟨⟨1⟩⟩ := by
  intro g nyquist factor
  have hpositive : 0 < nyquist.value.val := by decide +kernel
  have htolerance : nyquist.value.val * factor.val = 7 / 5 := by decide +kernel
  have hcentreX : (g.centre.intoFrame g.angle).x.value.val = 2 := by decide +kernel
  have hcentreY : (g.centre.intoFrame g.angle).y = ⟨⟨1⟩⟩ := by decide +kernel
  have hone : 1 ≤ g.nx.toNat ∧ 1 ≤ g.ny.toNat := by decide
  have habove : 0 < nyquist.value.val * factor.val ∧
      2 * (nyquist.value.val * factor.val) ≤ (3 : ℚ) ∧ 1 / 10 ^ 9 ≤ (3 : ℚ) := by
    rw [htolerance]
    norm_num
  obtain ⟨centres, hcentres, -, hfound⟩ := fit_pixelCentres (d := true) hone.1 hone.2 habove.1
    habove.2.1 habove.2.1 habove.2.2 habove.2.2
  obtain ⟨found, hyields, hnx, hny, -, hpixelX, hpixelY, hnear, -, -, hsame⟩ := hfound hpositive
  refine ⟨hone.1, hone.2, habove.1, habove.2.1, habove.2.1, habove.2.2, habove.2.2, hpositive,
    centres, found, hcentres, hyields, hnx, hny, hpixelX, hpixelY, ?_, ?_⟩
  · rw [← htolerance, ← hcentreX]
    exact hnear
  · rw [← hcentreY]
    exact hsame (by decide)

/-- A tolerance above zero, as the product of two numbers below zero, does not make up for a
Nyquist value below zero. -/
theorem not_yields_fit_pixelCentres :
    let g := fourByTwo ⟨⟨0⟩⟩
    let nyquist : Arcsec (Exact rationals) := ⟨⟨-7⟩⟩
    let factor : Exact rationals := ⟨-1 / 5⟩
    1 ≤ g.nx.toNat ∧ 1 ≤ g.ny.toNat ∧ 0 < nyquist.value.val * factor.val ∧
      2 * (nyquist.value.val * factor.val) ≤ g.pixelX.value.val ∧
      2 * (nyquist.value.val * factor.val) ≤ g.pixelY.value.val ∧
      1 / 10 ^ 9 ≤ g.pixelX.value.val ∧ 1 / 10 ^ 9 ≤ g.pixelY.value.val ∧
      ∃ centres, g.pixelCentres = .ok centres ∧
        ∀ d found, ¬ (fit centres g.angle nyquist factor).Yields d found := by
  intro g nyquist factor
  obtain ⟨centres, hcentres, -, -⟩ := exists_pixelCentres (g := g) (by decide) (by decide)
  refine ⟨by decide, by decide, by decide +kernel, by decide +kernel, by decide +kernel,
    by decide +kernel, by decide +kernel, centres, hcentres, ?_⟩
  intro d found hyields
  exact hyields.not_refuses _ (refuses_fit centres g.angle (by decide +kernel))

end Grid

end Heterodyne
