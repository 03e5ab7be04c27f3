import Heterodyne.Cube
import Heterodyne.Proofs.Outcome
import Mathlib.Logic.Basic
/-!
# When grids overflow

Laying out the grid of an observation breaks off if an axis has too many pixels to be counted, or
if the search for a pixel that fits goes on for ever. Nothing else in it can fail: every axis has
a pixel, so it has a middle.

* `firstAccepted?_eq_none_iff`: when the search for a divisor is lost.
* `Axis.breaksOff_fit_iff`, `Grid.breaksOff_fit_iff`: when fitting breaks off.
* `breaksOff_cubes_iff`: when the cubes of an observation break off.
-/

namespace Heterodyne

open Heterodyne.Count (Fails)

variable {α : Type} [Scalar α] {d : Bool}

/-! ## Middles -/

/-- An axis with a pixel has a middle. -/
theorem Axis.not_fails_centre {a : Axis α} (h : 0 < a.count.toNat) : ¬ Fails a.centre := by
  rw [Axis.centre, Count.fails_bind, Count.fails_sub, UInt32.toNat_one]
  rintro (hlt | ⟨last, -, hmiddle⟩)
  · omega
  · exact Count.not_fails_ok hmiddle

/-- Two axes with pixels have a grid. -/
theorem Grid.not_fails_ofAxes {x y : Axis α} {angle : Degrees α} (hx : 0 < x.count.toNat)
    (hy : 0 < y.count.toNat) : ¬ Fails (Grid.ofAxes x y angle) := by
  rw [Grid.ofAxes, Count.fails_bind]
  rintro (hfails | ⟨cx, -, hfails⟩)
  · exact Axis.not_fails_centre hx hfails
  · rw [Count.fails_bind] at hfails
    rcases hfails with hfails | ⟨cy, -, hgrid⟩
    · exact Axis.not_fails_centre hy hfails
    · exact Count.not_fails_ok hgrid

/-! ## Rasters -/

namespace Raster

/-- An axis of a length has more samples than there are counts. -/
def AxisOverflows (length spacing : Arcsec α) : Prop :=
  2 ^ 32 - 1 ≤ Scalar.toNat (Scalar.ceil (length / spacing : α))

/-- The axis of a raster fails exactly if it overflows. -/
theorem fails_axis_iff {length spacing : Arcsec α} :
    Fails (axis length spacing) ↔ AxisOverflows length spacing := by
  rw [axis, Count.fails_bind, Count.fails_toCount_add_one]
  refine or_iff_left ?_
  rintro ⟨count, hcount, hrest⟩
  have hpos := Count.pos_of_add_one hcount
  rw [Count.fails_bind, Count.fails_sub, UInt32.toNat_one] at hrest
  rcases hrest with hlt | ⟨last, -, haxis⟩
  · omega
  · exact Count.not_fails_ok haxis

/-- The axis of a raster has a pixel. -/
theorem count_axis_pos {length spacing : Arcsec α} {a : Axis α} (h : axis length spacing = .ok a) :
    0 < a.count.toNat := by
  simp only [axis, check_bind_eq_ok, pure, Except.pure, Except.ok.injEq] at h
  obtain ⟨count, hcount, last, -, rfl⟩ := h
  exact Count.pos_of_add_one hcount

/-- The grid of a raster fails exactly if one of its axes overflows. -/
theorem fails_grid_iff {r : Raster α} :
    Fails r.grid ↔ AxisOverflows r.width r.dx ∨ AxisOverflows r.height r.dy := by
  rw [grid, Count.fails_bind, fails_axis_iff]
  refine or_congr_right' fun hwidth => ?_
  obtain ⟨x, hx⟩ := Count.not_fails_iff.1 (mt fails_axis_iff.1 hwidth)
  constructor
  · rintro ⟨x', hx', hrest⟩
    rw [Count.fails_bind, fails_axis_iff] at hrest
    rcases hrest with hheight | ⟨y, hy, hgrid⟩
    · exact hheight
    · exact absurd hgrid (Grid.not_fails_ofAxes (count_axis_pos hx') (count_axis_pos hy))
  · intro hheight
    exact ⟨x, hx, Count.fails_bind.2 (.inl (fails_axis_iff.2 hheight))⟩

end Raster

/-! ## The search for a divisor -/

namespace Axis

/-- The search is lost exactly if it rejects every divisor it reaches: the first one, and each
one behind divisors that grow. -/
theorem firstAccepted?_eq_none_iff {accept grows : Nat → Bool} {tries d : Nat} :
    firstAccepted? accept grows tries d = none ↔
      ∀ n, d ≤ n → n < d + tries → (∀ m, d ≤ m → m < n → grows m = true) → accept n = false := by
  induction tries generalizing d with
  | zero =>
    refine iff_of_true rfl ?_
    intro n hle hlt
    omega
  | succ tries ih =>
    unfold firstAccepted?
    by_cases haccept : accept d = true
    · rw [if_pos haccept]
      refine iff_of_false (by simp) fun hall => ?_
      have hrejects := hall d (Nat.le_refl d) (by omega) fun m hle hlt => by omega
      rw [hrejects] at haccept
      cases haccept
    · rw [if_neg haccept]
      by_cases hgrows : grows d = true
      · rw [if_pos hgrows, ih]
        constructor
        · intro hall n hle hlt hreached
          rcases Nat.eq_or_lt_of_le hle with rfl | hbehind
          · simpa using haccept
          · exact hall n hbehind (by omega) fun m hm => hreached m (by omega)
        · intro hall n hle hlt hreached
          refine hall n (by omega) (by omega) fun m hm hmn => ?_
          rcases Nat.eq_or_lt_of_le hm with rfl | hbehind
          · exact hgrows
          · exact hreached m hbehind hmn
      · rw [if_neg hgrows]
        refine iff_of_true rfl fun n hle hlt hreached => ?_
        rcases Nat.eq_or_lt_of_le hle with rfl | hbehind
        · simpa using haccept
        · exact absurd (hreached d (Nat.le_refl d) hbehind) hgrows

/-- No divisor that is reached makes a trial pixel that falls below the tolerance or fits. -/
def SearchEndless (values : List α) (reference gap tolerance : α) : Prop :=
  ∀ n, 1 ≤ n → n < 1 + divisorTries gap tolerance →
    (∀ m, 1 ≤ m → m < n → (Scalar.whole m : α) < Scalar.whole (m + 1)) →
    ¬ gap / Scalar.whole n < tolerance ∧
      fits values reference (gap / Scalar.whole n) tolerance = false

/-- No divisor is found exactly if the search is endless. -/
theorem fails_fittingDivisor_iff {values : List α} {reference gap tolerance : α} :
    Fails (fittingDivisor values reference gap tolerance) ↔
      SearchEndless values reference gap tolerance := by
  unfold fittingDivisor SearchEndless
  dsimp only
  split
  · rename_i divisor hfound
    have hne := Option.ne_none_iff_exists'.2 ⟨divisor, hfound⟩
    rw [Ne, firstAccepted?_eq_none_iff] at hne
    simp only [decide_eq_true_eq, Bool.or_eq_false_iff, decide_eq_false_iff_not] at hne
    exact iff_of_false Count.not_fails_ok hne
  · rename_i hnone
    rw [firstAccepted?_eq_none_iff] at hnone
    simp only [decide_eq_true_eq, Bool.or_eq_false_iff, decide_eq_false_iff_not] at hnone
    exact iff_of_true Count.fails_error hnone

/-! ## Fitted axes -/

/-- The search for a pixel is endless, or too many pixels of the size that is found are needed. -/
def LatticeOverflows (values : List α) (first last tolerance : α) : Prop :=
  ∃ gap, least? ((gaps values).filter fun gap => tolerance < gap) = some gap ∧
    (SearchEndless values (snapped first gap tolerance) gap tolerance ∨
      ∃ divisor,
        fittingDivisor values (snapped first gap tolerance) gap tolerance = .ok divisor ∧
        2 ^ 32 - 1 ≤ Scalar.toNat (stepsTo last (snapped first gap tolerance)
          (gap / Scalar.whole divisor) tolerance))

/-- Fitting a lattice breaks off exactly if it overflows. -/
theorem breaksOff_fitLattice_iff {values : List α} {first last tolerance : α} :
    (fitLattice values first last tolerance).BreaksOff d ↔
      LatticeOverflows values first last tolerance := by
  unfold fitLattice LatticeOverflows
  split
  · rename_i hnone
    simp [hnone]
  · rename_i gap hgap
    simp only [hgap, Option.some.injEq, exists_eq_left', Run.breaksOff_bind,
      Run.breaksOff_ofCount, fails_fittingDivisor_iff, Run.yields_ofCount,
      Run.not_breaksOff_tellAll, Run.not_breaksOff_pure, Run.yields_tellAll,
      Count.fails_toCount_add_one, true_and, exists_const, and_false, or_false, false_or]

/-- At least three distinct positions need a lattice that overflows. -/
def FitOverflows (positions : List α) (tolerance : Arcsec α) : Prop :=
  ∃ v w x rest, distinctSorted positions = v :: w :: x :: rest ∧
    LatticeOverflows (v :: w :: x :: rest) v ((x :: rest).getLast (List.cons_ne_nil x rest)) tolerance.value

/-- Fitting an axis breaks off exactly if it overflows. -/
theorem breaksOff_fit_iff {positions : List α} {nyquist tolerance : Arcsec α} :
    (fit positions nyquist tolerance).BreaksOff d ↔ FitOverflows positions tolerance := by
  unfold fit FitOverflows
  split
  · rename_i h
    simp [h]
  · rename_i v h
    simp [h]
  · rename_i v w h
    simp [h]
  · rename_i v w x rest h
    rw [breaksOff_fitLattice_iff]
    simp only [h, List.cons.injEq]
    constructor
    · intro hlattice
      exact ⟨v, w, x, rest, ⟨rfl, rfl, rfl, rfl⟩, hlattice⟩
    · rintro ⟨_, _, _, _, ⟨rfl, rfl, rfl, rfl⟩, hlattice⟩
      exact hlattice

/-- Distinct positions come from positions. -/
theorem ne_nil_of_fitOverflows {positions : List α} {tolerance : Arcsec α}
    (h : FitOverflows positions tolerance) : positions ≠ [] := by
  rintro rfl
  obtain ⟨v, w, x, rest, hsorted, -⟩ := h
  simp [distinctSorted] at hsorted

/-- An axis is refused without positions only. -/
theorem eq_nil_of_refuses_fit {positions : List α} {nyquist tolerance : Arcsec α}
    {cause : Refusal α} (h : (fit positions nyquist tolerance).Refuses d cause) :
    positions = [] := by
  unfold fit at h
  split at h
  · rename_i hsorted
    unfold distinctSorted at hsorted
    split at hsorted
    · rename_i hempty
      have hlength := congrArg List.length hempty
      rw [List.length_mergeSort] at hlength
      exact List.eq_nil_of_length_eq_zero hlength
    · cases hsorted
  · simp at h
  · simp at h
  · unfold fitLattice at h
    split at h
    · simp at h
    · simp only [Run.refuses_bind, Run.not_refuses_ofCount, Run.not_refuses_tellAll,
        Run.not_refuses_pure, and_false, exists_false, or_false] at h

/-- A fitted axis has a pixel. -/
theorem count_fit_pos {positions : List α} {nyquist tolerance : Arcsec α} {a : Axis α}
    (h : (fit positions nyquist tolerance).Yields d a) : 0 < a.count.toNat := by
  unfold fit at h
  split at h
  · simp at h
  · rw [Run.yields_pure] at h
    subst h
    show 0 < (1 : UInt32).toNat
    decide
  · rw [Run.yields_pure] at h
    subst h
    show 0 < (2 : UInt32).toNat
    decide
  · unfold fitLattice at h
    split at h
    · rw [Run.yields_pure] at h
      subst h
      show 0 < (1 : UInt32).toNat
      decide
    · simp only [Run.yields_bind, Run.yields_ofCount, Run.yields_pure] at h
      obtain ⟨divisor, -, -, -, count, hcount, rfl⟩ := h
      exact Count.pos_of_add_one hcount

end Axis

/-! ## Fitted grids -/

namespace Grid

/-- The positions of offsets along the two axes of a frame overflow on one of them. -/
def FitOverflows (offsets : List (Offset α)) (angle : Degrees α) (nyquist : Arcsec α)
    (toleranceFactor : α) : Prop :=
  let turned := offsets.map (·.intoFrame angle)
  ¬ nyquist.value ≤ Scalar.zero ∧
    (Axis.FitOverflows (turned.map (·.x.value)) (nyquist * toleranceFactor) ∨
      Axis.FitOverflows (turned.map (·.y.value)) (nyquist * toleranceFactor))

/-- Fitting a grid breaks off exactly if it overflows. -/
theorem breaksOff_fit_iff {offsets : List (Offset α)} {angle : Degrees α} {nyquist : Arcsec α}
    {toleranceFactor : α} :
    (fit offsets angle nyquist toleranceFactor).BreaksOff d ↔
      FitOverflows offsets angle nyquist toleranceFactor := by
  unfold fit FitOverflows
  by_cases hnyquist : nyquist.value ≤ Scalar.zero
  · simp [hnyquist]
  · simp only [hnyquist, if_false, not_false_eq_true, true_and]
    rw [Run.breaksOff_bind, Axis.breaksOff_fit_iff]
    refine or_congr_right' fun hx => ?_
    constructor
    · rintro ⟨x, hfitX, hrest⟩
      rw [Run.breaksOff_bind, Axis.breaksOff_fit_iff] at hrest
      rcases hrest with hy | ⟨y, hfitY, hgrid⟩
      · exact hy
      · simp only [Run.breaksOff_bind, Run.not_breaksOff_tell, Run.breaksOff_ofCount,
          Run.yields_tell, true_and, exists_const, false_or] at hgrid
        exact absurd hgrid
          (not_fails_ofAxes (Axis.count_fit_pos hfitX) (Axis.count_fit_pos hfitY))
    · intro hy
      -- Both axes have as many positions as there are offsets, so neither is refused.
      rcases Run.yields_or_refuses (mt Axis.breaksOff_fit_iff.1 hx) with
        ⟨x, hfitX⟩ | ⟨cause, hcause⟩
      · exact ⟨x, hfitX, Run.breaksOff_bind.2 (.inl (Axis.breaksOff_fit_iff.2 hy))⟩
      · have hnone := Axis.eq_nil_of_refuses_fit hcause
        have hsome := Axis.ne_nil_of_fitOverflows hy
        rw [List.map_eq_nil_iff] at hnone
        rw [hnone] at hsome
        exact absurd rfl hsome

end Grid

/-! ## Observations -/

/-- The grid of an observation overflows; a focus observation has a single position. -/
def Descriptor.GridOverflows (o : Descriptor α) (settings : Settings α) : Prop :=
  match o.movement with
  | .raster r => Raster.AxisOverflows r.width r.dx ∨ Raster.AxisOverflows r.height r.dy
  | .stare s => Grid.FitOverflows s.offsets s.angle o.nyquist settings.gridTolerance
  | .jiggle j => Grid.FitOverflows j.offsets j.angle o.nyquist settings.gridTolerance
  | .pointing j => Grid.FitOverflows j.offsets j.angle o.nyquist settings.gridTolerance
  | .focus _ => False

/-- A single position does not overflow. -/
theorem Axis.not_fitOverflows_singleton {v : α} {tolerance : Arcsec α} :
    ¬ Axis.FitOverflows [v] tolerance := by
  rintro ⟨_, _, _, _, hsorted, -⟩
  simp [distinctSorted, thinOut] at hsorted

/-- Laying out the grid of an observation breaks off exactly if it overflows. -/
theorem breaksOff_spatialGrid_iff {o : Descriptor α} {settings : Settings α} :
    (o.spatialGrid settings).BreaksOff d ↔ o.GridOverflows settings := by
  unfold Descriptor.spatialGrid Descriptor.GridOverflows
  cases o.movement with
  | raster r => exact Run.breaksOff_ofCount.trans Raster.fails_grid_iff
  | stare s => exact Grid.breaksOff_fit_iff
  | jiggle j => exact Grid.breaksOff_fit_iff
  | pointing j => exact Grid.breaksOff_fit_iff
  | focus f =>
    refine Grid.breaksOff_fit_iff.trans (iff_of_false ?_ not_false)
    rintro ⟨-, hx | hy⟩
    · exact Axis.not_fitOverflows_singleton hx
    · exact Axis.not_fitOverflows_singleton hy

/-- Laying out the cubes of an observation breaks off exactly if its grid overflows. -/
theorem breaksOff_cubes_iff {o : Descriptor α} {plan : Plan α} {settings : Settings α} :
    (o.cubes plan settings).BreaksOff d ↔ o.GridOverflows settings := by
  rw [Descriptor.cubes, Run.breaksOff_bind, breaksOff_spatialGrid_iff]
  simp

end Heterodyne
