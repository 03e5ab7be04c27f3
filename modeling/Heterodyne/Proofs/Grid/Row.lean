import Heterodyne.Proofs.Grid.Divisor
import Mathlib.Data.List.Sort
/-!
# Rows of positions

Positions in a row of equal steps are fitted with the row they come from: the gap between
neighbours is the pixel, and the first divisor does, since all positions are as far from the
lattice as the first one. The reference may lie beside the first position, on the nearest multiple
of the step; all positions have a pixel of their own if it is less than half a step away.

* `distinctSorted_eq_of_mem_iff`: positions that are apart are the distinct ones of any list of
  them, however often each is given.
* `fittingDivisor_row`: the pixel of a row is its step.
* `exists_yields_fit_row`: the axis that is fitted to a row, and its middle.
-/

namespace Heterodyne

namespace Axis

variable {d : Bool} {K : Type} [Field K] {F : Apparatus K} {first step : K} {n : ℕ}

/-! ## Rows -/

/-- Positions in equal steps. -/
def row (first step : K) (n : ℕ) : List (Exact F) :=
  (List.range n).map fun k : ℕ => ⟨first + step * k⟩

/-- Behind its first position a row goes on a step further. -/
theorem row_succ (first step : K) (n : ℕ) :
    (row first step (n + 1) : List (Exact F)) = ⟨first⟩ :: row (first + step) step n := by
  unfold row
  rw [List.range_succ_eq_map, List.map_cons, List.map_map]
  congr 1
  · apply Exact.ext
    simp
  · apply List.map_congr_left
    intro k _
    apply Exact.ext
    simp only [Function.comp_apply, Nat.cast_succ]
    ring

/-- The positions of a row. -/
theorem mem_row {v : Exact F} : v ∈ row first step n ↔ ∃ k < n, v.val = first + step * k := by
  unfold row
  rw [List.mem_map]
  constructor
  · rintro ⟨k, hk, rfl⟩
    exact ⟨k, List.mem_range.1 hk, rfl⟩
  · rintro ⟨k, hk, hv⟩
    exact ⟨k, List.mem_range.2 hk, Exact.ext hv.symm⟩

/-- The last position of a row. -/
theorem getLast_row (first step : K) (n : ℕ) :
    ((⟨first⟩ : Exact F) :: row (first + step) step n).getLast (List.cons_ne_nil _ _) =
      ⟨first + step * n⟩ := by
  induction n generalizing first with
  | zero =>
    apply Exact.ext
    simp [row]
  | succ n ih =>
    apply Exact.ext
    simp only [row_succ, List.getLast_cons_cons, ih, Nat.cast_succ]
    ring

variable [LinearOrder K]

/-! ## Gaps and middles -/

section Gaps

variable [FloorRing K]

/-- All gaps of a row are its step. -/
theorem gap_eq_step {gap : Exact F} (h : gap ∈ gaps (row first step n)) :
    gap = ⟨step⟩ := by
  induction n generalizing first with
  | zero => cases h
  | succ n ih =>
    cases n with
    | zero => cases h
    | succ n =>
      rw [row_succ, row_succ] at h
      rcases List.mem_cons.1 h with rfl | hbehind
      · apply Exact.ext
        simp
      · have hrow : gap ∈ gaps (row (first + step) step (n + 1)) := by
          rw [row_succ]
          exact hbehind
        exact ih hrow

/-- The smallest gap above a tolerance below the step is the step. -/
theorem least?_gaps_row {tolerance : Exact F} (first : K) (n : ℕ) (habove : tolerance.val < step) :
    least? ((gaps (row first step (n + 2))).filter fun gap => tolerance < gap) =
      some ⟨step⟩ := by
  have hmem : (⟨step⟩ : Exact F) ∈ gaps (row first step (n + 2)) := by
    rw [row_succ, row_succ]
    apply List.mem_cons.2
    left
    apply Exact.ext
    simp
  cases hleast : least? ((gaps (row first step (n + 2))).filter fun gap => tolerance < gap) with
  | none => exact absurd habove (least?_gaps_eq_none_iff.1 hleast ⟨step⟩ hmem)
  | some gap => rw [gap_eq_step (mem_gaps_of_least? hleast).1]

/-- The half of the number of the last pixel. -/
theorem exists_half {n : UInt32} (h : 1 ≤ n.toNat) :
    ∃ last, Count.sub n 1 = .ok last ∧
      (Scalar.ofCount last / Scalar.whole 2 : Exact F).val = (n.toNat - 1) / 2 := by
  have hone : (1 : UInt32).toNat = 1 := rfl
  have hle : ¬ n.toNat < (1 : UInt32).toNat := by omega
  obtain ⟨last, hlast⟩ := Count.not_fails_iff.1 (mt Count.fails_sub.1 hle)
  have hsub := Count.sub_eq_ok_iff.1 hlast
  refine ⟨last, hlast, ?_⟩
  rw [Exact.val_div, Scalar.ofCount, Exact.val_whole, Exact.val_whole, hsub, hone]
  push_cast
  ring

/-- The middle of an axis with a pixel. -/
theorem exists_centre {a : Axis (Exact F)} (h : 1 ≤ a.count.toNat) :
    ∃ centre, a.centre = .ok centre ∧ centre.value.val =
      a.reference.value.val + a.pixel.value.val * ((a.count.toNat - 1) / 2) := by
  obtain ⟨last, hlast, hhalf⟩ := exists_half (F := F) h
  refine ⟨_, by rw [Axis.centre, hlast]; rfl, ?_⟩
  rw [← hhalf]
  rfl

/-- The middle of the axis that is fitted to a row is the middle of the row, but for the shift of
the reference from the first position. -/
theorem exists_centre_row {a : Axis (Exact F)} {nyquist : Arcsec (Exact F)} (hn : 1 ≤ n)
    (hcount : a.count.toNat = n)
    (hpixel : a.pixel = if n = 1 then nyquist else ⟨⟨step⟩⟩) {reference : Exact F}
    (hreference : a.reference = ⟨reference⟩) :
    ∃ centre, a.centre = .ok centre ∧
      centre.value.val = first + step * ((n - 1) / 2) + (reference.val - first) := by
  obtain ⟨centre, hcentre, hmiddle⟩ := exists_centre (hcount.symm ▸ hn)
  refine ⟨centre, hcentre, ?_⟩
  rw [hmiddle, hreference, hpixel, hcount]
  split
  · rename_i hone
    rw [hone]
    push_cast
    ring
  · ring

end Gaps

/-! ## Positions apart -/

variable [FloorRing K]

/-- The second number is at least the closeness above the first. -/
def Apart (v w : Exact F) : Prop := v.val + (closeness : Exact F).val ≤ w.val

/-- Numbers apart differ by a billionth at least. -/
theorem apart_iff {v w : Exact F} : Apart v w ↔ v.val + 1 / 10 ^ 9 ≤ w.val := by
  rw [Apart, Exact.val_closeness]

/-- Of two different elements of positions apart, one is apart from the other. -/
theorem apart_or_apart {sorted : List (Exact F)} {v w : Exact F} (h : sorted.Pairwise Apart)
    (hv : v ∈ sorted) (hw : w ∈ sorted) (hne : v ≠ w) : Apart v w ∨ Apart w v := by
  have heither : sorted.Pairwise fun v w => Apart v w ∨ Apart w v := h.imp Or.inl
  have : Std.Symm (fun v w : Exact F => Apart v w ∨ Apart w v) :=
    ⟨fun _ _ hor => hor.symm⟩
  exact heither.forall hv hw hne

variable [IsStrictOrderedRing K]

/-- Numbers apart are in order. -/
theorem Apart.lt {v w : Exact F} (h : Apart v w) : v.val < w.val := by
  have hpos : (0 : K) < 1 / 10 ^ 9 := by positivity
  rw [apart_iff] at h
  linarith

/-- What is apart from a number is apart from all that it is apart from. -/
theorem Apart.trans {u v w : Exact F} (huv : Apart u v) (hvw : Apart v w) : Apart u w := by
  have hlt := huv.lt
  rw [apart_iff] at *
  linarith

instance : Trans (Apart (F := F)) Apart Apart := ⟨Apart.trans⟩

instance : Std.Irrefl (Apart (F := F)) := ⟨fun _ h => h.lt.false⟩

instance : Std.Asymm (Apart (F := F)) := ⟨fun _ _ h h' => (h.lt.trans h'.lt).false⟩

/-- A number is not apart from one that is less than the closeness away. -/
theorem not_apart_of_abs_lt {v w : Exact F} (h : |v.val - w.val| < 1 / 10 ^ 9) : ¬ Apart v w := by
  intro hapart
  rw [abs_lt] at h
  rw [apart_iff] at hapart
  linarith

/-- The positions of a row are apart if its step is at least the closeness. -/
theorem pairwise_apart_row (hclose : 1 / 10 ^ 9 ≤ step) :
    (row first step n : List (Exact F)).Pairwise Apart := by
  have hpos : 0 < step := lt_of_lt_of_le (by positivity) hclose
  unfold row
  rw [List.pairwise_map]
  apply List.pairwise_lt_range.imp
  intro j k hjk
  have hnext : (j : K) + 1 ≤ k := by exact_mod_cast hjk
  have hmul := mul_le_mul_of_nonneg_left hnext hpos.le
  rw [apart_iff]
  dsimp only
  linarith

/-- Positions in order, of which no neighbours are close, are apart. -/
theorem pairwise_apart {values : List (Exact F)}
    (hsorted : values.Pairwise fun v w => Scalar.before v w = true)
    (hchain : values.IsChain fun v w => ¬ Scalar.abs (w - v) < (closeness : Exact F)) :
    values.Pairwise Apart := by
  apply List.IsChain.pairwise
  induction hchain with
  | nil => exact .nil
  | singleton v => exact .singleton v
  | @cons_cons v w vs hfar _ ih =>
    rw [List.pairwise_cons] at hsorted
    refine .cons_cons ?_ (ih hsorted.2)
    have hle : v.val ≤ w.val := Exact.before_iff.1 (hsorted.1 w List.mem_cons_self)
    rw [Exact.close_iff, not_lt, abs_of_nonneg (sub_nonneg.2 hle)] at hfar
    rw [apart_iff]
    linarith

/-- Distinct positions are apart. -/
theorem pairwise_apart_distinctSorted (positions : List (Exact F)) :
    (distinctSorted positions).Pairwise Apart :=
  pairwise_apart (pairwise_distinctSorted positions) (isChain_distinctSorted positions)

/-- Positions that are apart are the distinct ones of any list that has the same elements. -/
theorem distinctSorted_eq_of_mem_iff {positions sorted : List (Exact F)}
    (hmem : ∀ v, v ∈ positions ↔ v ∈ sorted) (hapart : sorted.Pairwise Apart) :
    distinctSorted positions = sorted := by
  have hkept {v : Exact F} (hv : v ∈ distinctSorted positions) : v ∈ sorted :=
    (hmem v).1 (mem_of_mem_distinctSorted hv)
  apply List.Pairwise.eq_of_mem_iff (pairwise_apart_distinctSorted positions) hapart
  intro v
  constructor
  · exact hkept
  · intro hv
    obtain ⟨w, hw, hclose⟩ := exists_distinct_close (Exact.close_self v) ((hmem v).2 hv)
    rw [Exact.close_iff] at hclose
    by_cases heq : v = w
    · rw [heq]
      exact hw
    · rcases apart_or_apart hapart hv (hkept hw) heq with hvw | hwv
      · exact absurd hvw (not_apart_of_abs_lt hclose)
      · rw [abs_sub_comm] at hclose
        exact absurd hwv (not_apart_of_abs_lt hclose)

/-- Positions all of which are close are one position. -/
theorem exists_distinctSorted_eq_singleton {positions : List (Exact F)} (hne : positions ≠ [])
    (hclose : ∀ v ∈ positions, ∀ w ∈ positions, |v.val - w.val| < 1 / 10 ^ 9) :
    ∃ v, distinctSorted positions = [v] := by
  have hapart := pairwise_apart_distinctSorted positions
  match hdistinct : distinctSorted positions with
  | [] =>
    obtain ⟨v, hv⟩ := List.exists_mem_of_ne_nil positions hne
    obtain ⟨w, hw, -⟩ := exists_distinct_close (Exact.close_self v) hv
    rw [hdistinct] at hw
    exact absurd hw List.not_mem_nil
  | [v] => exact ⟨v, rfl⟩
  | v :: w :: rest =>
    have hv : v ∈ positions := mem_of_mem_distinctSorted (by simp [hdistinct])
    have hw : w ∈ positions := mem_of_mem_distinctSorted (by simp [hdistinct])
    rw [hdistinct] at hapart
    exact absurd (List.rel_of_pairwise_cons hapart List.mem_cons_self)
      (not_apart_of_abs_lt (hclose v hv w hw))

/-! ## The lattice of a row -/

section Lattice

variable {tolerance : Exact F}

/-- The first divisor does for a row: all positions are as far from the lattice as the first
one. -/
theorem fittingDivisor_row (first : K) (n : ℕ) (htolerance : 0 < tolerance.val)
    (habove : tolerance.val < step) :
    fittingDivisor (row first step n) (snapped ⟨first⟩ ⟨step⟩ tolerance) ⟨step⟩ tolerance =
      .ok 1 := by
  have hstep : 0 < (⟨step⟩ : Exact F).val := htolerance.trans habove
  obtain ⟨divisor, hdivisor⟩ := exists_fittingDivisor (row first step n)
    (snapped ⟨first⟩ ⟨step⟩ tolerance) htolerance hstep
  have hleast := isLeast_of_fittingDivisor hstep hdivisor
  have hone : divisor ≤ 1 := by
    apply hleast.2
    refine ⟨le_rfl, .inr fun v hv => ?_⟩
    obtain ⟨k, -, hv⟩ := mem_row.1 hv
    refine ⟨k, ?_⟩
    have hfirst : v.val - ((snapped ⟨first⟩ ⟨step⟩ tolerance).val + (k : ℤ) * (step / (1 : ℕ))) =
        first - (snapped ⟨first⟩ ⟨step⟩ tolerance).val := by
      rw [hv, Nat.cast_one, div_one, Int.cast_natCast]
      ring
    rw [hfirst]
    exact (abs_sub_snapped_lt htolerance).le
  rw [hdivisor, le_antisymm hone hleast.1.1]

/-- A row has as many steps as it has, if its reference is less than half a step away from its
first position. -/
theorem toNat_stepsTo_row (first : K) (n : ℕ) (htolerance : 0 < tolerance.val)
    (habove : tolerance.val < step)
    (hphase : |first - (snapped ⟨first⟩ ⟨step⟩ tolerance).val| < step / 2) :
    Scalar.toNat (stepsTo ⟨first + step * n⟩ (snapped ⟨first⟩ ⟨step⟩ tolerance)
      (⟨step⟩ / Scalar.whole 1) tolerance) = n := by
  have hstep : 0 < step := htolerance.trans habove
  have htrial : (⟨step⟩ / Scalar.whole 1 : Exact F).val = step := by simp
  have hlast : (⟨first + step * n⟩ : Exact F) ∈ row first step (n + 1) :=
    mem_row.2 ⟨n, Nat.lt_succ_self n, rfl⟩
  rw [toNat_stepsTo (htrial.symm ▸ hstep)
    (accept_of_fittingDivisor (fittingDivisor_row first (n + 1) htolerance habove)).2 hlast,
    htrial]
  have hround : roundAway ((first + step * n - (snapped ⟨first⟩ ⟨step⟩ tolerance).val) / step) =
      (n : ℤ) := by
    apply roundAway_eq_of_abs_sub_lt
    have hoff : (first + step * n - (snapped ⟨first⟩ ⟨step⟩ tolerance).val) / step - (n : ℤ) =
        (first - (snapped ⟨first⟩ ⟨step⟩ tolerance).val) / step := by
      rw [Int.cast_natCast]
      field_simp
      ring
    rw [hoff, abs_div, abs_of_pos hstep, div_lt_iff₀ hstep]
    linarith
  rw [hround, Int.toNat_natCast]

end Lattice

/-! ## Fitted rows -/

/-- Positions are those of a row, in any order and any number of times, whose step is above the
tolerance and not below the closeness. The reference for the step lies less than half a step beside
the first position. -/
structure IsRow (positions : List (Exact F)) (tolerance : Arcsec (Exact F)) (first step : K)
    (n : ℕ) : Prop where
  mem_iff : ∀ v, v ∈ positions ↔ v ∈ row first step n
  one_le : 1 ≤ n
  isCount : n < 2 ^ 32
  closeness_le : 1 / 10 ^ 9 ≤ step
  tolerance_lt : tolerance.value.val < step
  phase_lt : |first - (snapped ⟨first⟩ ⟨step⟩ tolerance.value).val| < step / 2

/-- The reference of the axis that is fitted to a row: up to two positions keep their places. -/
def rowReference (tolerance : Arcsec (Exact F)) (first step : K) (n : ℕ) : Exact F :=
  if n ≤ 2 then ⟨first⟩ else snapped ⟨first⟩ ⟨step⟩ tolerance.value

variable {positions : List (Exact F)} {nyquist tolerance : Arcsec (Exact F)}

/-- At least three positions in a row are fitted with the row: its pixel is the step, its reference
the one for the step, and it has a pixel more than there are steps from the reference to the last
position. -/
theorem exists_yields_fit_of_row {m steps : ℕ} (nyquist : Arcsec (Exact F))
    (hdistinct : distinctSorted positions = row first step (m + 3))
    (htolerance : 0 < tolerance.value.val) (habove : tolerance.value.val < step)
    (hsteps : Scalar.toNat (stepsTo ⟨first + step * (m + 2 : ℕ)⟩
      (snapped ⟨first⟩ ⟨step⟩ tolerance.value) (⟨step⟩ / Scalar.whole 1) tolerance.value) = steps)
    (hcount : steps + 1 < 2 ^ 32) :
    ∃ a, (fit positions nyquist tolerance).Yields d a ∧ a.count.toNat = steps + 1 ∧
      a.pixel = ⟨⟨step⟩⟩ ∧ a.reference = ⟨snapped ⟨first⟩ ⟨step⟩ tolerance.value⟩ := by
  have hgap := least?_gaps_row (F := F) first (m + 1) habove
  have hdivisor := fittingDivisor_row (F := F) first (m + 3) htolerance habove
  have hlast : ((⟨first + step + step⟩ : Exact F) :: row (first + step + step + step) step m
      ).getLast (List.cons_ne_nil _ _) = ⟨first + step * (m + 2 : ℕ)⟩ := by
    rw [getLast_row]
    apply Exact.ext
    push_cast
    ring
  rw [row_succ, row_succ, row_succ] at hdistinct hgap hdivisor
  rw [← hlast] at hsteps
  have hcounted : StepsCounted positions tolerance := by
    intro counted hhas
    have hrow : HasSteps positions tolerance steps :=
      ⟨_, _, _, _, _, _, hdistinct, hgap, hdivisor, hsteps.symm⟩
    rw [hhas.unique hrow]
    exact Nat.lt_sub_of_add_lt hcount
  obtain ⟨a, hyields, hlattice⟩ :=
    exists_yields_fit_lattice htolerance hdistinct hgap hdivisor hcounted
  refine ⟨a, hyields, ?_, ?_, hlattice.reference_eq⟩
  · rw [hlattice.count_eq, hsteps]
  · rw [hlattice.pixel_eq]
    apply congrArg Quantity.mk
    apply Exact.ext
    simp

/-- A row is fitted with as many pixels as it has positions. The pixel is the step; that of a
single position has the Nyquist size. -/
theorem exists_yields_fit_row (nyquist : Arcsec (Exact F))
    (h : IsRow positions tolerance first step n)
    (htolerance : 0 < tolerance.value.val) :
    ∃ a, (fit positions nyquist tolerance).Yields d a ∧ a.count.toNat = n ∧
      a.pixel = (if n = 1 then nyquist else ⟨⟨step⟩⟩) ∧
      a.reference = ⟨rowReference tolerance first step n⟩ := by
  have hdistinct : distinctSorted positions = row first step n :=
    distinctSorted_eq_of_mem_iff h.mem_iff (pairwise_apart_row h.closeness_le)
  have hcount := h.isCount
  have hone := h.one_le
  obtain rfl | rfl | ⟨m, rfl⟩ : n = 1 ∨ n = 2 ∨ ∃ m, n = m + 3 := by
    by_cases hmany : 3 ≤ n
    · exact .inr (.inr ⟨n - 3, by omega⟩)
    · omega
  · refine ⟨⟨1, nyquist, ⟨⟨first⟩⟩⟩, ?_, rfl, rfl, rfl⟩
    rw [row_succ] at hdistinct
    simp only [fit, hdistinct]
    exact Run.yields_pure.2 rfl
  · refine ⟨⟨2, ⟨⟨first + step⟩ - ⟨first⟩⟩, ⟨⟨first⟩⟩⟩, ?_, rfl, ?_, rfl⟩
    · rw [row_succ, row_succ] at hdistinct
      simp only [fit, hdistinct]
      exact Run.yields_pure.2 rfl
    · apply congrArg Quantity.mk
      apply Exact.ext
      simp
  · have hsteps := toNat_stepsTo_row (F := F) first (m + 2) htolerance h.tolerance_lt h.phase_lt
    obtain ⟨a, hyields, hpixels, hpixel, hreference⟩ := exists_yields_fit_of_row (d := d) nyquist
      hdistinct htolerance h.tolerance_lt hsteps hcount
    refine ⟨a, hyields, hpixels, ?_, ?_⟩
    · rw [hpixel, if_neg (by omega)]
    · rw [hreference, rowReference, if_neg (by omega)]

end Axis

/-! ## Fitted grids -/

namespace Grid

open Axis (IsRow rowReference)

variable {d : Bool} {K : Type} [Field K] [LinearOrder K] [FloorRing K] {F : Apparatus K}
  {offsets : List (Offset (Exact F))} {angle : Degrees (Exact F)} {nyquist : Arcsec (Exact F)}
  {factor : Exact F} {firstX stepX firstY stepY : K} {nx ny : ℕ}

/-- The offsets in a frame at the crossings of two rows of coordinates, row by row. -/
def crossings (firstX stepX firstY stepY : K) (nx ny : ℕ) (angle : Degrees (Exact F)) :
    List (Offset (Exact F)) :=
  (List.range ny).flatMap fun j : ℕ => (List.range nx).map fun i : ℕ =>
    Offset.fromFrame ⟨⟨⟨firstX + stepX * i⟩⟩, ⟨⟨firstY + stepY * j⟩⟩⟩ angle

/-- The first coordinates of crossings are those of the first row. -/
theorem mem_columns_crossings (angle : Degrees (Exact F)) (hny : 1 ≤ ny) (v : Exact F) :
    v ∈ columns (crossings firstX stepX firstY stepY nx ny angle) angle ↔
      v ∈ Axis.row firstX stepX nx := by
  simp only [columns, crossings, List.mem_map, List.mem_flatMap, List.mem_range]
  rw [Axis.mem_row]
  constructor
  · rintro ⟨_, ⟨j, -, i, hi, rfl⟩, rfl⟩
    rw [Exact.intoFrame_fromFrame]
    exact ⟨i, hi, rfl⟩
  · rintro ⟨i, hi, hv⟩
    refine ⟨_, ⟨0, hny, i, hi, rfl⟩, ?_⟩
    rw [Exact.intoFrame_fromFrame]
    exact Exact.ext hv.symm

/-- The second coordinates of crossings are those of the second row. -/
theorem mem_rows_crossings (angle : Degrees (Exact F)) (hnx : 1 ≤ nx) (v : Exact F) :
    v ∈ rows (crossings firstX stepX firstY stepY nx ny angle) angle ↔
      v ∈ Axis.row firstY stepY ny := by
  simp only [rows, crossings, List.mem_map, List.mem_flatMap, List.mem_range]
  rw [Axis.mem_row]
  constructor
  · rintro ⟨_, ⟨j, hj, i, -, rfl⟩, rfl⟩
    rw [Exact.intoFrame_fromFrame]
    exact ⟨j, hj, rfl⟩
  · rintro ⟨j, hj, hv⟩
    refine ⟨_, ⟨j, hj, 0, hnx, rfl⟩, ?_⟩
    rw [Exact.intoFrame_fromFrame]
    exact Exact.ext hv.symm

variable [IsStrictOrderedRing K]

/-- Offsets in columns and rows are fitted with a pixel for each crossing, around the middle of
the crossings but for the shift of the references. -/
theorem exists_yields_fit_rows (hnyquist : 0 < nyquist.value.val)
    (htolerance : 0 < nyquist.value.val * factor.val)
    (hx : IsRow (columns offsets angle) (nyquist * factor) firstX stepX nx)
    (hy : IsRow (rows offsets angle) (nyquist * factor) firstY stepY ny) :
    ∃ g, (fit offsets angle nyquist factor).Yields d g ∧
      g.nx.toNat = nx ∧ g.ny.toNat = ny ∧ g.angle = angle ∧
      g.pixelX = (if nx = 1 then nyquist else ⟨⟨stepX⟩⟩) ∧
      g.pixelY = (if ny = 1 then nyquist else ⟨⟨stepY⟩⟩) ∧
      (g.centre.intoFrame angle).x.value.val = firstX + stepX * ((nx - 1) / 2)
        + ((rowReference (nyquist * factor) firstX stepX nx).val - firstX) ∧
      (g.centre.intoFrame angle).y.value.val = firstY + stepY * ((ny - 1) / 2)
        + ((rowReference (nyquist * factor) firstY stepY ny).val - firstY) := by
  have hpositive : ¬ nyquist.value ≤ Scalar.zero := mt Exact.le_zero_iff.1 hnyquist.not_ge
  obtain ⟨x, hfitX, hcountX, hpixelX, hreferenceX⟩ :=
    Axis.exists_yields_fit_row (d := d) nyquist hx htolerance
  obtain ⟨y, hfitY, hcountY, hpixelY, hreferenceY⟩ :=
    Axis.exists_yields_fit_row (d := d) nyquist hy htolerance
  obtain ⟨g, hgrid, hyields⟩ := yields_fit_of_axes hpositive hfitX hfitY
  obtain ⟨cx, hcx, hmiddleX⟩ := Axis.exists_centre_row hx.one_le hcountX hpixelX hreferenceX
  obtain ⟨cy, hcy, hmiddleY⟩ := Axis.exists_centre_row hy.one_le hcountY hpixelY hreferenceY
  simp only [ofAxes, hcx, hcy, Count.ok_bind, pure, Except.pure, Except.ok.injEq] at hgrid
  subst hgrid
  refine ⟨_, hyields, hcountX, hcountY, rfl, hpixelX, hpixelY, ?_, ?_⟩
  · rw [Exact.intoFrame_fromFrame]
    exact hmiddleX
  · rw [Exact.intoFrame_fromFrame]
    exact hmiddleY

end Grid

end Heterodyne
