import Heterodyne.Proofs.Grid.Covered
/-!
# Divided gaps

The pixel of a lattice is a part of the smallest gap above the tolerance. The gap is divided by
1, 2, 3, … until the pixel falls below the tolerance or every position is near a point of the
lattice. In exact numbers the first divisor that does is found, and it cannot be large: the pixel
never gets below half of the tolerance.

* `isLeast_of_least?`: the gap is the smallest one above the tolerance.
* `fits_iff`: a trial pixel fits exactly if every position is near a point of its lattice.
* `isLeast_of_fittingDivisor`: no smaller divisor would have done.
* `fit_smallest_divisor`: what the fit of at least three distinct positions comes to.
-/

namespace Heterodyne

namespace Axis

variable {d : Bool}

section Search

variable {α : Type} [Scalar α]

/-! ## Smallest elements -/

variable [SortsUniquely α] {values : List α} {v w : α}

/-- A number comes before itself. -/
theorem before_self (v : α) : Scalar.before v v = true := by
  simpa using SortsUniquely.total v v

/-- The smaller one of each two, all along a list, comes before all of its elements. -/
theorem foldl_least_before (vs : List α) (v : α) :
    ∀ w ∈ v :: vs,
      Scalar.before (vs.foldl (fun m w => if Scalar.before m w then m else w) v) w = true := by
  induction vs generalizing v with
  | nil =>
    intro w hw
    rw [List.mem_singleton.1 hw]
    exact before_self v
  | cons u vs ih =>
    intro w hw
    rw [List.foldl_cons]
    obtain ⟨m, hm, hmv, hmu⟩ : ∃ m, (if Scalar.before v u then v else u) = m ∧
        Scalar.before m v = true ∧ Scalar.before m u = true := by
      by_cases hvu : Scalar.before v u = true
      · exact ⟨v, if_pos hvu, before_self v, hvu⟩
      · refine ⟨u, if_neg hvu, ?_, before_self u⟩
        have htotal := SortsUniquely.total v u
        rw [Bool.or_eq_true] at htotal
        exact htotal.resolve_left hvu
    rw [hm]
    rcases List.mem_cons.1 hw with rfl | hw
    · exact SortsUniquely.trans _ m w (ih m m List.mem_cons_self) hmv
    · rcases List.mem_cons.1 hw with rfl | hw
      · exact SortsUniquely.trans _ m w (ih m m List.mem_cons_self) hmu
      · exact ih m w (List.mem_cons_of_mem m hw)

/-- A smallest element comes before all elements. -/
theorem before_of_least? (h : least? values = some v) (hw : w ∈ values) :
    Scalar.before v w = true := by
  cases values with
  | nil => cases h
  | cons u us =>
    rw [least?, Option.some.injEq] at h
    rw [← h]
    exact foldl_least_before us u w hw

end Search

/-! ## The first divisor -/

/-- The divisors before the one that is found are not accepted. -/
theorem not_accept_of_lt_firstAccepted? {accept grows : Nat → Bool} {tries first n m : Nat}
    (h : firstAccepted? accept grows tries first = some n) (hfirst : first ≤ m) (hm : m < n) :
    accept m = false := by
  induction tries generalizing first with
  | zero => exact absurd h (by simp [firstAccepted?])
  | succ tries ih =>
    unfold firstAccepted? at h
    split at h
    · cases h
      omega
    · rename_i hreject
      split at h
      · rcases Nat.eq_or_lt_of_le hfirst with rfl | hbehind
        · exact Bool.eq_false_iff.2 hreject
        · exact ih h hbehind
      · cases h

/-- Before the divisor that is found, trial pixels neither fall below the tolerance nor fit. -/
theorem reject_of_lt_fittingDivisor {α : Type} [Scalar α] {values : List α}
    {reference gap tolerance : α} {divisor m : Nat}
    (h : fittingDivisor values reference gap tolerance = .ok divisor) (hone : 1 ≤ m)
    (hm : m < divisor) : ¬ (gap / Scalar.whole m < tolerance ∨
      fits values reference (gap / Scalar.whole m) tolerance = true) := by
  unfold fittingDivisor at h
  dsimp only at h
  split at h
  · rename_i found hfound
    cases h
    have hreject := not_accept_of_lt_firstAccepted? hfound hone hm
    rwa [← Bool.not_eq_true, Bool.or_eq_true, decide_eq_true_eq] at hreject
  · cases h

/-! ## Counted steps -/

/-- A lattice whose steps cannot be counted breaks off where its pixels are counted. -/
theorem faults_fit_of_not_stepsCounted {α : Type} [Scalar α] {positions : List α}
    {nyquist tolerance : Arcsec α} {v w x gap : α} {rest : List α} {divisor : ℕ}
    (hdistinct : distinctSorted positions = v :: w :: x :: rest)
    (hgap : least? ((gaps (v :: w :: x :: rest)).filter fun gap => tolerance.value < gap) =
      some gap)
    (hdivisor : fittingDivisor (v :: w :: x :: rest) (snapped v gap tolerance.value) gap
      tolerance.value = .ok divisor)
    (hcounted : ¬ StepsCounted positions tolerance) :
    (fit positions nyquist tolerance).Faults d .addition := by
  have hsteps : HasSteps positions tolerance
      (Scalar.toNat (stepsTo ((x :: rest).getLast (List.cons_ne_nil x rest))
        (snapped v gap tolerance.value) (gap / Scalar.whole divisor) tolerance.value)) :=
    ⟨v, w, x, rest, gap, divisor, hdistinct, hgap, hdivisor, rfl⟩
  simp only [StepsCounted, not_forall, not_lt] at hcounted
  obtain ⟨steps, hhas, hmany⟩ := hcounted
  rw [hhas.unique hsteps] at hmany
  simp only [fit, hdistinct, fitLattice, hgap]
  apply Run.faults_bind.2
  right
  refine ⟨divisor, Run.yields_ofCount.2 hdivisor, ?_⟩
  apply Run.faults_bind.2
  right
  refine ⟨(), Run.yields_tellAll, ?_⟩
  apply Run.faults_bind.2
  left
  rw [Run.faults_ofCount]
  apply Count.add_eq_error
  rw [Scalar.toNat_toCount, UInt32.toNat_one, Scalar.maxCount]
  omega

/-! ## Exact numbers -/

section Exactly

variable {K : Type} [Field K] [LinearOrder K] [FloorRing K] {F : Apparatus K}
  {values : List (Exact F)} {reference trial tolerance gap : Exact F} {divisor : ℕ}

/-- The gap is the smallest one above the tolerance. -/
theorem isLeast_of_least?
    (h : least? ((gaps values).filter fun gap => tolerance < gap) = some gap) :
    IsLeast {g : K | (⟨g⟩ : Exact F) ∈ gaps values ∧ tolerance.val < g} gap.val := by
  constructor
  · exact mem_gaps_of_least? h
  · rintro g ⟨hmem, habove⟩
    have hfiltered : (⟨g⟩ : Exact F) ∈ (gaps values).filter fun gap => tolerance < gap :=
      List.mem_filter.2 ⟨hmem, decide_eq_true habove⟩
    exact Exact.before_iff.1 (before_of_least? h hfiltered)

/-- Every position is within a distance of some point of the lattice of a pixel. -/
def OnLattice (values : List (Exact F)) (reference pixel distance : K) : Prop :=
  ∀ v ∈ values, ∃ k : ℤ, |v.val - (reference + k * pixel)| ≤ distance

/-- A divisor does if its part of the gap falls below the tolerance, or has every position near
its lattice. -/
def Suits (values : List (Exact F)) (reference gap tolerance : K) (divisor : ℕ) : Prop :=
  gap / divisor < tolerance ∨ OnLattice values reference (gap / divisor) tolerance

variable [IsStrictOrderedRing K]

/-- A trial pixel fits exactly if every position is within the tolerance of a point of its
lattice. -/
theorem fits_iff (htrial : 0 < trial.val) :
    fits values reference trial tolerance = true ↔
      OnLattice values reference.val trial.val tolerance.val := by
  have hunits (v : Exact F) (k : ℤ) :
      |(v.val - reference.val) / trial.val - k| * trial.val =
        |v.val - (reference.val + k * trial.val)| := by
    rw [← abs_of_pos htrial, ← abs_mul, abs_of_pos htrial, sub_mul,
      div_mul_cancel₀ _ htrial.ne', sub_sub]
  unfold fits OnLattice
  rw [List.all_eq_true]
  refine forall₂_congr fun v _ => ?_
  rw [decide_eq_true_eq, Exact.le_iff, val_offWhole, Exact.val_div, Exact.val_sub,
    Exact.val_div, le_div_iff₀ htrial]
  constructor
  · intro hnear
    refine ⟨roundAway ((v.val - reference.val) / trial.val), ?_⟩
    rwa [← hunits]
  · rintro ⟨k, hnear⟩
    rw [← hunits] at hnear
    -- No other point of the lattice is nearer than the one that is looked at.
    have hround := abs_sub_roundAway_le_abs_sub ((v.val - reference.val) / trial.val) k
    exact (mul_le_mul_of_nonneg_right hround htrial.le).trans hnear

/-- A trial pixel is accepted exactly if its divisor does. -/
theorem accept_iff_suits (hgap : 0 < gap.val) (hdivisor : 1 ≤ divisor) :
    gap / Scalar.whole divisor < tolerance ∨
        fits values reference (gap / Scalar.whole divisor) tolerance = true ↔
      Suits values reference.val gap.val tolerance.val divisor :=
  or_congr Iff.rfl (fits_iff (trial_bounds hgap hdivisor).1)

/-- The divisor that is found is the smallest one that does. -/
theorem isLeast_of_fittingDivisor (hgap : 0 < gap.val)
    (h : fittingDivisor values reference gap tolerance = .ok divisor) :
    IsLeast {n : ℕ | 1 ≤ n ∧ Suits values reference.val gap.val tolerance.val n} divisor := by
  constructor
  · obtain ⟨hone, haccept⟩ := accept_of_fittingDivisor h
    exact ⟨hone, (accept_iff_suits hgap hone).1 haccept⟩
  · rintro n ⟨hone, hsuits⟩
    by_contra hlt
    exact reject_of_lt_fittingDivisor h hone (not_le.1 hlt) ((accept_iff_suits hgap hone).2 hsuits)

/-- A divisor is found. -/
theorem exists_fittingDivisor (values : List (Exact F)) (reference : Exact F)
    (htolerance : 0 < tolerance.val) (hgap : 0 < gap.val) :
    ∃ divisor, fittingDivisor values reference gap tolerance = .ok divisor := by
  apply Count.not_fails_iff.1
  rw [fails_fittingDivisor_iff]
  exact not_searchEndless htolerance hgap

variable {first : K}

/-- The smallest divisor that does is at most the first one whose part falls below the
tolerance. -/
theorem divisor_le (htolerance : 0 < tolerance.val) (hgap : 0 < gap.val)
    (h : IsLeast {n : ℕ | 1 ≤ n ∧ Suits values first gap.val tolerance.val n} divisor) :
    divisor ≤ ⌊gap.val / tolerance.val⌋₊ + 1 := by
  apply h.2
  constructor
  · exact Nat.le_add_left 1 _
  · left
    have hbelow := trial_lt_tolerance htolerance hgap (Nat.lt_succ_self _)
    rwa [Int.floor_toNat] at hbelow

/-- The smallest divisor that does leaves more than half of the tolerance. -/
theorem half_tolerance_lt (htolerance : 0 < tolerance.val) (habove : tolerance.val < gap.val)
    (h : IsLeast {n : ℕ | 1 ≤ n ∧ Suits values first gap.val tolerance.val n} divisor) :
    tolerance.val / 2 < gap.val / divisor := by
  have hone : 1 ≤ divisor := h.1.1
  obtain ⟨before, rfl⟩ : ∃ before, divisor = before + 1 := ⟨divisor - 1, by omega⟩
  -- The divisor before, if there is one, leaves at least the tolerance.
  have hbefore : tolerance.val * before ≤ gap.val := by
    rcases Nat.eq_zero_or_pos before with rfl | hbefore
    · rw [Nat.cast_zero, mul_zero]
      exact (htolerance.trans habove).le
    · by_contra hless
      have hsuits : Suits values first gap.val tolerance.val before := by
        left
        rw [div_lt_iff₀ (Nat.cast_pos.2 hbefore)]
        exact not_le.1 hless
      have hle := h.2 ⟨hbefore, hsuits⟩
      omega
  rw [div_lt_div_iff₀ two_pos (Nat.cast_pos.2 (Nat.succ_pos before))]
  push_cast
  linarith

/-! ## Fitted axes -/

variable {positions : List (Exact F)} {nyquist tolerance : Arcsec (Exact F)}
  {v w x : Exact F} {rest : List (Exact F)}

/-- A lattice whose steps can be counted is yielded with the part of the gap as its pixel. -/
theorem exists_yields_fit_lattice (htolerance : 0 < tolerance.value.val)
    (hdistinct : distinctSorted positions = v :: w :: x :: rest)
    (hgap : least? ((gaps (v :: w :: x :: rest)).filter fun gap => tolerance.value < gap) =
      some gap)
    (hdivisor : fittingDivisor (v :: w :: x :: rest) (snapped v gap tolerance.value) gap
      tolerance.value = .ok divisor)
    (hcounted : StepsCounted positions tolerance) :
    ∃ a, (fit positions nyquist tolerance).Yields d a ∧
      IsLattice (v :: w :: x :: rest) v ((x :: rest).getLast (List.cons_ne_nil x rest))
        tolerance.value gap divisor a := by
  have hpositions : positions ≠ [] := by
    rintro rfl
    simp [distinctSorted] at hdistinct
  obtain ⟨a, hyields⟩ : ∃ a, (fit positions nyquist tolerance).Yields d a :=
    exists_yields_fit hpositions (not_fitOverflows htolerance hcounted)
  refine ⟨a, hyields, ?_⟩
  cases fitted_of_yields hyields with
  | single h => cases hdistinct.symm.trans h
  | pair h => cases hdistinct.symm.trans h
  | together h hgaps =>
    cases hdistinct.symm.trans h
    obtain ⟨hmem, habove⟩ := mem_gaps_of_least? hgap
    exact absurd habove (hgaps gap hmem)
  | lattice h hlattice =>
    cases hdistinct.symm.trans h
    cases Option.some.inj (hgap.symm.trans hlattice.gap_eq)
    cases Except.ok.inj (hdivisor.symm.trans hlattice.divisor_eq)
    exact hlattice

/-- At least three distinct positions, some of them with a gap above the tolerance, are fitted
with the smallest such gap, divided by the smallest divisor for which the part of the gap falls
below the tolerance or every position is within the tolerance of the lattice. The divisor is at
most one above the quotient of gap and tolerance, and the pixel is greater than half the
tolerance. The fit comes to an end: it yields this lattice, or breaks off as its pixels cannot be
counted. -/
theorem fit_smallest_divisor (hdistinct : distinctSorted positions = v :: w :: x :: rest)
    (htolerance : 0 < tolerance.value.val)
    (hspread : ∃ gap ∈ gaps (v :: w :: x :: rest), tolerance.value < gap) :
    ∃ gap divisor,
      IsLeast {g : K | (⟨g⟩ : Exact F) ∈ gaps (v :: w :: x :: rest) ∧
        tolerance.value.val < g} gap.val ∧
      IsLeast {n : ℕ | 1 ≤ n ∧ Suits (v :: w :: x :: rest) (snapped v gap tolerance.value).val
        gap.val tolerance.value.val n} divisor ∧
      divisor ≤ ⌊gap.val / tolerance.value.val⌋₊ + 1 ∧
      tolerance.value.val / 2 < gap.val / divisor ∧
      (StepsCounted positions tolerance →
        ∃ a, (fit positions nyquist tolerance).Yields d a ∧
          a.pixel.value.val = gap.val / divisor ∧
          a.reference = ⟨snapped v gap tolerance.value⟩) ∧
      (¬ StepsCounted positions tolerance →
        (fit positions nyquist tolerance).Faults d .addition) := by
  obtain ⟨gap, hgap⟩ : ∃ gap,
      least? ((gaps (v :: w :: x :: rest)).filter fun gap => tolerance.value < gap) =
        some gap := by
    apply Option.ne_none_iff_exists'.1
    rw [Ne, least?_gaps_eq_none_iff]
    intro hnone
    obtain ⟨gap, hmem, habove⟩ := hspread
    exact hnone gap hmem habove
  have habove : tolerance.value.val < gap.val := (mem_gaps_of_least? hgap).2
  have hpos : 0 < gap.val := htolerance.trans habove
  obtain ⟨divisor, hdivisor⟩ := exists_fittingDivisor (v :: w :: x :: rest)
    (snapped v gap tolerance.value) htolerance hpos
  have hleast := isLeast_of_fittingDivisor hpos hdivisor
  refine ⟨gap, divisor, isLeast_of_least? hgap, hleast, divisor_le htolerance hpos hleast,
    half_tolerance_lt htolerance habove hleast, ?_, ?_⟩
  · intro hcounted
    obtain ⟨a, hyields, hlattice⟩ :=
      exists_yields_fit_lattice htolerance hdistinct hgap hdivisor hcounted
    refine ⟨a, hyields, ?_, hlattice.reference_eq⟩
    rw [hlattice.pixel_eq]
    rfl
  · intro hcounted
    exact faults_fit_of_not_stepsCounted hdistinct hgap hdivisor hcounted

/-- Three positions, of which the last one is near a multiple of a third of the first gap. -/
def thirds : List (Exact rationals) := [⟨0⟩, ⟨10⟩, ⟨23⟩]

/-- The gap of ten is divided by three, which leaves 23 a third away from the lattice. -/
theorem fit_smallest_divisor_thirds :
    let nyquist : Arcsec (Exact rationals) := ⟨⟨7⟩⟩
    let tolerance : Arcsec (Exact rationals) := ⟨⟨7 / 5⟩⟩
    distinctSorted thirds.reverse = thirds ∧ 0 < tolerance.value.val ∧
      (∃ gap ∈ gaps thirds, tolerance.value < gap) ∧
      ∃ gap divisor,
        IsLeast {g : ℚ | (⟨g⟩ : Exact rationals) ∈ gaps thirds ∧ tolerance.value.val < g}
          gap.val ∧
        IsLeast {n : ℕ | 1 ≤ n ∧ Suits thirds (snapped ⟨0⟩ gap tolerance.value).val gap.val
          tolerance.value.val n} divisor ∧
        divisor ≤ ⌊gap.val / tolerance.value.val⌋₊ + 1 ∧
        tolerance.value.val / 2 < gap.val / divisor ∧
        (StepsCounted thirds.reverse tolerance →
          ∃ a, (fit thirds.reverse nyquist tolerance).Yields true a ∧
            a.pixel.value.val = gap.val / divisor ∧
            a.reference = ⟨snapped ⟨0⟩ gap tolerance.value⟩) ∧
        (¬ StepsCounted thirds.reverse tolerance →
          (fit thirds.reverse nyquist tolerance).Faults true .addition) := by
  intro nyquist tolerance
  have hdistinct : distinctSorted thirds.reverse = thirds := by
    rw [distinctSorted_congr (List.reverse_perm thirds)]
    exact distinctSorted_eq_self (by decide +kernel) (by decide +kernel)
  have htolerance : 0 < tolerance.value.val := by decide +kernel
  have hspread : ∃ gap ∈ gaps thirds, tolerance.value < gap :=
    ⟨⟨10⟩, by decide +kernel, by decide +kernel⟩
  exact ⟨hdistinct, htolerance, hspread, fit_smallest_divisor hdistinct htolerance hspread⟩

end Exactly

end Axis

end Heterodyne
