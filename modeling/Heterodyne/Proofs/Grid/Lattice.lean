import Heterodyne.Proofs.Exact
import Heterodyne.Proofs.Grid.Overflow
import Mathlib.Data.List.Pairwise
/-!
# Fitted lattices

At least three distinct positions are fitted by a lattice: its gap is the smallest one above the
tolerance, its pixel is a part of the gap, and every position lies within the tolerance of it. In
exact numbers the search for the pixel comes to an end.

* `fitted_of_yields`: what a fitted axis is.
* `not_searchEndless`: exact trials fall below the tolerance at last.
* `offWhole_le`: positions lie within the tolerance of the lattice in units of its pixel.
* `not_hasSteps_zero`: an exact lattice has a step.
-/

namespace Heterodyne

namespace Axis

variable {α : Type} [Scalar α] {d : Bool}

/-! ## The smallest gap -/

/-- The smaller one of each two, all along a list, is an element at last. -/
theorem foldl_least_mem (vs : List α) (v : α) :
    vs.foldl (fun m w => if Scalar.before m w then m else w) v ∈ v :: vs := by
  induction vs generalizing v with
  | nil => exact List.mem_cons_self
  | cons w vs ih =>
    rw [List.foldl_cons]
    split
    · rcases List.mem_cons.1 (ih v) with heq | hmem
      · rw [heq]
        exact List.mem_cons_self
      · exact List.mem_cons_of_mem v (List.mem_cons_of_mem w hmem)
    · exact List.mem_cons_of_mem v (ih w)

/-- A smallest element is an element. -/
theorem mem_of_least? {values : List α} {v : α} (h : least? values = some v) : v ∈ values := by
  cases values with
  | nil => cases h
  | cons w ws =>
    rw [least?, Option.some.injEq] at h
    rw [← h]
    exact foldl_least_mem ws w

/-- A gap is the difference of two positions, which are in order if all of them are. -/
theorem exists_of_mem_gaps {r : α → α → Prop} {values : List α} {gap : α}
    (hsorted : values.Pairwise r) (h : gap ∈ gaps values) :
    ∃ a ∈ values, ∃ b ∈ values, r a b ∧ gap = b - a := by
  induction values with
  | nil => cases h
  | cons v vs ih =>
    rw [List.pairwise_cons] at hsorted
    cases vs with
    | nil => cases h
    | cons w vs =>
      rcases List.mem_cons.1 h with rfl | hbehind
      · exact ⟨v, List.mem_cons_self, w, List.mem_cons_of_mem v List.mem_cons_self,
          hsorted.1 w List.mem_cons_self, rfl⟩
      · obtain ⟨a, ha, b, hb, hab, hgap⟩ := ih hsorted.2 hbehind
        exact ⟨a, List.mem_cons_of_mem v ha, b, List.mem_cons_of_mem v hb, hab, hgap⟩

/-- There is no smallest element of no elements only. -/
theorem least?_eq_none_iff {values : List α} : least? values = none ↔ values = [] := by
  cases values <;> simp [least?]

/-- There is no smallest gap above the tolerance exactly if no gap is above it. -/
theorem least?_gaps_eq_none_iff {values : List α} {tolerance : α} :
    least? ((gaps values).filter fun gap => tolerance < gap) = none ↔
      ∀ gap ∈ gaps values, ¬ tolerance < gap := by
  rw [least?_eq_none_iff, List.filter_eq_nil_iff]
  simp only [decide_eq_true_eq]

/-- A smallest gap above the tolerance is one of the gaps above it. -/
theorem mem_gaps_of_least? {values : List α} {tolerance gap : α}
    (h : least? ((gaps values).filter fun gap => tolerance < gap) = some gap) :
    gap ∈ gaps values ∧ tolerance < gap := by
  have hmem := mem_of_least? h
  rw [List.mem_filter, decide_eq_true_eq] at hmem
  exact hmem

/-! ## The divisor -/

/-- Divisors are tried from the first one on. -/
theorem le_of_firstAccepted? {accept grows : Nat → Bool} {tries d n : Nat}
    (h : firstAccepted? accept grows tries d = some n) : d ≤ n := by
  induction tries generalizing d with
  | zero => exact absurd h (by simp [firstAccepted?])
  | succ tries ih =>
    unfold firstAccepted? at h
    split at h
    · cases h
      exact Nat.le_refl _
    · split at h
      · exact Nat.le_of_succ_le (ih h)
      · cases h

/-- The divisor that is found is a positive number, and its trial pixel falls below the tolerance
or fits. -/
theorem accept_of_fittingDivisor {values : List α} {reference gap tolerance : α} {divisor : Nat}
    (h : fittingDivisor values reference gap tolerance = .ok divisor) :
    1 ≤ divisor ∧ (gap / Scalar.whole divisor < tolerance ∨
      fits values reference (gap / Scalar.whole divisor) tolerance = true) := by
  unfold fittingDivisor at h
  dsimp only at h
  split at h
  · rename_i found hfound
    cases h
    have haccept := accept_of_firstAccepted? hfound
    rw [Bool.or_eq_true, decide_eq_true_eq] at haccept
    exact ⟨le_of_firstAccepted? hfound, haccept⟩
  · cases h

/-! ## The lattice -/

/-- An axis is the lattice of a gap and a divisor. -/
structure IsLattice (values : List α) (first last tolerance gap : α) (divisor : Nat)
    (a : Axis α) : Prop where
  gap_eq : least? ((gaps values).filter fun gap => tolerance < gap) = some gap
  divisor_eq : fittingDivisor values (snapped first gap tolerance) gap tolerance = .ok divisor
  pixel_eq : a.pixel = ⟨gap / Scalar.whole divisor⟩
  reference_eq : a.reference = ⟨snapped first gap tolerance⟩
  count_eq : a.count.toNat = Scalar.toNat (stepsTo last (snapped first gap tolerance)
    (gap / Scalar.whole divisor) tolerance) + 1

/-- An axis that is fitted to at least three distinct positions is a single pixel, if no gap is
above the tolerance, or a lattice. -/
theorem yields_fitLattice_cases {values : List α} {first last tolerance : α} {a : Axis α}
    (h : (fitLattice values first last tolerance).Yields d a) :
    (∀ gap ∈ gaps values, ¬ tolerance < gap) ∧
        a = ⟨1, ⟨tolerance⟩, ⟨(first + last) / Scalar.whole 2⟩⟩ ∨
      ∃ gap divisor, IsLattice values first last tolerance gap divisor a := by
  unfold fitLattice at h
  split at h
  · rename_i hnone
    rw [Run.yields_pure] at h
    exact .inl ⟨least?_gaps_eq_none_iff.1 hnone, h.symm⟩
  · rename_i gap hgap
    simp only [Run.yields_bind, Run.yields_ofCount, Run.yields_tellAll, Run.yields_pure,
      true_and] at h
    obtain ⟨divisor, hdivisor, -, count, hcount, rfl⟩ := h
    rw [Count.add_eq_ok_iff, Scalar.toNat_toCount, UInt32.toNat_one] at hcount
    have hlt := count.toNat_lt
    -- One more than the largest count is no count, so the number of steps was not cut off.
    have hmax : Scalar.maxCount = 2 ^ 32 - 1 := by decide
    refine .inr ⟨gap, divisor, hgap, hdivisor, rfl, rfl, ?_⟩
    show count.toNat = _
    omega

/-- At least three distinct positions are fitted by a lattice with the given number of steps. -/
def HasSteps (positions : List α) (tolerance : Arcsec α) (steps : ℕ) : Prop :=
  ∃ v w x rest gap divisor, distinctSorted positions = v :: w :: x :: rest ∧
    least? ((gaps (v :: w :: x :: rest)).filter fun gap => tolerance.value < gap) = some gap ∧
    fittingDivisor (v :: w :: x :: rest) (snapped v gap tolerance.value) gap tolerance.value =
      .ok divisor ∧
    steps = Scalar.toNat (stepsTo ((x :: rest).getLast (List.cons_ne_nil x rest))
      (snapped v gap tolerance.value) (gap / Scalar.whole divisor) tolerance.value)

/-- The number of steps is determined by the positions. -/
theorem HasSteps.unique {positions : List α} {tolerance : Arcsec α} {steps more : ℕ}
    (h : HasSteps positions tolerance steps) (hmore : HasSteps positions tolerance more) :
    steps = more := by
  obtain ⟨v, w, x, rest, gap, divisor, hdistinct, hgap, hdivisor, rfl⟩ := h
  obtain ⟨_, _, _, _, gap', divisor', hdistinct', hgap', hdivisor', rfl⟩ := hmore
  rw [hdistinct] at hdistinct'
  cases hdistinct'
  cases Option.some.inj (hgap.symm.trans hgap')
  cases Except.ok.inj (hdivisor.symm.trans hdivisor')
  rfl

/-- What the fit of an axis to positions settles for. -/
inductive Fitted (positions : List α) (nyquist tolerance : Arcsec α) : Axis α → Prop
  | single {v : α} (h : distinctSorted positions = [v]) :
    Fitted positions nyquist tolerance ⟨1, nyquist, ⟨v⟩⟩
  | pair {v w : α} (h : distinctSorted positions = [v, w]) :
    Fitted positions nyquist tolerance ⟨2, ⟨w - v⟩, ⟨v⟩⟩
  | together {v w x : α} {rest : List α} (h : distinctSorted positions = v :: w :: x :: rest)
    (hgaps : ∀ gap ∈ gaps (v :: w :: x :: rest), ¬ tolerance.value < gap) :
    Fitted positions nyquist tolerance
      ⟨1, tolerance, ⟨(v + (x :: rest).getLast (List.cons_ne_nil x rest)) / Scalar.whole 2⟩⟩
  | lattice {v w x : α} {rest : List α} {gap : α} {divisor : ℕ} {a : Axis α}
    (h : distinctSorted positions = v :: w :: x :: rest)
    (hlattice : IsLattice (v :: w :: x :: rest) v
      ((x :: rest).getLast (List.cons_ne_nil x rest)) tolerance.value gap divisor a) :
    Fitted positions nyquist tolerance a

/-- An axis that is yielded is fitted. -/
theorem fitted_of_yields {positions : List α} {nyquist tolerance : Arcsec α} {a : Axis α}
    (h : (fit positions nyquist tolerance).Yields d a) : Fitted positions nyquist tolerance a := by
  unfold fit at h
  split at h
  · exact absurd h Run.not_yields_refuse
  · rename_i v hdistinct
    rw [← Run.yields_pure.1 h]
    exact .single hdistinct
  · rename_i v w hdistinct
    rw [← Run.yields_pure.1 h]
    exact .pair hdistinct
  · rename_i v w x rest hdistinct
    rcases yields_fitLattice_cases h with ⟨hgaps, rfl⟩ | ⟨gap, divisor, hlattice⟩
    · exact .together hdistinct hgaps
    · exact .lattice hdistinct hlattice

/-- An axis is fitted to positions unless it overflows. -/
theorem exists_yields_fit {positions : List α} {nyquist tolerance : Arcsec α}
    (hpositions : positions ≠ []) (hfits : ¬ FitOverflows positions tolerance) :
    ∃ a, (fit positions nyquist tolerance).Yields d a := by
  rcases Run.yields_or_refuses (mt breaksOff_fit_iff.1 hfits) with hyields | ⟨cause, hcause⟩
  · exact hyields
  · exact absurd (eq_nil_of_refuses_fit hcause) hpositions

/-! ## Lattices in exact numbers -/

section Exactly

variable {K : Type} [Field K] [LinearOrder K] [FloorRing K] {F : Apparatus K}

/-- The distance from a whole number, as a number of the field. -/
theorem val_offWhole (x : Exact F) : (offWhole x).val = |x.val - roundAway x.val| := rfl

/-- Positions in order lie between the first and the last one. -/
theorem le_and_le_getLast {v w x u : Exact F} {rest : List (Exact F)}
    (hsorted : (v :: w :: x :: rest).Pairwise fun a b => Scalar.before a b = true)
    (hu : u ∈ v :: w :: x :: rest) :
    v.val ≤ u.val ∧ u.val ≤ ((x :: rest).getLast (List.cons_ne_nil x rest)).val := by
  have hself (y : Exact F) : Scalar.before y y = true := Exact.before_iff.2 le_rfl
  constructor
  · rcases List.mem_cons.1 hu with rfl | hbehind
    · exact le_rfl
    · exact Exact.before_iff.1 ((List.pairwise_cons.1 hsorted).1 u hbehind)
  · exact Exact.before_iff.1 (hsorted.rel_getLast_of_rel_getLast_getLast hu (hself _))

variable [IsStrictOrderedRing K] {values : List (Exact F)}
  {reference trial tolerance gap first last v : Exact F}

/-- A divisor beyond the quotient of gap and tolerance makes a trial pixel below the tolerance. -/
theorem trial_lt_tolerance (htolerance : 0 < tolerance.val) (hgap : 0 < gap.val) {divisor : ℕ}
    (hdivisor : ⌊gap.val / tolerance.val⌋.toNat < divisor) :
    gap / Scalar.whole divisor < tolerance := by
  have hbelow : gap.val / tolerance.val < divisor := by
    have hfloor : (⌊gap.val / tolerance.val⌋ : K) ≤ (⌊gap.val / tolerance.val⌋.toNat : ℕ) := by
      exact_mod_cast Int.self_le_toNat _
    have hnext : (⌊gap.val / tolerance.val⌋.toNat : K) + 1 ≤ divisor := by
      exact_mod_cast hdivisor
    have hlt := Int.lt_floor_add_one (gap.val / tolerance.val)
    linarith
  have hpos : (0 : K) < divisor := (div_pos hgap htolerance).trans hbelow
  rw [Exact.lt_iff, Exact.val_div, Exact.val_whole, div_lt_iff₀ hpos, mul_comm]
  rwa [div_lt_iff₀ htolerance] at hbelow

/-- The search for a divisor comes to an end. -/
theorem not_searchEndless (htolerance : 0 < tolerance.val) (hgap : 0 < gap.val) :
    ¬ SearchEndless values reference gap tolerance := by
  intro hendless
  have htries : ⌊gap.val / tolerance.val⌋.toNat + 1 < 1 + divisorTries gap tolerance := by
    rw [divisorTries, Exact.toNat_eq, Exact.val_div]
    omega
  have hgrows (m : ℕ) : (Scalar.whole m : Exact F) < Scalar.whole (m + 1) := by
    rw [Exact.lt_iff, Exact.val_whole, Exact.val_whole, Nat.cast_lt]
    exact Nat.lt_succ_self m
  have hrejected := hendless _ (Nat.le_add_left 1 _) htries fun m _ _ => hgrows m
  exact hrejected.1 (trial_lt_tolerance htolerance hgap (Nat.lt_succ_self _))

/-- Where a trial pixel falls below the tolerance or fits, every position lies within the
tolerance of the lattice, in units of the pixel. -/
theorem offWhole_le (htrial : 0 < trial.val)
    (haccept : trial < tolerance ∨ fits values reference trial tolerance = true)
    (hv : v ∈ values) : offWhole ((v - reference) / trial) ≤ tolerance / trial := by
  rcases haccept with hbelow | hfits
  · rw [Exact.le_iff, val_offWhole, Exact.val_div tolerance]
    have hone : 1 < tolerance.val / trial.val := (one_lt_div htrial).2 hbelow
    exact (abs_sub_roundAway_le _).trans (by linarith)
  · rw [fits, List.all_eq_true] at hfits
    exact of_decide_eq_true (hfits v hv)

/-- A position off a whole number of pixels lies off the pixel with this number. -/
theorem abs_sub_step_le (htrial : 0 < trial.val)
    (hoff : offWhole ((v - reference) / trial) ≤ tolerance / trial) :
    |v.val - (reference.val + trial.val * roundAway ((v.val - reference.val) / trial.val))| ≤
      tolerance.val := by
  rw [Exact.le_iff, val_offWhole, Exact.val_div, Exact.val_sub, Exact.val_div,
    le_div_iff₀ htrial] at hoff
  calc |v.val - (reference.val + trial.val * roundAway ((v.val - reference.val) / trial.val))|
      = |((v.val - reference.val) / trial.val
          - roundAway ((v.val - reference.val) / trial.val)) * trial.val| := by
        congr 1
        field_simp
        ring
    _ = |(v.val - reference.val) / trial.val
          - roundAway ((v.val - reference.val) / trial.val)| * trial.val := by
        rw [abs_mul, abs_of_pos htrial]
    _ ≤ tolerance.val := hoff

/-- The trial pixel that is found is a part of the gap. -/
theorem trial_bounds {divisor : ℕ} (hgap : 0 < gap.val) (hdivisor : 1 ≤ divisor) :
    0 < (gap / Scalar.whole divisor : Exact F).val ∧
      (gap / Scalar.whole divisor : Exact F).val ≤ gap.val := by
  have hone : (1 : K) ≤ divisor := Nat.one_le_cast.2 hdivisor
  rw [Exact.val_div, Exact.val_whole]
  exact ⟨div_pos hgap (by linarith), div_le_self hgap.le hone⟩

/-- The last position lies within the tolerance of the lattice, so the steps to it are rounded. -/
theorem toNat_stepsTo (htrial : 0 < trial.val)
    (haccept : trial < tolerance ∨ fits values reference trial tolerance = true)
    (hlast : last ∈ values) : Scalar.toNat (stepsTo last reference trial tolerance) =
      (roundAway ((last.val - reference.val) / trial.val)).toNat := by
  rw [stepsTo, if_pos (offWhole_le htrial haccept hlast), Exact.toNat_eq, Exact.val_round,
    Int.floor_intCast]
  rfl

/-- The reference lies within the tolerance of the first position. -/
theorem abs_sub_snapped_lt (htolerance : 0 < tolerance.val) :
    |first.val - (snapped first gap tolerance).val| < tolerance.val := by
  unfold snapped
  dsimp only
  split
  · rename_i hnear
    exact hnear
  · rwa [sub_self, abs_zero]

/-- The reference lies within half a gap of the first position. -/
theorem abs_sub_snapped_le (first tolerance : Exact F) (hgap : 0 < gap.val) :
    |first.val - (snapped first gap tolerance).val| ≤ gap.val / 2 := by
  unfold snapped
  dsimp only
  split
  · have hround := abs_sub_roundAway_le (first.val / gap.val)
    calc |first.val - roundAway (first.val / gap.val) * gap.val|
        = |(first.val / gap.val - roundAway (first.val / gap.val)) * gap.val| := by
          rw [sub_mul, div_mul_cancel₀ _ hgap.ne']
      _ = |first.val / gap.val - roundAway (first.val / gap.val)| * gap.val := by
          rw [abs_mul, abs_of_pos hgap]
      _ ≤ 1 / 2 * gap.val := mul_le_mul_of_nonneg_right hround hgap.le
      _ = gap.val / 2 := by ring
  · rw [sub_self, abs_zero]
    exact (half_pos hgap).le

/-- A lattice has a step: the last position is at least half a gap beyond the reference, and half
a pixel is rounded up. -/
theorem not_hasSteps_zero {positions : List (Exact F)} {tolerance : Arcsec (Exact F)}
    (htolerance : 0 < tolerance.value.val) : ¬ HasSteps positions tolerance 0 := by
  rintro ⟨v, w, x, rest, gap, divisor, hdistinct, hgap, hdivisor, hzero⟩
  have hsorted := pairwise_distinctSorted positions
  rw [hdistinct] at hsorted
  obtain ⟨hmem, habove⟩ := mem_gaps_of_least? hgap
  have hpos : 0 < gap.val := htolerance.trans habove
  obtain ⟨hone, haccept⟩ := accept_of_fittingDivisor hdivisor
  obtain ⟨htrial, hpart⟩ := trial_bounds hpos hone
  have hlast : (x :: rest).getLast (List.cons_ne_nil x rest) ∈ v :: w :: x :: rest :=
    List.mem_cons_of_mem v (List.mem_cons_of_mem w (List.getLast_mem _))
  rw [toNat_stepsTo htrial haccept hlast] at hzero
  -- The gap lies between the first and the last position.
  have hspan : gap.val ≤ ((x :: rest).getLast (List.cons_ne_nil x rest)).val - v.val := by
    obtain ⟨a, ha, b, hb, -, rfl⟩ := exists_of_mem_gaps hsorted hmem
    have hfirst := (le_and_le_getLast hsorted ha).1
    have hbelow := (le_and_le_getLast hsorted hb).2
    rw [Exact.val_sub]
    linarith
  have hnear := abs_le.1 (abs_sub_snapped_le v tolerance.value hpos)
  have hhalf : (1 / 2 : K) ≤ (((x :: rest).getLast (List.cons_ne_nil x rest)).val
      - (snapped v gap tolerance.value).val) / (gap / Scalar.whole divisor : Exact F).val := by
    rw [le_div_iff₀ htrial]
    linarith
  have hround : 1 ≤ roundAway (1 / 2 : K) := by
    rw [roundAway, if_pos (by norm_num), Int.le_floor]
    norm_num
  have hsteps := hround.trans (roundAway_mono hhalf)
  omega

end Exactly

end Axis

end Heterodyne
