import Heterodyne.Proofs.Grid.Lattice
import Heterodyne.Proofs.Binary64.Operations
/-!
# Axes of a single pixel

Positions that lie within the tolerance of each other share a pixel, unless they are just two: of
two positions each has its own. The rule looks at the gaps between neighbouring positions, and so
a chain of small gaps shares a pixel however long it is. A lattice has a single pixel only where
rounding moves its reference too near to the last position; in exact numbers none has.

* `count_eq_one_iff_within`: when an axis of doubles has a single pixel.
* `count_eq_one_iff_of_exact`: when an axis of exact numbers has one.
* `not_count_eq_one_iff_within`: a pair, a chain and a lattice for which it is not the span that
  decides.
-/

namespace Heterodyne

namespace Axis

variable {α : Type} [Scalar α] {d : Bool}

/-! ## Spans -/

section Spans

variable {K : Type} [Sub K] [LE K]

/-- The numbers of the distinct positions lie within the tolerance of each other. -/
def Within (value : α → K) (positions : List α) (tolerance : Arcsec α) : Prop :=
  ∀ v ∈ distinctSorted positions, ∀ w ∈ distinctSorted positions,
    value w - value v ≤ value tolerance.value

/-- At least three distinct positions have no gap above the tolerance, but they do not lie within
the tolerance of each other. -/
def LongChain (value : α → K) (positions : List α) (tolerance : Arcsec α) : Prop :=
  2 < (distinctSorted positions).length ∧
    (∀ gap ∈ gaps (distinctSorted positions), ¬ tolerance.value < gap) ∧
    ¬ Within value positions tolerance

end Spans

section Counting

variable {K : Type} [Sub K] [LinearOrder K] {value : α → K} {positions : List α}
  {nyquist tolerance : Arcsec α} {a : Axis α}

/-- Where a position lies within the tolerance of itself, and positions with a gap above the
tolerance do not lie within it, an axis has a single pixel for positions within the tolerance
other than a pair, for a long chain, and for a lattice without steps. -/
theorem count_eq_one_iff (h : (fit positions nyquist tolerance).Yields d a)
    (hself : ∀ v ∈ distinctSorted positions, value v - value v ≤ value tolerance.value)
    (hgaps : ∀ gap ∈ gaps (distinctSorted positions), tolerance.value < gap →
      ¬ Within value positions tolerance) :
    a.count = 1 ↔
      Within value positions tolerance ∧ (distinctSorted positions).length ≠ 2 ∨
        LongChain value positions tolerance ∨ HasSteps positions tolerance 0 := by
  have hmany {steps : ℕ} (hsteps : HasSteps positions tolerance steps) :
      2 < (distinctSorted positions).length := by
    obtain ⟨v, w, x, rest, -, -, hdistinct, -⟩ := hsteps
    rw [hdistinct]
    simp
  cases fitted_of_yields h with
  | @single v hdistinct =>
    have hwithin : Within value positions tolerance := by
      intro u hu w hw
      rw [hdistinct, List.mem_singleton] at hu hw
      subst hu hw
      exact hself w (by rw [hdistinct]; exact List.mem_singleton_self w)
    exact iff_of_true rfl (.inl ⟨hwithin, by rw [hdistinct]; simp⟩)
  | @pair v w hdistinct =>
    refine iff_of_false (by decide : ¬ (2 : UInt32) = 1) ?_
    have hlength : (distinctSorted positions).length = 2 := by rw [hdistinct]; rfl
    rintro (⟨-, hne⟩ | ⟨hlong, -⟩ | hsteps)
    · exact hne hlength
    · omega
    · have hlong := hmany hsteps
      omega
  | together hdistinct hnone =>
    refine iff_of_true rfl ?_
    have hlength : 2 < (distinctSorted positions).length := by rw [hdistinct]; simp
    rw [← hdistinct] at hnone
    by_cases hwithin : Within value positions tolerance
    · exact .inl ⟨hwithin, hlength.ne'⟩
    · exact .inr (.inl ⟨hlength, hnone, hwithin⟩)
  | @lattice v w x rest gap divisor a hdistinct hlattice =>
    obtain ⟨hmem, habove⟩ := mem_gaps_of_least? hlattice.gap_eq
    rw [← hdistinct] at hmem
    have hsteps : HasSteps positions tolerance (a.count.toNat - 1) :=
      ⟨v, w, x, rest, gap, divisor, hdistinct, hlattice.gap_eq, hlattice.divisor_eq, by
        rw [hlattice.count_eq, Nat.add_sub_cancel]⟩
    have hpos := hlattice.count_eq
    rw [← UInt32.toNat_inj, UInt32.toNat_one]
    constructor
    · intro hone
      rw [hone] at hsteps
      exact .inr (.inr hsteps)
    · rintro (⟨hwithin, -⟩ | ⟨-, hnone, -⟩ | hzero)
      · exact absurd hwithin (hgaps gap hmem habove)
      · exact absurd habove (hnone gap hmem)
      · have heq := hsteps.unique hzero
        omega

end Counting

/-! ## Exact numbers -/

/-- An axis of exact numbers has a single pixel for positions within the tolerance other than a
pair, and for a long chain. -/
theorem count_eq_one_iff_of_exact {K : Type} [Field K] [LinearOrder K] [IsStrictOrderedRing K]
    [FloorRing K] {F : Apparatus K} {positions : List (Exact F)}
    {nyquist tolerance : Arcsec (Exact F)} {a : Axis (Exact F)}
    (h : (fit positions nyquist tolerance).Yields d a) (htolerance : 0 < tolerance.value.val) :
    a.count = 1 ↔
      Within Exact.val positions tolerance ∧ (distinctSorted positions).length ≠ 2 ∨
        LongChain Exact.val positions tolerance := by
  have hself : ∀ v ∈ distinctSorted positions, v.val - v.val ≤ tolerance.value.val := by
    intro v _
    rw [sub_self]
    exact htolerance.le
  have hgaps : ∀ gap ∈ gaps (distinctSorted positions), tolerance.value < gap →
      ¬ Within Exact.val positions tolerance := by
    intro gap hgap habove hwithin
    obtain ⟨v, hv, w, hw, -, rfl⟩ := exists_of_mem_gaps (pairwise_distinctSorted positions) hgap
    exact (hwithin v hv w hw).not_gt habove
  rw [count_eq_one_iff h hself hgaps]
  simp only [not_hasSteps_zero htolerance, or_false]

/-! ## Doubles -/

section Doubles

open Binary64

variable {positions : List Binary64} {nyquist tolerance : Arcsec Binary64} {a : Axis Binary64}

/-- Numbers in order whose difference is rounded to more than a number are further apart. -/
theorem lt_sub_of_lt {v w t : Binary64} (hv : v.IsFinite) (hw : w.IsFinite) (ht : t.IsFinite)
    (hle : v.value ≤ w.value) (h : t < w - v) : t.value < w.value - v.value := by
  by_contra hnot
  rw [not_lt] at hnot
  have hmax : |w.value - v.value| ≤ maxValue := by
    rw [abs_of_nonneg (sub_nonneg.2 hle)]
    exact hnot.trans ((le_abs_self _).trans ht.abs_value_le)
  have hrounds := rounds_sub hw hv hmax
  have hbelow := hrounds.isNearest.le (representable_value t) hnot
  exact hbelow.not_gt ((lt_iff_value_lt ht hrounds.isFinite).1 h)

/-- Positions with a gap above the tolerance do not lie within it. -/
theorem not_within_of_gap (hfinite : ∀ v ∈ positions, v.IsFinite)
    (htolerance : tolerance.value.IsFinite) {gap : Binary64}
    (hgap : gap ∈ gaps (distinctSorted positions)) (habove : tolerance.value < gap) :
    ¬ Within Binary64.value positions tolerance := by
  intro hwithin
  have hkept {v : Binary64} (hv : v ∈ distinctSorted positions) : v.IsFinite :=
    hfinite v (List.mem_mergeSort.1 ((distinctSorted_sublist positions).subset hv))
  obtain ⟨v, hv, w, hw, hbefore, rfl⟩ :=
    exists_of_mem_gaps (pairwise_distinctSorted positions) hgap
  exact (hwithin v hv w hw).not_gt
    (lt_sub_of_lt (hkept hv) (hkept hw) htolerance (value_le_of_before hbefore) habove)

/-- Positions within the tolerance have an axis; and an axis has a single pixel exactly for
positions within the tolerance other than a pair, for a long chain, and for a lattice without
steps. -/
theorem count_eq_one_iff_within (hpositions : positions ≠ [])
    (hfinite : ∀ v ∈ positions, v.IsFinite) (htolerance : tolerance.value.IsFinite)
    (hpositive : 0 < tolerance.value.value) :
    (Within Binary64.value positions tolerance →
      ∃ a, (fit positions nyquist tolerance).Yields d a) ∧
    ∀ a, (fit positions nyquist tolerance).Yields d a →
      (a.count = 1 ↔
        Within Binary64.value positions tolerance ∧ (distinctSorted positions).length ≠ 2 ∨
          LongChain Binary64.value positions tolerance ∨ HasSteps positions tolerance 0) := by
  constructor
  · intro hwithin
    refine exists_yields_fit hpositions ?_
    rintro ⟨v, w, x, rest, hdistinct, gap, hgap, -⟩
    obtain ⟨hmem, habove⟩ := mem_gaps_of_least? hgap
    rw [← hdistinct] at hmem
    exact not_within_of_gap hfinite htolerance hmem habove hwithin
  · intro a h
    refine count_eq_one_iff h (fun v _ => ?_) fun gap hgap habove =>
      not_within_of_gap hfinite htolerance hgap habove
    rw [sub_self]
    exact hpositive.le

/-- Four positions three quarters of the tolerance 1 apart from the next one. -/
def longChain : List Binary64 := [.ofNat 0, .ofDecimal 75 2, .ofDecimal 15 1, .ofDecimal 225 2]

/-- The chain has a single pixel because it is long. -/
theorem count_eq_one_iff_within_longChain :
    longChain ≠ [] ∧ (∀ v ∈ longChain, v.IsFinite) ∧ (ofNat 1).IsFinite ∧
      0 < (ofNat 1).value ∧
      (Within Binary64.value longChain ⟨.ofNat 1⟩ →
        ∃ a, (fit longChain ⟨.ofNat 7⟩ ⟨.ofNat 1⟩).Yields true a) ∧
      ∀ a, (fit longChain ⟨.ofNat 7⟩ ⟨.ofNat 1⟩).Yields true a →
        (a.count = 1 ↔
          Within Binary64.value longChain ⟨.ofNat 1⟩ ∧ (distinctSorted longChain).length ≠ 2 ∨
            LongChain Binary64.value longChain ⟨.ofNat 1⟩ ∨ HasSteps longChain ⟨.ofNat 1⟩ 0) := by
  have hpositions : longChain ≠ [] := List.cons_ne_nil _ _
  have hfinite : ∀ v ∈ longChain, v.IsFinite := by decide +kernel
  have htolerance : (ofNat 1).IsFinite := by decide +kernel
  have hpositive : 0 < (ofNat 1).value := by decide +kernel
  exact ⟨hpositions, hfinite, htolerance, hpositive,
    count_eq_one_iff_within hpositions hfinite htolerance hpositive⟩

/-- Two positions a quarter of the tolerance 2 apart. -/
def closePair : List Binary64 := [.ofNat 0, .ofDecimal 5 1]

/-- Three positions around `2 ^ 25`. The reference of their lattice is rounded upwards, to a little
more than half a pixel in front of the last position. -/
def midwayTriple : List Binary64 :=
  [⟨0x417ffffffa4ec092⟩, ⟨0x417ffffffa4ec093⟩, ⟨0x418000000763689a⟩]

/-- Whether an axis has a single pixel is not told by whether the positions lie within the
tolerance of each other: a pair within the tolerance has two pixels; a chain has one, and so has a
lattice, although their positions do not lie within it. -/
theorem not_count_eq_one_iff_within :
    (∃ a, (fit closePair ⟨.ofNat 7⟩ ⟨.ofNat 2⟩).Yields true a ∧ a.count = 2 ∧
      Within Binary64.value closePair ⟨.ofNat 2⟩) ∧
    (∃ a, (fit longChain ⟨.ofNat 7⟩ ⟨.ofNat 1⟩).Yields true a ∧ a.count = 1 ∧
      ¬ Within Binary64.value longChain ⟨.ofNat 1⟩) ∧
    ∃ a, (fit midwayTriple ⟨.ofNat 7⟩ ⟨.ofNat 1⟩).Yields true a ∧ a.count = 1 ∧
      ¬ Within Binary64.value midwayTriple ⟨.ofNat 1⟩ := by
  have hpair : distinctSorted closePair = closePair :=
    distinctSorted_eq_self (by decide +kernel) (by decide +kernel)
  have hchain : distinctSorted longChain = longChain :=
    distinctSorted_eq_self (by decide +kernel) (by decide +kernel)
  have htriple : distinctSorted midwayTriple = midwayTriple :=
    distinctSorted_eq_self (by decide +kernel) (by decide +kernel)
  refine ⟨?_, ?_, ?_⟩
  · obtain ⟨a, hyields, hcount⟩ :
        ∃ a, (fit closePair ⟨.ofNat 7⟩ ⟨.ofNat 2⟩).Yields true a ∧ a.count = 2 := by
      unfold fit
      rw [hpair]
      exact Run.exists_yields_of_toOption (by decide +kernel)
    refine ⟨a, hyields, hcount, ?_⟩
    unfold Within
    rw [hpair]
    decide +kernel
  · obtain ⟨a, hyields, hcount⟩ :
        ∃ a, (fit longChain ⟨.ofNat 7⟩ ⟨.ofNat 1⟩).Yields true a ∧ a.count = 1 := by
      unfold fit
      rw [hchain]
      exact Run.exists_yields_of_toOption (by decide +kernel)
    refine ⟨a, hyields, hcount, ?_⟩
    unfold Within
    rw [hchain]
    decide +kernel
  · obtain ⟨a, hyields, hcount⟩ :
        ∃ a, (fit midwayTriple ⟨.ofNat 7⟩ ⟨.ofNat 1⟩).Yields true a ∧ a.count = 1 := by
      unfold fit
      rw [htriple]
      exact Run.exists_yields_of_toOption (by decide +kernel)
    refine ⟨a, hyields, hcount, ?_⟩
    unfold Within
    rw [htriple]
    decide +kernel

end Doubles

end Axis

end Heterodyne
