import Heterodyne.Proofs.Grid.Row
/-!
# Thinned positions

Closeness is not transitive, so what is left of a chain of positions, each close to the next one,
depends on what every position is compared with: the last one kept. In exact arithmetic each
position lies less than the closeness above one that is kept, and those that are kept are at least
the closeness apart. These two properties leave no choice.

* `Thins`: what is left of positions, by what it keeps and what it stands for.
* `thins_distinctSorted`: the distinct positions are left.
* `Thins.unique`: nothing else can be left.
* `distinctSorted_outcome`: the distinct positions described.
-/

namespace Heterodyne

namespace Axis

variable {K : Type} [Field K] [LinearOrder K] {F : Apparatus K}

/-- Some of the given positions, in order and apart, that stand for all of them. -/
structure Thins (given : Exact F → Prop) (kept : List (Exact F)) : Prop where
  given_of_mem : ∀ r ∈ kept, given r
  apart : kept.Pairwise fun v w => 1 / 10 ^ 9 ≤ w.val - v.val
  /-- Every position lies less than the closeness above one that is kept. -/
  covers : ∀ v, given v → ∃ r ∈ kept, 0 ≤ v.val - r.val ∧ v.val - r.val < 1 / 10 ^ 9

/-! ## One way to thin out -/

namespace Thins

variable {given : Exact F → Prop} {kept others rest : List (Exact F)} {first v : Exact F}

/-- Behind the first one, the positions that are not close to it are thinned out. -/
theorem tail (h : Thins given (first :: rest)) :
    Thins (fun v => given v ∧ 1 / 10 ^ 9 ≤ v.val - first.val) rest := by
  obtain ⟨hfirst, hrest⟩ := List.pairwise_cons.1 h.apart
  refine ⟨fun r hr => ⟨h.given_of_mem r (List.mem_cons_of_mem first hr), hfirst r hr⟩, hrest, ?_⟩
  rintro v ⟨hv, hfar⟩
  obtain ⟨r, hr, hbelow, hclose⟩ := h.covers v hv
  rcases List.mem_cons.1 hr with rfl | hr
  · exact absurd hclose hfar.not_gt
  · exact ⟨r, hr, hbelow, hclose⟩

/-- If nothing is kept, nothing is given. -/
theorem not_given_of_nil (h : Thins given []) (v : Exact F) : ¬ given v := by
  intro hv
  obtain ⟨r, hr, -⟩ := h.covers v hv
  exact absurd hr List.not_mem_nil

variable [IsStrictOrderedRing K]

/-- What is kept is not thinned out any further. -/
theorem self (h : Thins given kept) : Thins (· ∈ kept) kept where
  given_of_mem _ hr := hr
  apart := h.apart
  covers v hv := ⟨v, hv, by simp⟩

/-- What is kept first is the least of the given positions. -/
theorem first_le (h : Thins given (first :: rest)) (hv : given v) : first.val ≤ v.val := by
  obtain ⟨r, hr, hbelow, -⟩ := h.covers v hv
  rcases List.mem_cons.1 hr with rfl | hr
  · linarith
  · have hapart := (List.pairwise_cons.1 h.apart).1 r hr
    have hpos : (0 : K) < 1 / 10 ^ 9 := by positivity
    linarith

/-- Given positions are thinned out in one way. -/
theorem unique (hkept : Thins given kept) (hothers : Thins given others) : kept = others := by
  induction kept generalizing given others with
  | nil =>
    cases others with
    | nil => rfl
    | cons b more =>
      exact absurd (hothers.given_of_mem b List.mem_cons_self) (hkept.not_given_of_nil b)
  | cons a rest ih =>
    cases others with
    | nil => exact absurd (hkept.given_of_mem a List.mem_cons_self) (hothers.not_given_of_nil a)
    | cons b more =>
      -- both begin with the least position
      have hab : a = b := Exact.ext (le_antisymm
        (hkept.first_le (hothers.given_of_mem b List.mem_cons_self))
        (hothers.first_le (hkept.given_of_mem a List.mem_cons_self)))
      subst hab
      rw [ih hkept.tail hothers.tail]

end Thins

/-! ## Thinning out -/

section Distinct

variable [FloorRing K] [IsStrictOrderedRing K] {positions : List (Exact F)} {v last : Exact F}

/-- Of sorted positions, each one lies less than the closeness above one that is kept. -/
theorem exists_thinOut_below {vs : List (Exact F)}
    (hsorted : (last :: vs).Pairwise fun v w => Scalar.before v w = true) (hv : v ∈ vs) :
    ∃ r ∈ last :: thinOut last vs, 0 ≤ v.val - r.val ∧ v.val - r.val < 1 / 10 ^ 9 := by
  induction vs generalizing last with
  | nil => exact absurd hv List.not_mem_nil
  | cons u vs ih =>
    obtain ⟨hlast, hbehind⟩ := List.pairwise_cons.1 hsorted
    have hle : 0 ≤ u.val - last.val :=
      sub_nonneg.2 (Exact.before_iff.1 (hlast u List.mem_cons_self))
    rw [thinOut]
    split
    next hclose =>
      rw [Exact.close_iff, abs_of_nonneg hle] at hclose
      rcases List.mem_cons.1 hv with rfl | hv
      · exact ⟨last, List.mem_cons_self, hle, hclose⟩
      · exact ih (List.pairwise_cons.2
          ⟨fun w hw => hlast w (List.mem_cons_of_mem u hw), (List.pairwise_cons.1 hbehind).2⟩) hv
    next =>
      rcases List.mem_cons.1 hv with rfl | hv
      · exact ⟨v, List.mem_cons_of_mem last List.mem_cons_self, by simp⟩
      · obtain ⟨r, hr, hbelow⟩ := ih hbehind hv
        exact ⟨r, List.mem_cons_of_mem last hr, hbelow⟩

/-- Every position lies less than the closeness above a distinct one. -/
theorem exists_distinct_below (hv : v ∈ positions) :
    ∃ r ∈ distinctSorted positions, 0 ≤ v.val - r.val ∧ v.val - r.val < 1 / 10 ^ 9 := by
  obtain ⟨first, vs, hmem, hsort, hdistinct⟩ := exists_distinctSorted_eq_cons hv
  have hsorted := pairwise_mergeSort positions
  rw [hsort] at hsorted
  rw [hdistinct]
  rcases List.mem_cons.1 hmem with rfl | hbehind
  · exact ⟨v, List.mem_cons_self, by simp⟩
  · exact exists_thinOut_below hsorted hbehind

/-- The distinct positions are left. -/
theorem thins_distinctSorted (positions : List (Exact F)) :
    Thins (· ∈ positions) (distinctSorted positions) where
  given_of_mem _ := mem_of_mem_distinctSorted
  apart := (pairwise_apart_distinctSorted positions).imp fun h =>
    le_sub_iff_add_le'.2 (apart_iff.1 h)
  covers _ := exists_distinct_below

/-- The distinct positions are the one list of positions that are in order, apart by the closeness
at least, and such that every position lies less than the closeness above one of them. No position
is kept more often than it is given, the first one is the least of all, the distinct positions of
the distinct positions are themselves, and there are some if there are positions. -/
theorem distinctSorted_outcome (positions : List (Exact F)) :
    (∀ kept, Thins (· ∈ positions) kept ↔ kept = distinctSorted positions) ∧
      (distinctSorted positions).Subperm positions ∧
      (∀ first ∈ (distinctSorted positions).head?, ∀ v ∈ positions, first.val ≤ v.val) ∧
      distinctSorted (distinctSorted positions) = distinctSorted positions ∧
      (0 < (distinctSorted positions).length ↔ 0 < positions.length) ∧
      (distinctSorted positions).length ≤ positions.length := by
  have hthins := thins_distinctSorted positions
  have hsubperm : (distinctSorted positions).Subperm positions :=
    (distinctSorted_sublist positions).subperm.trans
      (List.mergeSort_perm positions Scalar.before).subperm
  refine ⟨?_, hsubperm, ?_, (thins_distinctSorted _).unique hthins.self, ?_,
    hsubperm.length_le⟩
  · intro kept
    constructor
    · exact fun hkept => hkept.unique hthins
    · rintro rfl
      exact hthins
  · intro first hfirst v hv
    obtain ⟨rest, hrest⟩ := List.head?_eq_some_iff.1 hfirst
    rw [hrest] at hthins
    exact hthins.first_le hv
  · constructor
    · exact fun hpos => hpos.trans_le hsubperm.length_le
    · intro hpos
      obtain ⟨v, hv⟩ := List.exists_mem_of_length_pos hpos
      obtain ⟨r, hr, -⟩ := hthins.covers v hv
      exact List.length_pos_of_mem hr

/-- Positions in no order, each of which is close to another one, and one of which is given
twice. -/
def closeChain : List (Exact rationals) :=
  [⟨18 / 10 ^ 10⟩, ⟨6 / 10 ^ 10⟩, ⟨24 / 10 ^ 10⟩, ⟨0⟩, ⟨12 / 10 ^ 10⟩, ⟨6 / 10 ^ 10⟩]

/-- Of the chain every other position is distinct. -/
theorem distinctSorted_outcome_closeChain :
    distinctSorted closeChain = [⟨0⟩, ⟨12 / 10 ^ 10⟩, ⟨24 / 10 ^ 10⟩] ∧
      (distinctSorted closeChain).length ≤ closeChain.length := by
  have hthins : Thins (· ∈ closeChain) [⟨0⟩, ⟨12 / 10 ^ 10⟩, ⟨24 / 10 ^ 10⟩] :=
    ⟨by decide +kernel, by decide +kernel, by decide +kernel⟩
  obtain ⟨hiff, -, -, -, -, hlength⟩ := distinctSorted_outcome closeChain
  exact ⟨((hiff _).1 hthins).symm, hlength⟩

end Distinct

end Axis

end Heterodyne
