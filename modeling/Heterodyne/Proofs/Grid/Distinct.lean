import Heterodyne.Grid.Axis
import Heterodyne.Proofs.Binary64.Whole
/-!
# Distinct positions

Positions are sorted by a total order that tells any two of them apart, so the order in which they
are given does not matter. A position that is given again stands next to itself in the sorted list
and is dropped, if it is close to itself; every number is.

* `distinctSorted_congr`: the distinct positions do not depend on the order of the positions.
* `exists_distinct_close`: every position is close to a distinct one.
* `distinctSorted_append`: repeated positions do not change the distinct ones.
* `Binary64.close_self`: every finite number is close to itself.
-/

namespace Heterodyne

/-- The order by which lists are sorted is total, and no two numbers come before each other. -/
class SortsUniquely (α : Type) [Scalar α] : Prop where
  total (x y : α) : (Scalar.before x y || Scalar.before y x) = true
  trans (x y z : α) : Scalar.before x y = true → Scalar.before y z = true →
    Scalar.before x z = true
  antisymm (x y : α) : Scalar.before x y = true → Scalar.before y x = true → x = y

instance : SortsUniquely Binary64 where
  total := Binary64.before_total
  trans := Binary64.before_trans
  antisymm _ _ := Binary64.before_antisymm

namespace Axis

variable {α : Type} [Scalar α]

/-! ## Sorting -/

section Sorting

variable [SortsUniquely α] {v : α} {values others : List α}

/-- A sorted list is in order. -/
theorem pairwise_mergeSort (values : List α) :
    (values.mergeSort Scalar.before).Pairwise fun a b => Scalar.before a b = true :=
  List.pairwise_mergeSort SortsUniquely.trans SortsUniquely.total values

/-- A list in order is the sorted one of its elements. -/
theorem mergeSort_eq_of_perm (h : others.Perm values)
    (hsorted : others.Pairwise fun a b => Scalar.before a b = true) :
    values.mergeSort Scalar.before = others :=
  List.Perm.eq_of_pairwise (fun a b _ _ => SortsUniquely.antisymm a b) (pairwise_mergeSort values)
    hsorted ((List.mergeSort_perm values _).trans h.symm)

/-- The distinct positions do not depend on the order of the positions. -/
theorem distinctSorted_congr (h : values.Perm others) :
    distinctSorted values = distinctSorted others := by
  have hsort : values.mergeSort Scalar.before = others.mergeSort Scalar.before :=
    mergeSort_eq_of_perm ((List.mergeSort_perm others _).trans h.symm) (pairwise_mergeSort others)
  rw [distinctSorted, distinctSorted, hsort]

/-- A position that is given again stands next to itself in the sorted list. -/
theorem exists_mergeSort_cons (hv : v ∈ values) :
    ∃ smaller larger, values.mergeSort Scalar.before = smaller ++ v :: larger ∧
      (v :: values).mergeSort Scalar.before = smaller ++ v :: v :: larger := by
  obtain ⟨smaller, larger, hsort⟩ :=
    List.mem_iff_append.1 ((List.mergeSort_perm values Scalar.before).mem_iff.2 hv)
  have hsorted := pairwise_mergeSort values
  have hperm := List.mergeSort_perm values Scalar.before
  rw [hsort] at hsorted hperm
  refine ⟨smaller, larger, hsort, mergeSort_eq_of_perm ?_ ?_⟩
  · exact List.perm_middle.trans (hperm.cons v)
  · have hself : Scalar.before v v = true := by simpa using SortsUniquely.total v v
    rw [List.pairwise_append, List.pairwise_cons] at hsorted ⊢
    obtain ⟨hsmaller, hlarger, hacross⟩ := hsorted
    refine ⟨hsmaller, ⟨?_, List.pairwise_cons.2 hlarger⟩, ?_⟩
    · intro w hw
      rcases List.mem_cons.1 hw with rfl | hw
      · exact hself
      · exact hlarger.1 w hw
    · intro w hw x hx
      rcases List.mem_cons.1 hx with rfl | hx
      · exact hacross w hw x List.mem_cons_self
      · exact hacross w hw x hx

end Sorting

/-! ## Repeated positions -/

/-- A position is close to itself. -/
def CloseSelf (v : α) : Prop := Scalar.abs (v - v) < (closeness : α)

/-- Behind itself a position is dropped. -/
theorem thinOut_cons_self {v : α} (h : CloseSelf v) (larger : List α) :
    thinOut v (v :: larger) = thinOut v larger := by
  rw [thinOut]
  exact if_pos h

/-- Of two equal positions next to each other the second one is dropped. -/
theorem thinOut_append_cons_cons {v : α} (h : CloseSelf v) (last : α) (smaller larger : List α) :
    thinOut last (smaller ++ v :: v :: larger) = thinOut last (smaller ++ v :: larger) := by
  induction smaller generalizing last with
  | nil =>
    rw [List.nil_append, List.nil_append]
    by_cases hclose : Scalar.abs (v - last) < (closeness : α)
    · rw [thinOut, if_pos hclose]
    · rw [thinOut, if_neg hclose, thinOut_cons_self h, thinOut, if_neg hclose]
  | cons w smaller ih =>
    rw [List.cons_append, List.cons_append, thinOut, thinOut, ih last, ih w]

/-- Every position is close to one that is kept. -/
theorem exists_thinOut_close {v : α} {vs : List α} (h : CloseSelf v) (hv : v ∈ vs) (last : α) :
    ∃ w ∈ last :: thinOut last vs, Scalar.abs (v - w) < (closeness : α) := by
  induction vs generalizing last with
  | nil => exact absurd hv List.not_mem_nil
  | cons u vs ih =>
    rw [thinOut]
    rcases List.mem_cons.1 hv with rfl | hv
    · split
      · rename_i hclose
        exact ⟨last, List.mem_cons_self, hclose⟩
      · exact ⟨v, List.mem_cons_of_mem last List.mem_cons_self, h⟩
    · split
      · exact ih hv last
      · obtain ⟨w, hw, hclose⟩ := ih hv u
        exact ⟨w, List.mem_cons_of_mem last hw, hclose⟩

/-- If there are positions, the distinct ones are the first in order and what is left behind it. -/
theorem exists_distinctSorted_eq_cons {v : α} {values : List α} (hv : v ∈ values) :
    ∃ first vs, v ∈ first :: vs ∧ values.mergeSort Scalar.before = first :: vs ∧
      distinctSorted values = first :: thinOut first vs := by
  have hsorted : v ∈ values.mergeSort Scalar.before := List.mem_mergeSort.2 hv
  unfold distinctSorted
  split
  · rename_i hsort
    rw [hsort] at hsorted
    exact absurd hsorted List.not_mem_nil
  · rename_i first vs hsort
    rw [hsort] at hsorted
    exact ⟨first, vs, hsorted, hsort, rfl⟩

/-- Every position is close to a distinct one. -/
theorem exists_distinct_close {v : α} {values : List α} (h : CloseSelf v) (hv : v ∈ values) :
    ∃ w ∈ distinctSorted values, Scalar.abs (v - w) < (closeness : α) := by
  obtain ⟨first, vs, hmem, -, hdistinct⟩ := exists_distinctSorted_eq_cons hv
  rw [hdistinct]
  rcases List.mem_cons.1 hmem with rfl | hbehind
  · exact ⟨v, List.mem_cons_self, h⟩
  · exact exists_thinOut_close h hbehind first

/-- Distinct positions are some of the positions. -/
theorem mem_of_mem_distinctSorted {v : α} {values : List α} (h : v ∈ distinctSorted values) :
    v ∈ values :=
  List.mem_mergeSort.1 ((distinctSorted_sublist values).subset h)

/-- A position that is kept is not close to the one kept before it. -/
theorem isChain_thinOut (last : α) (vs : List α) :
    (last :: thinOut last vs).IsChain fun v w => ¬ Scalar.abs (w - v) < (closeness : α) := by
  induction vs generalizing last with
  | nil => exact .singleton last
  | cons v vs ih =>
    rw [thinOut]
    split
    · exact ih last
    · rename_i hfar
      exact .cons_cons hfar (ih v)

/-- Neighbouring distinct positions are not close. -/
theorem isChain_distinctSorted (values : List α) :
    (distinctSorted values).IsChain fun v w => ¬ Scalar.abs (w - v) < (closeness : α) := by
  unfold distinctSorted
  split
  · exact .nil
  · exact isChain_thinOut _ _

variable [SortsUniquely α] {values more : List α}

/-- The distinct positions are in order. -/
theorem pairwise_distinctSorted (values : List α) :
    (distinctSorted values).Pairwise fun a b => Scalar.before a b = true :=
  (pairwise_mergeSort values).sublist (distinctSorted_sublist values)

/-- Sorted positions none of which are close are distinct, as they are. -/
theorem distinctSorted_eq_self {v : α} {vs : List α}
    (hsorted : (v :: vs).Pairwise fun a b => Scalar.before a b = true)
    (hthin : thinOut v vs = vs) : distinctSorted (v :: vs) = v :: vs := by
  have hsort : (v :: vs).mergeSort Scalar.before = v :: vs := mergeSort_eq_of_perm (.refl _) hsorted
  rw [distinctSorted, hsort]
  exact congrArg (v :: ·) hthin

/-- A position that is given again does not change the distinct positions. -/
theorem distinctSorted_cons {v : α} (hv : v ∈ values) (h : CloseSelf v) :
    distinctSorted (v :: values) = distinctSorted values := by
  obtain ⟨smaller, larger, hsort, hagain⟩ := exists_mergeSort_cons hv
  rw [distinctSorted, distinctSorted, hsort, hagain]
  cases smaller with
  | nil =>
    show v :: thinOut v (v :: larger) = v :: thinOut v larger
    rw [thinOut_cons_self h]
  | cons w smaller =>
    show w :: thinOut w (smaller ++ v :: v :: larger) = w :: thinOut w (smaller ++ v :: larger)
    rw [thinOut_append_cons_cons h]

/-- Positions that are given again do not change the distinct positions. -/
theorem distinctSorted_append (h : ∀ v ∈ more, v ∈ values ∧ CloseSelf v) :
    distinctSorted (values ++ more) = distinctSorted values := by
  rw [distinctSorted_congr List.perm_append_comm]
  induction more with
  | nil => rfl
  | cons v more ih =>
    obtain ⟨hv, hclose⟩ := h v List.mem_cons_self
    rw [List.cons_append, distinctSorted_cons (List.mem_append_right _ hv) hclose]
    exact ih fun w hw => h w (List.mem_cons_of_mem v hw)

end Axis

namespace Binary64

variable {x : Binary64}

/-- Every finite number is close to itself. -/
theorem close_self (hx : x.IsFinite) : Axis.CloseSelf x := by
  have hself : |x.value - x.value| ≤ maxValue := by
    rw [sub_self, abs_zero]
    exact (abs_nonneg _).trans hx.abs_value_le
  have hrounds := rounds_sub hx hx hself
  rw [sub_self] at hrounds
  have hrest : (x - x).value = 0 := by
    exact_mod_cast hrounds.value_eq (representable_natCast (k := 0) (by norm_num))
  have hbound : (Axis.closeness : Binary64).IsFinite ∧
      (Scalar.zero : Binary64) < Axis.closeness := by decide +kernel
  have hzero := value_ofNat (n := 0) (by norm_num)
  have hpos := (lt_iff_value_lt hzero.1 hbound.1).1 hbound.2
  show (x - x).abs < Axis.closeness
  rw [lt_iff_value_lt (isFinite_abs.2 hrounds.isFinite) hbound.1, value_abs, hrest, abs_zero]
  rwa [hzero.2, Nat.cast_zero] at hpos

end Binary64

end Heterodyne
