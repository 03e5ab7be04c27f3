import Heterodyne.Proofs.Binary64.Range
import Mathlib.Data.Rat.Floor
/-!
# The spacing of numbers

From `2 ^ 52` units of a scale on, the representable numbers are whole numbers of units. So two of
them that are less than a unit apart are one number, and what is rounded there moves by no more
than half a unit.

* `Representable.exists_int_mul`: large numbers are on the scale.
* `Representable.eq_of_abs_sub_lt`: less than a unit away, there is no second number.
* `IsNearest.abs_sub_le`: half a unit is the most by which rounding moves.
* `sub_le_self_of_nonneg`, `lt_sub_of_le_neg`: on which side of a number a difference lies.
-/

namespace Heterodyne

namespace Binary64

variable {x y : Binary64} {r v w u : ℚ} {f : ℤ}

/-- A representable number of at least `2 ^ 52` units is a whole number of them; on the finest
scale every one is. -/
theorem Representable.exists_int_mul (hr : Representable r)
    (h : 2 ^ 52 * 2 ^ f ≤ r ∨ f = -1074) : ∃ j : ℤ, r = j * 2 ^ f := by
  obtain ⟨k, e, hk, he, rfl⟩ := hr
  rcases le_or_gt f e with hle | hlt
  · obtain ⟨d, rfl⟩ : ∃ d : ℕ, e = f + d := ⟨(e - f).toNat, by omega⟩
    refine ⟨k * 2 ^ d, ?_⟩
    rw [zpow_add₀ two_ne_zero, zpow_natCast]
    push_cast
    ring
  · -- a finer scale does not reach beyond the first number of this size
    have hlarge := h.resolve_right (by omega)
    exact ⟨2 ^ 52, by push_cast; exact le_antisymm (le_of_finer_scale hk hlt) hlarge⟩

/-- Less than a unit away from a whole number of units, there is no other representable number. -/
theorem Representable.eq_of_abs_sub_lt {k : ℤ} (hr : Representable r)
    (h : 2 ^ 52 * 2 ^ f ≤ r ∨ f = -1074) (hnear : |r - k * 2 ^ f| < 2 ^ f) : r = k * 2 ^ f := by
  obtain ⟨j, rfl⟩ := hr.exists_int_mul h
  have hpow := two_zpow_pos f
  rw [← sub_mul, abs_mul, abs_of_pos hpow, mul_lt_iff_lt_one_left hpow] at hnear
  have hint : |j - k| < 1 := by exact_mod_cast hnear
  rw [sub_eq_zero.1 (Int.abs_lt_one_iff.1 hint)]

/-- Between two representable neighbours rounding moves by no more than half of their distance. -/
theorem IsNearest.abs_sub_le (h : IsNearest w v) (hup : Representable (w + u))
    (hdown : Representable (w - u)) (hu : 0 < u) : |w - v| ≤ u / 2 := by
  have habove := h _ hup
  have hbelow := h _ hdown
  rcases le_total w v with hle | hle
  · rw [abs_of_nonpos (by linarith)] at habove ⊢
    rcases le_total (w + u) v with hv | hv
    · rw [abs_of_nonpos (by linarith)] at habove
      linarith
    · rw [abs_of_nonneg (by linarith)] at habove
      linarith
  · rw [abs_of_nonneg (by linarith)] at hbelow ⊢
    rcases le_total v (w - u) with hv | hv
    · rw [abs_of_nonneg (by linarith)] at hbelow
      linarith
    · rw [abs_of_nonpos (by linarith)] at hbelow
      linarith

/-- No more than a unit above a number of up to `2 ^ 52` units, there is a representable one. -/
theorem exists_representable_above (hf : -1074 ≤ f) (h : |v| ≤ 2 ^ 52 * 2 ^ f) :
    ∃ t, Representable t ∧ v < t ∧ t ≤ v + 2 ^ f := by
  have hpow := two_zpow_pos f
  have hlow := Int.floor_le (v / 2 ^ f)
  have hhigh := Int.lt_floor_add_one (v / 2 ^ f)
  rw [le_div_iff₀ hpow] at hlow
  rw [div_lt_iff₀ hpow] at hhigh
  refine ⟨(⌊v / 2 ^ f⌋ + 1 : ℤ) * 2 ^ f, ⟨_, f, ?_, hf, rfl⟩, by exact_mod_cast hhigh, ?_⟩
  · have hunits : |v / 2 ^ f| ≤ 2 ^ 52 := by rwa [abs_div, abs_of_pos hpow, div_le_iff₀ hpow]
    rw [abs_le] at hunits ⊢
    have hfloor : (-2 ^ 52 : ℤ) ≤ ⌊v / 2 ^ f⌋ := Int.le_floor.2 (by exact_mod_cast hunits.1)
    have hceil : ⌊v / 2 ^ f⌋ ≤ 2 ^ 52 := by
      exact_mod_cast (Int.floor_le _).trans hunits.2
    omega
  · push_cast
    linarith

/-- What lies a unit above a number of up to `2 ^ 52` units is not rounded to it. -/
theorem IsNearest.lt_of_unit_le (h : IsNearest w v) (hf : -1074 ≤ f) (hr : |r| ≤ 2 ^ 52 * 2 ^ f)
    (hv : r + 2 ^ f ≤ v) : r < w := by
  obtain ⟨t, hrepresentable, hlt, hle⟩ := exists_representable_above hf hr
  exact hlt.trans_le (h.ge hrepresentable (hle.trans hv))

/-! ## Differences -/

section Differences

variable (hx : x.IsFinite) (hy : y.IsFinite) (hsmall : |y.value| < 2 ^ (970 : ℤ))

include hx hy hsmall

/-- A number is not exceeded by what is left of it. -/
theorem sub_le_self_of_nonneg (h : 0 ≤ y.value) : x - y ≤ x := by
  obtain ⟨hfinite, hnear⟩ := rounds_sub_of_abs_lt hx hy hsmall
  rw [le_iff_value_le hfinite hx]
  exact hnear.le (representable_value x) (by linarith)

/-- A number does not exceed its difference to one below zero. -/
theorem le_sub_of_nonpos (h : y.value ≤ 0) : x ≤ x - y := by
  obtain ⟨hfinite, hnear⟩ := rounds_sub_of_abs_lt hx hy hsmall
  rw [le_iff_value_le hx hfinite]
  exact hnear.ge (representable_value x) (by linarith)

/-- It lies below the difference if what is subtracted is a unit below zero. -/
theorem lt_sub_of_le_neg (hf : -1074 ≤ f) (hunits : |x.value| ≤ 2 ^ 52 * 2 ^ f)
    (h : y.value ≤ -2 ^ f) : x < x - y := by
  obtain ⟨hfinite, hnear⟩ := rounds_sub_of_abs_lt hx hy hsmall
  rw [lt_iff_value_lt hx hfinite]
  exact hnear.lt_of_unit_le hf hunits (by linarith)

end Differences

end Binary64

end Heterodyne
