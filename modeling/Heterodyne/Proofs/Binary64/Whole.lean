import Heterodyne.Proofs.Binary64.Operations
import Mathlib.Algebra.Order.Floor.Semifield
import Mathlib.Data.Nat.Cast.Order.Field
import Mathlib.Data.Rat.Floor
/-!
# Whole parts

A natural number of at most fifty-three bits has a pattern of its own, and the whole part of any
finite pattern is such a number or the pattern itself. So whole parts are found without rounding.
The quotient of two whole numbers of units is rounded, but not across a whole number.

* `value_ofNat`: natural numbers are met.
* `value_floor`: the greatest whole number that is not above is found exactly.
* `toNat_eq_floor`: so is the whole part as a natural number.
* `floor_of_isNearest_div`: a rounded quotient keeps its whole part.
-/

namespace Heterodyne

namespace Binary64

variable {x : Binary64} {a n : ℕ} {q : ℚ}

/-! ## Natural numbers -/

/-- A natural number of at most fifty-three bits has a pattern. -/
theorem ofNat_eq_assemble (hn : n < 2 ^ 53) :
    ∃ m e, ofNat n = assemble m e ∧ Canonical m e ∧ e ≤ 971 ∧ (m : ℚ) * 2 ^ e = n := by
  by_cases hzero : n = 0
  · subst hzero
    refine ⟨0, -1074, rfl, ⟨by norm_num, le_rfl, .inr rfl⟩, by norm_num, ?_⟩
    rw [Nat.cast_zero, zero_mul]
  · have hlog : n.log2 < 53 := (Nat.log2_lt hzero).2 hn
    obtain ⟨d, hd⟩ : ∃ d, n.log2 + d = 52 := ⟨52 - n.log2, by omega⟩
    have hq : max (0 + (n.log2 : ℤ) - 52) (-1074) = -d := by omega
    have hshift : (0 - -(d : ℤ)).toNat = d := by omega
    have hlast : (n <<< d).log2 = 52 := (log2_shiftLeft hzero d).trans hd
    have hne : n <<< d ≠ 0 := by
      rw [Nat.shiftLeft_eq]
      exact Nat.mul_ne_zero hzero (by positivity)
    refine ⟨n <<< d, -d, ?_, ⟨?_, by omega, .inl ?_⟩, by omega, ?_⟩
    · unfold ofNat nearest
      simp only [hq, hshift]
      rw [if_neg hzero, if_pos (by omega)]
    · exact (Nat.log2_lt hne).1 (by omega)
    · exact (Nat.le_log2 hne).1 (by omega)
    · rw [Nat.shiftLeft_eq, zpow_neg, zpow_natCast]
      push_cast
      field_simp

/-- A natural number of at most fifty-three bits is met. -/
theorem value_ofNat (hn : n < 2 ^ 53) : (ofNat n).IsFinite ∧ (ofNat n).value = n := by
  obtain ⟨m, e, hpattern, hcanonical, he, hvalue⟩ := ofNat_eq_assemble hn
  have hplain : signed false (assemble m e) = assemble m e := by
    unfold signed abs magnitude
    simp only [isNegative_assemble hcanonical, Bool.false_eq_true, if_false]
  rw [hpattern, ← hvalue, ← hplain]
  exact value_signed_assemble false hcanonical he

/-- A natural number of at most fifty-three bits is met under its sign. -/
theorem value_signed_ofNat (s : Bool) (hn : n < 2 ^ 53) :
    (signed s (ofNat n)).IsFinite ∧ (signed s (ofNat n)).value = withSign s (n : ℚ) := by
  obtain ⟨m, e, hpattern, hcanonical, he, hvalue⟩ := ofNat_eq_assemble hn
  rw [hpattern, ← hvalue]
  exact value_signed_assemble s hcanonical he

/-! ## The whole part -/

/-- A whole number under a sign. -/
theorem intCast_withSign (s : Bool) (k : ℕ) :
    ((withSign s (k : ℤ) : ℤ) : ℚ) = withSign s (k : ℚ) := by
  cases s with
  | false => exact Int.cast_natCast k
  | true => exact (Int.cast_neg _).trans (congrArg Neg.neg (Int.cast_natCast k))

/-- Below zero, a fraction makes the whole part grow. -/
theorem floor_withSign (s : Bool) (whole : ℕ) {rest unit : ℕ} (h : rest < unit) :
    ⌊withSign s (whole + rest / unit : ℚ)⌋ =
      withSign s ((if s && rest != 0 then whole + 1 else whole : ℕ) : ℤ) := by
  have hunit : (0 : ℚ) < unit := by exact_mod_cast Nat.zero_lt_of_lt h
  have hnonneg : (0 : ℚ) ≤ rest / unit := by positivity
  have hlt : (rest : ℚ) / unit < 1 := (div_lt_one hunit).2 (by exact_mod_cast h)
  rw [Int.floor_eq_iff, intCast_withSign]
  unfold withSign
  cases s with
  | false =>
    simp only [Bool.false_and, Bool.false_eq_true, if_false]
    constructor <;> linarith
  | true =>
    by_cases hzero : rest = 0
    · subst hzero
      simp only [Nat.cast_zero, zero_div, add_zero, bne_self_eq_false, Bool.and_false,
        Bool.false_eq_true, if_false, if_true]
      constructor <;> linarith
    · have hpos : (0 : ℚ) < rest / unit :=
        div_pos (by exact_mod_cast Nat.pos_of_ne_zero hzero) hunit
      simp only [bne_iff_ne.2 hzero, Bool.and_self, if_true]
      push_cast
      constructor <;> linarith

/-- If it is known what becomes of whole numbers and, under their signs, of numbers between two of
them, then a finite pattern is rounded to that. -/
theorem value_toWhole {away : ℕ → ℕ → Bool} {rounded : ℚ → ℤ} (hx : x.IsFinite)
    (hwhole : ∀ k : ℤ, rounded k = k)
    (hbetween : ∀ whole rest unit : ℕ, rest < unit →
      rounded (withSign x.isNegative (whole + rest / unit : ℚ)) =
        withSign x.isNegative ((if away rest unit then whole + 1 else whole : ℕ) : ℤ)) :
    (toWhole away x).IsFinite ∧ (toWhole away x).value = rounded x.value := by
  unfold toWhole
  split
  · -- a number on a scale of whole numbers is one
    rename_i hscale
    obtain ⟨d, hd⟩ : ∃ d : ℕ, x.exponent = d := ⟨x.exponent.toNat, by omega⟩
    have hvalue : x.value =
        ((withSign x.isNegative ((x.significand * 2 ^ d : ℕ) : ℤ) : ℤ) : ℚ) := by
      unfold value
      rw [hd, zpow_natCast, intCast_withSign]
      push_cast
      rfl
    refine ⟨hx, ?_⟩
    rw [hvalue, hwhole]
  · -- otherwise the last bits of the significand are the fraction
    rename_i hfraction
    obtain ⟨d, hd⟩ : ∃ d : ℕ, x.exponent = -d := ⟨(-x.exponent).toNat, by omega⟩
    have hshift : (-x.exponent).toNat = d := by omega
    have hlt := x.canonical_fields.lt
    obtain ⟨whole, hw⟩ : ∃ w, w = x.significand / 2 ^ d := ⟨_, rfl⟩
    obtain ⟨rest, hr⟩ : ∃ r, r = x.significand % 2 ^ d := ⟨_, rfl⟩
    have hsum : whole * 2 ^ d + rest = x.significand := by
      rw [hw, hr, mul_comm]
      exact Nat.div_add_mod _ _
    have hrest : rest < 2 ^ d := hr ▸ Nat.mod_lt _ (by positivity)
    have hbits : whole + 1 < 2 ^ 53 := by
      have htwo : 2 ^ 1 ≤ 2 ^ d := Nat.pow_le_pow_right (by norm_num) (by omega)
      have hhalf : whole * 2 ^ 1 ≤ whole * 2 ^ d := Nat.mul_le_mul_left _ htwo
      omega
    have hvalue : x.value = withSign x.isNegative (whole + rest / (2 ^ d : ℕ) : ℚ) := by
      unfold value
      rw [hd, zpow_neg, zpow_natCast, ← hsum]
      push_cast
      congr 1
      field_simp
    simp only [hshift, Nat.shiftRight_eq_div_pow, Nat.shiftLeft_eq, one_mul, ← hw]
    rw [hvalue, hbetween _ _ _ hrest, intCast_withSign, ← hsum, Nat.add_sub_cancel_left]
    exact value_signed_ofNat _ (by split <;> omega)

/-- The greatest whole number that is not above is found exactly. -/
theorem value_floor (hx : x.IsFinite) : x.floor.IsFinite ∧ x.floor.value = (⌊x.value⌋ : ℤ) :=
  value_toWhole hx Int.floor_intCast fun whole _ _ hrest => floor_withSign _ whole hrest

/-- The whole part of a natural number times a power of two. -/
theorem scaleDown_eq_floor (m : ℕ) (e : ℤ) : scaleDown m e = ⌊(m : ℚ) * 2 ^ e⌋₊ := by
  unfold scaleDown
  split
  · obtain ⟨d, rfl⟩ : ∃ d : ℕ, e = d := ⟨e.toNat, by omega⟩
    have hnat : (m : ℚ) * 2 ^ (d : ℤ) = (m * 2 ^ d : ℕ) := by
      rw [zpow_natCast]
      push_cast
      rfl
    rw [hnat, Nat.floor_natCast, Int.toNat_natCast, Nat.shiftLeft_eq]
  · obtain ⟨d, rfl⟩ : ∃ d : ℕ, e = -d := ⟨(-e).toNat, by omega⟩
    have hquotient : (m : ℚ) * 2 ^ (-d : ℤ) = (m : ℚ) / (2 ^ d : ℕ) := by
      rw [zpow_neg, zpow_natCast, div_eq_mul_inv]
      push_cast
      rfl
    rw [hquotient, Nat.floor_div_eq_div, neg_neg, Int.toNat_natCast, Nat.shiftRight_eq_div_pow]

/-- The whole part of a pattern that stands for a number or infinity. -/
theorem toNat_eq_floor (hx : x.isNaN = false) : x.toNat = ⌊x.value⌋₊ := by
  unfold toNat value
  rw [hx, Bool.false_or]
  cases x.isNegative with
  | true =>
    have hnonneg : (0 : ℚ) ≤ x.significand * 2 ^ x.exponent := x.canonical_fields.nonneg.1
    exact (Nat.floor_of_nonpos (neg_nonpos.2 hnonneg)).symm
  | false => exact scaleDown_eq_floor _ _

/-! ## Whole parts of quotients -/

/-- Below the number that follows a whole one there is a representable number, no further away
than a unit in the last place. -/
theorem exists_representable_below {k : ℕ} (hk : k < 2 ^ 53) :
    ∃ t : ℕ, Representable ((k : ℚ) + 1 - 2 ^ t / 2 ^ 53) ∧ (2 ^ t ≤ 2 * k ∨ k = 0 ∧ t = 0) := by
  obtain ⟨t, ht, hbits, hroom⟩ :
      ∃ t : ℕ, t ≤ 53 ∧ k + 1 ≤ 2 ^ t ∧ (2 ^ t ≤ 2 * k ∨ k = 0 ∧ t = 0) := by
    rcases eq_or_ne k 0 with rfl | hne
    · exact ⟨0, by norm_num, by norm_num, .inr ⟨rfl, rfl⟩⟩
    · refine ⟨k.log2 + 1, ?_, Nat.lt_log2_self, .inl ?_⟩
      · exact (Nat.log2_lt hne).2 hk
      · rw [pow_succ, mul_comm]
        exact Nat.mul_le_mul_left _ (Nat.log2_self_le hne)
  refine ⟨t, ⟨(k + 1) * 2 ^ (53 - t) - 1, t - 53, ?_, by omega, ?_⟩, hroom⟩
  · have hle : (k + 1) * 2 ^ (53 - t) ≤ 2 ^ 53 := by
      calc (k + 1) * 2 ^ (53 - t) ≤ 2 ^ t * 2 ^ (53 - t) := Nat.mul_le_mul_right _ hbits
        _ = 2 ^ 53 := by rw [← pow_add, Nat.add_sub_cancel' ht]
    have hint : ((k : ℤ) + 1) * 2 ^ (53 - t) ≤ 2 ^ 53 := by exact_mod_cast hle
    have hpos : (0 : ℤ) < (k + 1) * 2 ^ (53 - t) := by positivity
    rw [abs_le]
    omega
  · obtain ⟨d, hd⟩ : ∃ d, t + d = 53 := ⟨53 - t, by omega⟩
    have hsub : 53 - t = d := by omega
    have hexp : (t : ℤ) - 53 = -d := by omega
    have hsplit : (2 : ℚ) ^ 53 = 2 ^ t * 2 ^ d := by rw [← pow_add, hd]
    rw [hsub, hexp, zpow_neg, zpow_natCast, hsplit]
    push_cast
    field_simp

/-- What is nearest to a quotient of numbers with few bits has its whole part. -/
theorem floor_of_isNearest_div (ha : a < 2 ^ 53) (hn : 0 < n) (h : IsNearest q (a / n)) :
    ⌊q⌋ = (a / n : ℕ) := by
  obtain ⟨k, hk⟩ : ∃ k, k = a / n := ⟨_, rfl⟩
  have hn' : (0 : ℚ) < n := by exact_mod_cast hn
  have hklt : k < 2 ^ 53 := hk ▸ (Nat.div_le_self a n).trans_lt ha
  have hmul : n * k ≤ a := hk ▸ Nat.mul_div_le a n
  have hrest : (a : ℚ) / n + 1 / n ≤ k + 1 := by
    have hnext : a < k * n + n := hk ▸ Nat.lt_div_mul_add hn
    rw [← add_div, div_le_iff₀ hn', add_one_mul]
    exact_mod_cast hnext
  have hunit : (0 : ℚ) < 1 / n := by positivity
  have hlow : (k : ℚ) ≤ q := h.ge (representable_natCast hklt.le) (hk ▸ Nat.cast_div_le)
  have hhigh : q ≤ k + 1 := by
    have hnext := h.le (representable_natCast (k := k + 1) hklt) (by push_cast; linarith)
    exact_mod_cast hnext
  rw [← hk, Int.floor_eq_iff, Int.cast_natCast]
  refine ⟨hlow, lt_of_le_of_ne hhigh fun hq => ?_⟩
  -- the quotient is further below the next whole number than half a unit in the last place
  obtain ⟨t, hbelow, hroom⟩ := exists_representable_below hklt
  have hδ : (0 : ℚ) < 2 ^ t / 2 ^ 53 := by positivity
  have hnear := h _ hbelow
  rw [hq, abs_of_nonneg (by linarith)] at hnear
  have hwide : (2 : ℚ) ^ 54 ≤ n * 2 ^ t := by
    rcases abs_cases ((k : ℚ) + 1 - 2 ^ t / 2 ^ 53 - a / n) with ⟨habs, -⟩ | ⟨habs, -⟩
    · linarith
    · have htwo : 2 * (1 / n : ℚ) ≤ 2 ^ t / 2 ^ 53 := by linarith
      rw [mul_one_div, div_le_div_iff₀ hn' (by positivity)] at htwo
      linarith
  rcases hroom with hroom | ⟨rfl, rfl⟩
  · have hshort : n * 2 ^ t < 2 ^ 54 := by
      calc n * 2 ^ t ≤ n * (2 * k) := Nat.mul_le_mul_left _ hroom
        _ = 2 * (n * k) := by ring
        _ < 2 ^ 54 := by omega
    exact absurd hwide (not_le.2 (by exact_mod_cast hshort))
  · -- a quotient below a half is not rounded to one, as the half itself is nearer
    have hhalf : Representable (1 / 2) := ⟨1, -1, by norm_num, by norm_num, by norm_num⟩
    have hsmall : (a : ℚ) / n ≤ 1 / 2 := by
      have hwide' : 2 ^ 54 ≤ n := by
        rw [pow_zero, mul_one] at hwide
        exact_mod_cast hwide
      rw [div_le_div_iff₀ hn' (by norm_num)]
      exact_mod_cast (by omega : a * 2 ≤ 1 * n)
    have hle := h.le hhalf hsmall
    rw [hq] at hle
    norm_num at hle

end Binary64

end Heterodyne
