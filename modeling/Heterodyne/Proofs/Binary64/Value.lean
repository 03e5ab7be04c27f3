import Heterodyne.Binary64.Rounding
import Mathlib.Algebra.Order.Field.Power
import Mathlib.Data.Rat.Cast.Order
import Mathlib.Tactic.Linarith
import Mathlib.Tactic.Positivity
import Mathlib.Tactic.Ring
/-!
# The numbers that patterns stand for

A finite pattern stands for its significand times a power of two, under its sign. Significand and
exponent of a pattern are canonical: the significand is as large as the exponent allows it to be.
So the pattern can be told from them, and patterns are ordered as the numbers are.

* `canonical_fields`: the significand and the exponent of a pattern are canonical.
* `eq_of_fields`: a pattern is told from its sign, its significand and its exponent.
* `eq_of_size`: and from its sign and its size.
* `value_signed_assemble`: canonical parts are put together to the number that they describe.
* `lt_iff_value_lt`, `le_iff_value_le`: finite patterns are ordered as their numbers.
-/

namespace Heterodyne

namespace Binary64

variable {x y : Binary64} {m n : ℕ} {e f : ℤ}

/-! ## Canonical parts -/

/-- A significand of at most fifty-three bits, which has all of them unless the exponent is the
least one. -/
structure Canonical (m : ℕ) (e : ℤ) : Prop where
  lt : m < 2 ^ 53
  le_exponent : -1074 ≤ e
  normal : 2 ^ 52 ≤ m ∨ e = -1074

/-- The place of canonical parts on the scale of patterns. -/
def weight (m : ℕ) (e : ℤ) : ℤ := (e + 1074) * 2 ^ 52 + m

/-- A power of two lies above zero. -/
theorem two_zpow_pos (e : ℤ) : (0 : ℚ) < 2 ^ e := zpow_pos (by norm_num) e

/-- One more in the exponent doubles the power. -/
theorem two_zpow_add_one (e : ℤ) : (2 : ℚ) ^ (e + 1) = 2 * 2 ^ e := by
  rw [zpow_add_one₀ (by norm_num), mul_comm]

/-- A greater exponent makes a greater number and takes a later place. -/
theorem Canonical.lt_of_exponent_lt (hm : Canonical m e) (hn : Canonical n f) (h : e < f) :
    (m : ℚ) * 2 ^ e < n * 2 ^ f ∧ weight m e < weight n f := by
  -- the greater exponent is not the least one, so its significand has all bits
  have hfull : 2 ^ 52 ≤ n := hn.normal.resolve_right (by have := hm.le_exponent; omega)
  constructor
  · have hmlt : (m : ℚ) < 2 * 2 ^ 52 := by
      have := hm.lt
      exact_mod_cast (by omega : m < 2 * 2 ^ 52)
    have hnle : (2 ^ 52 : ℚ) ≤ n := by exact_mod_cast hfull
    calc (m : ℚ) * 2 ^ e < 2 * 2 ^ 52 * 2 ^ e := mul_lt_mul_of_pos_right hmlt (two_zpow_pos e)
      _ = 2 ^ 52 * 2 ^ (e + 1) := by rw [two_zpow_add_one]; ring
      _ ≤ 2 ^ 52 * 2 ^ f := by
        have hpow : (2 : ℚ) ^ (e + 1) ≤ 2 ^ f := zpow_le_zpow_right₀ (by norm_num) (by omega)
        exact mul_le_mul_of_nonneg_left hpow (by norm_num)
      _ ≤ n * 2 ^ f := mul_le_mul_of_nonneg_right hnle (two_zpow_pos f).le
  · have := hm.lt
    unfold weight
    omega

/-- Canonical parts take the places of their numbers. -/
theorem Canonical.lt_iff (hm : Canonical m e) (hn : Canonical n f) :
    (m : ℚ) * 2 ^ e < n * 2 ^ f ↔ weight m e < weight n f := by
  rcases lt_trichotomy e f with h | rfl | h
  · have hboth := hm.lt_of_exponent_lt hn h
    exact iff_of_true hboth.1 hboth.2
  · rw [mul_lt_mul_iff_left₀ (two_zpow_pos e), Nat.cast_lt]
    unfold weight
    omega
  · have hboth := hn.lt_of_exponent_lt hm h
    exact iff_of_false hboth.1.not_gt hboth.2.not_gt

/-! ## Fields -/

/-- The exponent field counts the magnitudes of one exponent. -/
theorem exponentField_eq (x : Binary64) : x.exponentField = x.magnitude.toNat / 2 ^ 52 :=
  Nat.shiftRight_eq_div_pow _ _

/-- The significand is the rest of the magnitude, behind a leading one. -/
theorem significand_eq (x : Binary64) :
    x.significand = x.magnitude.toNat % 2 ^ 52 + if x.exponentField = 0 then 0 else 2 ^ 52 := rfl

/-- The significand and the exponent of a pattern are canonical. -/
theorem canonical_fields (x : Binary64) : Canonical x.significand x.exponent := by
  rw [significand_eq]
  unfold exponent
  refine ⟨?_, by omega, ?_⟩ <;> split <;> omega

/-- The zeros are the patterns without a significand. -/
theorem isZero_iff : x.isZero = true ↔ x.significand = 0 := by
  have hfield := exponentField_eq x
  rw [isZero, beq_iff_eq, ← UInt64.toNat_inj, UInt64.toNat_zero, significand_eq]
  split <;> omega

/-- The magnitude is the place of significand and exponent. -/
theorem toNat_magnitude (x : Binary64) :
    (x.magnitude.toNat : ℤ) = weight x.significand x.exponent := by
  have hfield := exponentField_eq x
  rw [significand_eq]
  unfold weight exponent
  split <;> omega

/-- A pattern is told from its sign, its significand and its exponent. -/
theorem eq_of_fields (hsign : x.isNegative = y.isNegative) (hm : x.significand = y.significand)
    (he : x.exponent = y.exponent) : x = y := by
  have hmagnitude : x.magnitude.toNat = y.magnitude.toNat := by
    have hx := toNat_magnitude x
    rw [hm, he, ← toNat_magnitude] at hx
    exact_mod_cast hx
  have hbits : x.bits.toNat = y.bits.toNat := by
    rw [toNat_bits x, toNat_bits y, hmagnitude, hsign]
  cases x
  cases y
  exact congrArg mk (UInt64.toNat_inj.1 hbits)

/-! ## Finite patterns -/

/-- The pattern stands for a number. -/
def IsFinite (x : Binary64) : Prop := x.exponentField < 2047

instance (x : Binary64) : Decidable x.IsFinite := inferInstanceAs (Decidable (_ < _))

/-- The exponents of numbers end before that of infinity. -/
theorem isFinite_iff : x.IsFinite ↔ x.exponent ≤ 971 := by
  unfold IsFinite exponent
  omega

/-- The magnitudes of numbers end before infinity. -/
theorem isFinite_iff_magnitude : x.IsFinite ↔ x.magnitude.toNat < 2047 * 2 ^ 52 := by
  rw [IsFinite, exponentField_eq]
  omega

/-- A pattern stands for no number if it lies above infinity. -/
theorem isNaN_iff : x.isNaN = true ↔ 2047 * 2 ^ 52 < x.magnitude.toNat := by
  have hinf : (0x7FF0000000000000 : UInt64).toNat = 2047 * 2 ^ 52 := by decide
  rw [isNaN, decide_eq_true_eq, UInt64.lt_iff_toNat_lt, hinf]

/-- A finite pattern stands for a number. -/
theorem IsFinite.isNaN (h : x.IsFinite) : x.isNaN = false := by
  rw [← Bool.not_eq_true, isNaN_iff]
  rw [isFinite_iff_magnitude] at h
  omega

/-- A number under a sign. -/
def withSign {α : Type} [Neg α] (negative : Bool) (r : α) : α := if negative then -r else r

/-- The number that a finite pattern stands for. -/
def value (x : Binary64) : ℚ := withSign x.isNegative (x.significand * 2 ^ x.exponent)

/-- A sign leaves the size as it is. -/
theorem abs_withSign (negative : Bool) (r : ℚ) : |withSign negative r| = |r| := by
  cases negative
  · rfl
  · exact abs_neg r

/-! ## Assembled patterns -/

/-- The magnitude that canonical parts are put together to, cut off at infinity. -/
theorem toNat_bits_assemble (h : Canonical m e) :
    ((assemble m e).bits.toNat : ℤ) = min (weight m e) (2047 * 2 ^ 52) := by
  have hlt := h.lt
  have hge := h.le_exponent
  have hcut : ∀ k : ℕ, (UInt64.ofNat (min k (2047 * 2 ^ 52))).toNat = min k (2047 * 2 ^ 52) := by
    intro k
    rw [UInt64.toNat_ofNat']
    omega
  simp only [assemble, Nat.shiftLeft_eq, one_mul, hcut]
  unfold weight
  split
  · -- without the leading one only the least exponent is left
    rename_i hsmall
    have hexponent : e = -1074 := h.normal.resolve_left (Nat.not_le.2 hsmall)
    subst hexponent
    push_cast
    omega
  · rename_i hlarge
    push_cast
    omega

/-- What is put together bears no sign. -/
theorem isNegative_assemble (h : Canonical m e) : (assemble m e).isNegative = false := by
  have hbits := toNat_bits_assemble h
  rw [← Bool.not_eq_true, isNegative_iff]
  omega

/-- Setting the sign of a magnitude sets it. -/
theorem bits_signed (s : Bool) (x : Binary64) :
    (signed s x).bits.toNat = x.magnitude.toNat + if s then 1 <<< 63 else 0 := by
  have hlt := x.magnitude_lt
  have hpositive : x.abs.isNegative = false := by
    rw [← Bool.not_eq_true, isNegative_iff]
    exact Nat.not_le.2 hlt
  cases s with
  | false => simp [signed, abs]
  | true =>
    have hsum : (x.abs.bits + signBit).toNat = x.magnitude.toNat + 1 <<< 63 := by
      rw [UInt64.toNat_add, toNat_signBit]
      exact Nat.mod_eq_of_lt (by show x.magnitude.toNat + _ < _; omega)
    simp only [signed, neg, hpositive, if_true, Bool.false_eq_true, if_false]
    exact hsum

/-- The sign that is set is the sign. -/
theorem isNegative_signed (s : Bool) (x : Binary64) : (signed s x).isNegative = s := by
  have hbits := bits_signed s x
  have hlt := x.magnitude_lt
  have hsign := isNegative_iff (signed s x)
  cases s with
  | false =>
    rw [← Bool.not_eq_true, hsign]
    simp only [Bool.false_eq_true, if_false] at hbits
    omega
  | true =>
    rw [hsign]
    simp only [if_true] at hbits
    omega

/-- Setting the sign keeps the magnitude. -/
theorem magnitude_signed (s : Bool) (x : Binary64) :
    (signed s x).magnitude.toNat = x.magnitude.toNat := by
  have hbits := toNat_bits (signed s x)
  rw [bits_signed, isNegative_signed] at hbits
  omega

/-- The bits that canonical parts are put together to under a sign. -/
theorem toNat_bits_signed_assemble (s : Bool) (h : Canonical m e) :
    ((signed s (assemble m e)).bits.toNat : ℤ) =
      min (weight m e) (2047 * 2 ^ 52) + if s then 1 <<< 63 else 0 := by
  have hbits := toNat_bits_assemble h
  have hsplit := toNat_bits (assemble m e)
  rw [isNegative_assemble h] at hsplit
  simp only [Bool.false_eq_true, if_false, add_zero] at hsplit
  rw [bits_signed, ← hsplit]
  push_cast
  rw [hbits]
  split <;> rfl

/-- A magnitude in the place of canonical parts has these parts. -/
theorem fields_of_weight (h : Canonical m e) (hx : (x.magnitude.toNat : ℤ) = weight m e) :
    x.significand = m ∧ x.exponent = e := by
  have hlt := h.lt
  have hge := h.le_exponent
  have hnormal := h.normal
  unfold weight at hx
  rw [significand_eq, exponentField_eq]
  unfold exponent
  rw [exponentField_eq]
  constructor
  · split <;> omega
  · omega

/-- Canonical parts under a sign are put together to a finite pattern with these parts, unless
the exponent is too large. -/
theorem fields_signed_assemble (s : Bool) (h : Canonical m e) (he : e ≤ 971) :
    (signed s (assemble m e)).significand = m ∧ (signed s (assemble m e)).exponent = e := by
  have hlt := h.lt
  apply fields_of_weight h
  have hbits := toNat_bits_assemble h
  have hsplit := toNat_bits (assemble m e)
  rw [isNegative_assemble h] at hsplit
  simp only [Bool.false_eq_true, if_false] at hsplit
  rw [magnitude_signed]
  unfold weight at *
  omega

/-- Canonical parts are put together to the number that they describe. -/
theorem value_signed_assemble (s : Bool) (h : Canonical m e) (he : e ≤ 971) :
    (signed s (assemble m e)).IsFinite ∧
      (signed s (assemble m e)).value = withSign s ((m : ℚ) * 2 ^ e) := by
  obtain ⟨hm, hexponent⟩ := fields_signed_assemble s h he
  constructor
  · rw [isFinite_iff, hexponent]
    exact he
  · rw [value, hm, hexponent, isNegative_signed]

/-- A finite pattern is put together from its sign and its parts. -/
theorem signed_assemble_fields (hx : x.IsFinite) :
    signed x.isNegative (assemble x.significand x.exponent) = x := by
  obtain ⟨hm, he⟩ := fields_signed_assemble x.isNegative x.canonical_fields (isFinite_iff.1 hx)
  exact eq_of_fields (isNegative_signed _ _) hm he

/-- What is put together stands for a number or for infinity. -/
theorem isNaN_signed_assemble (s : Bool) (h : Canonical m e) :
    (signed s (assemble m e)).isNaN = false := by
  have hbits := toNat_bits_assemble h
  have hsplit := toNat_bits (assemble m e)
  rw [isNegative_assemble h] at hsplit
  simp only [Bool.false_eq_true, if_false] at hsplit
  rw [← Bool.not_eq_true, isNaN_iff, magnitude_signed]
  omega

/-! ## The order -/

/-- Two sizes under signs are in order if the sizes are, and if they tell zero in the same way. -/
theorem withSign_lt_iff {α β : Type} [CommRing α] [LinearOrder α] [IsStrictOrderedRing α]
    [CommRing β] [LinearOrder β] [IsStrictOrderedRing β] {a b : α} {c d : β} (s t : Bool)
    (ha : 0 ≤ a) (hb : 0 ≤ b) (hc : 0 ≤ c) (hd : 0 ≤ d) (hac : 0 < a ↔ 0 < c)
    (hbd : 0 < b ↔ 0 < d) (hlt : a < b ↔ c < d) (hgt : b < a ↔ d < c) :
    withSign s a < withSign t b ↔ withSign s c < withSign t d := by
  unfold withSign
  cases s <;> cases t <;> simp only [Bool.false_eq_true, if_false, if_true]
  · exact hlt
  · exact iff_of_false (by linarith) (by linarith)
  · -- one side of zero lies below the other unless both are zero
    constructor
    · intro h
      by_contra hnot
      have hczero : ¬ 0 < c := by linarith
      have hdzero : ¬ 0 < d := by linarith
      rw [← hac] at hczero
      rw [← hbd] at hdzero
      linarith
    · intro h
      by_contra hnot
      have hazero : ¬ 0 < a := by linarith
      have hbzero : ¬ 0 < b := by linarith
      rw [hac] at hazero
      rw [hbd] at hbzero
      linarith
  · rw [neg_lt_neg_iff, neg_lt_neg_iff]
    exact hgt

/-- The place on the number line, counted up or down from zero. -/
theorem toNat_rank (x : Binary64) :
    (x.rank.toNat : ℤ) = 2 ^ 63 + withSign x.isNegative (weight x.significand x.exponent) := by
  have hlt := x.magnitude_lt
  rw [← toNat_magnitude]
  unfold rank withSign
  split
  · have hle : x.magnitude ≤ signBit :=
      UInt64.le_iff_toNat_le.2 (by rw [toNat_signBit]; omega)
    rw [UInt64.toNat_sub_of_le _ _ hle, toNat_signBit]
    omega
  · rw [UInt64.toNat_add, toNat_signBit]
    omega

/-- Parts lie above zero exactly if their place does. -/
theorem Canonical.pos_iff (h : Canonical m e) : (0 : ℚ) < m * 2 ^ e ↔ 0 < weight m e := by
  have hzero : Canonical 0 (-1074) := ⟨by norm_num, le_rfl, .inr rfl⟩
  have hlt := hzero.lt_iff h
  rw [Nat.cast_zero, zero_mul] at hlt
  exact hlt

/-- Parts make no number below zero, and no place below the first. -/
theorem Canonical.nonneg (h : Canonical m e) : (0 : ℚ) ≤ m * 2 ^ e ∧ 0 ≤ weight m e := by
  have hle := h.le_exponent
  refine ⟨mul_nonneg (Nat.cast_nonneg _) (two_zpow_pos _).le, ?_⟩
  unfold weight
  omega

/-- A number that is not below zero is the size that its parts describe. -/
theorem value_of_nonneg (h : 0 ≤ x.value) : x.value = x.significand * 2 ^ x.exponent := by
  rw [← abs_of_nonneg h, value, abs_withSign, abs_of_nonneg x.canonical_fields.nonneg.1]

/-- A number above zero is written without a sign. -/
theorem isNegative_of_value_pos (h : 0 < x.value) : x.isNegative = false := by
  rw [← Bool.not_eq_true]
  intro hsign
  rw [value, withSign, if_pos hsign, neg_pos] at h
  exact absurd x.canonical_fields.nonneg.1 h.not_ge

/-- Patterns take their places in the order of their numbers. -/
theorem rank_lt_iff (x y : Binary64) : x.rank < y.rank ↔ x.value < y.value := by
  have hx := x.canonical_fields
  have hy := y.canonical_fields
  have hxrank := toNat_rank x
  have hyrank := toNat_rank y
  have hsigns := withSign_lt_iff x.isNegative y.isNegative hx.nonneg.2 hy.nonneg.2 hx.nonneg.1
    hy.nonneg.1 hx.pos_iff.symm hy.pos_iff.symm (hx.lt_iff hy).symm (hy.lt_iff hx).symm
  unfold value
  rw [← hsigns, UInt64.lt_iff_toNat_lt]
  omega

/-- Patterns of one sign and one size are one pattern. -/
theorem eq_of_size (hsign : x.isNegative = y.isNegative)
    (hsize : (x.significand : ℚ) * 2 ^ x.exponent = y.significand * 2 ^ y.exponent) : x = y := by
  have hx := x.canonical_fields
  have hy := y.canonical_fields
  have hlt := hx.lt_iff hy
  have hgt := hy.lt_iff hx
  rw [hsize] at hlt hgt
  have hbits : x.bits.toNat = y.bits.toNat := by
    have hweight : (x.magnitude.toNat : ℤ) = y.magnitude.toNat := by
      rw [toNat_magnitude, toNat_magnitude]
      have hnlt := mt hlt.2 (lt_irrefl _)
      have hngt := mt hgt.2 (lt_irrefl _)
      omega
    rw [toNat_bits x, toNat_bits y, hsign, Int.ofNat_inj.1 hweight]
  cases x
  cases y
  exact congrArg mk (UInt64.toNat_inj.1 hbits)

/-- Finite patterns are ordered as their numbers. -/
theorem lt_iff_value_lt (hx : x.IsFinite) (hy : y.IsFinite) : x < y ↔ x.value < y.value := by
  rw [lt_iff_rank_lt, rank_lt_iff]
  simp only [hx.isNaN, hy.isNaN, true_and]

/-- Finite patterns do not exceed each other exactly as their numbers do not. -/
theorem le_iff_value_le (hx : x.IsFinite) (hy : y.IsFinite) : x ≤ y ↔ x.value ≤ y.value := by
  rw [le_iff_rank_le, ← UInt64.not_lt, rank_lt_iff, not_lt]
  simp only [hx.isNaN, hy.isNaN, true_and]

/-- What does not exceed a number lies below all that the number lies below. -/
theorem le_lt_trans {z : Binary64} (hxy : x ≤ y) (hyz : y < z) : x < z := by
  rw [le_iff_rank_le] at hxy
  rw [lt_iff_rank_lt] at hyz ⊢
  exact ⟨hxy.1, hyz.2.1, UInt64.lt_of_le_of_lt hxy.2.2 hyz.2.2⟩

/-- What comes before a pattern in the total order is no greater as a number. -/
theorem value_le_of_before (h : before x y = true) : x.value ≤ y.value := by
  rw [before, decide_eq_true_eq, UInt64.le_iff_toNat_le, toNat_place, toNat_place] at h
  rw [← not_lt, ← rank_lt_iff, UInt64.lt_iff_toNat_lt]
  have hx := toNat_rank x
  have hy := toNat_rank y
  rw [← toNat_magnitude] at hx hy
  unfold withSign at hx hy
  have hlt := x.magnitude_lt
  have hlt' := y.magnitude_lt
  cases hsx : x.isNegative <;> cases hsy : y.isNegative <;>
    simp only [hsx, hsy, Bool.false_eq_true, if_false, if_true] at h hx hy <;> omega

/-! ## Sizes -/

/-- The size of a number has its significand and its exponent. -/
theorem fields_abs (x : Binary64) :
    x.abs.significand = x.significand ∧ x.abs.exponentField = x.exponentField := by
  have hmagnitude : x.abs.magnitude.toNat = x.magnitude.toNat := magnitude_signed false x
  have hfield : x.abs.exponentField = x.exponentField := by
    rw [exponentField_eq, exponentField_eq, hmagnitude]
  rw [significand_eq, significand_eq, hmagnitude, hfield]
  exact ⟨rfl, rfl⟩

/-- The size of a pattern is finite if the pattern is. -/
theorem isFinite_abs : x.abs.IsFinite ↔ x.IsFinite := by
  rw [IsFinite, IsFinite, x.fields_abs.2]

/-- The size of a number is its absolute value. -/
theorem value_abs (x : Binary64) : x.abs.value = |x.value| := by
  obtain ⟨hsignificand, hfield⟩ := x.fields_abs
  have hexponent : x.abs.exponent = x.exponent := by
    rw [exponent, exponent, hfield]
  have hsign : x.abs.isNegative = false := isNegative_signed false x
  rw [value, value, hsign, hsignificand, hexponent, abs_withSign,
    abs_of_nonneg x.canonical_fields.nonneg.1]
  rfl

end Binary64

end Heterodyne
