import Heterodyne.Proofs.Binary64.Packing
import Mathlib.Tactic.FieldSimp
/-!
# Rounding to the nearest number

The machine holds an exact result as a whole part on some scale, with what it knows of the rest.
It shifts the whole part to the scale of the result, keeping two bits of what is shifted out,
and rounds there. No representable number is nearer to the exact result than the outcome.

* `isNearest_of_scale`: rounding on the scale of a number gives the nearest one.
* `Represents.shiftRight`: the two bits keep what rounding has to know.
* `approaches_roundWithAccuracy`: the machine rounds to the nearest number.
-/

namespace Heterodyne

namespace Binary64

open Float.Model

variable {m n : ℕ} {e f : ℤ} {ρ r v w : ℚ} {accuracy : UnpackedFloat.Accuracy}

/-! ## Nearest numbers -/

/-- A number of fifty-three bits on a scale of the patterns, or the first one with more. -/
def Representable (r : ℚ) : Prop := ∃ n e : ℤ, |n| ≤ 2 ^ 53 ∧ -1074 ≤ e ∧ r = n * 2 ^ e

/-- No representable number is nearer. -/
def IsNearest (w v : ℚ) : Prop := ∀ u, Representable u → |w - v| ≤ |u - v|

/-- The other side of zero is representable as well. -/
theorem Representable.neg (h : Representable r) : Representable (-r) := by
  obtain ⟨n, e, hn, he, rfl⟩ := h
  refine ⟨-n, e, ?_, he, ?_⟩
  · rwa [abs_neg]
  · push_cast
    ring

/-- A natural number of so few bits is representable. -/
theorem representable_natCast {k : ℕ} (hk : k ≤ 2 ^ 53) : Representable (k : ℚ) :=
  ⟨k, 0, by rw [Nat.abs_cast]; exact_mod_cast hk, by norm_num, by rw [zpow_zero, mul_one]; rfl⟩

/-- Zero is representable. -/
theorem representable_zero : Representable 0 := ⟨0, 0, by norm_num, by norm_num, by norm_num⟩

/-- Powers of two from the least exponent on are representable. -/
theorem representable_two_zpow (he : -1074 ≤ e) : Representable (2 ^ e) :=
  ⟨1, e, by norm_num, he, by rw [Int.cast_one, one_mul]⟩

/-- The numbers of patterns are representable. -/
theorem representable_value (x : Binary64) : Representable x.value := by
  have hcanonical := x.canonical_fields
  have hsize : Representable (x.significand * 2 ^ x.exponent) :=
    ⟨x.significand, x.exponent, by
      rw [Nat.abs_cast]
      exact_mod_cast hcanonical.lt.le, hcanonical.le_exponent, by rw [Int.cast_natCast]⟩
  unfold value withSign
  split
  · exact hsize.neg
  · exact hsize

/-- The nearest number changes its sign with the number. -/
theorem IsNearest.neg (h : IsNearest w v) : IsNearest (-w) (-v) := by
  intro u hu
  have hnear := h (-u) hu.neg
  rw [← abs_neg, ← abs_neg (u - -v)]
  convert hnear using 2 <;> ring

/-- No number is nearer to a number than itself. -/
theorem isNearest_self (v : ℚ) : IsNearest v v := by
  intro u _
  rw [sub_self, abs_zero]
  exact abs_nonneg _

/-- A sign is passed on to the nearest number. -/
theorem IsNearest.withSign (h : IsNearest w v) (s : Bool) :
    IsNearest (withSign s w) (withSign s v) := by
  cases s with
  | false => exact h
  | true => exact h.neg

/-- A representable number is nearest to itself alone. -/
theorem IsNearest.eq (h : IsNearest w v) (hv : Representable v) : w = v := by
  have hzero := h v hv
  rw [sub_self, abs_zero] at hzero
  exact sub_eq_zero.1 (abs_nonpos_iff.1 hzero)

/-- The nearest number does not pass a representable one. -/
theorem IsNearest.le (h : IsNearest w v) (hr : Representable r) (hv : v ≤ r) : w ≤ r := by
  by_contra hlt
  rw [not_le] at hlt
  have hnear := h r hr
  rw [abs_of_nonneg (by linarith), abs_of_nonneg (by linarith)] at hnear
  linarith

/-- The nearest number does not fall below a representable one. -/
theorem IsNearest.ge (h : IsNearest w v) (hr : Representable r) (hv : r ≤ v) : r ≤ w := by
  have hneg := h.neg.le hr.neg (neg_le_neg hv)
  linarith

/-- The size of the nearest number does not pass a representable one. -/
theorem IsNearest.abs_le_of_abs_le (h : IsNearest w v) (hr : Representable r) (hv : |v| ≤ r) :
    |w| ≤ r := by
  rw [abs_le] at hv ⊢
  exact ⟨h.ge hr.neg hv.1, h.le hr hv.2⟩

/-! ## Rounding on a scale -/

/-- Among the whole numbers none is nearer than one at most half a unit away. -/
theorem abs_sub_le_of_half {k : ℤ} (h : |(k : ℚ) - ρ| ≤ 1 / 2) (j : ℤ) :
    |(k : ℚ) - ρ| ≤ |(j : ℚ) - ρ| := by
  rcases eq_or_ne j k with rfl | hne
  · exact le_rfl
  · have hone : (1 : ℚ) ≤ |(j : ℚ) - k| := by
      have hint : 1 ≤ |j - k| := Int.one_le_abs (sub_ne_zero.2 hne)
      exact_mod_cast hint
    have htri : |(j : ℚ) - k| ≤ |(j : ℚ) - ρ| + |ρ - k| := abs_sub_le _ _ _
    rw [abs_sub_comm ρ] at htri
    linarith

/-- On a finer scale there are no numbers beyond the first one with all bits. -/
theorem le_of_finer_scale {k : ℤ} (hk : |k| ≤ 2 ^ 53) (h : f < e) :
    (k : ℚ) * 2 ^ f ≤ 2 ^ 52 * 2 ^ e := by
  have hk' : (k : ℚ) ≤ 2 * 2 ^ 52 := by
    have hint : k ≤ 2 * 2 ^ 52 := (le_abs_self k).trans hk
    exact_mod_cast hint
  calc (k : ℚ) * 2 ^ f ≤ 2 * 2 ^ 52 * 2 ^ f := mul_le_mul_of_nonneg_right hk' (two_zpow_pos f).le
    _ = 2 ^ 52 * 2 ^ (f + 1) := by rw [two_zpow_add_one]; ring
    _ ≤ 2 ^ 52 * 2 ^ e := by
      have hpow : (2 : ℚ) ^ (f + 1) ≤ 2 ^ e := zpow_le_zpow_right₀ (by norm_num) (by omega)
      exact mul_le_mul_of_nonneg_left hpow (by norm_num)

/-- Rounding on the scale of a number gives the nearest one. -/
theorem isNearest_of_scale {k : ℤ} (h : |(k : ℚ) - ρ| ≤ 1 / 2)
    (hscale : 2 ^ 52 ≤ ρ ∨ e = -1074) : IsNearest (k * 2 ^ e) (ρ * 2 ^ e) := by
  have hpow := two_zpow_pos e
  have hwhole := abs_sub_le_of_half h
  suffices hreach : ∀ u, Representable u → |(k : ℚ) - ρ| ≤ |u / 2 ^ e - ρ| by
    intro u hu
    have hunit : u - ρ * 2 ^ e = (u / 2 ^ e - ρ) * 2 ^ e := by
      rw [sub_mul, div_mul_cancel₀ _ hpow.ne']
    rw [← sub_mul, hunit, abs_mul, abs_mul]
    exact mul_le_mul_of_nonneg_right (hreach u hu) (abs_nonneg _)
  rintro u ⟨j, f, hj, hf, rfl⟩
  rcases le_or_gt e f with hle | hlt
  · -- a number of a coarser scale is a whole one on this
    obtain ⟨d, rfl⟩ : ∃ d : ℕ, f = e + d := ⟨(f - e).toNat, by omega⟩
    have hint : (j : ℚ) * 2 ^ (e + d) / 2 ^ e = ((j * 2 ^ d : ℤ) : ℚ) := by
      rw [zpow_add₀ (by norm_num), zpow_natCast]
      push_cast
      field_simp
    rw [hint]
    exact hwhole _
  · -- a number of a finer scale does not reach beyond the first with all bits, which is whole
    have hfull : 2 ^ 52 ≤ ρ := hscale.resolve_right (by omega)
    have hshort : (j : ℚ) * 2 ^ f / 2 ^ e ≤ 2 ^ 52 :=
      (div_le_iff₀ hpow).2 (le_of_finer_scale hj hlt)
    have hfirst := hwhole (2 ^ 52)
    rw [Int.cast_pow, Int.cast_ofNat, abs_of_nonpos (by linarith : (2 : ℚ) ^ 52 - ρ ≤ 0)] at hfirst
    rw [abs_of_nonpos (by linarith : (j : ℚ) * 2 ^ f / 2 ^ e - ρ ≤ 0)]
    linarith

/-! ## Accuracies -/

/-- What is known of a number of which the whole part has been taken. -/
def Describes (m : ℕ) (accuracy : UnpackedFloat.Accuracy) (ρ : ℚ) : Prop :=
  match accuracy with
  | .exact => ρ = m
  | .inexact .lt => m < ρ ∧ ρ < m + 1 / 2
  | .inexact .eq => ρ = m + 1 / 2
  | .inexact .gt => m + 1 / 2 < ρ ∧ ρ < m + 1

/-- The number lies between its whole part and the next. -/
theorem Describes.bounds (h : Describes m accuracy ρ) : m ≤ ρ ∧ ρ < m + 1 := by
  unfold Describes at h
  split at h
  · constructor <;> linarith
  · constructor <;> linarith
  · constructor <;> linarith
  · constructor <;> linarith

/-- Rounding to even goes at most half a unit, to the whole part or to the next number. -/
theorem Describes.roundToNearestEven (h : Describes m accuracy ρ) :
    |(accuracy.roundToNearestEven m : ℚ) - ρ| ≤ 1 / 2 ∧
      m ≤ accuracy.roundToNearestEven m ∧ accuracy.roundToNearestEven m ≤ m + 1 := by
  unfold Describes at h
  split at h <;> simp only [UnpackedFloat.Accuracy.roundToNearestEven] <;> rw [abs_le]
  · exact ⟨⟨by linarith, by linarith⟩, le_rfl, Nat.le_succ m⟩
  · exact ⟨⟨by linarith, by linarith⟩, le_rfl, Nat.le_succ m⟩
  · -- a half goes to the even neighbour
    rcases Nat.mod_two_eq_zero_or_one m with hp | hp <;> rw [hp] <;> push_cast <;>
      exact ⟨⟨by linarith, by linarith⟩, by omega, by omega⟩
  · push_cast
    exact ⟨⟨by linarith, by linarith⟩, by omega, by omega⟩

/-- The significand and the two bits behind it describe the number. -/
def Represents (em : UnpackedFloat.ExtendedMantissa) (ρ : ℚ) : Prop :=
  Describes em.mantissa em.accuracy ρ

/-- One place to the right halves the number. -/
theorem Represents.shiftRightOne {em : UnpackedFloat.ExtendedMantissa} (h : Represents em ρ) :
    Represents em.shiftRightOne (ρ / 2) := by
  obtain ⟨m, roundBit, stickyBit⟩ := em
  have hhalf : (2 : ℚ) * (m / 2 : ℕ) + (m % 2 : ℕ) = m := by exact_mod_cast Nat.div_add_mod m 2
  have hodd : (m % 2 != 0) = decide (m % 2 = 1) := by
    rcases Nat.mod_two_eq_zero_or_one m with hp | hp <;> rw [hp] <;> rfl
  unfold Represents at *
  simp only [UnpackedFloat.ExtendedMantissa.shiftRightOne, hodd]
  -- the bit that leaves the significand is the new round bit, and the old bits are below it
  rcases Nat.mod_two_eq_zero_or_one m with hp | hp <;> rw [hp] at hhalf ⊢ <;>
    cases roundBit <;> cases stickyBit <;>
    simp only [UnpackedFloat.ExtendedMantissa.accuracy, Describes, Nat.cast_zero, Nat.cast_one,
      Bool.or_self, Bool.or_true, Bool.or_false, decide_true, decide_false, zero_ne_one]
      at h hhalf ⊢ <;>
    first
    | linarith
    | exact ⟨by linarith, by linarith⟩

/-- Places to the right divide the number by their power of two. -/
theorem Represents.shiftRight {em : UnpackedFloat.ExtendedMantissa} (h : Represents em ρ) (d : ℕ) :
    Represents (em >>> d) (ρ / 2 ^ d) := by
  induction d with
  | zero =>
    rw [pow_zero, div_one]
    exact h
  | succ d ih =>
    rw [pow_succ, ← div_div]
    exact ih.shiftRightOne

/-- An accuracy is kept in the two bits behind the significand. -/
theorem represents_ofMantissaAndAccuracy :
    Represents (.ofMantissaAndAccuracy m accuracy) ρ ↔ Describes m accuracy ρ := by
  cases accuracy with
  | exact => rfl
  | inexact half => cases half <;> rfl

/-! ## The machine's rounding -/

/-- The exponent that the machine aims at for a number that ends at this place. -/
theorem targetExponent_eq (t : ℤ) : Format.binary64.targetExponent t = max (t - 53) (-1074) := rfl

/-- A significand that rounding has carried beyond its bits is halved again. -/
theorem canonical_shiftToTargetExponent (hm : m ≤ 2 ^ 53) (he : -1074 ≤ e)
    (hnormal : 2 ^ 52 ≤ m ∨ e = -1074) :
    ∃ M E, UnpackedFloat.shiftToTargetExponent .binary64 m e .exact = (M, E) ∧
      Canonical M.mantissa E ∧ (M.mantissa : ℚ) * 2 ^ E = m * 2 ^ e := by
  refine ⟨_, _, rfl, ?_⟩
  rw [targetExponent_eq]
  unfold totalExponent
  rcases hm.lt_or_eq with hlt | rfl
  · have hlog : m.log2 < 53 := by
      rcases eq_or_ne m 0 with rfl | hne
      · decide
      · exact (Nat.log2_lt hne).2 hlt
    have hstay : (max ((m.log2 : ℤ) + 1 + e - 53) (-1074) - e).toNat = 0 := by omega
    rw [hstay, Nat.cast_zero, add_zero]
    exact ⟨⟨hlt, he, hnormal⟩, rfl⟩
  · -- the carry has made one bit too many, and the last one of them is zero
    have hlog : (2 ^ 53 : ℕ).log2 = 53 := Nat.log2_two_pow
    have hone : (max (((2 ^ 53 : ℕ).log2 : ℤ) + 1 + e - 53) (-1074) - e).toNat = 1 := by omega
    have hhalf : (UnpackedFloat.ExtendedMantissa.ofMantissaAndAccuracy (2 ^ 53) .exact
        >>> 1).mantissa = 2 ^ 52 := rfl
    rw [hone, hhalf]
    refine ⟨⟨by norm_num, by omega, .inl le_rfl⟩, ?_⟩
    rw [Nat.cast_one, two_zpow_add_one]
    push_cast
    ring

/-- On the scale that is aimed at, the number has all of its bits and no more. -/
theorem scale_bounds (h : Describes m accuracy ρ) {d : ℕ}
    (hd : Format.binary64.targetExponent (totalExponent m e) = e + d) :
    ρ / 2 ^ d < 2 ^ 53 ∧ (2 ^ 52 ≤ ρ / 2 ^ d ∨ e + d = -1074) := by
  obtain ⟨hlow, hhigh⟩ := h.bounds
  rw [targetExponent_eq] at hd
  unfold totalExponent at hd
  have hpow : (0 : ℚ) < 2 ^ d := by positivity
  constructor
  · -- the bits of the whole part bound the number above, as the next whole one has no more
    rw [div_lt_iff₀ hpow, ← pow_add]
    have hbits : m + 1 ≤ 2 ^ (53 + d) :=
      calc m + 1 ≤ 2 ^ (m.log2 + 1) := Nat.lt_log2_self
        _ ≤ 2 ^ (53 + d) := Nat.pow_le_pow_right (by norm_num) (by omega)
    calc ρ < m + 1 := hhigh
      _ ≤ 2 ^ (53 + d) := by exact_mod_cast hbits
  · rcases max_choice ((m.log2 : ℤ) + 1 + e - 53) (-1074) with hmax | hmax
    · left
      have hlog : m.log2 = 52 + d := by omega
      have hne : m ≠ 0 := by
        rintro rfl
        rw [Nat.log2_zero] at hlog
        omega
      have hbits : 2 ^ (52 + d) ≤ m := (Nat.le_log2 hne).1 hlog.ge
      rw [le_div_iff₀ hpow, ← pow_add]
      calc (2 : ℚ) ^ (52 + d) ≤ m := by exact_mod_cast hbits
        _ ≤ ρ := hlow
    · right
      omega

/-- The machine rounds on the scale that it aims at, and once more if that carried too far. -/
theorem roundWithAccuracy_eq_parts (s : Bool) (m : ℕ) (e : ℤ) (accuracy : UnpackedFloat.Accuracy) :
    UnpackedFloat.roundWithAccuracy .binary64 (signOf s) m e accuracy =
      let first := UnpackedFloat.shiftToTargetExponent .binary64 m e accuracy
      let last :=
        UnpackedFloat.shiftToTargetExponent .binary64 first.1.roundedMantissa first.2 .exact
      parts s last.1.mantissa last.2 := rfl

/-- A result that has been taken apart comes nearest to the exact one. -/
def Approaches (u : UnpackedFloat) (v : ℚ) : Prop :=
  ∃ s m e r, u = parts s m e ∧ Canonical m e ∧ IsNearest ((m : ℚ) * 2 ^ e) r ∧ withSign s r = v

/-- Canonical parts come nearest to their own number. -/
theorem approaches_parts (s : Bool) (h : Canonical m e) :
    Approaches (parts s m e) (withSign s ((m : ℚ) * 2 ^ e)) :=
  ⟨s, m, e, _, rfl, h, isNearest_self _, rfl⟩

/-- What is known of a number on a scale that is fine enough is rounded to the nearest one. -/
theorem approaches_roundWithAccuracy (s : Bool) (h : Describes m accuracy ρ)
    (he : e ≤ Format.binary64.targetExponent (totalExponent m e)) :
    Approaches (UnpackedFloat.roundWithAccuracy .binary64 (signOf s) m e accuracy)
      (withSign s (ρ * 2 ^ e)) := by
  obtain ⟨d, hd⟩ : ∃ d : ℕ, Format.binary64.targetExponent (totalExponent m e) = e + d :=
    ⟨(Format.binary64.targetExponent (totalExponent m e) - e).toNat, by omega⟩
  obtain ⟨hbelow, hscale⟩ := scale_bounds h hd
  have hshift : (Format.binary64.targetExponent (totalExponent m e) - e).toNat = d := by omega
  have hleast : -1074 ≤ e + d := by
    rw [← hd, targetExponent_eq]
    exact le_max_right _ _
  -- the first shift brings the significand to the scale of the result, where it is rounded
  set em := UnpackedFloat.ExtendedMantissa.ofMantissaAndAccuracy m accuracy >>> d with hem
  have hrep : Represents em (ρ / 2 ^ d) := (represents_ofMantissaAndAccuracy.2 h).shiftRight d
  obtain ⟨hlow, hhigh⟩ := Describes.bounds hrep
  obtain ⟨hhalf, hge, hle⟩ := Describes.roundToNearestEven hrep
  have hmantissa : em.mantissa < 2 ^ 53 := by exact_mod_cast hlow.trans_lt hbelow
  have hrounded : em.roundedMantissa ≤ 2 ^ 53 := hle.trans hmantissa
  have hnormal : 2 ^ 52 ≤ em.roundedMantissa ∨ e + d = -1074 := by
    refine hscale.imp_left fun hfull => ?_
    have hlt : 2 ^ 52 < em.mantissa + 1 := by exact_mod_cast hfull.trans_lt hhigh
    exact (Nat.lt_succ_iff.1 hlt).trans hge
  have hfirst : UnpackedFloat.shiftToTargetExponent .binary64 m e accuracy = (em, e + d) := by
    rw [UnpackedFloat.shiftToTargetExponent, UnpackedFloat.shiftToExponent, hshift]
  -- the second shift undoes a carry and leaves the number as it is
  obtain ⟨M, E, hM, hcanonical, hvalue⟩ :=
    canonical_shiftToTargetExponent hrounded hleast hnormal
  refine ⟨s, M.mantissa, E, _, ?_, hcanonical, ?_, rfl⟩
  · simp only [roundWithAccuracy_eq_parts, hfirst, hM]
  · have hnumber : ρ * 2 ^ e = ρ / 2 ^ d * 2 ^ (e + d) := by
      rw [zpow_add₀ (by norm_num), zpow_natCast]
      field_simp
    rw [hvalue, hnumber]
    exact isNearest_of_scale (k := em.roundedMantissa) hhalf hscale

end Binary64

end Heterodyne
