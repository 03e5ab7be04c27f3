import Heterodyne.Proofs.Binary64.Nearest
/-!
# Exact results, rounded

Products, quotients and differences of finite patterns. Each operation finds its exact result,
or the whole part of it with what rounding has to know of the rest, and rounds that once. So the
outcome is a number nearest to the exact result, as long as that is in range, and it is the exact
result if that can be represented.

* `approaches_mul`, `approaches_div`, `approaches_sub`: the operations on numbers taken apart.
* `rounds_mul`, `rounds_div`, `rounds_sub`: the operations on patterns.
-/

namespace Heterodyne

namespace Binary64

open Float.Model

variable {x y z : Binary64} {m n : ℕ} {e f : ℤ} {v : ℚ}

/-! ## Signs -/

/-- Zero has the same value under both signs. -/
theorem withSign_zero (s : Bool) : withSign s (0 : ℚ) = 0 := by
  cases s
  · rfl
  · exact neg_zero

/-- The sign of a product. -/
theorem signOf_mul (s t : Bool) : signOf s * signOf t = signOf (s ^^ t) := by
  cases s <;> cases t <;> rfl

/-- The sign of a quotient. -/
theorem signOf_div (s t : Bool) : signOf s / signOf t = signOf (s ^^ t) := by
  cases s <;> cases t <;> rfl

/-- Numbers under signs are multiplied under the sign of the product. -/
theorem withSign_mul (s t : Bool) (v w : ℚ) :
    withSign s v * withSign t w = withSign (s ^^ t) (v * w) := by
  cases s <;> cases t <;> simp [withSign]

/-- Numbers under signs are divided under the sign of the quotient. -/
theorem withSign_div (s t : Bool) (v w : ℚ) :
    withSign s v / withSign t w = withSign (s ^^ t) (v / w) := by
  cases s <;> cases t <;> simp [withSign, neg_div, div_neg]

/-- A zero is the exact result zero. -/
theorem approaches_zero (s : Bool) : Approaches (.zero (signOf s)) 0 := by
  have hzero : Canonical 0 (-1074) := ⟨by norm_num, le_rfl, .inr rfl⟩
  have hparts := approaches_parts s hzero
  rw [Nat.cast_zero, zero_mul, withSign_zero] at hparts
  exact hparts

/-! ## Products -/

/-- Canonical factors have no fewer bits than their product keeps. -/
theorem exponent_add_le_target (hm : Canonical m e) (hn : Canonical n f) (hm0 : m ≠ 0)
    (hn0 : n ≠ 0) : e + f ≤ Format.binary64.targetExponent (totalExponent (m * n) (e + f)) := by
  have hme := hm.le_exponent
  have hnf := hn.le_exponent
  -- one factor with all bits fills the product; two without end below the least exponent
  have hbits : e + f ≤ -1074 ∨ 2 ^ 52 ≤ m * n := by
    rcases hm.normal with hfull | hleast
    · exact .inr (hfull.trans (Nat.le_mul_of_pos_right m (Nat.pos_of_ne_zero hn0)))
    · rcases hn.normal with hfull | hleast'
      · exact .inr (hfull.trans (Nat.le_mul_of_pos_left n (Nat.pos_of_ne_zero hm0)))
      · exact .inl (by omega)
  rw [targetExponent_eq]
  unfold totalExponent
  rcases hbits with hsmall | hfull
  · omega
  · have hlog : 52 ≤ (m * n).log2 := (Nat.le_log2 (Nat.mul_ne_zero hm0 hn0)).2 hfull
    omega

/-- A zero among the factors makes a zero. -/
theorem mul_parts_of_zero (s t : Bool) (h : m = 0 ∨ n = 0) :
    UnpackedFloat.mul .binary64 (parts s m e) (parts t n f) = .zero (signOf (s ^^ t)) := by
  rw [← signOf_mul]
  by_cases hm : m = 0 <;> by_cases hn : n = 0
  · subst hm hn
    rfl
  · subst hm
    rw [parts_of_ne_zero t hn]
    rfl
  · subst hn
    rw [parts_of_ne_zero s hm]
    rfl
  · exact absurd h (not_or.2 ⟨hm, hn⟩)

/-- The product comes nearest to the exact one. -/
theorem approaches_mul (s t : Bool) (hm : Canonical m e) (hn : Canonical n f) :
    Approaches (UnpackedFloat.mul .binary64 (parts s m e) (parts t n f))
      (withSign s ((m : ℚ) * 2 ^ e) * withSign t ((n : ℚ) * 2 ^ f)) := by
  have hexact : (m : ℚ) * 2 ^ e * (n * 2 ^ f) = (m * n : ℕ) * 2 ^ (e + f) := by
    rw [zpow_add₀ (by norm_num)]
    push_cast
    ring
  rw [withSign_mul, hexact]
  by_cases hzero : m = 0 ∨ n = 0
  · rw [mul_parts_of_zero s t hzero, Nat.mul_eq_zero.2 hzero, Nat.cast_zero, zero_mul,
      withSign_zero]
    exact approaches_zero _
  · obtain ⟨hm0, hn0⟩ := not_or.1 hzero
    have hwhole : Describes (m * n) .exact ((m * n : ℕ) : ℚ) := rfl
    rw [parts_of_ne_zero s hm0, parts_of_ne_zero t hn0]
    show Approaches (UnpackedFloat.roundWithAccuracy .binary64 (signOf s * signOf t) _ _ _) _
    rw [signOf_mul]
    exact approaches_roundWithAccuracy _ hwhole (exponent_add_le_target hm hn hm0 hn0)

/-! ## Quotients -/

/-- The whole part and the rest of a quotient describe it. -/
theorem describes_div (m : ℕ) (hn : 0 < n) :
    Describes (m / n) (UnpackedFloat.accuracyOfFraction (m % n) n) ((m : ℚ) / n) := by
  have hn' : (0 : ℚ) < n := by exact_mod_cast hn
  have hsplit : (m : ℚ) / n = (m / n : ℕ) + ((m % n : ℕ) : ℚ) / n := by
    have hsum : ((n * (m / n) + m % n : ℕ) : ℚ) = m := by rw [Nat.div_add_mod]
    rw [← hsum]
    push_cast
    field_simp
  have hlt : ((m % n : ℕ) : ℚ) / n < 1 := by
    rw [div_lt_one hn']
    exact_mod_cast Nat.mod_lt m hn
  rw [hsplit]
  unfold UnpackedFloat.accuracyOfFraction
  split
  · rename_i hzero
    rw [hzero, Nat.cast_zero, zero_div, add_zero]
    rfl
  · rename_i hne
    have hpos : (0 : ℚ) < ((m % n : ℕ) : ℚ) / n :=
      div_pos (by exact_mod_cast Nat.pos_of_ne_zero hne) hn'
    -- twice the rest against the divisor tells on which side of a half the fraction lies
    rcases hcompare : compare (2 * (m % n)) n with _ | _ | _
    · have hhalf : ((m % n : ℕ) : ℚ) / n < 1 / 2 := by
        have hint := Nat.compare_eq_lt.1 hcompare
        rw [div_lt_div_iff₀ hn' (by norm_num)]
        exact_mod_cast (by omega : m % n * 2 < 1 * n)
      exact ⟨by linarith, by linarith⟩
    · have hhalf : ((m % n : ℕ) : ℚ) / n = 1 / 2 := by
        have hint := Nat.compare_eq_eq.1 hcompare
        rw [div_eq_div_iff hn'.ne' (by norm_num)]
        exact_mod_cast (by omega : m % n * 2 = 1 * n)
      rw [hhalf]
      rfl
    · have hhalf : 1 / 2 < ((m % n : ℕ) : ℚ) / n := by
        have hint := Nat.compare_eq_gt.1 hcompare
        rw [div_lt_div_iff₀ (by norm_num) hn']
        exact_mod_cast (by omega : 1 * n < m % n * 2)
      exact ⟨by linarith, by linarith⟩

/-- The scale that a division takes leaves room for all bits of the quotient. -/
theorem scale_le_target (hm : m ≠ 0) (hn : n ≠ 0) {scale : ℤ} {d : ℕ} (hd : e - f = d + scale)
    (htarget : scale ≤ Format.binary64.targetExponent (totalExponent m e - totalExponent n f)) :
    scale ≤ Format.binary64.targetExponent (totalExponent (m <<< d / n) scale) := by
  rw [targetExponent_eq] at htarget ⊢
  unfold totalExponent at *
  rcases le_or_gt scale (-1074) with hleast | hgreater
  · exact hleast.trans (le_max_right _ _)
  · have hbits : 52 + (n.log2 + 1) ≤ m.log2 + d := by omega
    have hquotient : 2 ^ 52 ≤ m <<< d / n := by
      rw [Nat.shiftLeft_eq, Nat.le_div_iff_mul_le (Nat.pos_of_ne_zero hn)]
      calc 2 ^ 52 * n ≤ 2 ^ 52 * 2 ^ (n.log2 + 1) := Nat.mul_le_mul_left _ Nat.lt_log2_self.le
        _ = 2 ^ (52 + (n.log2 + 1)) := (pow_add _ _ _).symm
        _ ≤ 2 ^ (m.log2 + d) := Nat.pow_le_pow_right (by norm_num) hbits
        _ = 2 ^ m.log2 * 2 ^ d := pow_add _ _ _
        _ ≤ m * 2 ^ d := Nat.mul_le_mul_right _ (Nat.log2_self_le hm)
    have hlog : 52 ≤ (m <<< d / n).log2 := (Nat.le_log2 (by omega)).2 hquotient
    omega

/-- Numbers are divided on a scale that is fine enough, and rounded. -/
theorem div_parts_of_ne_zero (s t : Bool) (hm : m ≠ 0) (hn : n ≠ 0) :
    ∃ scale, scale ≤ e - f ∧
      scale ≤ Format.binary64.targetExponent (totalExponent m e - totalExponent n f) ∧
      UnpackedFloat.div .binary64 (parts s m e) (parts t n f) =
        UnpackedFloat.roundWithAccuracy .binary64 (signOf (s ^^ t))
          (m <<< (e - f - scale).toNat / n) scale
          (UnpackedFloat.accuracyOfFraction (m <<< (e - f - scale).toNat % n) n) := by
  rw [← signOf_div, parts_of_ne_zero s hm, parts_of_ne_zero t hn]
  exact ⟨_, min_le_left _ _, min_le_right _ _, rfl⟩

/-- The quotient comes nearest to the exact one. -/
theorem approaches_div (s t : Bool) (hn0 : n ≠ 0) :
    Approaches (UnpackedFloat.div .binary64 (parts s m e) (parts t n f))
      (withSign s ((m : ℚ) * 2 ^ e) / withSign t ((n : ℚ) * 2 ^ f)) := by
  have hexact : (m : ℚ) * 2 ^ e / (n * 2 ^ f) = m / n * 2 ^ (e - f) := by
    rw [zpow_sub₀ (by norm_num), mul_div_mul_comm]
  rw [withSign_div, hexact]
  by_cases hzero : m = 0
  · subst hzero
    have hdiv : UnpackedFloat.div .binary64 (parts s 0 e) (parts t n f) =
        .zero (signOf (s ^^ t)) := by
      rw [← signOf_div, parts_of_ne_zero t hn0]
      rfl
    rw [hdiv, Nat.cast_zero, zero_div, zero_mul, withSign_zero]
    exact approaches_zero _
  · obtain ⟨scale, hle, htarget, hdiv⟩ :=
      div_parts_of_ne_zero (e := e) (f := f) s t hzero hn0
    obtain ⟨d, hd⟩ : ∃ d : ℕ, e - f = d + scale := ⟨(e - f - scale).toNat, by omega⟩
    have hshift : (e - f - scale).toNat = d := by omega
    have hshifted : (m : ℚ) / n * 2 ^ (e - f) = ((m <<< d : ℕ) : ℚ) / n * 2 ^ scale := by
      rw [hd, zpow_add₀ (by norm_num), zpow_natCast, Nat.shiftLeft_eq]
      push_cast
      ring
    rw [hdiv, hshift, hshifted]
    exact approaches_roundWithAccuracy _ (describes_div (m <<< d) (Nat.pos_of_ne_zero hn0))
      (scale_le_target hzero hn0 hd htarget)

/-! ## Differences -/

/-- Bits that are shifted in count as bits. -/
theorem log2_shiftLeft (hm : m ≠ 0) (d : ℕ) : (m <<< d).log2 = m.log2 + d := by
  have hlow := Nat.log2_self_le hm
  have hhigh : m < 2 ^ (m.log2 + 1) := Nat.lt_log2_self
  rw [Nat.shiftLeft_eq, Nat.log2_eq_iff (Nat.mul_ne_zero hm (by positivity))]
  constructor
  · rw [pow_add]
    exact Nat.mul_le_mul_right _ hlow
  · rw [add_right_comm, pow_add]
    exact Nat.mul_lt_mul_of_pos_right hhigh (by positivity)

/-- A number on any scale is rounded to the nearest one. -/
theorem approaches_round (s : Bool) (hm : m ≠ 0) (e : ℤ) :
    Approaches (UnpackedFloat.round .binary64 (signOf s) m e)
      (withSign s ((m : ℚ) * 2 ^ e)) := by
  obtain ⟨d, hd⟩ : ∃ d : ℕ,
      d = (e - Format.binary64.targetExponent (totalExponent m e)).toNat := ⟨_, rfl⟩
  have hround : UnpackedFloat.round .binary64 (signOf s) m e =
      UnpackedFloat.roundWithAccuracy .binary64 (signOf s) (m <<< d) (e - d) .exact := by
    rw [hd]
    rfl
  have htotal : totalExponent (m <<< d) (e - d) = totalExponent m e := by
    unfold totalExponent
    rw [log2_shiftLeft hm]
    push_cast
    ring
  have hvalue : (m : ℚ) * 2 ^ e = ((m <<< d : ℕ) : ℚ) * 2 ^ (e - d) := by
    rw [Nat.shiftLeft_eq, zpow_sub₀ (by norm_num), zpow_natCast]
    push_cast
    field_simp
  have hwhole : Describes (m <<< d) .exact ((m <<< d : ℕ) : ℚ) := rfl
  rw [hround, hvalue]
  exact approaches_roundWithAccuracy s hwhole (by rw [htotal]; omega)

/-- A whole number of either sign is rounded to the nearest one. -/
theorem approaches_normalize (k e : ℤ) :
    Approaches (UnpackedFloat.normalize .binary64 k e .positive) (k * 2 ^ e) := by
  unfold UnpackedFloat.normalize
  rcases hcompare : compare k 0 with _ | _ | _
  · have hneg : k < 0 := Int.compare_eq_lt.1 hcompare
    have hcast : (((-k).toNat : ℕ) : ℚ) = -k := by
      rw [← Int.cast_natCast, Int.toNat_of_nonneg (by omega), Int.cast_neg]
    have hvalue : withSign true ((((-k).toNat : ℕ) : ℚ) * 2 ^ e) = k * 2 ^ e := by
      show -(_ * _) = _
      rw [hcast, neg_mul, neg_neg]
    rw [← hvalue]
    exact approaches_round true (by omega) e
  · have hzero : k = 0 := Int.compare_eq_eq.1 hcompare
    rw [hzero, Int.cast_zero, zero_mul]
    exact approaches_zero false
  · have hpos : 0 < k := Int.compare_eq_gt.1 hcompare
    have hcast : ((k.toNat : ℕ) : ℚ) = k := by
      rw [← Int.cast_natCast, Int.toNat_of_nonneg hpos.le]
    have hvalue : withSign false (((k.toNat : ℕ) : ℚ) * 2 ^ e) = k * 2 ^ e := by
      show _ * _ = _
      rw [hcast]
    rw [← hvalue]
    exact approaches_round false (by omega) e

/-- A number under its sign on a finer scale. -/
theorem apply_shiftLeft (s : Bool) (h : f ≤ e) :
    (((signOf s).apply ((m <<< (e - f).toNat : ℕ) : ℤ) : ℤ) : ℚ) * 2 ^ f =
      withSign s ((m : ℚ) * 2 ^ e) := by
  obtain ⟨d, rfl⟩ : ∃ d : ℕ, e = f + d := ⟨(e - f).toNat, by omega⟩
  have hshift : (f + d - f).toNat = d := by omega
  have hvalue : ((m <<< d : ℕ) : ℚ) * 2 ^ f = m * 2 ^ (f + d : ℤ) := by
    rw [Nat.shiftLeft_eq, zpow_add₀ (by norm_num), zpow_natCast]
    push_cast
    ring
  rw [hshift, ← hvalue]
  cases s with
  | false => rfl
  | true =>
    show ((-((m <<< d : ℕ) : ℤ) : ℤ) : ℚ) * 2 ^ f = -(_ * _)
    rw [Int.cast_neg, Int.cast_natCast, neg_mul]

/-- The difference comes nearest to the exact one. -/
theorem approaches_sub (s t : Bool) (hm : Canonical m e) (hn : Canonical n f) :
    Approaches (UnpackedFloat.sub .binary64 (parts s m e) (parts t n f))
      (withSign s ((m : ℚ) * 2 ^ e) - withSign t ((n : ℚ) * 2 ^ f)) := by
  by_cases hm0 : m = 0 <;> by_cases hn0 : n = 0
  · subst hm0 hn0
    have hsub : UnpackedFloat.sub .binary64 (parts s 0 e) (parts t 0 f) =
        .zero (signOf (s && !t)) := by
      cases s <;> cases t <;> rfl
    rw [hsub, Nat.cast_zero, zero_mul, zero_mul, withSign_zero, withSign_zero, sub_zero]
    exact approaches_zero _
  · -- nothing is left to round if one of the numbers is zero
    subst hm0
    have hsub : UnpackedFloat.sub .binary64 (parts s 0 e) (parts t n f) = parts (!t) n f := by
      rw [parts_of_ne_zero t hn0, parts_of_ne_zero _ hn0]
      cases t <;> rfl
    have hvalue : -withSign t ((n : ℚ) * 2 ^ f) = withSign (!t) ((n : ℚ) * 2 ^ f) := by
      cases t
      · rfl
      · exact neg_neg _
    rw [hsub, Nat.cast_zero, zero_mul, withSign_zero, zero_sub, hvalue]
    exact approaches_parts (!t) hn
  · subst hn0
    have hsub : UnpackedFloat.sub .binary64 (parts s m e) (parts t 0 f) = parts s m e := by
      rw [parts_of_ne_zero s hm0]
      rfl
    rw [hsub, Nat.cast_zero, zero_mul, withSign_zero, sub_zero]
    exact approaches_parts s hm
  · -- both are brought to the finer one of their scales
    have hleft := apply_shiftLeft (m := m) s (min_le_left e f)
    have hright := apply_shiftLeft (m := n) t (min_le_right e f)
    rw [parts_of_ne_zero s hm0, parts_of_ne_zero t hn0, ← hleft, ← hright, ← sub_mul,
      ← Int.cast_sub]
    exact approaches_normalize _ _

/-! ## Operations on patterns -/

/-- The greatest number with a pattern. -/
def maxValue : ℚ := ((2 ^ 53 - 1 : ℕ) : ℚ) * 2 ^ (971 : ℤ)

/-- The greatest number is representable. -/
theorem representable_maxValue : Representable maxValue :=
  ⟨(2 ^ 53 - 1 : ℕ), 971, by norm_num, by norm_num, rfl⟩

/-- Natural numbers of few bits are in range. -/
theorem natCast_le_maxValue (hn : n < 2 ^ 53) : (n : ℚ) ≤ maxValue := by
  have hone : (1 : ℚ) ≤ 2 ^ (971 : ℤ) := one_le_zpow₀ one_le_two (by norm_num)
  have hbits : (n : ℚ) ≤ (2 ^ 53 - 1 : ℕ) := by exact_mod_cast Nat.le_sub_one_of_lt hn
  unfold maxValue
  exact hbits.trans (le_mul_of_one_le_right (Nat.cast_nonneg _) hone)

/-- Halves of whole numbers of few bits are representable and in range. -/
theorem representable_half {k : ℤ} (hk : |k| ≤ 2 ^ 53) :
    Representable (k / 2) ∧ |(k : ℚ) / 2| ≤ maxValue := by
  refine ⟨⟨k, -1, hk, by norm_num, by norm_num [div_eq_mul_inv]⟩, ?_⟩
  refine le_trans ?_ (natCast_le_maxValue (n := 2 ^ 52) (by norm_num))
  have hk' : |(k : ℚ)| ≤ 2 ^ 53 := by exact_mod_cast hk
  rw [abs_div, abs_two, div_le_iff₀ two_pos]
  exact hk'.trans (by norm_num)

/-- Powers of two up to the greatest exponent are in range. -/
theorem two_zpow_le_maxValue (he : e ≤ 971) : (2 : ℚ) ^ e ≤ maxValue := by
  refine (zpow_le_zpow_right₀ one_le_two he).trans ?_
  rw [maxValue]
  exact le_mul_of_one_le_left (two_zpow_pos _).le (by norm_num)

/-- Finite patterns stand for numbers in range. -/
theorem IsFinite.abs_value_le (hx : x.IsFinite) : |x.value| ≤ maxValue := by
  have hlt := x.canonical_fields.lt
  have hpow : (2 : ℚ) ^ x.exponent ≤ 2 ^ (971 : ℤ) :=
    zpow_le_zpow_right₀ one_le_two (isFinite_iff.1 hx)
  have hbits : (x.significand : ℚ) ≤ (2 ^ 53 - 1 : ℕ) := by
    exact_mod_cast Nat.le_sub_one_of_lt hlt
  rw [value, abs_withSign, abs_of_nonneg x.canonical_fields.nonneg.1]
  exact mul_le_mul hbits hpow (two_zpow_pos _).le (Nat.cast_nonneg _)

/-- Canonical parts are those of a pattern if their number is in range. -/
theorem Canonical.exponent_le (h : Canonical m e) (hle : (m : ℚ) * 2 ^ e ≤ maxValue) :
    e ≤ 971 := by
  have hmax : Canonical (2 ^ 53 - 1) 971 := ⟨by norm_num, by norm_num, .inl (by norm_num)⟩
  by_contra hgt
  exact absurd hle (hmax.lt_of_exponent_lt h (not_le.1 hgt)).1.not_ge

/-- The pattern stands for a number that is nearest to the exact result. -/
structure Rounds (z : Binary64) (v : ℚ) : Prop where
  isFinite : z.IsFinite
  isNearest : IsNearest z.value v

/-- An exact result that is representable is met. -/
theorem Rounds.value_eq (h : Rounds z v) (hv : Representable v) : z.value = v := h.isNearest.eq hv

/-- An operation rounds its exact result if its parts come nearest to it, in range. -/
theorem rounds_settle {u : UnpackedFloat} (hx : x.IsFinite) (hy : y.IsFinite)
    (h : Approaches u v) (hmax : |v| ≤ maxValue) :
    Rounds (settle x y (.ofModel (Float.Model.pack u))) v := by
  obtain ⟨s, m, e, r, rfl, hcanonical, hnear, rfl⟩ := h
  rw [abs_withSign] at hmax
  -- a nearest number does not pass the greatest one, so there is an exponent for it
  have he : e ≤ 971 :=
    hcanonical.exponent_le (hnear.le representable_maxValue ((le_abs_self r).trans hmax))
  obtain ⟨hfinite, hvalue⟩ := value_signed_assemble s hcanonical he
  rw [settle_pack_parts hx hy s hcanonical]
  refine ⟨hfinite, ?_⟩
  rw [hvalue]
  exact hnear.withSign s

/-- The product is a number nearest to the exact one. -/
theorem rounds_mul (hx : x.IsFinite) (hy : y.IsFinite) (hmax : |x.value * y.value| ≤ maxValue) :
    Rounds (x * y) (x.value * y.value) := by
  rw [mul_eq_settle, unpack_toModel_toFloat hx, unpack_toModel_toFloat hy]
  exact rounds_settle hx hy (approaches_mul _ _ x.canonical_fields y.canonical_fields) hmax

/-- The quotient is a number nearest to the exact one. -/
theorem rounds_div (hx : x.IsFinite) (hy : y.IsFinite) (hy0 : y.significand ≠ 0)
    (hmax : |x.value / y.value| ≤ maxValue) : Rounds (x / y) (x.value / y.value) := by
  rw [div_eq_settle, unpack_toModel_toFloat hx, unpack_toModel_toFloat hy]
  exact rounds_settle hx hy (approaches_div _ _ hy0) hmax

/-- The difference is a number nearest to the exact one. -/
theorem rounds_sub (hx : x.IsFinite) (hy : y.IsFinite) (hmax : |x.value - y.value| ≤ maxValue) :
    Rounds (x - y) (x.value - y.value) := by
  rw [sub_eq_settle, unpack_toModel_toFloat hx, unpack_toModel_toFloat hy]
  exact rounds_settle hx hy (approaches_sub _ _ x.canonical_fields y.canonical_fields) hmax

section Halves

variable {k : ℤ}

/-- A product that is half of a whole number of few bits is met. -/
theorem value_mul_of_half (hx : x.IsFinite) (hy : y.IsFinite) (hk : |k| ≤ 2 ^ 53)
    (h : x.value * y.value = k / 2) : (x * y).IsFinite ∧ (x * y).value = k / 2 := by
  obtain ⟨hrepresentable, hmax⟩ := representable_half hk
  have hround := rounds_mul hx hy (h ▸ hmax)
  exact ⟨hround.isFinite, (h ▸ hround).value_eq hrepresentable⟩

/-- A difference that is half of a whole number of few bits is met. -/
theorem value_sub_of_half (hx : x.IsFinite) (hy : y.IsFinite) (hk : |k| ≤ 2 ^ 53)
    (h : x.value - y.value = k / 2) : (x - y).IsFinite ∧ (x - y).value = k / 2 := by
  obtain ⟨hrepresentable, hmax⟩ := representable_half hk
  have hround := rounds_sub hx hy (h ▸ hmax)
  exact ⟨hround.isFinite, (h ▸ hround).value_eq hrepresentable⟩

end Halves

end Binary64

end Heterodyne
