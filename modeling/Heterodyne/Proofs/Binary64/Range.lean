import Heterodyne.Binary64.Hypotenuse
import Heterodyne.Proofs.Binary64.Operations
/-!
# Operations out of range

An operation that leaves the range of the patterns, or has no numeric result, stays there: once a
pattern is infinite or no number, so is what is computed from it, but for a quotient by infinity.
So a finite result comes from finite operands, and it is rounded to the nearest number.

* `isFinite_of_add`, `isFinite_of_mul`, …: finite results have finite operands.
* `rounds_add_of_isFinite`, `rounds_mul_of_isFinite`, …: finite results are rounded.
* `Lands.rounds_of_abs_lt`: a result is finite up to half a step beyond the greatest number.
-/

namespace Heterodyne

namespace Binary64

open Float.Model

variable {x y z : Binary64} {u : UnpackedFloat} {v : ℚ}

/-! ## Infinite operands -/

/-- The infinity of a sign. -/
def infinityOf (s : Bool) : Binary64 := signed s infinity

/-- What is not finite is no number or infinite. -/
theorem isNaN_or_eq_infinityOf (hx : ¬ x.IsFinite) :
    x.isNaN = true ∨ ∃ s, x = infinityOf s := by
  rw [isFinite_iff_magnitude] at hx
  rcases Nat.lt_or_ge (2047 * 2 ^ 52) x.magnitude.toNat with hgt | hle
  · exact .inl (isNaN_iff.2 hgt)
  · right
    refine ⟨x.isNegative, ?_⟩
    have hmagnitude : x.magnitude.toNat = infinity.magnitude.toNat := by
      rw [show infinity.magnitude.toNat = 2047 * 2 ^ 52 from rfl]
      omega
    have hbits := x.toNat_bits
    have hsigned := bits_signed x.isNegative infinity
    rw [hmagnitude, Nat.shiftLeft_eq, one_mul] at hbits
    have heq : x.bits.toNat = (infinityOf x.isNegative).bits.toNat := by
      rw [hbits, infinityOf, hsigned, Nat.shiftLeft_eq, one_mul]
    exact congrArg mk (UInt64.toNat_inj.1 heq)

/-- What is no number is not finite. -/
theorem not_isFinite_of_isNaN (hx : x.isNaN = true) : ¬ x.IsFinite := fun hfinite => by
  rw [hfinite.isNaN] at hx
  cases hx

/-- An infinity is taken apart as one. -/
theorem unpack_infinityOf (s : Bool) :
    (infinityOf s).toFloat.toModel.unpack = .infinity (signOf s) := by
  cases s <;> rfl

/-- The parts of a result that is infinite or no number. -/
inductive Unbounded : UnpackedFloat → Prop where
  | infinity (s : UnpackedFloat.Sign) : Unbounded (.infinity s)
  | notANumber : Unbounded .notANumber

/-- A result of such parts is not finite. -/
theorem not_isFinite_settle (h : Unbounded u) :
    ¬ (settle x y (.ofModel (Float.Model.pack u))).IsFinite := by
  unfold settle
  split
  next hx => exact not_isFinite_of_isNaN hx
  next =>
    split
    next hy => exact not_isFinite_of_isNaN hy
    next =>
      cases h with
      | infinity s => cases s <;> decide +kernel
      | notANumber => decide +kernel

/-! ## Finite results -/

section Operands

variable {op : UnpackedFloat → UnpackedFloat → UnpackedFloat}

/-- If infinity on the left never gives a number, a finite result has a finite operand there. -/
theorem isFinite_left (hop : ∀ s u, Unbounded (op (.infinity s) u))
    (h : (settle x y (.ofModel (Float.Model.pack
      (op x.toFloat.toModel.unpack y.toFloat.toModel.unpack)))).IsFinite) : x.IsFinite := by
  by_contra hx
  rcases isNaN_or_eq_infinityOf hx with hnan | ⟨s, rfl⟩
  · rw [settle, if_pos hnan] at h
    exact hx h
  · rw [unpack_infinityOf] at h
    exact not_isFinite_settle (hop _ _) h

/-- If infinity on the right never gives a number, a finite result has a finite operand there. -/
theorem isFinite_right (hop : ∀ s u, Unbounded (op u (.infinity s)))
    (h : (settle x y (.ofModel (Float.Model.pack
      (op x.toFloat.toModel.unpack y.toFloat.toModel.unpack)))).IsFinite) : y.IsFinite := by
  by_contra hy
  rcases isNaN_or_eq_infinityOf hy with hnan | ⟨s, rfl⟩
  · rw [settle] at h
    split at h
    next hx => exact not_isFinite_of_isNaN hx h
    next => exact hy h
  · rw [unpack_infinityOf] at h
    exact not_isFinite_settle (hop _ _) h

end Operands

/-- Infinity times anything is no number in range. -/
theorem unbounded_mul (s : UnpackedFloat.Sign) (u : UnpackedFloat) :
    Unbounded (.mul .binary64 (.infinity s) u) ∧ Unbounded (.mul .binary64 u (.infinity s)) := by
  cases u <;> constructor <;> constructor

/-- Infinity is not brought back into range by dividing it. -/
theorem unbounded_div (s : UnpackedFloat.Sign) (u : UnpackedFloat) :
    Unbounded (.div .binary64 (.infinity s) u) := by
  cases u <;> constructor

/-- Infinity is not brought back into range by adding to it. -/
theorem unbounded_add (s : UnpackedFloat.Sign) (u : UnpackedFloat) :
    Unbounded (.add .binary64 (.infinity s) u) ∧ Unbounded (.add .binary64 u (.infinity s)) := by
  cases u with
  | infinity t => cases s <;> cases t <;> constructor <;> constructor
  | _ => constructor <;> constructor

/-- A finite product has finite factors. -/
theorem isFinite_of_mul (h : (x * y).IsFinite) : x.IsFinite ∧ y.IsFinite :=
  ⟨isFinite_left (fun s u => (unbounded_mul s u).1) h,
    isFinite_right (fun s u => (unbounded_mul s u).2) h⟩

/-- A finite quotient is that of a finite number. -/
theorem isFinite_of_div (h : (x / y).IsFinite) : x.IsFinite := isFinite_left unbounded_div h

/-- A finite sum has finite summands. -/
theorem isFinite_of_add (h : (x + y).IsFinite) : x.IsFinite ∧ y.IsFinite :=
  ⟨isFinite_left (fun s u => (unbounded_add s u).1) h,
    isFinite_right (fun s u => (unbounded_add s u).2) h⟩

/-- The divisor of a finite quotient is not zero. -/
theorem ne_zero_of_div (hx : x.IsFinite) (hy : y.IsFinite) (h : (x / y).IsFinite) :
    y.significand ≠ 0 := by
  intro hzero
  rw [div_eq_settle, unpack_toModel_toFloat hy, hzero, parts_zero] at h
  refine not_isFinite_settle ?_ h
  rw [unpack_toModel_toFloat hx]
  by_cases hm : x.significand = 0
  · rw [hm]
    constructor
  · rw [parts_of_ne_zero _ hm]
    constructor

/-! ## Rounding without a range -/

/-- The pattern has the parts of a number nearest to the exact result, or is infinite because
there is no exponent for them. -/
def Lands (z : Binary64) (v : ℚ) : Prop :=
  ∃ (s : Bool) (m : ℕ) (e : ℤ), Canonical m e ∧ IsNearest (withSign s ((m : ℚ) * 2 ^ e)) v ∧
    z = signed s (assemble m e)

/-- An operation lands at the parts that come nearest to its exact result. -/
theorem lands_settle (hx : x.IsFinite) (hy : y.IsFinite) (h : Approaches u v) :
    Lands (settle x y (.ofModel (Float.Model.pack u))) v := by
  obtain ⟨s, m, e, r, rfl, hcanonical, hnear, rfl⟩ := h
  exact ⟨s, m, e, hcanonical, hnear.withSign s, settle_pack_parts hx hy s hcanonical⟩

/-- A finite pattern that an operation lands at is the nearest number. -/
theorem Lands.rounds (h : Lands z v) (hz : z.IsFinite) : Rounds z v := by
  obtain ⟨s, m, e, hcanonical, hnear, rfl⟩ := h
  have he : e ≤ 971 := by
    by_contra hgt
    have hnormal := hcanonical.normal.resolve_right (by omega)
    have hbits := toNat_bits_assemble hcanonical
    have hsplit := toNat_bits (assemble m e)
    rw [isFinite_iff_magnitude, magnitude_signed] at hz
    rw [isNegative_assemble hcanonical] at hsplit
    simp only [Bool.false_eq_true, if_false] at hsplit
    unfold weight at hbits
    omega
  exact ⟨hz, (value_signed_assemble s hcanonical he).2 ▸ hnear⟩

/-- The first number without an exponent is a whole step above the greatest one. -/
theorem le_of_exponent_gt {m : ℕ} {e : ℤ} (h : Canonical m e) (he : 971 < e) :
    maxValue + 2 * 2 ^ (970 : ℤ) ≤ (m : ℚ) * 2 ^ e := by
  have hnormal := h.normal.resolve_right (by omega)
  have hm : (2 ^ 52 : ℚ) ≤ m := by exact_mod_cast hnormal
  have hpow : (2 : ℚ) ^ (972 : ℤ) ≤ 2 ^ e := zpow_le_zpow_right₀ one_le_two (by omega)
  have hstep : (2 : ℚ) ^ (971 : ℤ) = 2 * 2 ^ (970 : ℤ) := two_zpow_add_one 970
  have hfirst : (2 : ℚ) ^ (972 : ℤ) = 2 * 2 ^ (971 : ℤ) := two_zpow_add_one 971
  have hbits : ((2 ^ 53 - 1 : ℕ) : ℚ) = 2 ^ 53 - 1 := by norm_num
  have hbound : (2 ^ 52 : ℚ) * 2 ^ (972 : ℤ) ≤ m * 2 ^ e :=
    mul_le_mul hm hpow (two_zpow_pos _).le (Nat.cast_nonneg m)
  refine le_trans (le_of_eq ?_) hbound
  rw [maxValue, hbits, hfirst, ← hstep]
  generalize (2 : ℚ) ^ (971 : ℤ) = g
  ring

/-- A number a whole step above a representable one is not nearest to what lies less than half a
step above that. -/
theorem not_isNearest_of_step {w t greatest half : ℚ} (hgreatest : Representable greatest)
    (hw : greatest + 2 * half ≤ w) (hhalf : 0 < half) (ht : t < greatest + half) :
    ¬ IsNearest w t := by
  intro hnear
  have hle := hnear greatest hgreatest
  rw [abs_of_nonneg (by linarith), le_abs] at hle
  rcases hle with hle | hle <;> linarith

/-- Up to half a step beyond the greatest number, an operation lands at a finite pattern. -/
theorem Lands.rounds_of_abs_lt (h : Lands z v) (hv : |v| < maxValue + 2 ^ (970 : ℤ)) :
    Rounds z v := by
  refine h.rounds ?_
  obtain ⟨s, m, e, hcanonical, hnear, rfl⟩ := h
  refine (value_signed_assemble s hcanonical ?_).1
  by_contra hgt
  have hbeyond := le_of_exponent_gt hcanonical (not_le.1 hgt)
  cases s with
  | false =>
    exact not_isNearest_of_step representable_maxValue hbeyond (two_zpow_pos 970)
      (lt_of_abs_lt hv) hnear
  | true =>
    have hneg : IsNearest ((m : ℚ) * 2 ^ e) (-v) := by
      have hnearest := hnear.neg
      rwa [withSign, if_pos rfl, neg_neg] at hnearest
    exact not_isNearest_of_step representable_maxValue hbeyond (two_zpow_pos 970)
      (lt_of_abs_lt (by rwa [abs_neg])) hneg

/-- A finite product is a number nearest to the exact one. -/
theorem rounds_mul_of_isFinite (h : (x * y).IsFinite) : Rounds (x * y) (x.value * y.value) := by
  obtain ⟨hx, hy⟩ := isFinite_of_mul h
  refine Lands.rounds ?_ h
  rw [mul_eq_settle, unpack_toModel_toFloat hx, unpack_toModel_toFloat hy]
  exact lands_settle hx hy (approaches_mul _ _ x.canonical_fields y.canonical_fields)

/-- The quotient of finite numbers lands at the exact one, if the divisor is not zero. -/
theorem lands_div (hx : x.IsFinite) (hy : y.IsFinite) (hy0 : y.significand ≠ 0) :
    Lands (x / y) (x.value / y.value) := by
  rw [div_eq_settle, unpack_toModel_toFloat hx, unpack_toModel_toFloat hy]
  exact lands_settle hx hy (approaches_div _ _ hy0)

/-- A finite quotient of finite numbers is a number nearest to the exact one. -/
theorem rounds_div_of_isFinite (hy : y.IsFinite) (h : (x / y).IsFinite) :
    Rounds (x / y) (x.value / y.value) :=
  have hx := isFinite_of_div h
  (lands_div hx hy (ne_zero_of_div hx hy h)).rounds h

/-- The difference of finite numbers lands at the exact one. -/
theorem lands_sub (hx : x.IsFinite) (hy : y.IsFinite) : Lands (x - y) (x.value - y.value) := by
  rw [sub_eq_settle, unpack_toModel_toFloat hx, unpack_toModel_toFloat hy]
  exact lands_settle hx hy (approaches_sub _ _ x.canonical_fields y.canonical_fields)

/-- A number is finite, whatever less than half a step beyond the greatest number is subtracted. -/
theorem rounds_sub_of_abs_lt (hx : x.IsFinite) (hy : y.IsFinite)
    (h : |y.value| < 2 ^ (970 : ℤ)) : Rounds (x - y) (x.value - y.value) := by
  refine (lands_sub hx hy).rounds_of_abs_lt ?_
  calc |x.value - y.value| ≤ |x.value| + |y.value| := abs_sub _ _
    _ < maxValue + 2 ^ (970 : ℤ) := add_lt_add_of_le_of_lt hx.abs_value_le h

/-- Adding is subtracting what has the other sign. -/
theorem add_parts (s t : Bool) (m n : ℕ) (e f : ℤ) :
    UnpackedFloat.add .binary64 (parts s m e) (parts t n f) =
      UnpackedFloat.sub .binary64 (parts s m e) (parts (!t) n f) := by
  by_cases hm : m = 0 <;> by_cases hn : n = 0
  · subst hm hn
    cases s <;> cases t <;> rfl
  · subst hm
    rw [parts_of_ne_zero t hn, parts_of_ne_zero _ hn]
    cases s <;> cases t <;> rfl
  · subst hn
    rw [parts_of_ne_zero s hm]
    cases s <;> cases t <;> rfl
  · rw [parts_of_ne_zero s hm, parts_of_ne_zero t hn, parts_of_ne_zero _ hn]
    have hsign (k : ℤ) : (signOf (!t)).apply k = -(signOf t).apply k := by
      cases t
      · rfl
      · exact (neg_neg k).symm
    unfold UnpackedFloat.add UnpackedFloat.sub
    dsimp only
    rw [hsign, sub_neg_eq_add]

/-- A finite sum is a number nearest to the exact one. -/
theorem rounds_add_of_isFinite (h : (x + y).IsFinite) : Rounds (x + y) (x.value + y.value) := by
  obtain ⟨hx, hy⟩ := isFinite_of_add h
  have hvalue : y.value =
      -withSign (!y.isNegative) ((y.significand : ℚ) * 2 ^ y.exponent) := by
    unfold value
    cases y.isNegative
    · exact (neg_neg _).symm
    · rfl
  refine Lands.rounds ?_ h
  rw [add_eq_settle, unpack_toModel_toFloat hx, unpack_toModel_toFloat hy, add_parts, hvalue,
    ← sub_eq_add_neg]
  exact lands_settle hx hy (approaches_sub _ _ x.canonical_fields y.canonical_fields)

/-- What is infinite or no number stays what it is if a number is subtracted. -/
theorem sub_eq_self (hx : ¬ x.IsFinite) (hy : y.IsFinite) : x - y = x := by
  rw [sub_eq_settle]
  rcases isNaN_or_eq_infinityOf hx with hnan | ⟨s, rfl⟩
  · rw [settle, if_pos hnan]
  · have hsub : UnpackedFloat.sub .binary64 (.infinity (signOf s))
        (parts y.isNegative y.significand y.exponent) = .infinity (signOf s) := by
      by_cases hm : y.significand = 0
      · rw [hm]
        rfl
      · rw [parts_of_ne_zero _ hm]
        rfl
    rw [unpack_infinityOf, unpack_toModel_toFloat hy, hsub, settle,
      if_neg (by cases s <;> decide), if_neg (by simp [hy.isNaN])]
    cases s <;> rfl

/-! ## Quotients beyond the range -/

/-- The first pattern beyond the finite ones continues their scale. -/
theorem maxValue_le_value_infinityOf : maxValue ≤ (infinityOf false).value := by
  have hvalue : (infinityOf false).value = (2 ^ 52 : ℕ) * 2 ^ (972 : ℤ) := rfl
  have hstep : (2 : ℚ) ^ (972 : ℤ) = 2 * 2 ^ (971 : ℤ) := two_zpow_add_one 971
  have hpos := two_zpow_pos 971
  rw [hvalue, hstep, maxValue]
  generalize (2 : ℚ) ^ (971 : ℤ) = g at hpos ⊢
  rw [← mul_assoc]
  refine mul_le_mul_of_nonneg_right ?_ hpos.le
  norm_num

/-- What lands at a number above zero does not fall below a representable one, even where there is
no exponent for it. -/
theorem Lands.le_value {b : ℚ} (h : Lands z v) (hb : Representable b) (hpos : 0 < b)
    (hmax : b ≤ maxValue) (hv : b ≤ v) : z.isNaN = false ∧ b ≤ z.value := by
  by_cases hz : z.IsFinite
  · exact ⟨hz.isNaN, (h.rounds hz).isNearest.ge hb hv⟩
  · obtain ⟨s, m, e, hcanonical, hnear, rfl⟩ := h
    have hnan := isNaN_signed_assemble s hcanonical
    obtain ⟨t, ht⟩ := (isNaN_or_eq_infinityOf hz).resolve_left (by simp [hnan])
    -- a number above zero has no sign, and the infinity has that of the number
    have hs : s = false := by
      by_contra hs
      have hneg := hnear.ge hb hv
      rw [withSign, if_pos (by simpa using hs)] at hneg
      linarith [hcanonical.nonneg.1]
    have hst : s = t := by
      rw [← isNegative_signed s (assemble m e), ht, infinityOf, isNegative_signed]
    refine ⟨hnan, ?_⟩
    rw [ht, ← hst, hs]
    exact hmax.trans maxValue_le_value_infinityOf

/-- Parts tell their sign, also if they are those of a zero. -/
theorem sign_of_parts_eq {s t : Bool} {m n : ℕ} {e f : ℤ} (h : parts s m e = parts t n f) :
    s = t := by
  have hsign {s t : Bool} (h : signOf s = signOf t) : s = t := by
    cases s <;> cases t <;> first | rfl | nomatch h
  by_cases hm : m = 0 <;> by_cases hn : n = 0
  · subst hm hn
    exact hsign (UnpackedFloat.zero.inj h)
  · subst hm
    rw [parts_zero, parts_of_ne_zero _ hn] at h
    nomatch h
  · subst hn
    rw [parts_zero, parts_of_ne_zero _ hm] at h
    nomatch h
  · rw [parts_of_ne_zero _ hm, parts_of_ne_zero _ hn] at h
    exact hsign (UnpackedFloat.finite.inj h).1

/-- The parts of a quotient tell its sign, also if it is zero. -/
theorem sign_of_div_parts {s t s' : Bool} {m n m' : ℕ} {e f e' : ℤ} (hn0 : n ≠ 0)
    (h : UnpackedFloat.div .binary64 (parts s m e) (parts t n f) = parts s' m' e') :
    s' = (s ^^ t) := by
  by_cases hm0 : m = 0
  · subst hm0
    have hzero : UnpackedFloat.div .binary64 (parts s 0 e) (parts t n f) = parts (s ^^ t) 0 e := by
      rw [parts_of_ne_zero t hn0, parts_zero, parts_zero, ← signOf_div]
      rfl
    exact (sign_of_parts_eq (hzero.symm.trans h)).symm
  · obtain ⟨scale, -, -, hdiv⟩ := div_parts_of_ne_zero (e := e) (f := f) s t hm0 hn0
    rw [hdiv, roundWithAccuracy_eq_parts] at h
    exact (sign_of_parts_eq h).symm

/-- A quotient has the sign of a quotient, also if it is rounded to zero. -/
theorem isNegative_div (hx : x.IsFinite) (hy : y.IsFinite) (hy0 : y.significand ≠ 0) :
    (x / y).isNegative = (x.isNegative ^^ y.isNegative) := by
  obtain ⟨s, m, e, r, hparts, hcanonical, -, -⟩ := approaches_div (m := x.significand)
    (e := x.exponent) (f := y.exponent) x.isNegative y.isNegative hy0
  rw [div_eq_settle, unpack_toModel_toFloat hx, unpack_toModel_toFloat hy, hparts,
    settle_pack_parts hx hy s hcanonical, isNegative_signed]
  exact sign_of_div_parts hy0 hparts

/-- A number above zero over a zero without a sign is infinite. -/
theorem div_zero (hx : x.IsFinite) (hxpos : 0 < x.value) (hy : y.isNegative = false)
    (hy0 : y.significand = 0) : x / y = infinityOf false := by
  have hyfinite : y.IsFinite := by
    by_contra hinfinite
    have := y.canonical_fields.normal
    rw [isFinite_iff] at hinfinite
    omega
  have hx0 : x.significand ≠ 0 := by
    intro hzero
    rw [value, hzero, Nat.cast_zero, zero_mul, withSign_zero] at hxpos
    exact lt_irrefl _ hxpos
  have hsign := isNegative_of_value_pos hxpos
  rw [div_eq_settle, unpack_toModel_toFloat hx, unpack_toModel_toFloat hyfinite, hy0, hy, hsign,
    parts_zero, parts_of_ne_zero _ hx0, settle, if_neg (by simp [hx.isNaN]),
    if_neg (by simp [hyfinite.isNaN])]
  rfl

/-- A number above zero over one that is not below zero, but by a factor smaller, is not less than
the factor, even where there is no exponent for it. -/
theorem le_value_div {b : ℚ} (hx : x.IsFinite) (hxpos : 0 < x.value) (hy : y.IsFinite)
    (hsign : y.isNegative = false) (hb : Representable b) (hpos : 0 < b) (hmax : b ≤ maxValue)
    (h : y.value * b ≤ x.value) : (x / y).isNaN = false ∧ b ≤ (x / y).value := by
  by_cases hy0 : y.significand = 0
  · rw [div_zero hx hxpos hsign hy0]
    exact ⟨by decide, hmax.trans maxValue_le_value_infinityOf⟩
  · have hypos : 0 < y.value := by
      rw [value, hsign, withSign, if_neg Bool.false_ne_true]
      exact mul_pos (by exact_mod_cast Nat.pos_of_ne_zero hy0) (two_zpow_pos _)
    exact (lands_div hx hy hy0).le_value hb hpos hmax ((le_div_iff₀' hypos).2 h)

end Binary64

end Heterodyne
