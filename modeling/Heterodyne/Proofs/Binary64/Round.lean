import Heterodyne.Proofs.Binary64.Range
import Heterodyne.Proofs.Exact
/-!
# Nearest whole numbers

A finite pattern is rounded to the nearest whole number without an error. So a bandwidth is rounded
to a step by three operations with an error each, a quotient, a whole number and a product, and if
nothing of it is lost, none of them moves it by more than a factor of two.

* `value_round`: the nearest whole number is found exactly.
* `within_of_isNearest`: what is nearest to a number is within a factor of two of it.
* `within_roundTo`: a rounded quantity is within a factor of eight of it.
-/

namespace Heterodyne

namespace Binary64

variable {x y z : Binary64} {v w b c : ℚ}

/-! ## Rounding to whole numbers -/

/-- From a half on, a fraction makes the nearest whole number grow. -/
theorem roundAway_withSign (s : Bool) (whole : ℕ) {rest unit : ℕ} (h : rest < unit) :
    roundAway (withSign s (whole + rest / unit : ℚ)) =
      withSign s ((if unit ≤ 2 * rest then whole + 1 else whole : ℕ) : ℤ) := by
  have hunit : (0 : ℚ) < unit := by exact_mod_cast Nat.zero_lt_of_lt h
  have hnonneg : (0 : ℚ) ≤ rest / unit := by positivity
  have hlt : (rest : ℚ) / unit < 1 := (div_lt_one hunit).2 (by exact_mod_cast h)
  have hwhole : (0 : ℚ) ≤ whole := Nat.cast_nonneg whole
  have hhalf : 1 / 2 ≤ (rest : ℚ) / unit ↔ unit ≤ 2 * rest := by
    rw [div_le_div_iff₀ two_pos hunit, one_mul, mul_comm]
    exact_mod_cast Iff.rfl
  have hup : ⌊(whole : ℚ) + rest / unit + 1 / 2⌋ =
      ((if unit ≤ 2 * rest then whole + 1 else whole : ℕ) : ℤ) := by
    rw [Int.floor_eq_iff]
    split
    next hle =>
      have hge := hhalf.2 hle
      push_cast
      constructor <;> linarith
    next hgt =>
      have hshort := not_le.1 (mt hhalf.1 hgt)
      push_cast
      constructor <;> linarith
  cases s with
  | false => rw [withSign, withSign, if_neg Bool.false_ne_true, if_neg Bool.false_ne_true,
      roundAway, if_pos (by positivity), hup]
  | true =>
    rw [withSign, withSign, if_pos rfl, if_pos rfl, ← hup, roundAway]
    split
    next hzero =>
      -- only zero is not below zero under this sign
      have hsum : (whole : ℚ) + rest / unit = 0 := by linarith
      rw [hsum]
      norm_num
    next =>
      rw [← Int.ceil_neg]
      congr 1
      ring

/-- The nearest whole number is found exactly. -/
theorem value_round (hx : x.IsFinite) : x.round.IsFinite ∧ x.round.value = roundAway x.value :=
  value_toWhole hx roundAway_intCast fun whole rest unit hrest => by
    simpa only [decide_eq_true_eq] using roundAway_withSign x.isNegative whole hrest

/-- What has no fraction bits is left as it is by rounding, infinity included. -/
theorem round_eq_self (h : 0 ≤ x.exponent) : x.round = x := if_pos h

/-- Only finite patterns become finite by rounding. -/
theorem isFinite_of_round (h : x.round.IsFinite) : x.IsFinite := by
  by_contra hx
  rw [isFinite_iff] at hx
  rw [round_eq_self (by omega), isFinite_iff] at h
  exact hx h

/-- Rounding does not fall below a natural number that is not above. -/
theorem le_toNat_round {n : ℕ} (hnan : x.isNaN = false) (h : n ≤ x.value) : n ≤ x.round.toNat := by
  by_cases hscale : 0 ≤ x.exponent
  · rw [round_eq_self hscale, toNat_eq_floor hnan]
    exact Nat.le_floor h
  · obtain ⟨hfinite, hvalue⟩ := value_round (isFinite_iff.2 (by omega : x.exponent ≤ 971))
    have hmono : roundAway ((n : ℤ) : ℚ) ≤ roundAway x.value :=
      roundAway_mono (by exact_mod_cast h)
    rw [roundAway_intCast] at hmono
    rw [toNat_eq_floor hfinite.isNaN, hvalue]
    exact Nat.le_floor (by exact_mod_cast hmono)

/-! ## Factors -/

/-- The sizes of two numbers differ by no more than a factor. -/
structure Within (b v w : ℚ) : Prop where
  le : |v| ≤ b * |w|
  ge : |w| ≤ b * |v|

/-- Factors are multiplied. -/
theorem Within.trans {u : ℚ} (h : Within b u v) (h' : Within c v w) (hb : 0 ≤ b) (hc : 0 ≤ c) :
    Within (b * c) u w where
  le := by
    calc |u| ≤ b * |v| := h.le
      _ ≤ b * (c * |w|) := mul_le_mul_of_nonneg_left h'.le hb
      _ = b * c * |w| := (mul_assoc _ _ _).symm
  ge := by
    calc |w| ≤ c * |v| := h'.ge
      _ ≤ c * (b * |u|) := mul_le_mul_of_nonneg_left h.ge hc
      _ = b * c * |u| := by ring

/-- Only zero is within a factor of zero. -/
theorem Within.ne_zero (h : Within b v w) (hv : v ≠ 0) : w ≠ 0 := by
  rintro rfl
  have hle := h.le
  rw [abs_zero, mul_zero, abs_nonpos_iff] at hle
  exact hv hle

/-- Numbers are multiplied by a common one. -/
theorem Within.mul_left (h : Within b v w) (a : ℚ) : Within b (a * v) (a * w) := by
  have hle := mul_le_mul_of_nonneg_left h.le (abs_nonneg a)
  have hge := mul_le_mul_of_nonneg_left h.ge (abs_nonneg a)
  constructor <;> rw [abs_mul, abs_mul] <;> linarith

/-- Twice a representable number is representable. -/
theorem Representable.two_mul (h : Representable v) : Representable (2 * v) := by
  obtain ⟨n, e, hn, he, rfl⟩ := h
  exact ⟨n, e + 1, hn, by omega, by rw [two_zpow_add_one]; ring⟩

/-- What is rounded, but not to zero, is moved by no more than a factor of two. -/
theorem Rounds.within (h : Rounds z v) (hz : z.value ≠ 0) : Within 2 z.value v := by
  -- neither zero nor the double is nearer, which bounds the product of both numbers
  have hsmall := sq_le_sq.2 (h.isNearest 0 representable_zero)
  have hlarge := sq_le_sq.2 (h.isNearest _ (representable_value z).two_mul)
  have hlow : z.value * z.value ≤ 2 * (z.value * v) := by linarith
  have hhigh : 2 * (z.value * v) ≤ 3 * (z.value * z.value) := by linarith
  have hsquare : 0 ≤ z.value * z.value := mul_self_nonneg _
  have hproduct : |z.value| * |v| = z.value * v := by
    rw [← abs_mul, abs_of_nonneg (by linarith)]
  have hself := abs_mul_abs_self z.value
  constructor
  · refine le_of_mul_le_mul_left ?_ (abs_pos.2 hz)
    linarith
  · refine le_of_mul_le_mul_left ?_ (abs_pos.2 hz)
    linarith

/-- The nearest whole number, if it is not zero, is within a factor of two. -/
theorem within_roundAway (h : roundAway v ≠ 0) : Within 2 (roundAway v : ℚ) v := by
  have hhalf := abs_sub_roundAway_le v
  have hone : (1 : ℚ) ≤ |(roundAway v : ℚ)| := by exact_mod_cast Int.one_le_abs h
  have hup := abs_sub_abs_le_abs_sub v (roundAway v : ℚ)
  have hdown := abs_sub_abs_le_abs_sub (roundAway v : ℚ) v
  rw [abs_sub_comm] at hdown
  constructor <;> linarith

/-- A quantity that is rounded to a step, but not to zero, is moved by no more than a factor of
eight. -/
theorem within_roundTo {u : MeasureUnit} {q step : Quantity u Binary64}
    (h : (q.roundTo step).value.IsFinite) (h0 : (q.roundTo step).value.value ≠ 0) :
    q.value.IsFinite ∧ Within 8 (q.roundTo step).value.value q.value.value := by
  obtain ⟨ρ, hρ⟩ : ∃ ρ, ρ = q.value / step.value := ⟨_, rfl⟩
  have hresult : (q.roundTo step).value = step.value * ρ.round := by
    rw [hρ]
    rfl
  rw [hresult] at h h0 ⊢
  obtain ⟨hstep, hcount⟩ := isFinite_of_mul h
  have hfinite := isFinite_of_round hcount
  have hproduct := (rounds_mul_of_isFinite h).within h0
  obtain ⟨hstep0, hcount0⟩ := mul_ne_zero_iff.1 (hproduct.ne_zero h0)
  rw [(value_round hfinite).2] at hproduct hcount0
  have hwhole := within_roundAway (Int.cast_ne_zero.1 hcount0)
  have hquotient := Rounds.within (hρ ▸ rounds_div_of_isFinite hstep (hρ ▸ hfinite))
    (hρ ▸ hwhole.ne_zero hcount0)
  have hfactor := (hwhole.trans hquotient zero_le_two zero_le_two).mul_left step.value.value
  rw [mul_div_cancel₀ _ hstep0] at hfactor
  refine ⟨isFinite_of_div (hρ ▸ hfinite), ?_⟩
  have hall := hproduct.trans hfactor (by norm_num) (by norm_num)
  norm_num at hall
  exact hall

end Binary64

end Heterodyne
