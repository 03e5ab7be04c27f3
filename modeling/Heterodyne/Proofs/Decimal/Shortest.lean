import Heterodyne.Decimal.Shortest
import Heterodyne.Proofs.Binary64.Spacing
/-!
# The shortest decimal reads back

The decimals of an interval are compared by whole numbers, brought to one scale; that is comparing
rational numbers. The search from the coarsest grid on ends at the latest on a grid that is as fine
as the interval's own scale, and twenty steps lead there. So the shortest decimal lies in the
interval of its number, and no other representable number does.

* `Interval.contains_iff`: which decimals an interval contains.
* `contains_shortest`: the shortest decimal lies in the interval.
* `eq_of_reaches`: a representable number there is the number of the interval.
-/

namespace Heterodyne

namespace Decimal

open Binary64 (two_zpow_pos)

/-! ## Intervals -/

namespace Interval

variable {i : Interval} {d : ℕ} {p : ℤ}

/-- What both factors are multiplied by besides their own powers. -/
def commonFactor (i : Interval) (p : ℤ) : ℕ := 10 ^ (-p).toNat * 2 ^ (-i.scale).toNat

/-- A power whose exponent may be negative, on the scale of whole numbers. -/
theorem zpow_mul_pow (b : ℚ) (hb : b ≠ 0) (k : ℤ) : b ^ k * b ^ (-k).toNat = b ^ k.toNat := by
  rw [← zpow_natCast, ← zpow_natCast, ← zpow_add₀ hb]
  congr 1
  omega

/-- The factor of the binary scale. -/
theorem binaryFactor_eq (i : Interval) (p : ℤ) :
    (i.binaryFactor p : ℚ) = 2 ^ i.scale * i.commonFactor p := by
  have htwo := zpow_mul_pow 2 two_ne_zero i.scale
  rw [binaryFactor, commonFactor, Nat.shiftLeft_eq]
  push_cast [Nat.pow_eq]
  rw [← htwo]
  ring

/-- The factor of the decimal scale. -/
theorem decimalFactor_eq (i : Interval) (p : ℤ) :
    (i.decimalFactor p : ℚ) = 10 ^ p * i.commonFactor p := by
  have hten := zpow_mul_pow 10 (by norm_num) p
  rw [decimalFactor, commonFactor, Nat.shiftLeft_eq]
  push_cast [Nat.pow_eq]
  rw [← hten]
  ring

/-- Both scales are compared on a common one. -/
theorem commonFactor_pos (i : Interval) (p : ℤ) : 0 < i.commonFactor p := by
  unfold commonFactor
  positivity

/-- An interval reaches from its lower bound to its upper one, with them or without them. -/
def Reaches (i : Interval) (r : ℚ) : Prop :=
  if i.closed then (i.low : ℚ) * 2 ^ i.scale ≤ r ∧ r ≤ i.high * 2 ^ i.scale
  else (i.low : ℚ) * 2 ^ i.scale < r ∧ r < i.high * 2 ^ i.scale

/-- A number that an interval reaches lies between its bounds. -/
theorem Reaches.bounds {r : ℚ} (h : i.Reaches r) :
    (i.low : ℚ) * 2 ^ i.scale ≤ r ∧ r ≤ i.high * 2 ^ i.scale := by
  unfold Reaches at h
  split at h
  · exact h
  · exact ⟨h.1.le, h.2.le⟩

/-- An interval contains the decimals that it reaches. -/
theorem contains_iff : i.contains d p = true ↔ i.Reaches (d * 10 ^ p) := by
  have hcommon : (0 : ℚ) < i.commonFactor p := by exact_mod_cast i.commonFactor_pos p
  have hscale (a : ℕ) : ((a * i.binaryFactor p : ℕ) : ℚ) =
      (a : ℚ) * 2 ^ i.scale * i.commonFactor p := by
    rw [Nat.cast_mul, binaryFactor_eq, mul_assoc]
  have hpoint : ((d * i.decimalFactor p : ℕ) : ℚ) = (d : ℚ) * 10 ^ p * i.commonFactor p := by
    rw [Nat.cast_mul, decimalFactor_eq, mul_assoc]
  have hle {a b : ℕ} {r t : ℚ} (ha : (a : ℚ) = r * i.commonFactor p)
      (hb : (b : ℚ) = t * i.commonFactor p) : a ≤ b ↔ r ≤ t := by
    rw [← Nat.cast_le (α := ℚ), ha, hb, mul_le_mul_iff_left₀ hcommon]
  have hlt {a b : ℕ} {r t : ℚ} (ha : (a : ℚ) = r * i.commonFactor p)
      (hb : (b : ℚ) = t * i.commonFactor p) : a < b ↔ r < t := by
    rw [← Nat.cast_lt (α := ℚ), ha, hb, mul_lt_mul_iff_left₀ hcommon]
  unfold contains Reaches
  cases i.closed
  · simp [hlt (hscale _) hpoint, hlt hpoint (hscale _)]
  · simp [hle (hscale _) hpoint, hle hpoint (hscale _)]

/-! ## The search -/

/-- A grid as fine as the scale of an interval has a decimal in it, next to its value. -/
theorem exists_onGrid (hlow : i.low + 1 ≤ i.value) (hhigh : i.value < i.high)
    (hp : (10 : ℚ) ^ p ≤ 2 ^ i.scale) : ∃ d, i.onGrid p = some d := by
  have hcommon : (0 : ℚ) < i.commonFactor p := by exact_mod_cast i.commonFactor_pos p
  have hfine : i.decimalFactor p ≤ i.binaryFactor p := by
    rw [← Nat.cast_le (α := ℚ), decimalFactor_eq, binaryFactor_eq]
    exact mul_le_mul_of_nonneg_right hp hcommon.le
  have hunit : 0 < i.decimalFactor p := by
    rw [← Nat.cast_pos (α := ℚ), decimalFactor_eq]
    positivity
  -- the greatest multiple up to the value is less than a unit below it
  have hbelow := Nat.div_mul_le_self (i.value * i.binaryFactor p) (i.decimalFactor p)
  have habove := Nat.lt_div_mul_add (a := i.value * i.binaryFactor p) hunit
  have hlower : (i.low + 1) * i.binaryFactor p ≤ i.value * i.binaryFactor p :=
    Nat.mul_le_mul_right _ hlow
  have hupper : i.value * i.binaryFactor p < i.high * i.binaryFactor p :=
    Nat.mul_lt_mul_of_pos_right hhigh (hunit.trans_le hfine)
  rw [add_one_mul] at hlower
  have hcontains : i.contains (i.value * i.binaryFactor p / i.decimalFactor p) p = true := by
    unfold contains
    split <;> simp only [Bool.and_eq_true, decide_eq_true_eq] <;> omega
  unfold onGrid
  simp only [hcontains]
  split
  next => exact ⟨_, rfl⟩
  next => exact ⟨_, rfl⟩
  next h _ => cases h
  next h _ => cases h

/-- The search finds a decimal if there is one on one of the grids that it tries. -/
theorem contains_coarsest {steps : ℕ} (h : ∃ k < steps, ∃ d, i.onGrid (p - k) = some d) :
    i.contains (i.coarsest steps p).digits (i.coarsest steps p).exponent = true := by
  induction steps generalizing p with
  | zero =>
    obtain ⟨k, hk, -⟩ := h
    exact absurd hk (Nat.not_lt_zero k)
  | succ steps ih =>
    rw [coarsest]
    split
    next d hd => exact onGrid_within hd
    next hnone =>
      refine ih ?_
      obtain ⟨k, hk, d, hd⟩ := h
      cases k with
      | zero =>
        rw [Nat.cast_zero, sub_zero, hnone] at hd
        cases hd
      | succ k =>
        refine ⟨k, Nat.lt_of_succ_lt_succ hk, d, ?_⟩
        rw [← hd]
        congr 1
        push_cast
        omega

end Interval

/-! ## Powers of ten and two -/

/-- Powers of ten against powers of two, with 59 for 196. -/
theorem ten_pow_le_two_pow {p q : ℕ} (h : 196 * p ≤ 59 * q) : 10 ^ p ≤ 2 ^ q := by
  have hpowers : (10 ^ p) ^ 59 ≤ (2 ^ q) ^ 59 := by
    calc (10 ^ p) ^ 59 = (10 ^ 59) ^ p := by rw [← pow_mul, ← pow_mul, mul_comm]
      _ ≤ (2 ^ 196) ^ p := Nat.pow_le_pow_left (by norm_num) p
      _ = 2 ^ (196 * p) := (pow_mul _ _ _).symm
      _ ≤ 2 ^ (59 * q) := Nat.pow_le_pow_right (by norm_num) h
      _ = (2 ^ q) ^ 59 := by rw [← pow_mul, mul_comm]
  exact (Nat.pow_le_pow_iff_left (by norm_num)).1 hpowers

/-- Powers of two against powers of ten, with 93 for 28. -/
theorem two_pow_le_ten_pow {p q : ℕ} (h : 28 * q ≤ 93 * p) : 2 ^ q ≤ 10 ^ p := by
  have hpowers : (2 ^ q) ^ 93 ≤ (10 ^ p) ^ 93 := by
    calc (2 ^ q) ^ 93 = (2 ^ 93) ^ q := by rw [← pow_mul, ← pow_mul, mul_comm]
      _ ≤ (10 ^ 28) ^ q := Nat.pow_le_pow_left (by norm_num) q
      _ = 10 ^ (28 * q) := (pow_mul _ _ _).symm
      _ ≤ 10 ^ (93 * p) := Nat.pow_le_pow_right (by norm_num) h
      _ = (10 ^ p) ^ 93 := by rw [← pow_mul, mul_comm]
  exact (Nat.pow_le_pow_iff_left (by norm_num)).1 hpowers

/-- A power of ten is no greater than a power of two if this shows on both sides of zero. -/
theorem ten_zpow_le_two_zpow {p s : ℤ} (hpos : 0 ≤ p → 196 * p ≤ 59 * s)
    (hneg : p < 0 → 28 * -s ≤ 93 * -p) : (10 : ℚ) ^ p ≤ 2 ^ s := by
  rcases le_or_gt 0 p with hp | hp
  · have hle := hpos hp
    obtain ⟨a, rfl⟩ := Int.eq_ofNat_of_zero_le hp
    obtain ⟨b, rfl⟩ := Int.eq_ofNat_of_zero_le (show 0 ≤ s by omega)
    rw [zpow_natCast, zpow_natCast]
    exact_mod_cast ten_pow_le_two_pow (by omega)
  · have hle := hneg hp
    rcases le_or_gt 0 s with hs | hs
    · exact (zpow_le_one_of_nonpos₀ (by norm_num) hp.le).trans (one_le_zpow₀ one_le_two hs)
    · obtain ⟨a, rfl⟩ : ∃ a : ℕ, p = -a := ⟨(-p).toNat, by omega⟩
      obtain ⟨b, rfl⟩ : ∃ b : ℕ, s = -b := ⟨(-s).toNat, by omega⟩
      rw [zpow_neg, zpow_neg, zpow_natCast, zpow_natCast]
      refine inv_anti₀ (by positivity) ?_
      exact_mod_cast two_pow_le_ten_pow (by omega)

/-! ## The interval of a number -/

section Around

variable {x : Binary64}

/-- The last grid that is tried for a number is as fine as the scale of its interval. -/
theorem lastGrid_le (hx : x.IsFinite) :
    (10 : ℚ) ^ ((Interval.around x).ceilingPower - 19) ≤ 2 ^ (Interval.around x).scale := by
  have hcanonical := x.canonical_fields
  have hlt := hcanonical.lt
  have hleast := hcanonical.le_exponent
  have hgreatest := Binary64.isFinite_iff.1 hx
  have hlog : (4 * x.significand + 2).log2 < 55 := (Nat.log2_lt (by omega)).2 (by omega)
  have hceiling : (Interval.around x).ceilingPower =
      ((4 * x.significand + 2).log2 + 1 + (x.exponent - 2)) * 30103 / 100000 + 1 := rfl
  have hscale : (Interval.around x).scale = x.exponent - 2 := rfl
  rw [hceiling, hscale]
  apply ten_zpow_le_two_zpow <;> intro <;> omega

/-- The decimal that is written for a number lies in its interval. -/
theorem contains_shortest (hx : x.IsFinite) (hzero : x.significand ≠ 0) :
    (Interval.around x).contains (shortest x).digits (shortest x).exponent = true := by
  have hlow : (Interval.around x).low + 1 ≤ (Interval.around x).value := by
    unfold Interval.around
    dsimp only
    split <;> omega
  have hhigh : (Interval.around x).value < (Interval.around x).high :=
    Nat.lt_add_of_pos_right (by norm_num)
  have hgrid := Interval.exists_onGrid hlow hhigh (lastGrid_le hx)
  rw [shortest, if_neg (mt Binary64.isZero_iff.1 hzero)]
  exact Interval.contains_coarsest ⟨19, by decide, hgrid⟩

/-- The bounds of the interval around a number. The lower one is nearer above a power of two, unless
the scale is the finest one. -/
theorem bounds_of_reaches {r : ℚ} (h : (Interval.around x).Reaches r) :
    r ≤ x.significand * 2 ^ x.exponent + 2 ^ x.exponent / 2 ∧
      x.significand * 2 ^ x.exponent - 2 ^ x.exponent / 2 ≤ r ∧
      (x.significand = 2 ^ 52 → -1074 < x.exponent →
        x.significand * 2 ^ x.exponent - 2 ^ x.exponent / 4 ≤ r) := by
  have hquarter : (2 : ℚ) ^ x.exponent = 4 * 2 ^ (x.exponent - 2) := by
    rw [zpow_sub₀ two_ne_zero]
    norm_num
    ring
  have hpow := two_zpow_pos (x.exponent - 2)
  obtain ⟨hlow, hhigh⟩ := h.bounds
  have hupper : ((Interval.around x).high : ℚ) = 4 * x.significand + 2 := by
    exact_mod_cast rfl
  have hlower : 4 * x.significand ≤ (Interval.around x).low + 2 ∧
      (x.significand = 2 ^ 52 → -1074 < x.exponent →
        4 * x.significand ≤ (Interval.around x).low + 1) := by
    have hnarrow : (x.significand == 1 <<< 52 && decide (x.exponentField > 1)) = true ↔
        x.significand = 2 ^ 52 ∧ -1074 < x.exponent := by
      rw [Bool.and_eq_true, beq_iff_eq, decide_eq_true_eq, Binary64.exponent]
      omega
    unfold Interval.around
    dsimp only
    split
    next => omega
    next hwide =>
      rw [hnarrow] at hwide
      exact ⟨by omega, fun hm he => absurd ⟨hm, he⟩ hwide⟩
  have hscale : (Interval.around x).scale = x.exponent - 2 := rfl
  rw [hscale] at hlow hhigh
  rw [hupper] at hhigh
  rw [hquarter]
  refine ⟨by linarith, ?_, fun hm he => ?_⟩
  · have hle : (4 * x.significand : ℚ) ≤ (Interval.around x).low + 2 := by exact_mod_cast hlower.1
    have hscaled := mul_le_mul_of_nonneg_right hle hpow.le
    linarith
  · have hle : (4 * x.significand : ℚ) ≤ (Interval.around x).low + 1 := by
      exact_mod_cast hlower.2 hm he
    have hscaled := mul_le_mul_of_nonneg_right hle hpow.le
    linarith

/-- A representable number that the interval of a number reaches is its size: the bounds are no
further away than half of the way to the numbers beside it. -/
theorem eq_of_reaches {r : ℚ} (hr : Binary64.Representable r)
    (h : (Interval.around x).Reaches r) : r = x.significand * 2 ^ x.exponent := by
  have hcanonical := x.canonical_fields
  have hpow := two_zpow_pos x.exponent
  obtain ⟨hhigh, hlow, hnarrow⟩ := bounds_of_reaches h
  have hnear : |r - (x.significand : ℤ) * 2 ^ x.exponent| < 2 ^ x.exponent := by
    rw [Int.cast_natCast, abs_lt]
    constructor <;> linarith
  rcases eq_or_lt_of_le hcanonical.le_exponent with hleast | hgreater
  · exact_mod_cast hr.eq_of_abs_sub_lt (.inr hleast.symm) hnear
  have hnormal := hcanonical.normal.resolve_right hgreater.ne'
  rcases le_or_gt (2 ^ 52 * 2 ^ x.exponent) r with hlarge | hsmall
  · exact_mod_cast hr.eq_of_abs_sub_lt (.inl hlarge) hnear
  · -- only a power of two has a number of another scale next to it
    have hfirst : x.significand = 2 ^ 52 := by
      refine le_antisymm (Nat.lt_succ_iff.1 ?_) hnormal
      by_contra hge
      have hm : (2 ^ 52 + 1 : ℚ) ≤ x.significand := by exact_mod_cast not_lt.1 hge
      have hscaled := mul_le_mul_of_nonneg_right hm hpow.le
      linarith
    have hhalf : (2 : ℚ) ^ x.exponent = 2 * 2 ^ (x.exponent - 1) := by
      rw [← Binary64.two_zpow_add_one, sub_add_cancel]
    have hclose := hnarrow hfirst hgreater
    have hhalfpos := two_zpow_pos (x.exponent - 1)
    rw [hfirst, hhalf] at hclose ⊢
    rw [hhalf] at hsmall
    push_cast at hclose hsmall ⊢
    have hexact : r = ((2 ^ 53 : ℤ) : ℚ) * 2 ^ (x.exponent - 1) := by
      refine hr.eq_of_abs_sub_lt (.inl (by linarith)) ?_
      push_cast
      rw [abs_lt]
      constructor <;> linarith
    rw [hexact]
    push_cast
    ring

end Around

end Decimal

end Heterodyne
