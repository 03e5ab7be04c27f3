import Heterodyne.Proofs.Binary64.Whole
import Heterodyne.Proofs.Spectrum.Numbered
/-!
# Tuning

A window is tuned to the greatest multiple of the tuning step that does not exceed its exact
oscillator frequency, and the rest is its shift. In binary64 numbers all of this is rounded. If
the step is a whole number of units in the last place of the exact frequency, only the quotient
of the two is, and not across a whole number: the multiple and the rest are exact.

* `value_multiple`, `value_rest`: the multiple of the step and the rest.
* `tunable_of_whole`: whole numbers of hertz are such steps.
* `tuned_quantizeLo2`: such a frequency is tuned down by less than a step, without rounding.
* `quantized_of_yields`: planned windows are tuned from their exact frequencies.
-/

namespace Heterodyne

namespace Binary64

variable {x step : Binary64} {n k : ℕ}

/-! ## Whole numbers of units -/

/-- A number has no more units in its last place than can be represented. -/
theorem representable_units (hk : k ≤ x.significand) : Representable (k * 2 ^ x.exponent) := by
  have hlt := x.canonical_fields.lt
  refine ⟨k, x.exponent, ?_, x.canonical_fields.le_exponent, rfl⟩
  rw [Nat.abs_cast]
  exact_mod_cast (by omega : k ≤ 2 ^ 53)

/-- The units in the last place of a number are in range. -/
theorem abs_units_le (hx : x.IsFinite) (hk : k ≤ x.significand) :
    |(k * 2 ^ x.exponent : ℚ)| ≤ maxValue := by
  have hpow := two_zpow_pos x.exponent
  have hle : (k * 2 ^ x.exponent : ℚ) ≤ x.significand * 2 ^ x.exponent :=
    mul_le_mul_of_nonneg_right (by exact_mod_cast hk) hpow.le
  have hvalue := hx.abs_value_le
  rw [value, abs_withSign, abs_of_nonneg x.canonical_fields.nonneg.1] at hvalue
  rw [abs_of_nonneg (by positivity)]
  exact hle.trans hvalue

/-! ## The multiple and the rest -/

/-- The number of whole steps in a number is found exactly. -/
theorem value_floor_div (hx : x.IsFinite) (hnonneg : 0 ≤ x.value) (hstep : step.IsFinite)
    (hunits : step.value = n * 2 ^ x.exponent) (hn : 0 < n) :
    (x / step).floor.IsFinite ∧ (x / step).floor.value = (x.significand / n : ℕ) := by
  have hpow := two_zpow_pos x.exponent
  have hlt := x.canonical_fields.lt
  have hn' : (1 : ℚ) ≤ n := by exact_mod_cast hn
  have hne : step.significand ≠ 0 := by
    intro hzero
    have hpos : (0 : ℚ) < n * 2 ^ x.exponent := by positivity
    rw [← hunits, value, hzero, Nat.cast_zero, zero_mul, withSign_zero] at hpos
    exact lt_irrefl _ hpos
  -- the units cancel, and what is rounded is a quotient of natural numbers
  have hquotient : x.value / step.value = x.significand / n := by
    rw [value_of_nonneg hnonneg, hunits, mul_div_mul_right _ _ hpow.ne']
  have hmax : |x.value / step.value| ≤ maxValue := by
    rw [hquotient, abs_of_nonneg (by positivity)]
    exact (div_le_self (Nat.cast_nonneg _) hn').trans (natCast_le_maxValue hlt)
  have hrounds := rounds_div hx hstep hne hmax
  rw [hquotient] at hrounds
  obtain ⟨hfinite, hfloor⟩ := value_floor hrounds.isFinite
  refine ⟨hfinite, ?_⟩
  rw [hfloor, floor_of_isNearest_div hlt hn hrounds.isNearest, Int.cast_natCast]

/-- The multiple of the step is exact. -/
theorem value_multiple (hx : x.IsFinite) (hnonneg : 0 ≤ x.value) (hstep : step.IsFinite)
    (hunits : step.value = n * 2 ^ x.exponent) (hn : 0 < n) :
    (step * (x / step).floor).IsFinite ∧
      (step * (x / step).floor).value = (n * (x.significand / n) : ℕ) * 2 ^ x.exponent := by
  obtain ⟨hfinite, hfloor⟩ := value_floor_div hx hnonneg hstep hunits hn
  have hle : n * (x.significand / n) ≤ x.significand := Nat.mul_div_le _ _
  have hexact : step.value * (x / step).floor.value =
      (n * (x.significand / n) : ℕ) * 2 ^ x.exponent := by
    rw [hunits, hfloor]
    push_cast
    ring
  have hrounds := rounds_mul hstep hfinite (by rw [hexact]; exact abs_units_le hx hle)
  rw [hexact] at hrounds
  exact ⟨hrounds.isFinite, hrounds.value_eq (representable_units hle)⟩

/-- What the multiple leaves is exact. -/
theorem value_rest (hx : x.IsFinite) (hnonneg : 0 ≤ x.value) (hstep : step.IsFinite)
    (hunits : step.value = n * 2 ^ x.exponent) (hn : 0 < n) :
    (x - step * (x / step).floor).IsFinite ∧
      (x - step * (x / step).floor).value = (x.significand % n : ℕ) * 2 ^ x.exponent := by
  obtain ⟨hfinite, hmultiple⟩ := value_multiple hx hnonneg hstep hunits hn
  have hexact : x.value - (step * (x / step).floor).value =
      (x.significand % n : ℕ) * 2 ^ x.exponent := by
    rw [hmultiple, value_of_nonneg hnonneg, Nat.mod_eq_sub,
      Nat.cast_sub (Nat.mul_div_le _ _), sub_mul]
  have hle : x.significand % n ≤ x.significand := Nat.mod_le _ _
  have hrounds := rounds_sub hx hfinite (by rw [hexact]; exact abs_units_le hx hle)
  rw [hexact] at hrounds
  exact ⟨hrounds.isFinite, hrounds.value_eq (representable_units hle)⟩

end Binary64

/-! ## Tuned frequencies -/

/-- A frequency can be tuned without rounding if it is a finite number, not below zero, and the
step is a finite number of units in its last place. -/
structure Tunable (exact step : Frequency Binary64) : Prop where
  isFinite : exact.value.IsFinite
  nonneg : (Scalar.zero : Binary64) ≤ exact.value
  isFinite_step : step.value.IsFinite
  units : ∃ n : ℕ, step.value.value = n * 2 ^ exact.value.exponent

/-- The oscillator stands on a finite number of steps, and the shift makes up for the rest, which
lies between zero and the step. -/
structure Tuned (exact step lo2 shift : Frequency Binary64) : Prop where
  isFinite : lo2.value.IsFinite
  steps : ∃ k : ℕ, lo2.value.value = k * step.value.value
  sum : lo2.value.value + shift.value.value = exact.value.value
  nonneg : (Scalar.zero : Binary64) ≤ shift.value
  lt_step : shift.value < step.value

/-- A whole number of hertz is a step for every frequency that leaves no unit in the last place
larger than a hertz. -/
theorem tunable_of_whole {exact : Frequency Binary64} {n : ℕ} (hfinite : exact.value.IsFinite)
    (hnonneg : (Scalar.zero : Binary64) ≤ exact.value) (hexponent : exact.value.exponent ≤ 0)
    (hn : n < 2 ^ 53) : Tunable exact ⟨.ofNat n⟩ := by
  obtain ⟨hstep, hvalue⟩ := Binary64.value_ofNat hn
  obtain ⟨k, hk⟩ : ∃ k : ℕ, exact.value.exponent = -k := ⟨(-exact.value.exponent).toNat, by omega⟩
  refine ⟨hfinite, hnonneg, hstep, n * 2 ^ k, ?_⟩
  show (Binary64.ofNat n).value = _
  rw [hvalue, hk, zpow_neg, zpow_natCast]
  push_cast
  field_simp

/-- A frequency that can be is tuned without rounding. -/
theorem tuned_quantizeLo2 {exact step : Frequency Binary64} (h : Tunable exact step)
    (hstep : (Scalar.zero : Binary64) < step.value) :
    Tuned exact step (quantizeLo2 exact step).1 (quantizeLo2 exact step).2 := by
  obtain ⟨x⟩ := exact
  obtain ⟨s⟩ := step
  obtain ⟨hx, hnonneg, hs, n, hunits⟩ := h
  have hzero := Binary64.value_ofNat (by norm_num : 0 < 2 ^ 53)
  have hpow := Binary64.two_zpow_pos x.exponent
  have hnonneg : 0 ≤ x.value := by
    have hle := (Binary64.le_iff_value_le hzero.1 hx).1 hnonneg
    rwa [hzero.2, Nat.cast_zero] at hle
  -- a step above zero has units at all
  have hn : 0 < n := by
    have hlt := (Binary64.lt_iff_value_lt hzero.1 hs).1 hstep
    rw [hzero.2, hunits, Nat.cast_zero] at hlt
    exact_mod_cast (mul_pos_iff_of_pos_right hpow).1 hlt
  obtain ⟨hfinite, hmultiple⟩ := Binary64.value_multiple hx hnonneg hs hunits hn
  obtain ⟨hrestFinite, hrest⟩ := Binary64.value_rest hx hnonneg hs hunits hn
  refine ⟨hfinite, ⟨x.significand / n, ?_⟩, ?_, ?_, ?_⟩
  · show (s * (x / s).floor).value = _ * s.value
    rw [hmultiple, hunits]
    push_cast
    ring
  · show (s * (x / s).floor).value + (x - s * (x / s).floor).value = x.value
    rw [hmultiple, hrest, ← add_mul, ← Nat.cast_add, Nat.div_add_mod,
      Binary64.value_of_nonneg hnonneg]
  · show Binary64.ofNat 0 ≤ x - s * (x / s).floor
    rw [Binary64.le_iff_value_le hzero.1 hrestFinite, hzero.2, hrest]
    positivity
  · show x - s * (x / s).floor < s
    rw [Binary64.lt_iff_value_lt hrestFinite hs, hrest, hunits]
    exact mul_lt_mul_of_pos_right (by exact_mod_cast Nat.mod_lt _ hn) hpow

/-! ## Planned windows -/

section Planned

variable {α : Type} [Scalar α] {settings : Settings α} {d : Bool}

/-- A window of a planned subsystem is tuned from its exact frequency. -/
theorem quantized_of_yields_planSubsystem {number : UInt32} {r : Subsystem α}
    {ss : SubsystemPlan α} (h : (planSubsystem settings number r).Yields d ss) {sb : Subband α}
    (hsb : sb ∈ ss.subbands) : (sb.lo2, sb.shift) = quantizeLo2 sb.exactLo2 settings.lo2Step := by
  obtain ⟨total, mode, -, -, -, -, rfl⟩ := yields_planSubsystem_iff.1 h
  obtain ⟨i, -, rfl⟩ := List.mem_map.1 hsb
  rfl

/-- A window of a plan is tuned from its exact frequency. -/
theorem quantized_of_yields {requests : List (Subsystem α)} {plan : Plan α}
    (h : (Plan.ofSubsystems settings requests).Yields d plan) {ss : SubsystemPlan α}
    {sb : Subband α} (hmem : (ss, sb) ∈ plan.subbands) :
    (sb.lo2, sb.shift) = quantizeLo2 sb.exactLo2 settings.lo2Step := by
  obtain ⟨hss, hsb⟩ := Plan.mem_subbands_iff.1 hmem
  have hplans := (yields_planSubsystems_iff.1 (yields_ofSubsystems_iff.1 h)).2
  obtain ⟨request, -, hplanned⟩ := exists_plans_of_mem hplans hss
  exact quantized_of_yields_planSubsystem hplanned hsb

end Planned

end Heterodyne
