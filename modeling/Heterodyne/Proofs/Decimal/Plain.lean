import Heterodyne.Decimal.Notation
import Heterodyne.Proofs.Binary64.Whole
import Heterodyne.Proofs.Decimal.Shortest
/-!
# Plain text of whole numbers

A number is written with a sign if it lies below zero, with a point if it is not whole, and in
letters if it is infinite or none. So text of digits alone is that of a whole number, and of at
most fifty-three bits it is the number that the digits tell.

* `Decimal.value_of_positional`: digits alone tell the decimal that they write.
* `Binary64.eq_ofNat_of_plain`: a number is told by the digits it is written with.
-/

namespace Heterodyne

namespace Decimal

/-- Digits alone, without a point among them, tell the decimal that they write. -/
theorem value_of_positional {d : Decimal} {n : ℕ}
    (h : d.positional false = Nat.toDigits 10 n) : (d.digits : ℚ) * 10 ^ d.exponent = n := by
  rw [positional] at h
  split at h
  next hexponent =>
    obtain ⟨k, hk⟩ := Int.eq_ofNat_of_zero_le hexponent
    have htell := congrArg (Nat.ofDigitChars 10 · 0) h
    simp only [digitsOf, Bool.false_eq_true, if_false, List.append_nil, Nat.ofDigitChars_append,
      Nat.ofDigitChars_ten_toDigits, Nat.ofDigitChars_replicate_zero] at htell
    rw [← htell, hk, zpow_natCast]
    by_cases hzero : d.digits = 0
    · rw [hzero, Nat.cast_zero, zero_mul, mul_zero, Nat.cast_zero]
    · rw [if_neg hzero, Int.toNat_natCast]
      push_cast
      ring
  next =>
    -- a decimal with places has a point, which is not a digit
    have hpoint : '.' ∈ Nat.toDigits 10 n := by
      rw [← h]
      dsimp only
      split <;> simp
    have hdigit := Nat.isDigit_of_mem_toDigits (by decide) (by decide) hpoint
    exact absurd hdigit (by decide)

end Decimal

namespace Binary64

variable {x : Binary64} {n : ℕ}

/-- What is neither no number nor infinite is finite. -/
theorem isFinite_of_not (hnan : x.isNaN = false) (hinfinite : x.isInfinite = false) :
    x.IsFinite := by
  have hle := mt isNaN_iff.2 (by rw [hnan]; exact Bool.false_ne_true)
  rw [← Bool.not_eq_true, isInfinite, beq_iff_eq, ← UInt64.toNat_inj] at hinfinite
  have hinfinity : (0x7FF0000000000000 : UInt64).toNat = 2047 * 2 ^ 52 := rfl
  rw [isFinite_iff_magnitude]
  omega

/-- Natural numbers have no sign. -/
theorem isNegative_ofNat (hn : n < 2 ^ 53) : (ofNat n).isNegative = false := by
  obtain ⟨m, e, hpattern, hcanonical, -, -⟩ := ofNat_eq_assemble hn
  rw [hpattern, isNegative_assemble hcanonical]

/-- What is written with digits alone is finite, bears no sign and is written as its shortest
decimal. -/
theorem of_plain_digits (h : x.plain.toList = Nat.toDigits 10 n) :
    x.IsFinite ∧ x.isNegative = false ∧
      (Decimal.shortest x).positional false = Nat.toDigits 10 n := by
  have hdigit : ∀ c ∈ x.plain.toList, c.isDigit = true := by
    intro c hc
    rw [h] at hc
    exact Nat.isDigit_of_mem_toDigits (by decide) (by decide) hc
  have hnan : x.isNaN = false := by
    rw [← Bool.not_eq_true]
    intro hnan
    rw [plain, textBy, if_pos hnan] at hdigit
    exact absurd (hdigit 'N' (by decide)) (by decide)
  rw [plain, textBy, hnan, if_neg Bool.false_ne_true] at h hdigit
  have hinfinite : x.isInfinite = false := by
    rw [← Bool.not_eq_true]
    intro hinfinite
    dsimp only at hdigit
    rw [if_pos hinfinite, String.toList_ofList] at hdigit
    exact absurd (hdigit 'i' (by simp)) (by decide)
  dsimp only at h hdigit
  rw [hinfinite, if_neg Bool.false_ne_true, String.toList_ofList] at h hdigit
  have hsign : x.isNegative = false := by
    rw [← Bool.not_eq_true]
    intro hsign
    rw [if_pos hsign] at hdigit
    exact absurd (hdigit '-' (by simp)) (by decide)
  rw [hsign, if_neg Bool.false_ne_true, List.nil_append] at h
  exact ⟨isFinite_of_not hnan hinfinite, hsign, h⟩

/-- A number that is written with the digits of a natural number is that number. -/
theorem eq_ofNat_of_plain (hn : n < 2 ^ 53) (h : x.plain.toList = Nat.toDigits 10 n) :
    x = ofNat n := by
  obtain ⟨hx, hsign, hdigits⟩ := of_plain_digits h
  obtain ⟨-, hvalue⟩ := value_ofNat hn
  have hsize : (n : ℚ) = x.significand * 2 ^ x.exponent := by
    have hdecimal := Decimal.value_of_positional hdigits
    by_cases hzero : x.significand = 0
    · rw [Decimal.shortest, if_pos (isZero_iff.2 hzero), Nat.cast_zero, zero_mul] at hdecimal
      rw [← hdecimal, hzero, Nat.cast_zero, zero_mul]
    · have hreaches := Decimal.Interval.contains_iff.1 (Decimal.contains_shortest hx hzero)
      rw [hdecimal] at hreaches
      exact Decimal.eq_of_reaches (representable_natCast hn.le) hreaches
  refine eq_of_size (hsign.trans (isNegative_ofNat hn).symm) ?_
  rw [← hsize, ← hvalue]
  exact value_of_nonneg (hvalue ▸ Nat.cast_nonneg n)

end Binary64

end Heterodyne
