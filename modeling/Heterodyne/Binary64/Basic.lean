/-!
# Binary64 numbers

Double-precision numbers as bit patterns: what the fields of a pattern mean, the four
arithmetic operations, and two orders.

* `lt_iff_rank_lt`, `le_iff_rank_le`: numbers compare by their `rank`, which gives both zeros
  one place; a pattern that is not a number compares with nothing.
* `place_injective`: the total order `before` tells any two patterns apart, so sorting by it
  leaves one result for one collection of patterns.
-/

namespace Heterodyne

/-- A double-precision number: a sign bit, eleven exponent bits and fifty-two fraction bits. -/
structure Binary64 where
  bits : UInt64
deriving DecidableEq

namespace Binary64

/-! ## The fields of a pattern -/

/-- The pattern of the sign bit alone. -/
def signBit : UInt64 := 0x8000000000000000

/-- The sign bit has the weight `2 ^ 63`. -/
theorem toNat_signBit : signBit.toNat = 1 <<< 63 := by decide

/-- Whether the sign bit is set. -/
def isNegative (x : Binary64) : Bool := signBit ≤ x.bits

/-- The pattern without its sign bit. -/
def magnitude (x : Binary64) : UInt64 := if x.isNegative then x.bits - signBit else x.bits

/-- Patterns above infinity stand for no number. -/
def isNaN (x : Binary64) : Bool := 0x7FF0000000000000 < x.magnitude

/-- Whether the pattern is one of the two infinities. -/
def isInfinite (x : Binary64) : Bool := x.magnitude == 0x7FF0000000000000

/-- Whether the pattern is one of the two zeros. -/
def isZero (x : Binary64) : Bool := x.magnitude == 0

/-- The eleven exponent bits. -/
def exponentField (x : Binary64) : Nat := x.magnitude.toNat >>> 52

/-- The significand: the fraction, with a leading one unless the exponent field is zero. -/
def significand (x : Binary64) : Nat :=
  x.magnitude.toNat % (1 <<< 52) + if x.exponentField = 0 then 0 else 1 <<< 52

/-- The power of two that the significand counts; infinity continues the scale of the numbers. -/
def exponent (x : Binary64) : Int := (max x.exponentField 1 : Nat) - 1075

/-- The pattern with the sign bit cleared. -/
def abs (x : Binary64) : Binary64 := ⟨x.magnitude⟩

/-- The pattern with the sign bit flipped, also when it stands for no number. -/
def neg (x : Binary64) : Binary64 :=
  ⟨if x.isNegative then x.bits - signBit else x.bits + signBit⟩

/-- A magnitude with the sign bit set or left clear. -/
def signed (negative : Bool) (x : Binary64) : Binary64 := if negative then neg x.abs else x.abs

/-- The sign bit is set exactly in the upper half of the patterns. -/
theorem isNegative_iff (x : Binary64) : x.isNegative = true ↔ 1 <<< 63 ≤ x.bits.toNat := by
  simp [isNegative, UInt64.le_iff_toNat_le, toNat_signBit]

/-- The bits are the magnitude, with `2 ^ 63` added under a set sign. -/
theorem toNat_bits (x : Binary64) :
    x.bits.toNat = x.magnitude.toNat + if x.isNegative then 1 <<< 63 else 0 := by
  by_cases hs : x.isNegative = true
  · have hle : signBit ≤ x.bits := by simpa [isNegative] using hs
    have hge := (isNegative_iff x).1 hs
    simp only [magnitude, hs, if_true, UInt64.toNat_sub_of_le _ _ hle, toNat_signBit]
    omega
  · simp [magnitude, hs]

/-- A magnitude has sixty-three bits. -/
theorem magnitude_lt (x : Binary64) : x.magnitude.toNat < 1 <<< 63 := by
  have hb := x.toNat_bits
  have hlt : x.bits.toNat < 2 ^ 64 := x.bits.toNat_lt
  have hneg := isNegative_iff x
  by_cases hs : x.isNegative = true
  · simp only [hs, if_true] at hb
    omega
  · simp only [hs] at hb hneg
    simp only [Bool.false_eq_true, if_false, false_iff] at hb hneg
    omega

/-! ## Arithmetic -/

/-- The number as the machine holds it. -/
def toFloat (x : Binary64) : Float := Float.ofBits x.bits

/-- The pattern of a machine number. -/
def ofFloat (x : Float) : Binary64 := ⟨x.toBits⟩

/-- The pattern that an operation without a numeric result gives. -/
def indefinite : Binary64 := ⟨0xFFF8000000000000⟩

/-- The result of an operation: an operand that is not a number is passed on, the first before
the second, and an operation on numbers that has no numeric result gives `indefinite`. -/
def settle (x y : Binary64) (result : Float) : Binary64 :=
  if x.isNaN then x
  else if y.isNaN then y
  else if (ofFloat result).isNaN then indefinite
  else ofFloat result

instance : Add Binary64 := ⟨fun x y => settle x y (x.toFloat + y.toFloat)⟩
instance : Sub Binary64 := ⟨fun x y => settle x y (x.toFloat - y.toFloat)⟩
instance : Mul Binary64 := ⟨fun x y => settle x y (x.toFloat * y.toFloat)⟩
instance : Div Binary64 := ⟨fun x y => settle x y (x.toFloat / y.toFloat)⟩
instance : Neg Binary64 := ⟨neg⟩

/-- The square root; below zero there is none. -/
def sqrt (x : Binary64) : Binary64 := settle x x x.toFloat.sqrt

/-! ## The order of numbers -/

/-- The place of a number on the number line, where both zeros share one place. -/
def rank (x : Binary64) : UInt64 :=
  if x.isNegative then signBit - x.magnitude else signBit + x.magnitude

instance : LT Binary64 := ⟨fun x y => (!x.isNaN && !y.isNaN && decide (x.rank < y.rank)) = true⟩
instance : LE Binary64 := ⟨fun x y => (!x.isNaN && !y.isNaN && decide (x.rank ≤ y.rank)) = true⟩

instance : DecidableLT Binary64 := fun x y =>
  inferInstanceAs (Decidable ((!x.isNaN && !y.isNaN && decide (x.rank < y.rank)) = true))

instance : DecidableLE Binary64 := fun x y =>
  inferInstanceAs (Decidable ((!x.isNaN && !y.isNaN && decide (x.rank ≤ y.rank)) = true))

/-- One number lies below another exactly if its rank does. -/
theorem lt_iff_rank_lt {x y : Binary64} :
    x < y ↔ x.isNaN = false ∧ y.isNaN = false ∧ x.rank < y.rank := by
  change (!x.isNaN && !y.isNaN && decide (x.rank < y.rank)) = true ↔ _
  simp [and_assoc]

/-- One number does not exceed another exactly if its rank does not. -/
theorem le_iff_rank_le {x y : Binary64} :
    x ≤ y ↔ x.isNaN = false ∧ y.isNaN = false ∧ x.rank ≤ y.rank := by
  change (!x.isNaN && !y.isNaN && decide (x.rank ≤ y.rank)) = true ↔ _
  simp [and_assoc]

/-! ## The total order of patterns -/

/-- The place of a pattern in the total order: below the positive zero comes the negative one,
and patterns that stand for no number lie beyond the infinity of their sign. -/
def place (x : Binary64) : UInt64 :=
  if x.isNegative then signBit - 1 - x.magnitude else signBit + x.magnitude

/-- The total order, which ranks every two patterns. -/
def before (x y : Binary64) : Bool := x.place ≤ y.place

/-- The place of a pattern, counted down from the sign bit or up from it. -/
theorem toNat_place (x : Binary64) :
    x.place.toNat =
      if x.isNegative then 1 <<< 63 - 1 - x.magnitude.toNat else 1 <<< 63 + x.magnitude.toNat := by
  have hm := x.magnitude_lt
  have hpred : (signBit - 1).toNat = 1 <<< 63 - 1 := by decide
  unfold place
  split
  · have hle : x.magnitude ≤ signBit - 1 := UInt64.le_iff_toNat_le.2 (by omega)
    rw [UInt64.toNat_sub_of_le _ _ hle, hpred]
  · rw [UInt64.toNat_add, toNat_signBit]
    omega

/-- Patterns at one place are one pattern. -/
theorem place_injective {x y : Binary64} (h : x.place = y.place) : x = y := by
  have hx := x.magnitude_lt
  have hy := y.magnitude_lt
  have hp : x.place.toNat = y.place.toNat := congrArg UInt64.toNat h
  rw [toNat_place, toNat_place] at hp
  have hb : x.bits.toNat = y.bits.toNat := by
    rw [toNat_bits x, toNat_bits y]
    split at hp <;> split at hp <;> simp_all <;> omega
  cases x
  cases y
  exact congrArg mk (UInt64.toNat_inj.1 hb)

/-- Patterns that come before each other are one pattern. -/
theorem before_antisymm {x y : Binary64} (hxy : before x y = true) (hyx : before y x = true) :
    x = y := by
  simp only [before, decide_eq_true_eq] at hxy hyx
  exact place_injective (UInt64.le_antisymm hxy hyx)

/-- Of two patterns one comes before the other. -/
theorem before_total (x y : Binary64) : (before x y || before y x) = true := by
  simp only [before, Bool.or_eq_true, decide_eq_true_eq]
  exact UInt64.le_total _ _

/-- What comes before a pattern comes before all that follow it. -/
theorem before_trans (x y z : Binary64) (hxy : before x y = true) (hyz : before y z = true) :
    before x z = true := by
  simp only [before, decide_eq_true_eq] at *
  exact UInt64.le_trans hxy hyz

end Binary64

end Heterodyne
