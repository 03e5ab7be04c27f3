import Heterodyne.Grid.Basic
import Heterodyne.Proofs.Grid.Distinct
import Mathlib.Algebra.Order.Floor.Ring
import Mathlib.Algebra.Order.Round
import Mathlib.Data.Rat.Floor
import Mathlib.Data.Rat.Sqrt
import Mathlib.Tactic.Linarith
import Mathlib.Tactic.LinearCombination
import Mathlib.Tactic.Positivity
/-!
# Exact numbers

The rules of the library are stated over scalars. Here the scalars are the elements of an ordered
field with whole parts, such as the rational numbers or the reals, and nothing is rounded. What a
field does not have, its roots, the rotations at its angles and a written form of its numbers, is
given beside it.

* `val_add`, `lt_iff`, …: the operations of scalars are those of the field.
* `abs_sub_roundAway_le`, `roundAway_mono`: rounding to the nearest whole number.
* `intoFrame_fromFrame`: turning an offset back and forth leaves it as it is.
-/

namespace Heterodyne

/-- A rotation, by its sine and cosine. -/
structure Rotation (K : Type) [Field K] where
  sine : K
  cosine : K
  unit : sine ^ 2 + cosine ^ 2 = 1

/-- What is given beside an ordered field for the sake of scalars. -/
structure Apparatus (K : Type) [Field K] where
  sqrt : K → K
  hypot : K → K → K
  /-- The rotation by an angle in degrees. -/
  rotation : K → Rotation K
  plain : K → String

/-- The rational numbers, with the roots of squares and one rotation besides that of no angle. -/
def rationals : Apparatus ℚ where
  sqrt := Rat.sqrt
  hypot x y := Rat.sqrt (x ^ 2 + y ^ 2)
  rotation angle := if angle = 0 then ⟨0, 1, by norm_num⟩ else ⟨3 / 5, 4 / 5, by norm_num⟩
  plain x := toString x

/-- An exact number. -/
@[ext] structure Exact {K : Type} [Field K] (F : Apparatus K) where
  val : K
deriving DecidableEq

/-! ## Rounding to whole numbers -/

section Rounding

variable {K : Type} [Field K] [LinearOrder K] [FloorRing K]

/-- The nearest whole number; a half goes away from zero. -/
def roundAway (x : K) : ℤ := if 0 ≤ x then ⌊x + 1 / 2⌋ else ⌈x - 1 / 2⌉

variable [IsStrictOrderedRing K] {x y : K}

/-- The nearest whole number is no further away than a half. -/
theorem abs_sub_roundAway_le (x : K) : |x - roundAway x| ≤ 1 / 2 := by
  unfold roundAway
  rw [abs_le]
  split
  · have hle := Int.floor_le (x + 1 / 2)
    have hlt := Int.lt_floor_add_one (x + 1 / 2)
    constructor <;> linarith
  · have hle := Int.le_ceil (x - 1 / 2)
    have hlt := Int.ceil_lt_add_one (x - 1 / 2)
    constructor <;> linarith

/-- Any other whole number than the nearest one is at least a half away. -/
theorem half_le_abs_sub {k : ℤ} (hk : roundAway x ≠ k) : 1 / 2 ≤ |x - k| := by
  have hone : (1 : K) ≤ |(roundAway x : K) - k| := by
    exact_mod_cast Int.one_le_abs (sub_ne_zero.2 hk)
  have htriangle := abs_sub_le (roundAway x : K) x k
  rw [abs_sub_comm (roundAway x : K) x] at htriangle
  have hround := abs_sub_roundAway_le x
  linarith

/-- No whole number is nearer than the rounded one. -/
theorem abs_sub_roundAway_le_abs_sub (x : K) (k : ℤ) : |x - roundAway x| ≤ |x - k| := by
  by_cases hk : roundAway x = k
  · rw [hk]
  · exact (abs_sub_roundAway_le x).trans (half_le_abs_sub hk)

/-- A number less than a half away from a whole number is rounded to it. -/
theorem roundAway_eq_of_abs_sub_lt {k : ℤ} (h : |x - k| < 1 / 2) : roundAway x = k := by
  by_contra hk
  exact (half_le_abs_sub hk).not_gt h

/-- Whole numbers are rounded to themselves. -/
@[simp] theorem roundAway_intCast (k : ℤ) : roundAway (k : K) = k :=
  roundAway_eq_of_abs_sub_lt (by rw [sub_self, abs_zero]; norm_num)

/-- Numbers that are not below zero are not rounded below zero. -/
theorem roundAway_nonneg (h : 0 ≤ x) : 0 ≤ roundAway x := by
  rw [roundAway, if_pos h, Int.floor_nonneg]
  linarith

/-- Numbers below zero are not rounded above zero. -/
theorem roundAway_nonpos (h : x < 0) : roundAway x ≤ 0 := by
  rw [roundAway, if_neg h.not_ge, Int.ceil_le, Int.cast_zero]
  linarith

/-- Greater numbers are not rounded to smaller ones. -/
theorem roundAway_mono (h : x ≤ y) : roundAway x ≤ roundAway y := by
  rcases lt_or_ge x 0 with hx | hx
  · rcases lt_or_ge y 0 with hy | hy
    · rw [roundAway, roundAway, if_neg hx.not_ge, if_neg hy.not_ge]
      exact Int.ceil_mono (by linarith)
    · exact (roundAway_nonpos hx).trans (roundAway_nonneg hy)
  · rw [roundAway, roundAway, if_pos hx, if_pos (hx.trans h)]
    exact Int.floor_mono (by linarith)

end Rounding

namespace Exact

variable {K : Type} [Field K] {F : Apparatus K}

/-- Offsets with the same coordinates are the same. -/
theorem offset_ext {o p : Offset (Exact F)} (hx : o.x.value.val = p.x.value.val)
    (hy : o.y.value.val = p.y.value.val) : o = p := by
  rcases o with ⟨⟨⟨x⟩⟩, ⟨⟨y⟩⟩⟩
  rcases p with ⟨⟨⟨x'⟩⟩, ⟨⟨y'⟩⟩⟩
  dsimp only at hx hy
  rw [hx, hy]

variable [LinearOrder K] [FloorRing K]

instance : Scalar (Exact F) where
  add x y := ⟨x.val + y.val⟩
  sub x y := ⟨x.val - y.val⟩
  mul x y := ⟨x.val * y.val⟩
  div x y := ⟨x.val / y.val⟩
  neg x := ⟨-x.val⟩
  lt x y := x.val < y.val
  le x y := x.val ≤ y.val
  decidableLT x y := inferInstanceAs (Decidable (x.val < y.val))
  decidableLE x y := inferInstanceAs (Decidable (x.val ≤ y.val))
  whole n := ⟨n⟩
  decimal m e := ⟨m / 10 ^ e⟩
  floor x := ⟨⌊x.val⌋⟩
  ceil x := ⟨⌈x.val⌉⟩
  round x := ⟨roundAway x.val⟩
  abs x := ⟨|x.val|⟩
  sqrt x := ⟨F.sqrt x.val⟩
  hypot x y := ⟨F.hypot x.val y.val⟩
  sinCosDegrees x := (⟨(F.rotation x.val).sine⟩, ⟨(F.rotation x.val).cosine⟩)
  toNat x := ⌊x.val⌋.toNat
  before x y := x.val ≤ y.val
  plain x := F.plain x.val

/-! ## The operations of the field -/

section Operations

variable (x y : Exact F) (n m e : ℕ)

@[simp] theorem val_add : (x + y).val = x.val + y.val := rfl
@[simp] theorem val_sub : (x - y).val = x.val - y.val := rfl
@[simp] theorem val_mul : (x * y).val = x.val * y.val := rfl
@[simp] theorem val_div : (x / y).val = x.val / y.val := rfl
@[simp] theorem val_neg : (-x).val = -x.val := rfl
@[simp] theorem val_whole : (Scalar.whole n : Exact F).val = n := rfl
@[simp] theorem val_decimal : (Scalar.decimal m e : Exact F).val = m / 10 ^ e := rfl
@[simp] theorem val_floor : (Scalar.floor x).val = ⌊x.val⌋ := rfl
@[simp] theorem val_ceil : (Scalar.ceil x).val = ⌈x.val⌉ := rfl
@[simp] theorem val_round : (Scalar.round x).val = roundAway x.val := rfl
@[simp] theorem val_abs : (Scalar.abs x).val = |x.val| := rfl
@[simp] theorem toNat_eq : Scalar.toNat x = ⌊x.val⌋.toNat := rfl

@[simp] theorem val_zero [IsStrictOrderedRing K] : (Scalar.zero : Exact F).val = 0 :=
  Nat.cast_zero

variable {x y}

theorem lt_iff : x < y ↔ x.val < y.val := Iff.rfl
theorem le_iff : x ≤ y ↔ x.val ≤ y.val := Iff.rfl

theorem le_zero_iff [IsStrictOrderedRing K] : x ≤ Scalar.zero ↔ x.val ≤ 0 := by
  rw [le_iff, val_zero]

theorem zero_lt_iff [IsStrictOrderedRing K] : Scalar.zero < x ↔ 0 < x.val := by
  rw [lt_iff, val_zero]

@[simp] theorem before_iff : Scalar.before x y = true ↔ x.val ≤ y.val := decide_eq_true_iff

end Operations

/-- Exact numbers are sorted by the order of the field. -/
instance : SortsUniquely (Exact F) where
  total x y := by
    rw [Bool.or_eq_true, before_iff, before_iff]
    exact le_total _ _
  trans x y z hxy hyz := by
    rw [before_iff] at *
    exact hxy.trans hyz
  antisymm x y hxy hyx := by
    rw [before_iff] at *
    exact Exact.ext (le_antisymm hxy hyx)

/-! ## Close positions -/

/-- The closeness as a number of the field. -/
theorem val_closeness : (Axis.closeness : Exact F).val = 1 / 10 ^ 9 := by
  rw [Axis.closeness, val_decimal, Nat.cast_one]

/-- Close positions are less than the closeness apart. -/
theorem close_iff {v w : Exact F} :
    Scalar.abs (v - w) < (Axis.closeness : Exact F) ↔ |v.val - w.val| < 1 / 10 ^ 9 := by
  rw [lt_iff, val_abs, val_sub, val_closeness]

/-- Every exact number is close to itself. -/
theorem close_self [IsStrictOrderedRing K] (v : Exact F) : Axis.CloseSelf v := by
  rw [Axis.CloseSelf, close_iff, sub_self, abs_zero]
  positivity

/-! ## Frames -/

/-- An offset that is turned out of a frame has in the frame the coordinates it had. -/
theorem intoFrame_fromFrame (o : Offset (Exact F)) (angle : Degrees (Exact F)) :
    (o.fromFrame angle).intoFrame angle = o := by
  have hunit := (F.rotation angle.value.val).unit
  apply offset_ext <;>
    simp only [Offset.intoFrame, Offset.fromFrame, Scalar.sinCosDegrees, Quantity.value_add,
      Quantity.value_sub, Quantity.value_mul, val_add, val_sub, val_mul]
  · linear_combination o.x.value.val * hunit
  · linear_combination o.y.value.val * hunit

/-- An offset that is turned into a frame and back is where it was. -/
theorem fromFrame_intoFrame (o : Offset (Exact F)) (angle : Degrees (Exact F)) :
    (o.intoFrame angle).fromFrame angle = o := by
  have hunit := (F.rotation angle.value.val).unit
  apply offset_ext <;>
    simp only [Offset.intoFrame, Offset.fromFrame, Scalar.sinCosDegrees, Quantity.value_add,
      Quantity.value_sub, Quantity.value_mul, val_add, val_sub, val_mul]
  · linear_combination o.x.value.val * hunit
  · linear_combination o.y.value.val * hunit

/-- An offset with no coordinates in a frame is the origin. -/
theorem eq_zero_of_intoFrame [IsStrictOrderedRing K] {o : Offset (Exact F)}
    {angle : Degrees (Exact F)} (hx : (o.intoFrame angle).x.value.val = 0)
    (hy : (o.intoFrame angle).y.value.val = 0) : o = ⟨.zero, .zero⟩ := by
  rw [← fromFrame_intoFrame o angle]
  apply offset_ext <;>
    simp only [Offset.fromFrame, Quantity.value_add, Quantity.value_sub, Quantity.value_mul,
      val_add, val_sub, val_mul, hx, hy, zero_mul, sub_zero, add_zero] <;>
    exact val_zero.symm

end Exact

end Heterodyne
