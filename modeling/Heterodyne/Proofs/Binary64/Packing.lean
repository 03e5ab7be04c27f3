import Heterodyne.Proofs.Binary64.Value
import Mathlib.Tactic.NormNum
/-!
# Packing and unpacking

An operation takes its operands apart into sign, significand and exponent, and puts its result
together from these. Both agree with the fields of a pattern, so an operation on patterns can be
followed on their parts.

* `unpack_toModel_toFloat`: an operand is taken apart into its own sign, significand and exponent.
* `settle_pack_parts`: a result is the pattern that its parts are put together to.
-/

namespace Heterodyne

namespace Binary64

open Float.Model

variable {x y : Binary64} {m : ℕ} {e : ℤ}

/-- A sign, as the machine writes it. -/
def signOf (negative : Bool) : UnpackedFloat.Sign := if negative then .negative else .positive

/-- A number taken apart; a significand of zero makes one of the two zeros. -/
def parts (negative : Bool) (m : ℕ) (e : ℤ) : UnpackedFloat :=
  if h : m = 0 then .zero (signOf negative)
  else .finite (signOf negative) m e (Nat.pos_of_ne_zero h)

/-- Parts that are not zero make a number. -/
theorem parts_of_ne_zero (negative : Bool) (h : m ≠ 0) :
    parts negative m e = .finite (signOf negative) m e (Nat.pos_of_ne_zero h) := dif_neg h

/-- A number with these parts. -/
theorem finite_eq_parts (negative : Bool) {k : ℕ} {f : ℤ} {hk : 0 < k} (hm : k = m) (he : f = e)
    (h : m ≠ 0) : .finite (signOf negative) k f hk = parts negative m e := by
  subst hm he
  exact (parts_of_ne_zero negative h).symm

/-- A significand of zero makes a zero. -/
theorem parts_zero (negative : Bool) : parts negative 0 e = .zero (signOf negative) := rfl

/-! ## Taking apart -/

/-- The magnitude is what the sign bit leaves. -/
theorem toNat_magnitude_eq_mod (x : Binary64) : x.magnitude.toNat = x.bits.toNat % 2 ^ 63 := by
  have hbits := x.toNat_bits
  have hlt := x.magnitude_lt
  rw [hbits]
  split <;> omega

/-- The lower bits are the fraction. -/
theorem toNat_unpackMantissa (x : Binary64) :
    (@UnpackedFloat.unpackMantissa .binary64 x.bits.toBitVec).toNat =
      x.magnitude.toNat % 2 ^ 52 := by
  simp only [UnpackedFloat.unpackMantissa, BitVec.toNat_cast, BitVec.extractLsb_toNat,
    UInt64.toNat_toBitVec, toNat_magnitude_eq_mod]
  norm_num

/-- The bits above the fraction are the exponent. -/
theorem toNat_unpackExponent (x : Binary64) :
    (@UnpackedFloat.unpackExponent .binary64 x.bits.toBitVec).toNat = x.exponentField := by
  simp only [UnpackedFloat.unpackExponent, BitVec.toNat_cast, BitVec.extractLsb_toNat,
    UInt64.toNat_toBitVec, exponentField_eq, toNat_magnitude_eq_mod, Nat.shiftRight_eq_div_pow]
  norm_num
  omega

/-- The uppermost bit is the sign. -/
theorem ofBitVec_unpackSign (x : Binary64) :
    UnpackedFloat.Sign.ofBitVec (@UnpackedFloat.unpackSign .binary64 x.bits.toBitVec) =
      signOf x.isNegative := by
  have hsign : (@UnpackedFloat.unpackSign .binary64 x.bits.toBitVec).toNat =
      if x.isNegative then 1 else 0 := by
    have hbits := x.toNat_bits
    have hlt := x.magnitude_lt
    show x.bits.toNat >>> 63 % 2 ^ 1 = _
    rw [Nat.shiftRight_eq_div_pow, hbits]
    split <;> omega
  unfold UnpackedFloat.Sign.ofBitVec signOf
  cases hx : x.isNegative with
  | false =>
    rw [hx] at hsign
    exact if_pos (BitVec.eq_of_toNat_eq hsign)
  | true =>
    rw [hx] at hsign
    refine if_neg fun hzero => ?_
    rw [hzero] at hsign
    exact absurd hsign (by decide)

/-- A finite pattern is taken apart into its sign, its significand and its exponent. -/
theorem unpack_eq_parts (hx : x.IsFinite) :
    UnpackedFloat.unpack .binary64 x.bits.toBitVec =
      parts x.isNegative x.significand x.exponent := by
  have hfinite : x.exponentField < 2047 := hx
  have hfraction := toNat_unpackMantissa x
  have hexponent := toNat_unpackExponent x
  have hbias : Format.binary64.exponentBias = 1023 := rfl
  have hfull : (-1#11).toNat = 2047 := by decide
  unfold UnpackedFloat.unpack
  dsimp only
  rw [ofBitVec_unpackSign, if_neg (fun h => by rw [h, hfull] at hexponent; omega)]
  by_cases hzero : @UnpackedFloat.unpackExponent .binary64 x.bits.toBitVec = 0#11
  · -- without a leading one, the fraction is the significand
    rw [if_pos hzero]
    rw [hzero] at hexponent
    have hfield : x.exponentField = 0 := hexponent.symm
    have hsignificand : x.significand =
        (@UnpackedFloat.unpackMantissa .binary64 x.bits.toBitVec).toNat := by
      rw [significand_eq, if_pos hfield, hfraction, add_zero]
    have hleast : x.exponent = -1074 := by
      unfold exponent
      omega
    by_cases hnone : @UnpackedFloat.unpackMantissa .binary64 x.bits.toBitVec = 0#52
    · rw [dif_pos hnone]
      rw [hnone] at hsignificand
      rw [hsignificand]
      rfl
    · have hne : x.significand ≠ 0 := fun h =>
        hnone (BitVec.eq_of_toNat_eq (hsignificand.symm.trans h))
      rw [dif_neg hnone]
      refine finite_eq_parts _ hsignificand.symm ?_ hne
      rw [hzero, hleast, hbias]
      rfl
  · -- otherwise a leading one stands before the fraction
    rw [if_neg hzero]
    have hfield : x.exponentField ≠ 0 := fun h =>
      hzero (BitVec.eq_of_toNat_eq (hexponent.trans h))
    have hsignificand : x.significand =
        (1#1 ++ @UnpackedFloat.unpackMantissa .binary64 x.bits.toBitVec).toNat := by
      rw [significand_eq, if_neg hfield, BitVec.toNat_append, hfraction]
      rw [← Nat.shiftLeft_add_eq_or_of_lt (Nat.mod_lt _ (by norm_num)), Nat.add_comm]
      rfl
    have hne : x.significand ≠ 0 := by
      rw [significand_eq, if_neg hfield]
      omega
    refine finite_eq_parts _ hsignificand.symm ?_ hne
    rw [hexponent, hbias]
    unfold exponent
    push_cast
    omega

/-! ## Putting together -/

/-- The machine writes sign, exponent and fraction next to each other. -/
theorem toNat_packComponents (negative : Bool) (exponent : BitVec 11) (fraction : BitVec 52) :
    (UnpackedFloat.packComponents .binary64 (signOf negative) exponent fraction).toNat =
      exponent.toNat * 2 ^ 52 + fraction.toNat + if negative then 1 <<< 63 else 0 := by
  have hexponent := exponent.isLt
  have hfraction := fraction.isLt
  have hsign : (signOf negative).toBitVec.toNat = if negative then 1 else 0 := by
    cases negative <;> rfl
  unfold UnpackedFloat.packComponents
  rw [BitVec.toNat_append, BitVec.toNat_append, hsign,
    ← Nat.shiftLeft_add_eq_or_of_lt hexponent, ← Nat.shiftLeft_add_eq_or_of_lt hfraction]
  rw [Nat.shiftLeft_eq, Nat.shiftLeft_eq]
  split <;> omega

/-- Canonical parts are written as they are put together. -/
theorem pack_parts (s : Bool) (h : Canonical m e) :
    (⟨(Float.Model.pack (parts s m e)).toBits⟩ : Binary64) = signed s (assemble m e) := by
  have hlt := h.lt
  have hle := h.le_exponent
  have hbias : Format.binary64.exponentBias = 1023 := rfl
  have hwhole := toNat_bits_signed_assemble s h
  suffices hbits : ((Float.Model.pack (parts s m e)).toBits.toNat : ℤ) =
      min (weight m e) (2047 * 2 ^ 52) + if s then 1 <<< 63 else 0 by
    rw [← hwhole] at hbits
    exact congrArg mk (UInt64.toNat_inj.1 (by exact_mod_cast hbits))
  unfold Float.Model.pack weight
  rw [UInt64.toNat_ofBitVec]
  by_cases hzero : m = 0
  · subst hzero
    have hleast : e = -1074 := h.normal.resolve_left (by norm_num)
    rw [parts_zero]
    unfold UnpackedFloat.pack UnpackedFloat.packedZero
    rw [toNat_packComponents, hleast]
    cases s <;> rfl
  · rw [parts_of_ne_zero _ hzero]
    unfold UnpackedFloat.pack UnpackedFloat.packedInfinity
    simp only [hbias]
    split
    · -- beyond the last exponent stands infinity
      rename_i hlarge
      have hfull : (-1#11).toNat = 2047 := by decide
      have hnormal : 2 ^ 52 ≤ m := h.normal.resolve_right (by omega)
      rw [toNat_packComponents, hfull]
      push_cast
      omega
    · rename_i hsmall
      have hlog : m.log2 < 53 := (Nat.log2_lt hzero).2 hlt
      rw [show Format.binary64.mantissaBits = 53 from rfl]
      split
      · rename_i hbits
        have hnormal : 2 ^ 52 ≤ m := (Nat.le_log2 hzero).1 (by omega)
        rw [toNat_packComponents, BitVec.toNat_ofNat, BitVec.toNat_ofNat]
        push_cast
        omega
      · rename_i hbits
        have hsubnormal : m < 2 ^ 52 := (Nat.log2_lt hzero).1 (by omega)
        have hleast : e = -1074 := h.normal.resolve_left (by omega)
        rw [toNat_packComponents, BitVec.toNat_ofNat, BitVec.toNat_ofNat, hleast]
        push_cast
        omega

/-! ## Operands and results -/

/-- An operand is taken apart into its own sign, significand and exponent. -/
theorem unpack_toModel_toFloat (hx : x.IsFinite) :
    x.toFloat.toModel.unpack = parts x.isNegative x.significand x.exponent := by
  have hbits : (⟨(Float.Model.pack (parts x.isNegative x.significand x.exponent)).toBits⟩ :
      Binary64) = x := by
    rw [pack_parts _ x.canonical_fields, signed_assemble_fields hx]
  rw [← unpack_eq_parts hx] at hbits ⊢
  exact congrArg (fun y : Binary64 => UnpackedFloat.unpack .binary64 y.bits.toBitVec) hbits

/-- A product is taken on the operands taken apart. -/
theorem mul_eq_settle (x y : Binary64) : x * y = settle x y (.ofModel (Float.Model.pack
    (UnpackedFloat.mul .binary64 x.toFloat.toModel.unpack y.toFloat.toModel.unpack))) := rfl

/-- A quotient is taken on the operands taken apart. -/
theorem div_eq_settle (x y : Binary64) : x / y = settle x y (.ofModel (Float.Model.pack
    (UnpackedFloat.div .binary64 x.toFloat.toModel.unpack y.toFloat.toModel.unpack))) := rfl

/-- A sum is taken on the operands taken apart. -/
theorem add_eq_settle (x y : Binary64) : x + y = settle x y (.ofModel (Float.Model.pack
    (UnpackedFloat.add .binary64 x.toFloat.toModel.unpack y.toFloat.toModel.unpack))) := rfl

/-- A difference is taken on the operands taken apart. -/
theorem sub_eq_settle (x y : Binary64) : x - y = settle x y (.ofModel (Float.Model.pack
    (UnpackedFloat.sub .binary64 x.toFloat.toModel.unpack y.toFloat.toModel.unpack))) := rfl

/-- A result of numbers is the pattern that its parts are put together to. -/
theorem settle_pack_parts (hx : x.IsFinite) (hy : y.IsFinite) (s : Bool) (h : Canonical m e) :
    settle x y (.ofModel (Float.Model.pack (parts s m e))) = signed s (assemble m e) := by
  have hresult : ofFloat (.ofModel (Float.Model.pack (parts s m e))) = signed s (assemble m e) :=
    pack_parts s h
  unfold settle
  rw [hresult]
  simp only [hx.isNaN, hy.isNaN, isNaN_signed_assemble s h, Bool.false_eq_true, if_false]

end Binary64

end Heterodyne
