import Heterodyne.Count
import Heterodyne.Scalar
import Mathlib.Algebra.Group.Nat.Defs
/-!
# When counting fails

Checked arithmetic on counts fails exactly if the exact result is no count, or if a divisor is
zero. A computation of several steps fails at its first step that does.

* `fails_bind`: where a computation of two steps fails.
* `fails_add`, `fails_mul`, `fails_div`, `fails_ceilDiv`: when one step fails.
* `toNat_ceilDiv`: the quotient that is rounded up.
-/

namespace Heterodyne

namespace Count

variable {β γ : Type} {a b c : UInt32}

/-- The computation has no result. -/
def Fails (count : Except Fault β) : Prop := ∃ fault, count = .error fault

/-- A result does not fail. -/
@[simp] theorem not_fails_ok {x : β} : ¬ Fails (.ok x) := by
  rintro ⟨fault, h⟩
  cases h

/-- A fault fails. -/
@[simp] theorem fails_error {fault : Fault} : Fails (.error fault : Except Fault β) := ⟨fault, rfl⟩

/-- What does not fail has a result. -/
theorem not_fails_iff {count : Except Fault β} : ¬ Fails count ↔ ∃ x, count = .ok x := by
  cases count <;> simp

/-- Two steps in a row fail if the first does, or the second after a result. -/
theorem fails_bind {count : Except Fault β} {next : β → Except Fault γ} :
    Fails (count >>= next) ↔ Fails count ∨ ∃ x, count = .ok x ∧ Fails (next x) := by
  cases count <;> simp [bind, Except.bind]

/-- A step with a result goes on with it. -/
theorem ok_bind {x : β} {next : β → Except Fault γ} : (Except.ok x >>= next) = next x := rfl

/-- A number that is too large for a count fails. -/
theorem fails_ofNat {fault : Fault} {n : Nat} : Fails (ofNat fault n) ↔ 2 ^ 32 ≤ n := by
  unfold ofNat
  split
  · simp only [not_fails_ok, false_iff]
    omega
  · simp only [fails_error, true_iff]
    omega

/-- A sum fails if it is too large. -/
@[simp] theorem fails_add : Fails (add a b) ↔ 2 ^ 32 ≤ a.toNat + b.toNat := fails_ofNat

/-- A sum that is too large is told by its fault. -/
theorem add_eq_error (h : 2 ^ 32 ≤ a.toNat + b.toNat) : add a b = .error .addition :=
  if_neg (Nat.not_lt.2 h)

/-- A sum that is not too large has a result. -/
theorem exists_add_eq_ok (h : a.toNat + b.toNat < 2 ^ 32) : ∃ c, add a b = .ok c :=
  not_fails_iff.1 (mt fails_add.1 (Nat.not_le.2 h))

/-- A product fails if it is too large. -/
@[simp] theorem fails_mul : Fails (mul a b) ↔ 2 ^ 32 ≤ a.toNat * b.toNat := fails_ofNat

/-- A product that is not too large has a result. -/
theorem exists_mul_eq_ok (h : a.toNat * b.toNat < 2 ^ 32) : ∃ c, mul a b = .ok c :=
  not_fails_iff.1 (mt fails_mul.1 (Nat.not_le.2 h))

/-- A difference fails if it lies below zero. -/
@[simp] theorem fails_sub : Fails (sub a b) ↔ a.toNat < b.toNat := by
  unfold sub
  split
  · rename_i h
    have hle := UInt32.le_iff_toNat_le.1 h
    simp only [not_fails_ok, false_iff]
    omega
  · rename_i h
    have hlt := mt UInt32.le_iff_toNat_le.2 h
    simp only [fails_error, true_iff]
    omega

/-- A quotient fails if the divisor is zero. -/
@[simp] theorem fails_div : Fails (div a b) ↔ b = 0 := by
  unfold div
  split <;> simp [*]

/-- A quotient rounded up fails if the divisor is zero. -/
@[simp] theorem fails_ceilDiv : Fails (ceilDiv a b) ↔ b = 0 := by
  unfold ceilDiv
  split <;> simp [*]

/-- A quotient rounded up has a result unless the divisor is zero. -/
theorem exists_ceilDiv_eq_ok (h : b ≠ 0) : ∃ c, ceilDiv a b = .ok c :=
  not_fails_iff.1 (mt fails_ceilDiv.1 h)

/-- The quotient is that of the numbers. -/
theorem toNat_div (h : div a b = .ok c) : c.toNat = a.toNat / b.toNat := by
  unfold div at h
  split at h
  · cases h
  · rw [Except.ok.injEq] at h
    rw [← h, UInt32.toNat_div]

/-- A quotient with a rest is not the largest count. -/
theorem div_add_one_lt (hb : 0 < b.toNat) (h : a.toNat % b.toNat ≠ 0) :
    a.toNat / b.toNat + 1 < 2 ^ 32 := by
  have ha := a.toNat_lt
  have hne : b.toNat ≠ 1 := by
    intro h1
    rw [h1, Nat.mod_one] at h
    exact h rfl
  have hhalf : a.toNat / b.toNat ≤ a.toNat / 2 := Nat.div_le_div_left (by omega) (by decide)
  omega

/-- The quotient rounded up is that of the next multiple. -/
theorem toNat_ceilDiv (h : ceilDiv a b = .ok c) :
    c.toNat = (a.toNat + b.toNat - 1) / b.toNat := by
  unfold ceilDiv at h
  split at h
  · cases h
  · rename_i hb
    have hpos : 0 < b.toNat := Nat.pos_of_ne_zero fun h0 => hb (UInt32.toNat_inj.1 h0)
    have hsplit := Nat.div_add_mod a.toNat b.toNat
    have hmod := Nat.mod_lt a.toNat hpos
    have hrest : a % b = 0 ↔ a.toNat % b.toNat = 0 := by
      rw [← UInt32.toNat_inj, UInt32.toNat_mod]
      rfl
    rw [Except.ok.injEq] at h
    subst h
    symm
    split
    · rename_i hzero
      rw [hrest] at hzero
      rw [UInt32.toNat_div]
      apply Nat.div_eq_of_lt_le
      · rw [Nat.mul_comm]
        omega
      · rw [Nat.succ_mul, Nat.mul_comm]
        omega
    · rename_i hne
      rw [hrest] at hne
      have hlt := div_add_one_lt hpos hne
      have htoNat : (a / b + 1).toNat = a.toNat / b.toNat + 1 := by
        rw [UInt32.toNat_add, UInt32.toNat_div]
        exact Nat.mod_eq_of_lt hlt
      rw [htoNat]
      apply Nat.div_eq_of_lt_le
      · rw [Nat.succ_mul, Nat.mul_comm]
        omega
      · rw [Nat.succ_mul, Nat.succ_mul, Nat.mul_comm]
        omega

/-! ## Numbers that are cut off at the largest count -/

section Cut

open Scalar (toCount)

variable {α : Type} [Scalar α]

/-- One more than a number fails if the number reaches the largest count. -/
theorem fails_toCount_add_one {x : α} :
    Fails (add (toCount x) 1) ↔ 2 ^ 32 - 1 ≤ Scalar.toNat x := by
  have hmax : Scalar.maxCount = 2 ^ 32 - 1 := rfl
  rw [fails_add, Scalar.toNat_toCount, UInt32.toNat_one, hmax]
  omega

/-- One more than a count is not zero. -/
theorem pos_of_add_one (h : add a 1 = .ok c) : 0 < c.toNat := by
  have hsum := add_eq_ok_iff.1 h
  rw [UInt32.toNat_one] at hsum
  omega

end Cut

end Count

end Heterodyne
