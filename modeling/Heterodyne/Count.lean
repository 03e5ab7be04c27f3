/-!
# Checked counts

Counts and identifiers are 32-bit words. Arithmetic on them either gives the exact result or
stops with a `Fault`; it never wraps around.

* `add_eq_ok_iff`, `sub_eq_ok_iff`, `mul_eq_ok_iff`: an operation succeeds exactly if its result
  is a count, and then gives that result.
-/

namespace Heterodyne

/-- What keeps a computation from having a result. -/
inductive Fault where
  | addition
  | subtraction
  | multiplication
  | division
  /-- A search that goes on for ever. -/
  | search
deriving DecidableEq

namespace Fault

/-- The wording of a fault. -/
def message : Fault → String
  | .addition => "attempt to add with overflow"
  | .subtraction => "attempt to subtract with overflow"
  | .multiplication => "attempt to multiply with overflow"
  | .division => "attempt to divide by zero"
  | .search => "search without end"

end Fault

namespace Count

/-- A count in decimal digits. -/
def text (n : UInt32) : String := toString n.toNat

/-- A natural number as a count, or the fault if it is too large. -/
def ofNat (fault : Fault) (n : Nat) : Except Fault UInt32 :=
  if n < 1 <<< 32 then .ok (UInt32.ofNat n) else .error fault

/-- A number becomes the count that is equal to it. -/
theorem ofNat_eq_ok_iff {fault : Fault} {n : Nat} {c : UInt32} :
    ofNat fault n = .ok c ↔ n = c.toNat := by
  have hc := c.toNat_lt
  unfold ofNat
  split
  · rw [Except.ok.injEq]
    constructor
    · rintro rfl
      rw [UInt32.toNat_ofNat']
      omega
    · rintro rfl
      exact UInt32.ofNat_toNat
  · simp only [reduceCtorEq, false_iff]
    omega

/-- The sum. -/
def add (a b : UInt32) : Except Fault UInt32 := ofNat .addition (a.toNat + b.toNat)

/-- The difference; the second count must not exceed the first. -/
def sub (a b : UInt32) : Except Fault UInt32 :=
  if b ≤ a then .ok (a - b) else .error .subtraction

/-- The product. -/
def mul (a b : UInt32) : Except Fault UInt32 := ofNat .multiplication (a.toNat * b.toNat)

/-- The quotient, rounded down. -/
def div (a b : UInt32) : Except Fault UInt32 := if b = 0 then .error .division else .ok (a / b)

/-- The quotient, rounded up. -/
def ceilDiv (a b : UInt32) : Except Fault UInt32 :=
  if b = 0 then .error .division else .ok (if a % b = 0 then a / b else a / b + 1)

/-- A sum is given exactly if it is a count. -/
theorem add_eq_ok_iff {a b c : UInt32} : add a b = .ok c ↔ a.toNat + b.toNat = c.toNat :=
  ofNat_eq_ok_iff

/-- A product is given exactly if it is a count. -/
theorem mul_eq_ok_iff {a b c : UInt32} : mul a b = .ok c ↔ a.toNat * b.toNat = c.toNat :=
  ofNat_eq_ok_iff

/-- A difference is given exactly if it is a count. -/
theorem sub_eq_ok_iff {a b c : UInt32} : sub a b = .ok c ↔ a.toNat = b.toNat + c.toNat := by
  unfold sub
  split
  · rename_i h
    have hle := UInt32.le_iff_toNat_le.1 h
    have hsub := UInt32.toNat_sub_of_le a b h
    rw [Except.ok.injEq, ← UInt32.toNat_inj]
    omega
  · rename_i h
    have hlt := mt UInt32.le_iff_toNat_le.2 h
    simp only [reduceCtorEq, false_iff]
    omega

/-- What is left of `a` after taking away `b`; nothing is left of a smaller count. -/
def monus (a b : UInt32) : UInt32 := if b ≤ a then a - b else 0

/-- What is left of a count is the truncated difference. -/
theorem toNat_monus (a b : UInt32) : (monus a b).toNat = a.toNat - b.toNat := by
  unfold monus
  split
  · rename_i h
    exact UInt32.toNat_sub_of_le a b h
  · rename_i h
    have hlt := mt UInt32.le_iff_toNat_le.2 h
    have h0 : (0 : UInt32).toNat = 0 := rfl
    omega

end Count

end Heterodyne
