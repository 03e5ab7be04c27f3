import Heterodyne.Spectrum.WindowId
import Mathlib.Data.List.Basic
/-!
# Names of windows

The printed name of a window tells the window: a count in decimal digits has no full stop in it,
so the name can be split where the subband begins.

* `Count.text_injective`: different counts have different digits.
* `WindowId.name_injective`: different windows have different names.
-/

namespace Heterodyne

namespace Count

/-- The characters of a count are its decimal digits. -/
theorem toList_text (n : UInt32) : (text n).toList = Nat.toDigits 10 n.toNat := by
  rw [text, Nat.toString_eq_repr, Nat.toList_repr]

/-- Different counts have different digits. -/
theorem text_injective {m n : UInt32} (h : (text m).toList = (text n).toList) : m = n := by
  rw [toList_text, toList_text] at h
  apply UInt32.toNat_inj.1
  calc
    m.toNat = Nat.ofDigitChars 10 (Nat.toDigits 10 m.toNat) 0 := Nat.ofDigitChars_ten_toDigits.symm
    _ = Nat.ofDigitChars 10 (Nat.toDigits 10 n.toNat) 0 := by rw [h]
    _ = n.toNat := Nat.ofDigitChars_ten_toDigits

/-- A count has no full stop among its digits. -/
theorem full_stop_not_mem_text (n : UInt32) : '.' ∉ (text n).toList := by
  rw [toList_text]
  intro hmem
  have hdigit := Nat.isDigit_of_mem_toDigits (by decide) (by decide) hmem
  exact absurd hdigit (by decide)

end Count

namespace WindowId

open Heterodyne.Count (text)

/-- The characters behind the beginning that all names share. -/
def suffix (id : WindowId) : List Char :=
  match id.subband with
  | none => (text id.subsystem).toList
  | some k => (text id.subsystem).toList ++ '.' :: (text k).toList

/-- A name is its suffix behind the common beginning. -/
theorem toList_name (id : WindowId) : id.name.toList = "SPW".toList ++ id.suffix := by
  obtain ⟨n, k⟩ := id
  cases k with
  | none => simp [name, suffix]
  | some k => simp [name, suffix]

/-- Different windows have different names. -/
theorem name_injective {a b : WindowId} (h : a.name = b.name) : a = b := by
  have hsuffix : a.suffix = b.suffix := by
    have hlists := congrArg String.toList h
    rw [toList_name, toList_name] at hlists
    exact List.append_cancel_left hlists
  obtain ⟨m, j⟩ := a
  obtain ⟨n, k⟩ := b
  have hstopM := Count.full_stop_not_mem_text m
  have hstopN := Count.full_stop_not_mem_text n
  -- A whole subsystem and a subband differ in the full stop.
  cases j with
  | none =>
    cases k with
    | none =>
      have hmn : m = n := Count.text_injective hsuffix
      rw [hmn]
    | some k =>
      have hlists : (text m).toList = (text n).toList ++ '.' :: (text k).toList := hsuffix
      exact absurd (by rw [hlists]; simp) hstopM
  | some j =>
    cases k with
    | none =>
      have hlists : (text m).toList ++ '.' :: (text j).toList = (text n).toList := hsuffix
      exact absurd (by rw [← hlists]; simp) hstopN
    | some k =>
      have hstopK := Count.full_stop_not_mem_text k
      have hlists : (text n).toList ++ '.' :: (text k).toList =
          (text m).toList ++ '.' :: (text j).toList := hsuffix.symm
      obtain ⟨hnm, -, hkj⟩ := (List.append_cons_inj_of_notMem hstopN hstopK).1 hlists
      rw [Count.text_injective hnm, Count.text_injective hkj]

end WindowId

end Heterodyne
