import Heterodyne.Header
import Heterodyne.Proofs.Spectrum.WindowName
/-!
# Names of keywords

Every keyword of the table is read from its own name. The slot of a tuning keyword is read as a
count, and a count may have a plus sign and zeros in front, so a tuning keyword is read from more
names than its own. Nothing else is read.

* `Count.exists_zeros_append`: digits are those of the number that they tell, behind zeros.
* `readCount_eq_some_iff`: the texts that are read as a count.
* `read_eq_ok_iff`: the names that a keyword is read from.
* `read_spellings`: of these, its own name is the only one without signs and zeros in front.
-/

namespace Heterodyne

/-! ## Digits -/

namespace Count

variable {c : Char} {digits : List Char}

/-- A digit is that of the number that it tells. -/
theorem toDigits_of_isDigit (hc : c.isDigit = true) :
    c.toNat - '0'.toNat < 10 ∧ Nat.toDigits 10 (c.toNat - '0'.toNat) = [c] := by
  obtain ⟨hlow, hhigh⟩ := Char.isDigit_iff_toNat.1 hc
  have hzero : '0'.toNat = 48 := rfl
  have hnine : '9'.toNat = 57 := rfl
  have hlt : c.toNat - '0'.toNat < 10 := by omega
  have hdigit : (c.toNat - '0'.toNat).digitChar = c := by
    apply Char.toNat_inj.1
    rw [Nat.toNat_digitChar_of_lt_ten hlt]
    omega
  exact ⟨hlt, by rw [Nat.toDigits_of_lt_base hlt, hdigit]⟩

/-- Digits behind those of a positive number are the last ones of the number that they tell
together. -/
theorem toDigits_ofDigitChars (hdigits : ∀ c ∈ digits, c.isDigit = true) {n : ℕ} (hn : 0 < n) :
    Nat.toDigits 10 (Nat.ofDigitChars 10 digits n) = Nat.toDigits 10 n ++ digits := by
  induction digits generalizing n with
  | nil => simp
  | cons c rest ih =>
    obtain ⟨hlt, hdigit⟩ := toDigits_of_isDigit (hdigits c List.mem_cons_self)
    have hrest : ∀ d ∈ rest, d.isDigit = true := fun d hd => hdigits d (List.mem_cons_of_mem c hd)
    rw [Nat.ofDigitChars_cons, ih hrest (by omega),
      ← Nat.toDigits_append_toDigits (by decide) hn hlt, hdigit, List.append_assoc,
      List.singleton_append]

/-- Digits are those of the number that they tell, behind zeros. -/
theorem exists_zeros_append (hne : digits ≠ []) (hdigits : ∀ c ∈ digits, c.isDigit = true) :
    ∃ zeros, digits =
      List.replicate zeros '0' ++ Nat.toDigits 10 (Nat.ofDigitChars 10 digits 0) := by
  induction digits with
  | nil => exact absurd rfl hne
  | cons c rest ih =>
    have hrest : ∀ d ∈ rest, d.isDigit = true := fun d hd => hdigits d (List.mem_cons_of_mem c hd)
    rw [Nat.ofDigitChars_cons, Nat.mul_zero, Nat.zero_add]
    by_cases hc : c = '0'
    · subst hc
      rw [Nat.sub_self]
      by_cases hlast : rest = []
      · exact ⟨0, by simp [hlast]⟩
      · obtain ⟨zeros, hzeros⟩ := ih hlast hrest
        exact ⟨zeros + 1, by rw [List.replicate_succ, List.cons_append, ← hzeros]⟩
    · -- the first digit that is no zero begins the digits of a positive number
      obtain ⟨-, hdigit⟩ := toDigits_of_isDigit (hdigits c List.mem_cons_self)
      have hpos : 0 < c.toNat - '0'.toNat := by
        rw [Nat.pos_iff_ne_zero]
        intro hzero
        rw [hzero, Nat.toDigits_zero] at hdigit
        exact hc (List.cons.inj hdigit).1.symm
      refine ⟨0, ?_⟩
      rw [toDigits_ofDigitChars hrest hpos, hdigit]
      rfl

end Count

namespace Keyword

open Heterodyne.Count (text)

/-! ## Counts -/

/-- A count in decimal digits, which may have leading zeros. -/
def readDigits (digits : List Char) : Option UInt32 :=
  if digits = [] ∨ ¬ digits.all Char.isDigit then none
  else if Nat.ofDigitChars 10 digits 0 < 1 <<< 32 then
    some (UInt32.ofNat (Nat.ofDigitChars 10 digits 0))
  else none

/-- A plus sign is passed over. -/
theorem readCount_plus (rest : List Char) : readCount ('+' :: rest) = readDigits rest := rfl

/-- All else is read as digits. -/
theorem readCount_of_not_plus {s : List Char} (h : ∀ rest, s ≠ '+' :: rest) :
    readCount s = readDigits s := by
  unfold readCount
  split
  next rest => exact absurd rfl (h rest)
  next => rfl

/-- The digits of a count behind zeros are digits, and at least one. -/
theorem isDigit_of_mem_zeros_append {zeros : ℕ} {n : UInt32} {c : Char}
    (hc : c ∈ List.replicate zeros '0' ++ (text n).toList) : c.isDigit = true := by
  rcases List.mem_append.1 hc with hzero | htext
  · rw [List.eq_of_mem_replicate hzero]
    rfl
  · rw [Count.toList_text] at htext
    exact Nat.isDigit_of_mem_toDigits (by decide) (by decide) htext

/-- A count is read from its digits behind zeros, and from nothing else. -/
theorem readDigits_eq_some_iff {digits : List Char} {n : UInt32} :
    readDigits digits = some n ↔
      ∃ zeros, digits = List.replicate zeros '0' ++ (text n).toList := by
  have hbound : 1 <<< 32 = 2 ^ 32 := rfl
  unfold readDigits
  rw [hbound]
  constructor
  · intro h
    split at h
    · cases h
    · rename_i hdigits
      rw [not_or, not_not] at hdigits
      split at h
      · rename_i hlt
        obtain ⟨zeros, hzeros⟩ :=
          Count.exists_zeros_append hdigits.1 (List.all_eq_true.1 hdigits.2)
        have hvalue : n.toNat = Nat.ofDigitChars 10 digits 0 := by
          rw [← Option.some.inj h, UInt32.toNat_ofNat', Nat.mod_eq_of_lt hlt]
        exact ⟨zeros, by rwa [Count.toList_text, hvalue]⟩
      · cases h
  · rintro ⟨zeros, rfl⟩
    have hvalue :
        Nat.ofDigitChars 10 (List.replicate zeros '0' ++ (text n).toList) 0 = n.toNat := by
      rw [Nat.ofDigitChars_append, Nat.ofDigitChars_replicate_zero, Nat.mul_zero,
        Count.toList_text, Nat.ofDigitChars_ten_toDigits]
    have hne : List.replicate zeros '0' ++ (text n).toList ≠ [] := by
      rw [Count.toList_text]
      exact List.append_ne_nil_of_right_ne_nil _ Nat.toDigits_ne_nil
    have hall : (List.replicate zeros '0' ++ (text n).toList).all Char.isDigit = true :=
      List.all_eq_true.2 fun c => isDigit_of_mem_zeros_append
    rw [hvalue, hall, if_neg (by simp [hne]), if_pos n.toNat_lt, UInt32.ofNat_toNat]

/-- A count is read from its digits behind zeros and at most one plus sign, and from nothing
else. -/
theorem readCount_eq_some_iff {s : List Char} {n : UInt32} :
    readCount s = some n ↔ ∃ sign zeros, (sign = [] ∨ sign = ['+']) ∧
      s = sign ++ (List.replicate zeros '0' ++ (text n).toList) := by
  by_cases hplus : ∃ rest, s = '+' :: rest
  · obtain ⟨rest, rfl⟩ := hplus
    rw [readCount_plus, readDigits_eq_some_iff]
    constructor
    · rintro ⟨zeros, rfl⟩
      exact ⟨['+'], zeros, .inr rfl, rfl⟩
    · rintro ⟨sign, zeros, rfl | rfl, hs⟩
      · -- a plus sign is not a digit
        have hdigit : '+'.isDigit = true :=
          isDigit_of_mem_zeros_append (hs ▸ List.mem_cons_self)
        exact absurd hdigit (by decide)
      · exact ⟨zeros, (List.cons.inj hs).2⟩
  · rw [readCount_of_not_plus (not_exists.1 hplus), readDigits_eq_some_iff]
    constructor
    · rintro ⟨zeros, rfl⟩
      exact ⟨[], zeros, .inl rfl, rfl⟩
    · rintro ⟨sign, zeros, rfl | rfl, hs⟩
      · exact ⟨zeros, hs⟩
      · exact absurd ⟨_, hs⟩ hplus

/-! ## Keywords -/

/-- The tuning keywords of the table are those of the slots that have one. -/
theorem lo2_mem_all_iff {slot : UInt32} : lo2 slot ∈ all ↔ 1 ≤ slot ∧ slot ≤ tuningSlots := by
  simp only [all, List.mem_cons, List.not_mem_nil, reduceCtorEq, false_or, or_false, lo2.injEq,
    tuningSlots, UInt32.le_iff_toNat_le, ← UInt32.toNat_inj, UInt32.reduceToNat]
  omega

/-- The tuning keyword of a slot is the one in the table. -/
theorem tuning?_eq_some_iff {slot : UInt32} {k : Keyword} :
    tuning? slot = some k ↔ k = lo2 slot ∧ k ∈ all := by
  unfold tuning?
  constructor
  · intro h
    split at h
    · rename_i hslot
      cases h
      exact ⟨rfl, lo2_mem_all_iff.2 hslot⟩
    · cases h
  · rintro ⟨rfl, hmem⟩
    exact if_pos (lo2_mem_all_iff.1 hmem)

/-- Another spelling of a tuning keyword: in front of the slot there is a plus sign, or there are
zeros, or both. -/
def Respells (k : Keyword) (s : String) : Prop :=
  ∃ slot sign zeros, k = lo2 slot ∧ (sign = [] ∨ sign = ['+']) ∧ (sign ≠ [] ∨ 0 < zeros) ∧
    s.toList = tuningStart.toList ++ (sign ++ (List.replicate zeros '0' ++ (text slot).toList))

/-- A tuning keyword is named by its slot. -/
theorem toList_name_lo2 (slot : UInt32) :
    (lo2 slot).name.toList = tuningStart.toList ++ (text slot).toList := by
  rw [name, String.toList_append]

/-- The own name of a keyword is not another spelling of it. -/
theorem not_respells_name (k : Keyword) : ¬ Respells k k.name := by
  rintro ⟨slot, sign, zeros, rfl, hsign, hmore, hname⟩
  rw [toList_name_lo2] at hname
  have hlength := congrArg List.length (List.append_cancel_left hname)
  rw [List.length_append, List.length_append, List.length_replicate] at hlength
  have hnosign : sign = [] := List.eq_nil_of_length_eq_zero (by omega)
  rcases hmore with hmore | hmore
  · exact hmore hnosign
  · omega

section Reading

variable {α : Type} {s : String} {k : Keyword} {rest : List Char}

/-- Behind the beginning of the tuning keywords a slot of the table is read. -/
theorem read_tuning_iff (hs : s.toList = tuningStart.toList ++ rest) :
    (read s : Except (Refusal α) Keyword) = .ok k ↔
      ∃ slot, readCount rest = some slot ∧ k = lo2 slot ∧ k ∈ all := by
  have hprefix : tuningStart.toList.isPrefixOf s.toList = true :=
    List.isPrefixOf_iff_prefix.2 ⟨rest, hs.symm⟩
  have hrest : s.toList.drop tuningStart.length = rest := by
    rw [hs, ← String.length_toList, List.drop_left]
  simp only [← tuning?_eq_some_iff, ← Option.bind_eq_some_iff]
  unfold read
  rw [if_pos hprefix, hrest]
  cases (readCount rest).bind tuning? with
  | none => simp
  | some found => simp

/-- Without the beginning of the tuning keywords a name of the table is read. -/
theorem mem_all_of_read (hs : ¬ tuningStart.toList.isPrefixOf s.toList)
    (h : (read s : Except (Refusal α) Keyword) = .ok k) : k ∈ all ∧ s = k.name := by
  unfold read at h
  rw [if_neg hs] at h
  cases hfind : all.find? fun keyword => keyword.name == s with
  | none =>
    rw [hfind] at h
    cases h
  | some found =>
    rw [hfind] at h
    cases h
    have hname : k.name = s := by simpa using List.find?_some hfind
    exact ⟨List.mem_of_find?_eq_some hfind, hname.symm⟩

/-- A keyword of the table is read from its own name and from its other spellings, and no other
keyword is read. -/
theorem read_eq_ok_iff :
    (read s : Except (Refusal α) Keyword) = .ok k ↔ k ∈ all ∧ (s = k.name ∨ Respells k s) := by
  constructor
  · intro h
    by_cases hprefix : tuningStart.toList.isPrefixOf s.toList = true
    · obtain ⟨rest, hs⟩ := List.isPrefixOf_iff_prefix.1 hprefix
      obtain ⟨slot, hslot, rfl, hmem⟩ := (read_tuning_iff hs.symm).1 h
      obtain ⟨sign, zeros, hsign, rfl⟩ := readCount_eq_some_iff.1 hslot
      refine ⟨hmem, ?_⟩
      by_cases hmore : sign ≠ [] ∨ 0 < zeros
      · exact .inr ⟨slot, sign, zeros, rfl, hsign, hmore, hs.symm⟩
      · left
        obtain ⟨hnosign, hnozeros⟩ := not_or.1 hmore
        rw [← String.toList_inj, toList_name_lo2, ← hs, not_not.1 hnosign,
          Nat.eq_zero_of_not_pos hnozeros]
        rfl
    · obtain ⟨hmem, hname⟩ := mem_all_of_read hprefix h
      exact ⟨hmem, .inl hname⟩
  · rintro ⟨hmem, rfl | ⟨slot, sign, zeros, rfl, hsign, -, hs⟩⟩
    · exact read_name k hmem
    · exact (read_tuning_iff hs).2
        ⟨slot, readCount_eq_some_iff.2 ⟨sign, zeros, hsign, rfl⟩, rfl, hmem⟩

/-- What is refused is refused as a name that means nothing. -/
theorem kind_of_read {cause : Refusal α}
    (h : (read s : Except (Refusal α) Keyword) = .error cause) : cause.kind = .unrecognized := by
  unfold read at h
  split at h
  · split at h
    · cases h
    · cases h
      rfl
  · split at h
    · cases h
    · cases h
      rfl

end Reading

/-- A name is read as a keyword exactly if the keyword is in the table and the name is its own, or
is that of a tuning keyword with a plus sign or zeros in front of the slot. Its own name is the
only one that is read without these, and all else is refused as a name that means nothing. -/
theorem read_spellings {α : Type} (s : String) (k : Keyword) :
    ((read s : Except (Refusal α) Keyword) = .ok k ↔
        k ∈ all ∧ (s = k.name ∨ Respells k s)) ∧
      ((read s : Except (Refusal α) Keyword) = .ok k ∧ ¬ Respells k s ↔
        k ∈ all ∧ s = k.name) ∧
      ((∃ cause, (read s : Except (Refusal α) Keyword) = .error cause ∧
          cause.kind = .unrecognized) ↔
        ∀ keyword ∈ all, s ≠ keyword.name ∧ ¬ Respells keyword s) := by
  refine ⟨read_eq_ok_iff, ?_, ?_⟩
  · rw [read_eq_ok_iff]
    constructor
    · rintro ⟨⟨hmem, hname | hrespells⟩, hnot⟩
      · exact ⟨hmem, hname⟩
      · exact absurd hrespells hnot
    · rintro ⟨hmem, rfl⟩
      exact ⟨⟨hmem, .inl rfl⟩, not_respells_name k⟩
  · constructor
    · rintro ⟨cause, hread, -⟩ keyword hmem
      rw [← not_or]
      intro hspelled
      have hok : (read s : Except (Refusal α) Keyword) = .ok keyword :=
        read_eq_ok_iff.2 ⟨hmem, hspelled⟩
      rw [hread] at hok
      cases hok
    · intro hnone
      cases hread : (read s : Except (Refusal α) Keyword) with
      | error cause => exact ⟨cause, rfl, kind_of_read hread⟩
      | ok keyword =>
        obtain ⟨hmem, hspelled⟩ := read_eq_ok_iff.1 hread
        exact absurd hspelled (not_or.2 (hnone keyword hmem))

/-- A keyword is not read from its own name only: the first slot may have a sign in front. -/
theorem not_name_of_read : ¬ ∀ (s : String) (k : Keyword),
    (read s : Except (Refusal Binary64) Keyword) = .ok k → k ∈ all ∧ k.name = s := by
  intro h
  have hread : (read "LO2_+1" : Except (Refusal Binary64) Keyword) = .ok (lo2 1) := rfl
  exact absurd (h _ _ hread).2 (by decide)

end Keyword

end Heterodyne
