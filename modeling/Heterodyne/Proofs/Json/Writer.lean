import Heterodyne.Json.Writer
import Heterodyne.Proofs.Json.Grammar
import Mathlib.Tactic.SplitIfs
/-!
# The writer follows the grammar

The compact form of a value spells the value: whatever has to be escaped is, and a count has no
leading zeros. Arrays and objects are spelled if their parts are.

* `spellsLiteral_writeChar`: every text is spelled between its quotes.
* `isWhole_toDigits`: the digits of a number have no leading zeros.
* `spells_write_array`, `spells_write_object`: composite values are spelled.
-/

namespace Heterodyne

namespace Json

/-! ## Literals -/

/-- A written character is one code. -/
theorem spellsCode_writeChar (c : Char) : SpellsCode c.toNat (writeChar c) := by
  unfold writeChar
  split_ifs with hquote hslash hline hreturn htab hback hfeed hcontrol
  · rw [hquote]
    exact .short '"' _ (by decide)
  · rw [hslash]
    exact .short '\\' _ (by decide)
  · rw [hline]
    exact .short 'n' _ (by decide)
  · rw [hreturn]
    exact .short 'r' _ (by decide)
  · rw [htab]
    exact .short 't' _ (by decide)
  · rw [hback]
    exact .short 'b' _ (by decide)
  · rw [hfeed]
    exact .short 'f' _ (by decide)
  · have hcode : c.toNat = 0 * 4096 + 0 * 256 + c.toNat / 16 * 16 + c.toNat % 16 := by omega
    have hdigit : ∀ n < 16, IsHex (hexDigit n) n := fun n hn => ⟨hn, .inl rfl⟩
    have hunit := SpellsCode.unit '0' '0' _ _ 0 0 _ _ (hdigit 0 (by omega)) (hdigit 0 (by omega))
      (hdigit (c.toNat / 16) (by omega)) (hdigit (c.toNat % 16) (by omega))
    rwa [← hcode] at hunit
  · exact .plain c hquote hslash (by omega)

/-- Written characters are their codes. -/
theorem spellsCodes_writeChar (cs : List Char) :
    SpellsCodes (cs.map Char.toNat) (cs.flatMap writeChar) := by
  induction cs with
  | nil => exact .nil
  | cons c cs ih => exact .cons (spellsCode_writeChar c) ih

/-- The codes of characters stand for the characters. -/
theorem standFor_map_toNat (cs : List Char) : StandFor (cs.map Char.toNat) cs := by
  induction cs with
  | nil => exact .nil
  | cons c cs ih => exact .single c ih

/-- A written text is spelled between its quotes. -/
theorem spellsLiteral_writeChar (text : String) :
    SpellsLiteral (some text) (text.toList.flatMap writeChar) :=
  ⟨text.toList.map Char.toNat, spellsCodes_writeChar _, standFor_map_toNat _⟩

/-- A text is spelled. -/
theorem spells_write_text (s : String) : Spells (text s) (write (text s)) := by
  have h := Spells.string (spellsLiteral_writeChar s)
  rwa [← List.cons_append] at h

/-! ## Numbers -/

/-- The digits of a number have no leading zeros. -/
theorem eq_nil_of_toDigits (n : Nat) : ∀ rest, Nat.toDigits 10 n = '0' :: rest → rest = [] := by
  induction n using Nat.strongRecOn with
  | ind n ih =>
    intro rest h
    by_cases hn : n < 10
    · rw [Nat.toDigits_of_lt_base hn] at h
      exact (List.cons.inj h).2.symm
    · rw [Nat.toDigits_of_base_le (by decide) (by omega)] at h
      obtain ⟨c, front, hfront⟩ := List.exists_cons_of_ne_nil (@Nat.toDigits_ne_nil (n / 10) 10)
      rw [hfront, List.cons_append] at h
      obtain ⟨rfl, -⟩ := List.cons.inj h
      -- All digits but the last one would be a zero, and the number would be below ten.
      have hnil := ih (n / 10) (by omega) front hfront
      have hvalue := @Nat.ofDigitChars_ten_toDigits (n / 10)
      rw [hfront, hnil] at hvalue
      have hzero : 0 = n / 10 := hvalue
      omega

/-- The digits of a number are a whole part. -/
theorem isWhole_toDigits (n : Nat) : IsWhole (Nat.toDigits 10 n) := by
  refine ⟨⟨Nat.toDigits_ne_nil, ?_⟩, eq_nil_of_toDigits n⟩
  intro c hc
  exact Nat.isDigit_of_mem_toDigits (by decide) (by decide) hc

/-- A count is spelled. -/
theorem spells_write_count (n : UInt32) : Spells (count n) (write (count n)) := by
  have h := SpellsNumber.natural (isWhole_toDigits n.toNat)
  rw [Nat.ofDigitChars_ten_toDigits] at h
  exact .number h

/-! ## Composite values -/

/-- There are no blanks in nothing. -/
theorem blank_nil : Blank [] := by
  intro c hc
  cases hc

/-- Elements are spelled if each is. -/
theorem spellsElements_write {v : Json} {vs : List Json} (hv : Spells v (write v))
    (hvs : ∀ u ∈ vs, Spells u (write u)) :
    SpellsElements (v :: vs) (write v ++ writeElements vs) := by
  induction vs generalizing v with
  | nil => exact .last hv blank_nil
  | cons u vs ih =>
    have hrest := ih (hvs u List.mem_cons_self) fun w hw => hvs w (List.mem_cons_of_mem u hw)
    exact @SpellsElements.cons _ _ _ [] [] _ hv blank_nil blank_nil hrest

/-- An array is spelled if its elements are. -/
theorem spells_write_array {vs : List Json} (h : ∀ v ∈ vs, Spells v (write v)) :
    Spells (array vs) (write (array vs)) := by
  cases vs with
  | nil => exact .emptyArray blank_nil
  | cons v vs =>
    have hvs := spellsElements_write (h v List.mem_cons_self) fun u hu =>
      h u (List.mem_cons_of_mem v hu)
    exact @Spells.array _ [] _ blank_nil hvs

/-- A member whose key is a text is spelled if its value is. -/
theorem spellsMember_write (key : String) {v : Json} (hv : Spells v (write v)) :
    SpellsMember (member key v) (writeLiteral (some key) ++ ':' :: write v) := by
  have h := @SpellsMember.mk _ _ _ [] [] _ (spellsLiteral_writeChar key) blank_nil blank_nil hv
  simpa [writeLiteral, member] using h

/-- Members are spelled if each is. -/
theorem spellsMembers_write {m : String × Json} {ms : List (String × Json)}
    (hm : Spells m.2 (write m.2)) (hms : ∀ m' ∈ ms, Spells m'.2 (write m'.2)) :
    SpellsMembers ((m :: ms).map fun m => member m.1 m.2)
      (writeLiteral (some m.1) ++ ':' :: write m.2 ++
        writeMembers (ms.map fun m => member m.1 m.2)) := by
  induction ms generalizing m with
  | nil => exact .last (spellsMember_write m.1 hm) blank_nil
  | cons m' ms ih =>
    have hrest := ih (hms m' List.mem_cons_self) fun m'' h => hms m'' (List.mem_cons_of_mem m' h)
    exact @SpellsMembers.cons _ _ _ [] [] _ (spellsMember_write m.1 hm) blank_nil blank_nil hrest

/-- An object whose keys are texts is spelled if its values are. -/
theorem spells_write_object {ms : List (String × Json)} (h : ∀ m ∈ ms, Spells m.2 (write m.2)) :
    Spells (object (ms.map fun m => member m.1 m.2))
      (write (object (ms.map fun m => member m.1 m.2))) := by
  cases ms with
  | nil => exact .emptyObject blank_nil
  | cons m ms =>
    have hms := spellsMembers_write (h m List.mem_cons_self) fun m' hm' =>
      h m' (List.mem_cons_of_mem m hm')
    exact @Spells.object _ [] _ blank_nil hms

/-- A written value is a document if it is spelled. -/
theorem spellsDocument_render {v : Json} (h : Spells v (write v)) :
    SpellsDocument v v.render := by
  refine ⟨[], write v, [], blank_nil, h, blank_nil, ?_⟩
  rw [render, String.toList_ofList, List.append_nil, List.nil_append]

end Json

end Heterodyne
