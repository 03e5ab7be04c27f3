import Heterodyne.Json.Reader
import Heterodyne.Proofs.Json.Grammar
import Mathlib.Data.List.TakeWhile
/-!
# The reader follows the grammar

Every text that spells a value is read as this value. Each production has a lemma on what the
reader does with it when more text stands behind, and the whole follows by induction on the steps
that the reader may take: two for every character are enough.

* `readCodes_spelled`: a literal is read up to its closing quote.
* `readNumber_spelled`: a number is read up to what cannot continue it.
* `read_spelled`: values, elements and members are read.
* `parse?_spelled`: a whole text is read.
-/

namespace Heterodyne

namespace Json

/-! ## Blanks -/

/-- The blanks of the grammar are those that the reader skips. -/
theorem isBlank_of_mem {b : List Char} (hb : Blank b) {c : Char} (hc : c ∈ b) :
    isBlank c = true := by
  have hmem := hb c hc
  simp only [List.mem_cons, List.not_mem_nil, or_false] at hmem
  rcases hmem with rfl | rfl | rfl | rfl <;> rfl

/-- Blanks are skipped up to the first other character. -/
theorem skipBlanks_append {b : List Char} (hb : Blank b) {c : Char} (hc : isBlank c = false)
    (s : List Char) : skipBlanks (b ++ c :: s) = c :: s := by
  unfold skipBlanks
  rw [List.dropWhile_append_of_pos fun d hd => isBlank_of_mem hb hd]
  exact List.dropWhile_cons_of_neg (by simp [hc])

/-- A text of blanks is skipped as a whole. -/
theorem skipBlanks_eq_nil {b : List Char} (hb : Blank b) : skipBlanks b = [] := by
  unfold skipBlanks
  rw [List.dropWhile_eq_nil_iff]
  intro c hc
  exact isBlank_of_mem hb hc

/-! ## Literals -/

/-- A hexadecimal digit is read in either case. -/
theorem hexValue?_of_isHex {c : Char} {n : Nat} (h : IsHex c n) : hexValue? c = some n := by
  have hall : ∀ n < 16, hexValue? (Nat.digitChar n) = some n ∧
      hexValue? (Nat.digitChar n).toUpper = some n := by decide
  obtain ⟨hn, rfl | rfl⟩ := h
  · exact (hall n hn).1
  · exact (hall n hn).2

/-- One code is read in front of others. -/
theorem readCodes_code {n : Nat} {s : List Char} (h : SpellsCode n s) {t rest : List Char}
    {ns : List Nat} (ht : readCodes t = some (ns, rest)) :
    readCodes (s ++ t) = some (n :: ns, rest) := by
  cases h with
  | plain hquote hslash hcontrol =>
    show readCodes (_ :: t) = _
    rw [readCodes.eq_def]
    split <;> simp_all
  | short c n hmem =>
    simp only [shortEscapes, List.mem_cons, Prod.mk.injEq, List.not_mem_nil, or_false] at hmem
    rcases hmem with ⟨rfl, rfl⟩ | ⟨rfl, rfl⟩ | ⟨rfl, rfl⟩ | ⟨rfl, rfl⟩ | ⟨rfl, rfl⟩ |
      ⟨rfl, rfl⟩ | ⟨rfl, rfl⟩ | ⟨rfl, rfl⟩ <;> simp [readCodes, escaped?, ht]
  | unit a b c d i j k l ha hb hc hd =>
    simp [readCodes, hexValue?_of_isHex ha, hexValue?_of_isHex hb, hexValue?_of_isHex hc,
      hexValue?_of_isHex hd, ht]

/-- The codes of a literal are read up to its closing quote. -/
theorem readCodes_spelled {ns : List Nat} {s : List Char} (h : SpellsCodes ns s)
    (rest : List Char) : readCodes (s ++ '"' :: rest) = some (ns, rest) := by
  induction h with
  | nil => rfl
  | cons hcode _ ih =>
    rw [List.append_assoc]
    exact readCodes_code hcode ih

/-- A pair of surrogates is the character that it stands for. -/
theorem pairedChar_eq {c : Char} {high low : Nat}
    (h : c.toNat = 0x10000 + (high - 0xD800) * 0x400 + (low - 0xDC00)) :
    pairedChar high low = c := by
  rw [pairedChar, ← h]
  exact Char.ofNat_toNat c

/-- A character that is written alone is read alone. -/
theorem combine_single (c : Char) (ns : List Nat) :
    combine (c.toNat :: ns) = (combine ns).map (c :: ·) := by
  obtain ⟨hhigh, hany⟩ := not_surrogate c
  cases ns with
  | nil => simp [combine, hany, Char.ofNat_toNat]
  | cons n ns => simp [combine, hhigh, hany, Char.ofNat_toNat]

/-- Codes combine to the text that they stand for. -/
theorem combine_of_standFor {ns : List Nat} {cs : List Char} (h : StandFor ns cs) :
    combine ns = some cs := by
  induction h with
  | nil => rfl
  | single c _ ih => rw [combine_single, ih, Option.map_some]
  | pair c high low hlo hhi hlo' hhi' hc _ ih =>
    have hhigh : isHighSurrogate high = true := by
      simp [isHighSurrogate, hlo, hhi]
    have hlow : isLowSurrogate low = true := by
      simp [isLowSurrogate, hlo', hhi']
    rw [combine, hhigh, hlow, Bool.and_self, if_pos rfl, ih, pairedChar_eq hc, Option.map_some]

/-- Codes of literals are in the range of code points. -/
theorem lt_of_spellsCodes {ns : List Nat} {s : List Char} (h : SpellsCodes ns s) :
    ∀ n ∈ ns, n < 0x110000 := by
  induction h with
  | nil => simp
  | cons hcode _ ih =>
    intro n hn
    rcases List.mem_cons.1 hn with rfl | hn
    · cases hcode with
      | plain =>
        rename_i c _ _ _
        have hvalid : c.toNat < 0xD800 ∨ (0xDFFF < c.toNat ∧ c.toNat < 0x110000) := c.valid
        omega
      | short c n hmem =>
        have hall : ∀ e ∈ shortEscapes, e.2 < 0x110000 := by decide
        exact hall _ hmem
      | unit a b c d i j k l ha hb hc hd =>
        have hi := ha.1
        have hj := hb.1
        have hk := hc.1
        have hl := hd.1
        omega
    · exact ih n hn

/-- The character of a code point that characters have. -/
theorem toNat_ofNat_of_valid {n : Nat} (h : n < 0xD800 ∨ (0xDFFF < n ∧ n < 0x110000)) :
    (Char.ofNat n).toNat = n := by
  rw [Char.ofNat, dif_pos h]
  rfl

/-- A code point that is no surrogate is that of a character. -/
theorem toNat_ofNat_of_lt {n : Nat} (hlt : n < 0x110000) (hn : isSurrogate n = false) :
    (Char.ofNat n).toNat = n := by
  apply toNat_ofNat_of_valid
  simp only [isSurrogate, isHighSurrogate, isLowSurrogate, Bool.or_eq_false_iff,
    Bool.and_eq_false_iff, decide_eq_false_iff_not] at hn
  omega

/-- The code point of a surrogate pair. -/
theorem toNat_pairedChar {high low : Nat} (hhigh : high < 0xDC00) (hlow : 0xDC00 ≤ low)
    (hlow' : low < 0xE000) :
    (pairedChar high low).toNat = 0x10000 + (high - 0xD800) * 0x400 + (low - 0xDC00) := by
  rw [pairedChar]
  apply toNat_ofNat_of_valid
  omega

/-- Code points stand for what they combine to. -/
theorem standFor_of_combine {ns : List Nat} (hlt : ∀ n ∈ ns, n < 0x110000) {cs : List Char}
    (h : combine ns = some cs) : StandFor ns cs := by
  fun_induction combine ns generalizing cs with
  | case1 =>
    cases h
    exact .nil
  | case2 n hn => cases h
  | case3 n hn =>
    cases h
    have hcode := toNat_ofNat_of_lt (hlt n (by simp)) (by simpa using hn)
    have hstand := StandFor.single (Char.ofNat n) .nil
    rwa [hcode] at hstand
  | case4 n low rest hpair ih =>
    rw [Option.map_eq_some_iff] at h
    obtain ⟨cs, hcs, rfl⟩ := h
    simp only [isHighSurrogate, isLowSurrogate, Bool.and_eq_true, decide_eq_true_eq] at hpair
    obtain ⟨⟨hlo, hhi⟩, hlo', hhi'⟩ := hpair
    refine .pair _ n low hlo hhi hlo' hhi' (toNat_pairedChar hhi hlo' hhi') (ih ?_ hcs)
    intro m hm
    exact hlt m (by simp [hm])
  | case5 n low rest hpair hn => cases h
  | case6 n low rest hpair hn ih =>
    rw [Option.map_eq_some_iff] at h
    obtain ⟨cs, hcs, rfl⟩ := h
    have hcode := toNat_ofNat_of_lt (hlt n (by simp)) (by simpa using hn)
    have hrest := ih (fun m hm => hlt m (List.mem_cons_of_mem _ hm)) hcs
    have hstand := StandFor.single (Char.ofNat n) hrest
    rwa [hcode] at hstand

/-- A literal is read up to its closing quote. -/
theorem readLiteral_spelled {text : Option String} {s : List Char} (h : SpellsLiteral text s)
    (rest : List Char) : readLiteral (s ++ '"' :: rest) = some (text, rest) := by
  unfold readLiteral
  cases text with
  | some text =>
    obtain ⟨ns, hns, hstand⟩ := h
    rw [readCodes_spelled hns, Option.map_some]
    simp only [combine_of_standFor hstand, Option.map_some, String.ofList_toList]
  | none =>
    obtain ⟨ns, hns, hnot⟩ := h
    have hcombine : combine ns = none := by
      cases hcs : combine ns with
      | none => rfl
      | some cs => exact absurd (standFor_of_combine (lt_of_spellsCodes hns) hcs) (hnot cs)
    rw [readCodes_spelled hns, Option.map_some]
    simp only [hcombine, Option.map_none]

/-! ## Numbers -/

/-- The first character, if there is one. -/
def Leads (p : Char → Prop) (s : List Char) : Prop := ∀ c ∈ s.head?, p c

/-- What leads both parts leads the whole. -/
theorem leads_append {p : Char → Prop} {s t : List Char} (hs : Leads p s) (ht : Leads p t) :
    Leads p (s ++ t) := by
  cases s with
  | nil => exact ht
  | cons c s => exact hs

/-- Not a digit. -/
def NoDigit (c : Char) : Prop := c.isDigit = false

/-- A character that does not continue a number. -/
def Stops (c : Char) : Prop := c.isDigit = false ∧ c ≠ '.' ∧ c ≠ 'e' ∧ c ≠ 'E'

instance (c : Char) : Decidable (Stops c) :=
  inferInstanceAs (Decidable (c.isDigit = false ∧ c ≠ '.' ∧ c ≠ 'e' ∧ c ≠ 'E'))

/-- Digits are read up to what is not a digit. -/
theorem readDigits_spelled {ds : List Char} (h : IsDigits ds) {rest : List Char}
    (hrest : Leads NoDigit rest) : readDigits (ds ++ rest) = some (ds, rest) := by
  have htake : rest.takeWhile Char.isDigit = [] := by
    cases rest with
    | nil => rfl
    | cons c rest =>
      have hc : c.isDigit = false := hrest c rfl
      exact List.takeWhile_cons_of_neg (by simp [hc])
  have hdrop : rest.dropWhile Char.isDigit = rest := by
    cases rest with
    | nil => rfl
    | cons c rest =>
      have hc : c.isDigit = false := hrest c rfl
      exact List.dropWhile_cons_of_neg (by simp [hc])
  unfold readDigits
  rw [List.takeWhile_append_of_pos h.2, List.dropWhile_append_of_pos h.2, htake, hdrop,
    List.append_nil]
  cases ds with
  | nil => exact absurd rfl h.1
  | cons d ds => rfl

/-- A whole part is read up to what is not a digit. -/
theorem readWhole_spelled {ds : List Char} (h : IsWhole ds) {rest : List Char}
    (hrest : Leads NoDigit rest) : readWhole (ds ++ rest) = some (ds, rest) := by
  unfold readWhole
  rw [readDigits_spelled h.1 hrest]
  split
  · rename_i heq
    simp only [Option.some.injEq, Prod.mk.injEq] at heq
    cases h.2 _ heq.1
  · rfl

/-- A fraction is read up to what does not continue it. -/
theorem readFraction_spelled {s : List Char} (h : IsFraction s) {rest : List Char}
    (hrest : Leads (fun c => NoDigit c ∧ c ≠ '.') rest) :
    readFraction (s ++ rest) = some (s, rest) := by
  rcases h with rfl | ⟨ds, hds, rfl⟩
  · rw [List.nil_append]
    unfold readFraction
    split
    · exact absurd rfl (hrest '.' rfl).2
    · rfl
  · show (readDigits (ds ++ rest)).map _ = _
    rw [readDigits_spelled hds fun c hc => (hrest c hc).1, Option.map_some]

/-- The digits of an exponent are read behind any sign. -/
theorem readPower_spelled {sign ds : List Char} (hsign : IsSign sign) (hds : IsDigits ds)
    (lead : List Char) {rest : List Char} (hrest : Leads NoDigit rest) :
    readPower lead (sign ++ (ds ++ rest)) = some (lead ++ sign ++ ds, rest) := by
  have hread := readDigits_spelled hds hrest
  rcases hsign with rfl | rfl | rfl
  · obtain ⟨d, ds, rfl⟩ := List.exists_cons_of_ne_nil hds.1
    have hdigit := hds.2 d List.mem_cons_self
    simp only [List.nil_append, List.cons_append] at hread ⊢
    unfold readPower
    split
    · rename_i heq
      cases heq
      exact absurd hdigit (by decide)
    · rename_i heq
      cases heq
      exact absurd hdigit (by decide)
    · rw [hread, Option.map_some, List.append_nil]
  · show (readDigits (ds ++ rest)).map _ = _
    rw [hread, Option.map_some]
    simp
  · show (readDigits (ds ++ rest)).map _ = _
    rw [hread, Option.map_some]
    simp

/-- An exponent is read up to what does not continue it. -/
theorem readExponent_spelled {s : List Char} (h : IsExponent s) {rest : List Char}
    (hrest : Leads (fun c => NoDigit c ∧ c ≠ 'e' ∧ c ≠ 'E') rest) :
    readExponent (s ++ rest) = some (s, rest) := by
  rcases h with rfl | ⟨mark, sign, ds, hmark, hsign, hds, rfl⟩
  · rw [List.nil_append]
    unfold readExponent
    split
    · exact absurd rfl (hrest 'e' rfl).2.1
    · exact absurd rfl (hrest 'E' rfl).2.2
    · rfl
  · have hdigits : Leads NoDigit rest := fun c hc => (hrest c hc).1
    rw [List.cons_append, List.append_assoc]
    rcases hmark with rfl | rfl
    · exact readPower_spelled hsign hds ['e'] hdigits
    · exact readPower_spelled hsign hds ['E'] hdigits

/-- What is behind a whole part is not a digit. -/
theorem leads_fraction {s : List Char} (h : IsFraction s) : Leads NoDigit s := by
  rcases h with rfl | ⟨ds, -, rfl⟩
  · intro c hc
    cases hc
  · intro c hc
    obtain rfl : '.' = c := Option.some.inj hc
    rfl

/-- What is behind a fraction is neither a digit nor a point. -/
theorem leads_exponent {s : List Char} (h : IsExponent s) :
    Leads (fun c => NoDigit c ∧ c ≠ '.') s := by
  rcases h with rfl | ⟨mark, sign, ds, hmark, -, -, rfl⟩
  · intro c hc
    cases hc
  · intro c hc
    obtain rfl : mark = c := Option.some.inj hc
    rcases hmark with rfl | rfl <;> exact ⟨rfl, by decide⟩

/-- The three parts of a number are read behind its sign. -/
theorem readUnsigned_spelled {sign whole fraction exponent rest : List Char}
    (hwhole : IsWhole whole) (hfraction : IsFraction fraction) (hexponent : IsExponent exponent)
    (hrest : Leads Stops rest) :
    readUnsigned sign (whole ++ (fraction ++ (exponent ++ rest))) =
      if sign ++ fraction ++ exponent = [] then some (natural (Nat.ofDigitChars 10 whole 0), rest)
      else some (numeral (sign ++ whole ++ fraction ++ exponent), rest) := by
  have hstop : Leads (fun c => NoDigit c ∧ c ≠ '.') rest := fun c hc =>
    ⟨(hrest c hc).1, (hrest c hc).2.1⟩
  have hbehind := leads_append (leads_exponent hexponent) hstop
  have hdigits : Leads NoDigit (exponent ++ rest) := fun c hc => (hbehind c hc).1
  have hread := readWhole_spelled hwhole (leads_append (leads_fraction hfraction) hdigits)
  have hmark : Leads (fun c => NoDigit c ∧ c ≠ 'e' ∧ c ≠ 'E') rest := fun c hc =>
    ⟨(hrest c hc).1, (hrest c hc).2.2⟩
  simp only [readUnsigned, hread, readFraction_spelled hfraction hbehind,
    readExponent_spelled hexponent hmark, Option.bind_eq_bind, Option.bind_some]
  by_cases hplain : sign ++ fraction ++ exponent = []
  · rw [if_pos hplain]
    simp only [List.append_eq_nil_iff] at hplain
    obtain ⟨⟨rfl, rfl⟩, rfl⟩ := hplain
    rfl
  · rw [if_neg hplain]
    simp only [List.append_eq_nil_iff, not_and] at hplain
    rw [if_neg]
    · rfl
    · simp only [Bool.and_eq_true, List.isEmpty_iff]
      rintro ⟨⟨hs, hf⟩, he⟩
      exact hplain ⟨hs, hf⟩ he

/-- A number begins with a minus sign or a digit. -/
theorem exists_cons_of_spellsNumber {v : Json} {s : List Char} (h : SpellsNumber v s) :
    ∃ c t, s = c :: t ∧ (c = '-' ∨ c.isDigit = true) := by
  have hwhole : ∀ ds, IsWhole ds → ∃ c t, ds = c :: t ∧ c.isDigit = true := by
    intro ds hds
    obtain ⟨d, ds, rfl⟩ := List.exists_cons_of_ne_nil hds.1.1
    exact ⟨d, ds, rfl, hds.1.2 d List.mem_cons_self⟩
  cases h with
  | natural hds =>
    obtain ⟨c, t, rfl, hc⟩ := hwhole _ hds
    exact ⟨c, t, rfl, .inr hc⟩
  | numeral hsign hds =>
    rcases hsign with rfl | rfl
    · obtain ⟨c, t, rfl, hc⟩ := hwhole _ hds
      exact ⟨c, _, rfl, .inr hc⟩
    · exact ⟨'-', _, rfl, .inl rfl⟩

/-- Without a minus sign in front, a number is read as one without a sign. -/
theorem readNumber_eq {c : Char} {s : List Char} (h : c ≠ '-') :
    readNumber (c :: s) = readUnsigned [] (c :: s) := by
  unfold readNumber
  split
  · rename_i heq
    exact absurd (List.cons.inj heq).1 h
  · rfl

/-- A number is read up to what does not continue it. -/
theorem readNumber_spelled {v : Json} {s rest : List Char} (h : SpellsNumber v s)
    (hrest : Leads Stops rest) : readNumber (s ++ rest) = some (v, rest) := by
  -- Without a sign, the first character is a digit.
  have hunsigned : ∀ ds t, IsWhole ds → readNumber (ds ++ t) = readUnsigned [] (ds ++ t) := by
    intro ds t hds
    obtain ⟨d, ds, rfl⟩ := List.exists_cons_of_ne_nil hds.1.1
    have hdigit := hds.1.2 d List.mem_cons_self
    apply readNumber_eq
    rintro rfl
    exact absurd hdigit (by decide)
  cases h with
  | natural hds =>
    rw [hunsigned _ _ hds]
    exact readUnsigned_spelled hds (.inl rfl) (.inl rfl) hrest
  | @numeral sign whole fraction exponent hsign hds hfraction hexponent hne =>
    have hread := @readUnsigned_spelled sign whole fraction exponent rest hds hfraction
      hexponent hrest
    rw [if_neg hne] at hread
    simp only [List.append_assoc] at hread ⊢
    rcases hsign with rfl | rfl
    · rw [List.nil_append, hunsigned _ _ hds]
      exact hread
    · exact hread

/-! ## One step of the reader -/

/-- A character that begins a value or a member. -/
def Begins (c : Char) : Prop := isBlank c = false ∧ c ≠ ']' ∧ c ≠ '}'

instance (c : Char) : Decidable (Begins c) :=
  inferInstanceAs (Decidable (isBlank c = false ∧ c ≠ ']' ∧ c ≠ '}'))

/-- A digit or a minus sign begins a value. -/
theorem begins_number {c : Char} (h : c = '-' ∨ c.isDigit = true) : Begins c := by
  rcases h with rfl | h
  · decide
  · have hother : ∀ d : Char, d.isDigit = false → c ≠ d := by
      rintro d hd rfl
      rw [h] at hd
      cases hd
    refine ⟨?_, hother _ rfl, hother _ rfl⟩
    simp [isBlank, hother ' ' rfl, hother '\t' rfl, hother '\n' rfl, hother '\r' rfl]

section Steps

variable {fuel : Nat} {b b' s t rest : List Char} {v : Json} {vs : List Json}

/-- What begins like a number is read as one. -/
theorem readValue_number (hb : Blank b) {c : Char} (hc : c = '-' ∨ c.isDigit = true) :
    readValue (fuel + 1) (b ++ c :: s) = readNumber (c :: s) := by
  have hother : ∀ d : Char, d ≠ '-' → d.isDigit = false → c ≠ d := by
    rintro d hminus hd rfl
    rcases hc with hc | hc
    · exact hminus hc
    · rw [hd] at hc
      cases hc
  rw [readValue, skipBlanks_append hb (begins_number hc).1]
  -- What is not a number begins with another character.
  split <;> first
    | rfl
    | rename_i heq
      exact absurd (List.cons.inj heq).1 (hother _ (by decide) rfl)

/-- An array is read from its first element on. -/
theorem readValue_array (hb : Blank b) (hb' : Blank b') {c : Char} (hc : Begins c) :
    readValue (fuel + 1) (b ++ '[' :: (b' ++ c :: s)) =
      (readElements fuel (c :: s)).map fun (vs, rest) => (array vs, rest) := by
  rw [readValue, skipBlanks_append hb rfl]
  simp only [skipBlanks_append hb' hc.1]
  split
  · rename_i heq
    exact absurd (List.cons.inj heq).1 hc.2.1
  · rfl

/-- An object is read from its first member on. -/
theorem readValue_object (hb : Blank b) (hb' : Blank b') {c : Char} (hc : Begins c) :
    readValue (fuel + 1) (b ++ '{' :: (b' ++ c :: s)) =
      (readMembers fuel (c :: s)).map fun (ms, rest) => (object ms, rest) := by
  rw [readValue, skipBlanks_append hb rfl]
  simp only [skipBlanks_append hb' hc.1]
  split
  · rename_i heq
    exact absurd (List.cons.inj heq).1 hc.2.2
  · rfl

/-- The last element of an array. -/
theorem readElements_last (hv : readValue fuel s = some (v, b ++ ']' :: rest)) (hb : Blank b) :
    readElements (fuel + 1) s = some ([v], rest) := by
  have hskip := skipBlanks_append hb (show isBlank ']' = false from rfl) rest
  simp only [readElements, hv, Option.bind_eq_bind, Option.bind_some, hskip]
  rfl

/-- An element with others behind it. -/
theorem readElements_cons (hv : readValue fuel s = some (v, b ++ ',' :: t)) (hb : Blank b)
    (hvs : readElements fuel t = some (vs, rest)) :
    readElements (fuel + 1) s = some (v :: vs, rest) := by
  have hskip := skipBlanks_append hb (show isBlank ',' = false from rfl) t
  simp only [readElements, hv, Option.bind_eq_bind, Option.bind_some, hskip, hvs]
  rfl

section Members

variable {key : Option String} {k b₀ b₁ : List Char} {ms : List (Option String × Json)}

/-- The last member of an object. -/
theorem readMembers_last (hb₀ : Blank b₀) (hk : SpellsLiteral key k) (hb₁ : Blank b₁)
    (hv : readValue fuel s = some (v, b ++ '}' :: rest)) (hb : Blank b) :
    readMembers (fuel + 1) (b₀ ++ '"' :: (k ++ '"' :: (b₁ ++ ':' :: s))) =
      some ([(key, v)], rest) := by
  have hcolon := skipBlanks_append hb₁ (show isBlank ':' = false from rfl) s
  have hend := skipBlanks_append hb (show isBlank '}' = false from rfl) rest
  rw [readMembers, skipBlanks_append hb₀ rfl]
  simp only [readLiteral_spelled hk, Option.bind_eq_bind, Option.bind_some, hcolon, hv, hend]
  rfl

/-- A member with others behind it. -/
theorem readMembers_cons (hb₀ : Blank b₀) (hk : SpellsLiteral key k) (hb₁ : Blank b₁)
    (hv : readValue fuel s = some (v, b ++ ',' :: t)) (hb : Blank b)
    (hms : readMembers fuel t = some (ms, rest)) :
    readMembers (fuel + 1) (b₀ ++ '"' :: (k ++ '"' :: (b₁ ++ ':' :: s))) =
      some ((key, v) :: ms, rest) := by
  have hcolon := skipBlanks_append hb₁ (show isBlank ':' = false from rfl) s
  have hcomma := skipBlanks_append hb (show isBlank ',' = false from rfl) t
  rw [readMembers, skipBlanks_append hb₀ rfl]
  simp only [readLiteral_spelled hk, Option.bind_eq_bind, Option.bind_some, hcolon, hv, hcomma,
    hms]
  rfl

end Members

end Steps

/-! ## The whole reader -/

/-- A value begins with a character that no bracket and no blank is. -/
theorem exists_cons_of_spells {v : Json} {s : List Char} (h : Spells v s) :
    ∃ c t, s = c :: t ∧ Begins c := by
  cases h with
  | number hnumber =>
    obtain ⟨c, t, rfl, hc⟩ := exists_cons_of_spellsNumber hnumber
    exact ⟨c, t, rfl, begins_number hc⟩
  | _ => exact ⟨_, _, rfl, by decide⟩

/-- Elements begin as their first value does. -/
theorem exists_cons_of_spellsElements {vs : List Json} {s : List Char}
    (h : SpellsElements vs s) : ∃ c t, s = c :: t ∧ Begins c := by
  cases h with
  | last hv =>
    obtain ⟨c, t, rfl, hc⟩ := exists_cons_of_spells hv
    exact ⟨c, _, rfl, hc⟩
  | cons hv =>
    obtain ⟨c, t, rfl, hc⟩ := exists_cons_of_spells hv
    exact ⟨c, _, rfl, hc⟩

/-- Members begin with a quote. -/
theorem exists_cons_of_spellsMembers {ms : List (Option String × Json)} {s : List Char}
    (h : SpellsMembers ms s) : ∃ c t, s = c :: t ∧ Begins c := by
  cases h with
  | last hm =>
    cases hm
    exact ⟨'"', _, rfl, by decide⟩
  | cons hm =>
    cases hm
    exact ⟨'"', _, rfl, by decide⟩

/-- Blanks do not continue a number. -/
theorem leads_blank {b : List Char} (hb : Blank b) : Leads Stops b := by
  intro c hc
  have hmem := hb c (List.mem_of_mem_head? hc)
  simp only [List.mem_cons, List.not_mem_nil, or_false] at hmem
  rcases hmem with rfl | rfl | rfl | rfl <;> exact ⟨rfl, by decide⟩

/-- A number ends in front of blanks and a comma or a closing bracket. -/
theorem leads_blank_append {b : List Char} (hb : Blank b) {c : Char} (hc : Stops c)
    (s : List Char) : Leads Stops (b ++ c :: s) := by
  apply leads_append (leads_blank hb)
  intro d hd
  obtain rfl : c = d := Option.some.inj hd
  exact hc

/-- In so many steps, whatever is spelled by half as many characters is read behind blanks. -/
structure Reads (fuel : Nat) : Prop where
  value : ∀ v s, Spells v s → 2 * s.length ≤ fuel → ∀ b rest, Blank b → Leads Stops rest →
    readValue fuel (b ++ (s ++ rest)) = some (v, rest)
  elements : ∀ vs s, SpellsElements vs s → 2 * s.length ≤ fuel → ∀ b rest, Blank b →
    readElements fuel (b ++ (s ++ rest)) = some (vs, rest)
  members : ∀ ms s, SpellsMembers ms s → 2 * s.length ≤ fuel → ∀ b rest, Blank b →
    readMembers fuel (b ++ (s ++ rest)) = some (ms, rest)

section Induction

variable {fuel : Nat}

/-- No steps are enough for no characters. -/
theorem reads_zero : Reads 0 where
  value v s h hlen := by
    obtain ⟨c, t, rfl, -⟩ := exists_cons_of_spells h
    cases hlen
  elements vs s h hlen := by
    obtain ⟨c, t, rfl, -⟩ := exists_cons_of_spellsElements h
    cases hlen
  members ms s h hlen := by
    obtain ⟨c, t, rfl, -⟩ := exists_cons_of_spellsMembers h
    cases hlen

/-- With one step more, values are read. -/
theorem Reads.value_succ (h : Reads fuel) {v : Json} {s : List Char} (hs : Spells v s)
    (hlen : 2 * s.length ≤ fuel + 1) {b rest : List Char} (hb : Blank b)
    (hrest : Leads Stops rest) : readValue (fuel + 1) (b ++ (s ++ rest)) = some (v, rest) := by
  cases hs with
  | null =>
    rw [readValue, List.cons_append, skipBlanks_append hb rfl]
    rfl
  | true =>
    rw [readValue, List.cons_append, skipBlanks_append hb rfl]
    rfl
  | false =>
    rw [readValue, List.cons_append, skipBlanks_append hb rfl]
    rfl
  | number hnumber =>
    obtain ⟨c, t, rfl, hc⟩ := exists_cons_of_spellsNumber hnumber
    rw [List.cons_append, readValue_number hb hc]
    exact readNumber_spelled hnumber hrest
  | string hliteral =>
    rw [readValue, List.cons_append, skipBlanks_append hb rfl, List.append_assoc]
    show (readLiteral (_ ++ '"' :: rest)).map _ = _
    rw [readLiteral_spelled hliteral, Option.map_some]
  | emptyArray hb' =>
    rw [readValue, List.cons_append, skipBlanks_append hb rfl, List.append_assoc,
      List.singleton_append]
    simp only [skipBlanks_append hb' (show isBlank ']' = false from rfl)]
  | array hb' hvs =>
    obtain ⟨c, t, rfl, hc⟩ := exists_cons_of_spellsElements hvs
    rw [List.cons_append, List.append_assoc, List.cons_append, readValue_array hb hb' hc]
    have hread := h.elements _ _ hvs (by simp at hlen ⊢; omega) [] rest (by simp [Blank])
    rw [List.nil_append, List.cons_append] at hread
    rw [hread, Option.map_some]
  | emptyObject hb' =>
    rw [readValue, List.cons_append, skipBlanks_append hb rfl, List.append_assoc,
      List.singleton_append]
    simp only [skipBlanks_append hb' (show isBlank '}' = false from rfl)]
  | object hb' hms =>
    obtain ⟨c, t, rfl, hc⟩ := exists_cons_of_spellsMembers hms
    rw [List.cons_append, List.append_assoc, List.cons_append, readValue_object hb hb' hc]
    have hread := h.members _ _ hms (by simp at hlen ⊢; omega) [] rest (by simp [Blank])
    rw [List.nil_append, List.cons_append] at hread
    rw [hread, Option.map_some]

/-- With one step more, elements are read. -/
theorem Reads.elements_succ (h : Reads fuel) {vs : List Json} {s : List Char}
    (hs : SpellsElements vs s) (hlen : 2 * s.length ≤ fuel + 1) {b rest : List Char}
    (hb : Blank b) : readElements (fuel + 1) (b ++ (s ++ rest)) = some (vs, rest) := by
  cases hs with
  | last hv hb' =>
    have hstop := leads_blank_append hb' (show Stops ']' by decide) rest
    have hread := h.value _ _ hv (by simp at hlen ⊢; omega) b _ hb hstop
    simp only [List.append_assoc, List.singleton_append]
    exact readElements_last hread hb'
  | @cons v vs s b' b'' t hv hb' hb'' hvs =>
    simp only [List.append_assoc, List.cons_append]
    have hothers := h.elements _ _ hvs (by simp at hlen ⊢; omega) b'' rest hb''
    have hstop := leads_blank_append hb' (show Stops ',' by decide) (b'' ++ (t ++ rest))
    have hread := h.value _ _ hv (by simp at hlen ⊢; omega) b _ hb hstop
    exact readElements_cons hread hb' hothers

/-- With one step more, members are read. -/
theorem Reads.members_succ (h : Reads fuel) {ms : List (Option String × Json)} {s : List Char}
    (hs : SpellsMembers ms s) (hlen : 2 * s.length ≤ fuel + 1) {b rest : List Char}
    (hb : Blank b) : readMembers (fuel + 1) (b ++ (s ++ rest)) = some (ms, rest) := by
  cases hs with
  | last hm hb' =>
    obtain ⟨hk, hb₁, hb₂, hv⟩ := hm
    have hstop := leads_blank_append hb' (show Stops '}' by decide) rest
    have hread := h.value _ _ hv (by simp at hlen ⊢; omega) _ _ hb₂ hstop
    simp only [List.append_assoc, List.cons_append, List.nil_append]
    exact readMembers_last hb hk hb₁ hread hb'
  | @cons m ms s b' b'' t hm hb' hb'' hms =>
    obtain ⟨hk, hb₁, hb₂, hv⟩ := hm
    simp only [List.append_assoc, List.cons_append]
    have hothers := h.members _ _ hms (by simp at hlen ⊢; omega) b'' rest hb''
    have hstop := leads_blank_append hb' (show Stops ',' by decide) (b'' ++ (t ++ rest))
    have hread := h.value _ _ hv (by simp at hlen ⊢; omega) _ _ hb₂ hstop
    exact readMembers_cons hb hk hb₁ hread hb' hothers

/-- Two steps for every character are enough. -/
theorem read_spelled (fuel : Nat) : Reads fuel := by
  induction fuel with
  | zero => exact reads_zero
  | succ fuel ih =>
    exact ⟨fun _ _ hs hlen _ _ hb hrest => ih.value_succ hs hlen hb hrest,
      fun _ _ hs hlen _ _ hb => ih.elements_succ hs hlen hb,
      fun _ _ hs hlen _ _ hb => ih.members_succ hs hlen hb⟩

end Induction

/-- A text that spells a value is read as this value. -/
theorem parse?_spelled {v : Json} {text : String} (h : SpellsDocument v text) :
    parse? text = some v := by
  obtain ⟨b, s, b', hb, hs, hb', htext⟩ := h
  have hread : readValue (2 * text.toList.length + 2) text.toList = some (v, b') := by
    rw [htext]
    apply (read_spelled _).value v s hs _ b b' hb (leads_blank hb')
    simp
    omega
  unfold parse?
  simp only [hread, skipBlanks_eq_nil hb', if_true]

end Json

end Heterodyne
