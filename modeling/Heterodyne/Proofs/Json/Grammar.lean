import Heterodyne.Json.Basic
/-!
# The grammar of documents

Which texts spell a value, in productions that do not mention any reader: blanks between the
parts, literals with or without escapes, numbers without leading zeros, no trailing commas.

* `SpellsLiteral`: a literal spells a text character by character, and a character beyond the
  basic plane may be written as a surrogate pair.
* `Spells`: a value is spelled.
* `SpellsDocument`: a text is a spelled value between blanks.
-/

namespace Heterodyne

namespace Json

/-- Nothing but blanks. -/
def Blank (s : List Char) : Prop := ∀ c ∈ s, c ∈ [' ', '\t', '\n', '\r']

instance (s : List Char) : Decidable (Blank s) :=
  List.decidableBAll (fun c => c ∈ [' ', '\t', '\n', '\r']) s

/-! ## Literals -/

/-- A hexadecimal digit in either case. -/
def IsHex (c : Char) (n : Nat) : Prop :=
  n < 16 ∧ (c = Nat.digitChar n ∨ c = (Nat.digitChar n).toUpper)

instance (c : Char) (n : Nat) : Decidable (IsHex c n) :=
  inferInstanceAs (Decidable (n < 16 ∧ (c = Nat.digitChar n ∨ c = (Nat.digitChar n).toUpper)))

/-- The escapes of one character and the codes that they stand for. -/
def shortEscapes : List (Char × Nat) :=
  [('"', 0x22), ('\\', 0x5C), ('/', 0x2F), ('b', 0x08), ('f', 0x0C), ('n', 0x0A), ('r', 0x0D),
    ('t', 0x09)]

/-- One code of a literal: a character, or an escape. -/
inductive SpellsCode : Nat → List Char → Prop
  /-- A character that needs no escape. -/
  | plain (c : Char) : c ≠ '"' → c ≠ '\\' → 0x20 ≤ c.toNat → SpellsCode c.toNat [c]
  /-- An escape of one character. -/
  | short (c : Char) (n : Nat) : (c, n) ∈ shortEscapes → SpellsCode n ['\\', c]
  /-- An escape of four hexadecimal digits. -/
  | unit (a b c d : Char) (i j k l : Nat) : IsHex a i → IsHex b j → IsHex c k → IsHex d l →
      SpellsCode (i * 4096 + j * 256 + k * 16 + l) ['\\', 'u', a, b, c, d]

/-- The codes of a literal. -/
inductive SpellsCodes : List Nat → List Char → Prop
  | nil : SpellsCodes [] []
  | cons {n : Nat} {ns : List Nat} {s t : List Char} :
      SpellsCode n s → SpellsCodes ns t → SpellsCodes (n :: ns) (s ++ t)

/-- Codes stand for characters, alone or in surrogate pairs. -/
inductive StandFor : List Nat → List Char → Prop
  | nil : StandFor [] []
  | single (c : Char) {ns : List Nat} {cs : List Char} :
      StandFor ns cs → StandFor (c.toNat :: ns) (c :: cs)
  | pair (c : Char) (high low : Nat) {ns : List Nat} {cs : List Char} :
      0xD800 ≤ high → high < 0xDC00 → 0xDC00 ≤ low → low < 0xE000 →
      c.toNat = 0x10000 + (high - 0xD800) * 0x400 + (low - 0xDC00) →
      StandFor ns cs → StandFor (high :: low :: ns) (c :: cs)

/-- What is between the quotes of a literal. There is no text if a surrogate is unpaired. -/
def SpellsLiteral : Option String → List Char → Prop
  | some text, s => ∃ ns, SpellsCodes ns s ∧ StandFor ns text.toList
  | none, s => ∃ ns, SpellsCodes ns s ∧ ∀ cs, ¬ StandFor ns cs

/-! ## Numbers -/

/-- At least one digit. -/
def IsDigits (ds : List Char) : Prop := ds ≠ [] ∧ ∀ c ∈ ds, c.isDigit = true

/-- Digits without leading zeros. -/
def IsWhole (ds : List Char) : Prop := IsDigits ds ∧ ∀ rest, ds = '0' :: rest → rest = []

/-- Digits behind a point, or nothing. -/
def IsFraction (s : List Char) : Prop := s = [] ∨ ∃ ds, IsDigits ds ∧ s = '.' :: ds

/-- A sign or none. -/
def IsSign (s : List Char) : Prop := s = [] ∨ s = ['+'] ∨ s = ['-']

/-- Digits behind a mark and a sign, or nothing. -/
def IsExponent (s : List Char) : Prop :=
  s = [] ∨ ∃ mark sign ds, (mark = 'e' ∨ mark = 'E') ∧ IsSign sign ∧ IsDigits ds ∧
    s = mark :: (sign ++ ds)

/-- A number. -/
inductive SpellsNumber : Json → List Char → Prop
  /-- The digits of an integer without a sign. -/
  | natural {ds : List Char} : IsWhole ds → SpellsNumber (natural (Nat.ofDigitChars 10 ds 0)) ds
  /-- Any other number, which has a sign, a fraction or an exponent. -/
  | numeral {sign whole fraction exponent : List Char} : sign = [] ∨ sign = ['-'] →
      IsWhole whole → IsFraction fraction → IsExponent exponent →
      sign ++ fraction ++ exponent ≠ [] →
      SpellsNumber (numeral (sign ++ whole ++ fraction ++ exponent))
        (sign ++ whole ++ fraction ++ exponent)

/-! ## Values -/

mutual

/-- A value. -/
inductive Spells : Json → List Char → Prop
  | null : Spells null ['n', 'u', 'l', 'l']
  | true : Spells (bool true) ['t', 'r', 'u', 'e']
  | false : Spells (bool false) ['f', 'a', 'l', 's', 'e']
  | number {v : Json} {s : List Char} : SpellsNumber v s → Spells v s
  | string {text : Option String} {s : List Char} :
      SpellsLiteral text s → Spells (string text) ('"' :: (s ++ ['"']))
  | emptyArray {b : List Char} : Blank b → Spells (array []) ('[' :: (b ++ [']']))
  | array {vs : List Json} {b s : List Char} :
      Blank b → SpellsElements vs s → Spells (array vs) ('[' :: (b ++ s))
  | emptyObject {b : List Char} : Blank b → Spells (object []) ('{' :: (b ++ ['}']))
  | object {ms : List (Option String × Json)} {b s : List Char} :
      Blank b → SpellsMembers ms s → Spells (object ms) ('{' :: (b ++ s))

/-- The elements of an array from the first one to the closing bracket. -/
inductive SpellsElements : List Json → List Char → Prop
  | last {v : Json} {s b : List Char} :
      Spells v s → Blank b → SpellsElements [v] (s ++ (b ++ [']']))
  | cons {v : Json} {vs : List Json} {s b b' t : List Char} :
      Spells v s → Blank b → Blank b' → SpellsElements vs t →
      SpellsElements (v :: vs) (s ++ (b ++ ',' :: (b' ++ t)))

/-- The members of an object from the first one to the closing brace. -/
inductive SpellsMembers : List (Option String × Json) → List Char → Prop
  | last {m : Option String × Json} {s b : List Char} :
      SpellsMember m s → Blank b → SpellsMembers [m] (s ++ (b ++ ['}']))
  | cons {m : Option String × Json} {ms : List (Option String × Json)} {s b b' t : List Char} :
      SpellsMember m s → Blank b → Blank b' → SpellsMembers ms t →
      SpellsMembers (m :: ms) (s ++ (b ++ ',' :: (b' ++ t)))

/-- The name of a member and its value. -/
inductive SpellsMember : Option String × Json → List Char → Prop
  | mk {key : Option String} {v : Json} {k b b' s : List Char} :
      SpellsLiteral key k → Blank b → Blank b' → Spells v s →
      SpellsMember (key, v) ('"' :: (k ++ '"' :: (b ++ ':' :: (b' ++ s))))

end

/-- A text that spells a value between blanks. -/
def SpellsDocument (v : Json) (text : String) : Prop :=
  ∃ b s b', Blank b ∧ Spells v s ∧ Blank b' ∧ text.toList = b ++ (s ++ b')

end Json

end Heterodyne
