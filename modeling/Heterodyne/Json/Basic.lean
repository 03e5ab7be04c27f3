/-!
# Documents

The values of the JSON grammar, the parts that documents are made of, and what a string literal
stands for.

* `optional_none`, `optional_some`: a member is written exactly where there is a value.
* `not_surrogate`: no character is half of a surrogate pair.
-/

namespace Heterodyne

/-- A value of the grammar. A literal whose escapes leave a surrogate unpaired follows the
grammar but stands for no text, which is written `none`. -/
inductive Json where
  | null
  | bool (b : Bool)
  /-- A number written as an integer without a sign. -/
  | natural (n : Nat)
  /-- Any other number, as it is written. -/
  | numeral (literal : List Char)
  | string (text : Option String)
  | array (elements : List Json)
  | object (members : List (Option String × Json))

namespace Json

/-! ## Parts of documents -/

/-- A text. -/
def text (s : String) : Json := .string (some s)

/-- A count. -/
def count (n : UInt32) : Json := .natural n.toNat

/-- A member of an object. -/
def member (key : String) (v : Json) : Option String × Json := (some key, v)

/-- A member that is left out where there is no value. -/
def optional {β : Type} (key : String) (write : β → Json) (v : Option β) :
    List (Option String × Json) :=
  (v.map fun b => member key (write b)).toList

/-- Without a value there is no member. -/
@[simp] theorem optional_none {β : Type} (key : String) (write : β → Json) :
    optional key write none = [] := rfl

/-- A value is written as one member. -/
@[simp] theorem optional_some {β : Type} (key : String) (write : β → Json) (b : β) :
    optional key write (some b) = [member key (write b)] := rfl

/-! ## Code points of a literal -/

/-- The first halves of surrogate pairs. -/
def isHighSurrogate (n : Nat) : Bool := 0xD800 ≤ n && n < 0xDC00

/-- The second halves of surrogate pairs. -/
def isLowSurrogate (n : Nat) : Bool := 0xDC00 ≤ n && n < 0xE000

/-- The character of a surrogate pair. -/
def pairedChar (high low : Nat) : Char :=
  Char.ofNat (0x10000 + (high - 0xD800) * 0x400 + (low - 0xDC00))

/-- Both halves of surrogate pairs. -/
def isSurrogate (n : Nat) : Bool := isHighSurrogate n || isLowSurrogate n

/-- The characters of a literal's code points, if all surrogates among them are paired. -/
def combine : List Nat → Option (List Char)
  | [] => some []
  | [n] => if isSurrogate n then none else some [Char.ofNat n]
  | n :: low :: rest =>
    if isHighSurrogate n && isLowSurrogate low then
      (combine rest).map (pairedChar n low :: ·)
    else if isSurrogate n then none
    else (combine (low :: rest)).map (Char.ofNat n :: ·)

/-- No character is half of a surrogate pair. -/
theorem not_surrogate (c : Char) :
    isHighSurrogate c.toNat = false ∧ isSurrogate c.toNat = false := by
  have h : c.toNat < 0xD800 ∨ (0xDFFF < c.toNat ∧ c.toNat < 0x110000) := c.valid
  simp only [isSurrogate, isLowSurrogate, isHighSurrogate, Bool.or_eq_false_iff,
    Bool.and_eq_false_iff, decide_eq_false_iff_not]
  omega

/-! ## Characters of the grammar -/

/-- Blanks between the parts of a value. -/
def isBlank (c : Char) : Bool := c == ' ' || c == '\t' || c == '\n' || c == '\r'

/-- The text behind leading blanks. -/
def skipBlanks (s : List Char) : List Char := s.dropWhile isBlank

/-- The value of a hexadecimal digit in either case. -/
def hexValue? (c : Char) : Option Nat :=
  if '0' ≤ c ∧ c ≤ '9' then some (c.toNat - '0'.toNat)
  else if 'a' ≤ c ∧ c ≤ 'f' then some (c.toNat - 'a'.toNat + 10)
  else if 'A' ≤ c ∧ c ≤ 'F' then some (c.toNat - 'A'.toNat + 10)
  else none

/-- The code point that a one-character escape stands for. -/
def escaped? : Char → Option Nat
  | '"' => some 0x22
  | '\\' => some 0x5C
  | '/' => some 0x2F
  | 'b' => some 0x08
  | 'f' => some 0x0C
  | 'n' => some 0x0A
  | 'r' => some 0x0D
  | 't' => some 0x09
  | _ => none

end Json

end Heterodyne
