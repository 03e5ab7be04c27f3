import Heterodyne.Json.Basic
/-!
# Writing documents

The compact form of a value: no blanks, and escapes only where the grammar asks for them.
-/

namespace Heterodyne

namespace Json

/-- The lower-case hexadecimal digit of a number below sixteen. -/
def hexDigit (n : Nat) : Char := Nat.digitChar n

/-- A character in a literal. Quotes, backslashes and control characters are escaped. -/
def writeChar (c : Char) : List Char :=
  if c = '"' then ['\\', '"']
  else if c = '\\' then ['\\', '\\']
  else if c = '\n' then ['\\', 'n']
  else if c = '\r' then ['\\', 'r']
  else if c = '\t' then ['\\', 't']
  else if c.toNat = 0x08 then ['\\', 'b']
  else if c.toNat = 0x0C then ['\\', 'f']
  else if c.toNat < 0x20 then
    ['\\', 'u', '0', '0', hexDigit (c.toNat / 16), hexDigit (c.toNat % 16)]
  else [c]

/-- A literal. One that stands for no text is written as a lone surrogate. -/
def writeLiteral : Option String → List Char
  | some text => '"' :: text.toList.flatMap writeChar ++ ['"']
  | none => ['"', '\\', 'u', 'd', '8', '0', '0', '"']

mutual

/-- A value. -/
def write : Json → List Char
  | null => ['n', 'u', 'l', 'l']
  | bool true => ['t', 'r', 'u', 'e']
  | bool false => ['f', 'a', 'l', 's', 'e']
  | natural n => Nat.toDigits 10 n
  | numeral literal => literal
  | string text => writeLiteral text
  | array [] => ['[', ']']
  | array (v :: vs) => '[' :: write v ++ writeElements vs
  | object [] => ['{', '}']
  | object ((key, v) :: ms) => '{' :: writeLiteral key ++ ':' :: write v ++ writeMembers ms

/-- The elements behind the first one, and the closing bracket. -/
def writeElements : List Json → List Char
  | [] => [']']
  | v :: vs => ',' :: write v ++ writeElements vs

/-- The members behind the first one, and the closing brace. -/
def writeMembers : List (Option String × Json) → List Char
  | [] => ['}']
  | (key, v) :: ms => ',' :: writeLiteral key ++ ':' :: write v ++ writeMembers ms

end

/-- The compact text of a value. -/
def render (v : Json) : String := String.ofList (write v)

end Json

end Heterodyne
