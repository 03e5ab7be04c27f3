import Heterodyne.Json.Basic
/-!
# Reading documents

The strict grammar: no trailing commas, no leading zeros, no control characters in literals,
nothing behind the value but blanks.
-/

namespace Heterodyne

namespace Json

/-! ## Literals -/

/-- The code points of a literal up to its closing quote, and the text behind it. -/
def readCodes : List Char → Option (List Nat × List Char)
  | [] => none
  | '"' :: rest => some ([], rest)
  | '\\' :: 'u' :: a :: b :: c :: d :: rest => do
    let n := (← hexValue? a) * 4096 + (← hexValue? b) * 256 + (← hexValue? c) * 16
      + (← hexValue? d)
    let (codes, rest) ← readCodes rest
    return (n :: codes, rest)
  | '\\' :: c :: rest => do
    let n ← escaped? c
    let (codes, rest) ← readCodes rest
    return (n :: codes, rest)
  | c :: rest =>
    if c = '\\' ∨ c.toNat < 0x20 then none
    else (readCodes rest).map fun (codes, rest) => (c.toNat :: codes, rest)

/-- What a literal stands for, from behind its opening quote, and the text behind it. -/
def readLiteral (s : List Char) : Option (Option String × List Char) :=
  (readCodes s).map fun (codes, rest) => ((combine codes).map String.ofList, rest)

/-! ## Numbers -/

/-- At least one digit. -/
def readDigits (s : List Char) : Option (List Char × List Char) :=
  match s.takeWhile Char.isDigit with
  | [] => none
  | ds => some (ds, s.dropWhile Char.isDigit)

/-- The whole part of a number, which has no leading zeros. -/
def readWhole (s : List Char) : Option (List Char × List Char) :=
  match readDigits s with
  | some ('0' :: _ :: _, _) => none
  | result => result

/-- The fraction of a number, if a point follows. -/
def readFraction : List Char → Option (List Char × List Char)
  | '.' :: s => (readDigits s).map fun (ds, rest) => ('.' :: ds, rest)
  | s => some ([], s)

/-- The digits of an exponent behind its sign. -/
def readPower (lead : List Char) : List Char → Option (List Char × List Char)
  | '+' :: s => (readDigits s).map fun (ds, rest) => (lead ++ '+' :: ds, rest)
  | '-' :: s => (readDigits s).map fun (ds, rest) => (lead ++ '-' :: ds, rest)
  | s => (readDigits s).map fun (ds, rest) => (lead ++ ds, rest)

/-- The exponent of a number, if its mark follows. -/
def readExponent : List Char → Option (List Char × List Char)
  | 'e' :: s => readPower ['e'] s
  | 'E' :: s => readPower ['E'] s
  | s => some ([], s)

/-- The number that digits write. -/
def ofDigits (ds : List Char) : Nat :=
  ds.foldl (fun n c => 10 * n + (c.toNat - '0'.toNat)) 0

/-- A number, whose sign has been read. -/
def readUnsigned (sign : List Char) (s : List Char) : Option (Json × List Char) := do
  let (whole, rest) ← readWhole s
  let (fraction, rest) ← readFraction rest
  let (exponent, rest) ← readExponent rest
  if sign.isEmpty && fraction.isEmpty && exponent.isEmpty then
    return (natural (ofDigits whole), rest)
  else
    return (numeral (sign ++ whole ++ fraction ++ exponent), rest)

/-- A number. -/
def readNumber : List Char → Option (Json × List Char)
  | '-' :: s => readUnsigned ['-'] s
  | s => readUnsigned [] s

/-! ## Values -/

mutual

/-- A value, and the text behind it. -/
def readValue : (fuel : Nat) → List Char → Option (Json × List Char)
  | 0, _ => none
  | fuel + 1, s =>
    match skipBlanks s with
    | '{' :: rest =>
      match skipBlanks rest with
      | '}' :: rest => some (object [], rest)
      | rest => (readMembers fuel rest).map fun (ms, rest) => (object ms, rest)
    | '[' :: rest =>
      match skipBlanks rest with
      | ']' :: rest => some (array [], rest)
      | rest => (readElements fuel rest).map fun (vs, rest) => (array vs, rest)
    | '"' :: rest => (readLiteral rest).map fun (text, rest) => (string text, rest)
    | 'n' :: 'u' :: 'l' :: 'l' :: rest => some (null, rest)
    | 't' :: 'r' :: 'u' :: 'e' :: rest => some (bool true, rest)
    | 'f' :: 'a' :: 'l' :: 's' :: 'e' :: rest => some (bool false, rest)
    | rest => readNumber rest

/-- The elements of an array from the first one on, and the text behind the closing bracket. -/
def readElements : (fuel : Nat) → List Char → Option (List Json × List Char)
  | 0, _ => none
  | fuel + 1, s => do
    let (v, rest) ← readValue fuel s
    match skipBlanks rest with
    | ',' :: rest =>
      let (vs, rest) ← readElements fuel rest
      return (v :: vs, rest)
    | ']' :: rest => return ([v], rest)
    | _ => none

/-- The members of an object from the first one on, and the text behind the closing brace. -/
def readMembers : (fuel : Nat) → List Char → Option (List (Option String × Json) × List Char)
  | 0, _ => none
  | fuel + 1, s =>
    match skipBlanks s with
    | '"' :: rest => do
      let (key, rest) ← readLiteral rest
      match skipBlanks rest with
      | ':' :: rest =>
        let (v, rest) ← readValue fuel rest
        match skipBlanks rest with
        | ',' :: rest =>
          let (ms, rest) ← readMembers fuel rest
          return ((key, v) :: ms, rest)
        | '}' :: rest => return ([(key, v)], rest)
        | _ => none
      | _ => none
    | _ => none

end

/-- The value of a whole text. Every second step of the reader takes a character. -/
def parse? (text : String) : Option Json :=
  let s := text.toList
  match readValue (2 * s.length + 2) s with
  | some (v, rest) => if skipBlanks rest = [] then some v else none
  | none => none

end Json

end Heterodyne
