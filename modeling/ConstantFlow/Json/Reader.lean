import ConstantFlow.Json.Basic
import ConstantFlow.Json.Quoted

/-!
# Reading JSON

`Json.parse` reads a whole text as one value: spaces, tabs, carriage returns
and line feeds may stand between the parts, and nothing else may follow.  There
are no comments, no comma may trail, and a number has no superfluous zero in
front, no bare point and no plus sign.

The readers take the characters that are left and give a value with the
characters after it.  They are bounded by a count of steps.  Every step takes a
character away, so the length of the text is enough.  How deep a value may be
is not a matter of its text: a reader that has a limit asks `Json.depth`, or
counts as it decodes.
-/

namespace ConstantFlow.Json

/-- The blanks between the parts of a text. -/
def isBlank (c : Char) : Bool := c == ' ' || c == '\t' || c == '\r' || c == '\n'

/-- The characters from the first that is not blank. -/
def skipBlank (text : List Char) : List Char := text.dropWhile isBlank

/-! ## Numbers -/

/-- The digits at the front of a text, at least one. -/
def readDigits (text : List Char) : Option (List Char × List Char) :=
  match text.takeWhile Char.isDigit with
  | [] => none
  | digits => some (digits, text.dropWhile Char.isDigit)

/-- The digits before the point: a zero, or digits that do not start with it. -/
def readWhole : List Char → Option (Nat × List Char)
  | '0' :: rest => some (0, rest)
  | text => (readDigits text).map fun (digits, rest) => (Nat.ofDigitChars 10 digits 0, rest)

/-- The digits after the point, if there is one. -/
def readFraction : List Char → Option (List (Fin 10) × List Char)
  | '.' :: rest => (readDigits rest).map fun (digits, rest) => (digits.map digitValue, rest)
  | text => some ([], text)

/-- The sign of an exponent, plus if there is none. -/
def readSign : List Char → Bool × List Char
  | '-' :: rest => (true, rest)
  | '+' :: rest => (false, rest)
  | text => (false, text)

/-- The exponent of a number, after its letter. -/
def readExponent (text : List Char) : Option (Option Int × List Char) :=
  let (negative, text) := readSign text
  (readDigits text).map fun (digits, rest) =>
    let size : Int := Nat.ofDigitChars 10 digits 0
    (some (if negative then -size else size), rest)

/-- Whether there is a minus in front, and what follows it. -/
def readMinus : List Char → Bool × List Char
  | '-' :: rest => (true, rest)
  | text => (false, text)

/-- A number. -/
def readNumber (text : List Char) : Option (Number × List Char) := do
  let (negative, text) := readMinus text
  let (whole, text) ← readWhole text
  let (fraction, text) ← readFraction text
  match text with
  | 'e' :: rest | 'E' :: rest => do
      let (exponent, rest) ← readExponent rest
      return (⟨negative, whole, fraction, exponent⟩, rest)
  | text => return (⟨negative, whole, fraction, none⟩, text)

/-! ## Values -/

mutual

/-- A value, blanks before it skipped. -/
def readValue : Nat → List Char → Option (Json × List Char)
  | 0, _ => none
  | steps + 1, text =>
      match skipBlank text with
      | '\x7b' :: rest =>
          match skipBlank rest with
          | '\x7d' :: rest => some (.object [], rest)
          | rest => (readMembers steps rest).map fun (members, rest) => (.object members, rest)
      | '[' :: rest =>
          match skipBlank rest with
          | ']' :: rest => some (.array [], rest)
          | rest => (readItems steps rest).map fun (items, rest) => (.array items, rest)
      | '"' :: rest => (unquote rest).map fun (text, rest) => (.string text, rest)
      | 'n' :: 'u' :: 'l' :: 'l' :: rest => some (.null, rest)
      | 't' :: 'r' :: 'u' :: 'e' :: rest => some (.bool true, rest)
      | 'f' :: 'a' :: 'l' :: 's' :: 'e' :: rest => some (.bool false, rest)
      | text => (readNumber text).map fun (value, rest) => (.number value, rest)

/-- The items of an array from the first, with its closing bracket. -/
def readItems : Nat → List Char → Option (List Json × List Char)
  | 0, _ => none
  | steps + 1, text => do
      let (item, text) ← readValue steps text
      match skipBlank text with
      | ',' :: rest => do
          let (items, rest) ← readItems steps rest
          return (item :: items, rest)
      | ']' :: rest => return ([item], rest)
      | _ => none

/-- The members of an object from the first, with its closing brace. -/
def readMembers : Nat → List Char → Option (List (Text × Json) × List Char)
  | 0, _ => none
  | steps + 1, text =>
      match skipBlank text with
      | '"' :: rest => do
          let (key, rest) ← unquote rest
          match skipBlank rest with
          | ':' :: rest => do
              let (value, rest) ← readValue steps rest
              match skipBlank rest with
              | ',' :: rest => do
                  let (members, rest) ← readMembers steps rest
                  return ((key, value) :: members, rest)
              | '\x7d' :: rest => return ([(key, value)], rest)
              | _ => none
          | _ => none
      | _ => none

end

/-- The value that a whole text denotes, if it denotes one. -/
def parse (text : String) : Option Json :=
  let chars := text.toList
  match readValue (chars.length + 1) chars with
  | some (value, rest) => if (skipBlank rest).isEmpty then some value else none
  | none => none

end ConstantFlow.Json
