/-!
# Quoted strings

A string stands between double quotes.  The printer escapes a quote, a
backslash and the control characters, which have a short form or four
hexadecimal digits, and leaves all else as it is.

The reader takes every escape of the format.  An escape by hexadecimal digits
gives a UTF-16 unit: two that form a surrogate pair are one character, and half
of a pair leaves the string without a text.  A control character may not stand
unescaped.
-/

namespace ConstantFlow.Json

/-! ## Hexadecimal digits -/

/-- The value of a hexadecimal digit, in either case. -/
def hexValue (c : Char) : Option Nat :=
  if '0' ≤ c ∧ c ≤ '9' then some (c.toNat - 48)
  else if 'a' ≤ c ∧ c ≤ 'f' then some (c.toNat - 87)
  else if 'A' ≤ c ∧ c ≤ 'F' then some (c.toNat - 55)
  else none

/-- The unit that four hexadecimal digits name. -/
def hexUnit (a b c d : Char) : Option Nat := do
  let a ← hexValue a
  let b ← hexValue b
  let c ← hexValue c
  let d ← hexValue d
  return ((a * 16 + b) * 16 + c) * 16 + d

/-- Whether a unit opens a surrogate pair. -/
def opensPair (unit : Nat) : Bool := 0xD800 ≤ unit && unit < 0xDC00

/-- Whether a unit closes a surrogate pair. -/
def closesPair (unit : Nat) : Bool := 0xDC00 ≤ unit && unit < 0xE000

/-- The character of a surrogate pair. -/
def pairChar (high low : Nat) : Char :=
  Char.ofNat (0x10000 + (high - 0xD800) * 0x400 + (low - 0xDC00))

/-! ## Printing -/

/-- The written form of a character. -/
def escape (c : Char) : List Char :=
  if c = '"' then ['\\', '"']
  else if c = '\\' then ['\\', '\\']
  else if c.toNat < 0x20 then
    if c.toNat = 0x08 then ['\\', 'b']
    else if c.toNat = 0x09 then ['\\', 't']
    else if c.toNat = 0x0A then ['\\', 'n']
    else if c.toNat = 0x0C then ['\\', 'f']
    else if c.toNat = 0x0D then ['\\', 'r']
    else ['\\', 'u', '0', '0', Nat.digitChar (c.toNat / 16), Nat.digitChar (c.toNat % 16)]
  else [c]

/-- The written form of a string, quotes included. -/
def quote (text : String) : List Char :=
  '"' :: (text.toList.flatMap escape ++ ['"'])

/-! ## Reading -/

/-- The character of an escape of one letter. -/
def shortEscape : Char → Option Char
  | '"' => some '"'
  | '\\' => some '\\'
  | '/' => some '/'
  | 'b' => some (Char.ofNat 0x08)
  | 'f' => some (Char.ofNat 0x0C)
  | 'n' => some '\n'
  | 'r' => some '\r'
  | 't' => some '\t'
  | _ => none

/-- A part of a string as it is read: a character, or a unit by its digits. -/
inductive Piece
  | char (c : Char)
  | unit (value : Nat)

/-- The parts of the string whose opening quote has been read, with what follows
its closing quote.  The parts so far are collected in reverse. -/
def readPieces (acc : List Piece) : List Char → Option (List Piece × List Char)
  | [] => none
  | '"' :: rest => some (acc.reverse, rest)
  | '\\' :: 'u' :: a :: b :: c :: d :: rest =>
      match hexUnit a b c d with
      | none => none
      | some value => readPieces (.unit value :: acc) rest
  | '\\' :: letter :: rest =>
      match shortEscape letter with
      | none => none
      | some c => readPieces (.char c :: acc) rest
  | c :: rest => if c.toNat < 0x20 then none else readPieces (.char c :: acc) rest

/-- The text of some parts, if no unit is half of a surrogate pair without the
other half right after it.  The characters so far are collected in reverse. -/
def joinPieces (acc : List Char) : List Piece → Option String
  | [] => some (String.ofList acc.reverse)
  | .char c :: rest => joinPieces (c :: acc) rest
  | .unit high :: .unit low :: rest =>
      if opensPair high && closesPair low then joinPieces (pairChar high low :: acc) rest
      else if opensPair high || closesPair high then none
      else joinPieces (Char.ofNat high :: acc) (.unit low :: rest)
  | .unit value :: rest =>
      if opensPair value || closesPair value then none
      else joinPieces (Char.ofNat value :: acc) rest

/-- The string whose opening quote has been read, with what follows its closing
quote.  The string has no text if an escape is half of a surrogate pair. -/
def unquote (text : List Char) : Option (Option String × List Char) :=
  (readPieces [] text).map fun (pieces, rest) => (joinPieces [] pieces, rest)

/-! ## Examples -/

example : unquote ['a', '\\', 'u', '0', '0', '4', '1', '"', 'x'] = some (some "aA", ['x']) := by
  decide

/-- Half of a surrogate pair is well formed, but has no text. -/
example : unquote ['\\', 'u', 'd', '8', '0', '0', '"'] = some (none, []) := by decide

end ConstantFlow.Json
