import ConstantFlow.Json.Basic
import ConstantFlow.Json.Quoted

/-!
# Printing JSON

There are two layouts.

* The compact layout has no blanks at all.
* The indented layout gives every item and every member a line of its own, two
  spaces deeper than its array or object, and a space after a colon.  An empty
  array is `[]` and an empty object is two braces.

A number is printed as it was written, except that an exponent always has a
sign and a small `e`.  A string without a text has no printed form of its own,
and is printed as `null`.
-/

namespace ConstantFlow.Json

/-! ## Scalars -/

/-- The exponent of a number. -/
def printExponent : Option Int → List Char
  | none => []
  | some exponent =>
      'e' :: (if exponent < 0 then '-' else '+') :: Nat.toDigits 10 exponent.natAbs

/-- The digits after the point, with the point. -/
def printFraction : List (Fin 10) → List Char
  | [] => []
  | digits => '.' :: digits.map fun d => Nat.digitChar d.val

/-- A number. -/
def printNumber (n : Number) : List Char :=
  (if n.negative then ['-'] else []) ++ Nat.toDigits 10 n.whole ++ printFraction n.fraction ++
    printExponent n.exponent

/-- A string, if it has a text. -/
def printText : Text → List Char
  | none => ['n', 'u', 'l', 'l']
  | some text => quote text

/-- A truth value. -/
def printBool : Bool → List Char
  | true => ['t', 'r', 'u', 'e']
  | false => ['f', 'a', 'l', 's', 'e']

/-! ## The compact layout -/

mutual

/-- A value without blanks. -/
def print : Json → List Char
  | .null => ['n', 'u', 'l', 'l']
  | .bool value => printBool value
  | .number value => printNumber value
  | .string text => printText text
  | .array items => '[' :: printItems items
  | .object members => '\x7b' :: printMembers members

/-- The items of an array with its closing bracket. -/
def printItems : List Json → List Char
  | [] => [']']
  | [item] => print item ++ [']']
  | item :: rest => print item ++ ',' :: printItems rest

/-- The members of an object with its closing brace. -/
def printMembers : List (Text × Json) → List Char
  | [] => ['\x7d']
  | [(key, value)] => printText key ++ ':' :: print value ++ ['\x7d']
  | (key, value) :: rest => printText key ++ ':' :: print value ++ ',' :: printMembers rest

end

/-- The compact text of a value. -/
def compact (value : Json) : String := String.ofList value.print

/-! ## The indented layout -/

/-- A new line at a depth. -/
def newline (depth : Nat) : List Char := '\n' :: List.replicate (2 * depth) ' '

mutual

/-- A value whose first line has been indented to a depth. -/
def printAt (depth : Nat) : Json → List Char
  | .null => ['n', 'u', 'l', 'l']
  | .bool value => printBool value
  | .number value => printNumber value
  | .string text => printText text
  | .array [] => ['[', ']']
  | .array items => '[' :: newline (depth + 1) ++ printItemsAt depth items
  | .object [] => ['\x7b', '\x7d']
  | .object members => '\x7b' :: newline (depth + 1) ++ printMembersAt depth members

/-- The items of an array at a depth, with its closing bracket. -/
def printItemsAt (depth : Nat) : List Json → List Char
  | [] => newline depth ++ [']']
  | [item] => printAt (depth + 1) item ++ newline depth ++ [']']
  | item :: rest =>
      printAt (depth + 1) item ++ ',' :: newline (depth + 1) ++ printItemsAt depth rest

/-- The members of an object at a depth, with its closing brace. -/
def printMembersAt (depth : Nat) : List (Text × Json) → List Char
  | [] => newline depth ++ ['\x7d']
  | [(key, value)] =>
      printText key ++ ':' :: ' ' :: printAt (depth + 1) value ++ newline depth ++ ['\x7d']
  | (key, value) :: rest =>
      printText key ++ ':' :: ' ' :: printAt (depth + 1) value ++
        ',' :: newline (depth + 1) ++ printMembersAt depth rest

end

/-- The indented text of a value. -/
def pretty (value : Json) : String := String.ofList (value.printAt 0)

end ConstantFlow.Json
