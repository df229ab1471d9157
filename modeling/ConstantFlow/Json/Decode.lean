import ConstantFlow.Json.Floating

/-!
# Decoding JSON

A decoder takes a budget, how many arrays and objects may still be opened, and
a value.  It opens one only while the budget lasts.  A value that no decoder
asks for, such as the value of an unknown field, costs nothing however deep it
is.

* A record is an object with its fields in any order, or an array with exactly
  all of them in the declared order.  In an object an unknown field is skipped,
  a repeated one is refused, and only an optional one may be missing.
* A choice is the name of an alternative without content, or an object with one
  member, named for the alternative.  An alternative without content has `null`
  there.
* An integer is written without a point or an exponent and lies in its range.
* A floating-point number is any number in the range of the 64-bit format.  For
  32 bits it is rounded a second time, and only an integer in the range of a
  word is rounded to them at once.
-/

namespace ConstantFlow.Json

/-! ## Scalars -/

/-- The text of a string. -/
def text? : Json → Option String
  | .string text => text
  | _ => none

/-- The text of a string, or nothing for `null` or a field that is missing. -/
def optionalText? : Option Json → Option (Option String)
  | none | some .null => some none
  | some value => value.text?.map some

/-- A whole number from `low` to `high`. -/
def intIn? (low high : Int) : Json → Option Int
  | .number n => n.int?.bind fun value => if low ≤ value ∧ value ≤ high then some value else none
  | _ => none

/-- A signed number of 32 bits. -/
def int32? (value : Json) : Option Int32 :=
  (value.intIn? Int32.minValue.toInt Int32.maxValue.toInt).map Int32.ofInt

/-- A signed number of 64 bits. -/
def int64? (value : Json) : Option Int64 :=
  (value.intIn? Int64.minValue.toInt Int64.maxValue.toInt).map Int64.ofInt

/-- An unsigned number of 64 bits. -/
def word? (value : Json) : Option Nat :=
  (value.intIn? 0 (UInt64.size - 1 : Nat)).map Int.toNat

/-- Whether the number is written as an integer in the range of a signed or an
unsigned word. -/
def Number.isWord (n : Number) : Bool :=
  n.fraction.isEmpty && n.exponent.isNone &&
    if n.negative then n.whole ≤ Int64.minValue.toInt.natAbs else n.whole < UInt64.size

/-- A 64-bit floating-point number. -/
def binary64? : Json → Option Binary64
  | .number n => n.binary64?
  | _ => none

/-- A 32-bit floating-point number. -/
def binary32? : Json → Option Binary32
  | .number n =>
      if n.isWord then some (.ofRatio n.negative n.whole 1) else n.binary64?.map Binary.convert
  | _ => none

/-! ## Arrays, records and choices -/

/-- The items of an array. -/
def list? {α : Type} (item : Nat → Json → Option α) : Nat → Json → Option (List α)
  | budget + 1, .array items => items.mapM (item budget)
  | _, _ => none

/-- The members of an object, if every key has a text. -/
def texts? (members : List (Text × Json)) : Option (List (String × Json)) :=
  members.mapM fun member => member.1.map fun key => (key, member.2)

/-- The field of a name, which may be missing but not repeated. -/
def field? (members : List (String × Json)) (name : String) : Option (Option Json) :=
  match members.filter fun member => member.1 == name with
  | [] => some none
  | [member] => some (some member.2)
  | _ => none

/-- The fields of a record in the declared order.  Opening it is the caller's
to count. -/
def fields? (names : List String) : Json → Option (List (Option Json))
  | .array items => if items.length = names.length then some (items.map some) else none
  | .object members => (texts? members).bind fun members => names.mapM (field? members)
  | _ => none

/-- The alternative without content that a value names. -/
def bare? : Nat → Json → Option String
  | _, .string name => name
  | _ + 1, .object [(name, .null)] => name
  | _, _ => none

end ConstantFlow.Json
