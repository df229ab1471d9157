/-!
# JSON values

A value is kept as it is written, as far as any reader of it may care.

* A number keeps its digits, so an integer of any size, a fraction and a
  negative zero stay apart.
* An object keeps its members in order, repeated keys included.
* A string may escape half of a surrogate pair.  Such a string is well formed
  but has no text, and a reader that wants its text refuses it.

`Json.depth` is how many arrays and objects are open at once at the deepest
point.
-/

namespace ConstantFlow

/-- A number as it is written. -/
structure Json.Number where
  /-- Whether there is a minus sign. -/
  negative : Bool
  /-- The digits before the point, as one number. -/
  whole : Nat
  /-- The digits after the point.  There is no point when there are none. -/
  fraction : List (Fin 10)
  /-- The exponent, if one is written. -/
  exponent : Option Int
deriving DecidableEq

/-- The text of a string, if its escapes form one. -/
abbrev Json.Text := Option String

/-- A JSON value. -/
inductive Json
  | null
  | bool (value : Bool)
  | number (value : Json.Number)
  | string (text : Json.Text)
  | array (items : List Json)
  | object (members : List (Json.Text × Json))

namespace Json

/-! ## Digits -/

/-- The value of a decimal digit. -/
def digitValue (c : Char) : Fin 10 := Fin.ofNat 10 (c.toNat - 48)

/-- The digits of a number. -/
def digitsOf (n : Nat) : List (Fin 10) := (Nat.toDigits 10 n).map digitValue

/-! ## Building values -/

/-- A whole number as it is written. -/
def Number.ofInt (value : Int) : Number := ⟨value < 0, value.natAbs, [], none⟩

/-- A string with a text. -/
def text (value : String) : Json := .string (some value)

/-- A whole number. -/
def int (value : Int) : Json := .number (.ofInt value)

/-- A count. -/
def nat (value : Nat) : Json := .int value

/-- A value or `null`. -/
def ofOption {α : Type} (toJson : α → Json) : Option α → Json
  | none => .null
  | some value => toJson value

/-- An object with the members in order. -/
def record (members : List (String × Json)) : Json :=
  .object (members.map fun member => (some member.1, member.2))

/-! ## Reading numbers -/

/-- The whole number, if it is written as one.  A negative zero is not. -/
def Number.int? (n : Number) : Option Int :=
  if n.fraction.isEmpty ∧ n.exponent.isNone then
    if n.negative then (if n.whole = 0 then none else some (-n.whole)) else some n.whole
  else none

/-! ## Depth -/

mutual

/-- How many arrays and objects are open at once at the deepest point. -/
def depth : Json → Nat
  | .array items => depthItems items + 1
  | .object members => depthMembers members + 1
  | .null | .bool _ | .number _ | .string _ => 0

/-- The greatest depth among the items of an array. -/
def depthItems : List Json → Nat
  | [] => 0
  | item :: rest => max (depth item) (depthItems rest)

/-- The greatest depth among the members of an object. -/
def depthMembers : List (Text × Json) → Nat
  | [] => 0
  | (_, value) :: rest => max (depth value) (depthMembers rest)

end

end Json

end ConstantFlow
