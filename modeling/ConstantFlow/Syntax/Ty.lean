/-!
# Declared types

Eight primitive types, classes by qualified name, arrays, the type of `null`
and `void`.  The analyses follow 32-bit integers, so the one question asked of
a type is whether a variable of it can hold an int: `byte`, `short`, `int`,
`char` and `boolean` can, and nothing else.
-/

namespace ConstantFlow

/-- The primitive types. -/
inductive Primitive
  | byte | short | int | long | float | double | char | boolean
deriving DecidableEq

/-- Whether a variable of the primitive type can hold an int. -/
def Primitive.holdsInt : Primitive → Bool
  | .byte | .short | .int | .char | .boolean => true
  | .long | .float | .double => false

/-- The keyword of a primitive type. -/
def Primitive.text : Primitive → String
  | .byte => "byte"
  | .short => "short"
  | .int => "int"
  | .long => "long"
  | .float => "float"
  | .double => "double"
  | .char => "char"
  | .boolean => "boolean"

/-- A declared type. -/
inductive Ty
  /-- A primitive type. -/
  | primitive (type : Primitive)
  /-- A class or interface, by qualified name. -/
  | named (name : String)
  /-- An array. -/
  | array (element : Ty)
  /-- The type of the `null` literal. -/
  | null
  /-- No value. -/
  | void
deriving DecidableEq

namespace Ty

/-- Whether a variable of the type can hold an int. -/
def holdsInt : Ty → Bool
  | .primitive type => type.holdsInt
  | .named _ | .array _ | .null | .void => false

/-- The text of a type: an array is its element followed by brackets. -/
def text : Ty → String
  | .primitive type => type.text
  | .named name => name
  | .array element => element.text ++ "[]"
  | .null => "null"
  | .void => "void"

end Ty

end ConstantFlow
