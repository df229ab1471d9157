import ConstantFlow.Decimal.Shortest
import ConstantFlow.Json.Printer
import ConstantFlow.Source.Program

/-!
# Programs to JSON

A choice without content is its name, any other is an object with one member.
The fields of a record come in the declared order, and an optional one that is
missing is `null`.

A floating-point number has the fewest digits that read back, and of two
shortest decimals that are equally near the even one.  It is written in full
while its leading digit is worth `10 ^ -5` to `10 ^ 15`, or `10 ^ -6` to
`10 ^ 12` in the 32-bit format, with at least one digit after the point, and
with an exponent otherwise.  Infinity has no form and is `null`.
-/

namespace ConstantFlow

open Json

/-- A choice with content. -/
def Json.choice (name : String) (content : Json) : Json := .record [(name, content)]

/-! ## Floating-point numbers -/

/-- The powers of ten of a leading digit for which a number is written in full. -/
structure FullRange where
  /-- The least power. -/
  low : Int
  /-- The greatest power. -/
  high : Int

/-- The range of the 32-bit format. -/
def FullRange.single : FullRange := ⟨-6, 12⟩

/-- The range of the 64-bit format. -/
def FullRange.double : FullRange := ⟨-5, 15⟩

/-- A decimal magnitude written in full, with a digit after the point. -/
def Scientific.full (x : Scientific) (negative : Bool) : Number :=
  match x.exponent with
  | .ofNat k => ⟨negative, x.digits * tenTo k, [digitValue '0'], none⟩
  | .negSucc k =>
      let places := k + 1
      let fraction := digitsOf (x.digits % tenTo places)
      let zeros := List.replicate (places - fraction.length) (digitValue '0')
      ⟨negative, x.digits / tenTo places, zeros ++ fraction, none⟩

/-- A decimal magnitude written with an exponent. -/
def Scientific.powered (x : Scientific) (negative : Bool) : Number :=
  match digitsOf x.digits with
  | [] => ⟨negative, 0, [], none⟩
  | lead :: fraction => ⟨negative, lead.val, fraction, some (x.exponent + fraction.length)⟩

/-- A finite number as it is written. -/
def Binary.toNumber {f : Format} (range : FullRange) (x : Binary f) : Number :=
  let decimal := x.shortest .even
  let leading : Int := decimal.exponent + ((Nat.toDigits 10 decimal.digits).length - 1 : Nat)
  if range.low ≤ leading ∧ leading ≤ range.high then decimal.full x.negative
  else decimal.powered x.negative

/-- A floating-point number, `null` when it is infinite. -/
def Binary.toJson {f : Format} (range : FullRange) (x : Binary f) : Json :=
  if x.isInfinite then .null else .number (x.toNumber range)

/-! ## Types -/

/-- The name of a primitive type. -/
def Primitive.tag : Primitive → String
  | .byte => "Byte"
  | .short => "Short"
  | .int => "Int"
  | .long => "Long"
  | .float => "Float"
  | .double => "Double"
  | .char => "Char"
  | .boolean => "Boolean"

/-- A declared type. -/
def Ty.toJson : Ty → Json
  | .primitive type => .text type.tag
  | .named name => choice "Class" (.text name)
  | .array element => choice "Array" element.toJson
  | .null => .text "Null"
  | .void => .text "Void"

/-! ## Expressions -/

/-- The name of an operator. -/
def BinaryOp.tag : BinaryOp → String
  | .arithmetic .add => "Add"
  | .arithmetic .sub => "Sub"
  | .arithmetic .mul => "Mul"
  | .arithmetic .div => "Div"
  | .arithmetic .rem => "Rem"
  | .relational .eq => "Eq"
  | .relational .ne => "Ne"
  | .relational .ge => "Ge"
  | .relational .le => "Le"
  | .relational .gt => "Gt"
  | .relational .lt => "Lt"
  | .shift .shl => "Shl"
  | .shift .shr => "Shr"
  | .shift .ushr => "Ushr"
  | .bitwise .and => "And"
  | .bitwise .or => "Or"
  | .bitwise .xor => "Xor"

/-- A literal other than an int. -/
def Literal.toJson : Literal → Json
  | .long value => choice "LongLiteral" (.int value.toInt)
  | .float value => choice "FloatLiteral" (value.toJson .single)
  | .double value => choice "DoubleLiteral" (value.toJson .double)
  | .string value => choice "StringLiteral" (.text value)
  | .null => .text "NullLiteral"
  | .named name => choice "ClassLiteral" (.text name)

/-- An expression. -/
def Exp.toJson : Exp String → Json
  | .var x => choice "Var" (.text x)
  | .int value => choice "IntLiteral" (.int value.toInt)
  | .literal value => value.toJson
  | .binary op lhs rhs =>
      choice "Binary" (.record [("op", .text op.tag), ("lhs", lhs.toJson), ("rhs", rhs.toJson)])
  | .neg operand => choice "Neg" operand.toJson
  | .cast type operand =>
      choice "Cast" (.record [("ty", type.toJson), ("operand", operand.toJson)])
  | .instanceOf operand type =>
      choice "InstanceOf" (.record [("operand", operand.toJson), ("ty", type.toJson)])
  | .call callee args =>
      choice "Invoke" (.record [("callee", .text callee), ("args", .array (args.map .text))])
  | .new type => choice "New" type.toJson
  | .field base name =>
      choice "FieldAccess" (.record [("base", .ofOption .text base), ("field", .text name)])
  | .element base index =>
      choice "ArrayAccess" (.record [("base", .text base), ("index", index.toJson)])
  | .length base => choice "ArrayLength" (.text base)

/-! ## Statements -/

/-- What a definition assigns to. -/
def Location.toJson : Location String → Json
  | .var x => choice "Var" (.text x)
  | .field base name =>
      choice "FieldAccess" (.record [("base", .ofOption .text base), ("field", .text name)])
  | .element base index =>
      choice "ArrayAccess" (.record [("base", .text base), ("index", index.toJson)])

/-- A case of a switch. -/
def Source.caseToJson (item : Int32 × Nat) : Json :=
  .array [.int item.1.toInt, .nat item.2]

/-- A statement. -/
def Stmt.toJson : Stmt String → Json
  | .define location value =>
      choice "Definition" (.record [("lvalue", location.toJson), ("rvalue", value.toJson)])
  | .invoke call => choice "Invoke" call.toJson
  | .goto target => choice "Goto" (.record [("target", .nat target)])
  | .branch test target =>
      choice "If" (.record [("condition", test.toJson), ("target", .nat target)])
  | .switch subject cases otherwise =>
      choice "Switch" (.record [("var", .text subject),
        ("cases", .array (cases.map Source.caseToJson)), ("default", .nat otherwise)])
  | .ret value => choice "Return" (.record [("value", .ofOption .text value)])
  | .raise exception => choice "Throw" (.record [("exception", .text exception)])
  | .nop => .text "Nop"

/-! ## Procedures and programs -/

namespace Source

/-- The declaration of a variable. -/
def Declaration.toJson (d : Declaration) : Json :=
  .record [("name", .text d.name), ("ty", d.type.toJson)]

/-- A procedure. -/
def Procedure.toJson (p : Procedure) : Json :=
  .record [("name", .text p.name), ("vars", .array (p.vars.map Declaration.toJson)),
    ("params", .array (p.params.map .text)), ("stmts", .array (p.body.map Stmt.toJson))]

/-- A program. -/
def Program.toJson (program : Program) : Json :=
  .record [("procedures", .array (program.procedures.map Procedure.toJson))]

/-- The compact text of a program. -/
def Program.text (program : Program) : String := program.toJson.compact

end Source

end ConstantFlow
