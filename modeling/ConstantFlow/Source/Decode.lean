import ConstantFlow.Json.Decode
import ConstantFlow.Json.Reader
import ConstantFlow.Source.Program

/-!
# Programs from JSON

Types, operators, locations, expressions and statements are choices, and
declarations, procedures and programs are records.  At most `nesting` arrays
and objects may be open at once.

The decoders of types and expressions recurse on the budget: a part is inside
an array or object of the whole, so its budget is smaller.
-/

namespace ConstantFlow

open Json

/-- How many arrays and objects may be open at once. -/
def Source.nesting : Nat := 127

/-! ## Types -/

/-- The type that a name without content stands for. -/
def Ty.ofName? : String → Option Ty
  | "Byte" => some (.primitive .byte)
  | "Short" => some (.primitive .short)
  | "Int" => some (.primitive .int)
  | "Long" => some (.primitive .long)
  | "Float" => some (.primitive .float)
  | "Double" => some (.primitive .double)
  | "Char" => some (.primitive .char)
  | "Boolean" => some (.primitive .boolean)
  | "Null" => some .null
  | "Void" => some .void
  | _ => none

/-- A declared type. -/
def Ty.decode : Nat → Json → Option Ty
  | _, .string name => name.bind ofName?
  | _ + 1, .object [(some "Class", name)] => name.text?.map .named
  | budget + 1, .object [(some "Array", element)] => (decode budget element).map .array
  | _ + 1, .object [(name, .null)] => name.bind ofName?
  | _, _ => none

/-! ## Expressions -/

/-- The operator of a name. -/
def BinaryOp.ofName? : String → Option BinaryOp
  | "Add" => some (.arithmetic .add)
  | "Sub" => some (.arithmetic .sub)
  | "Mul" => some (.arithmetic .mul)
  | "Div" => some (.arithmetic .div)
  | "Rem" => some (.arithmetic .rem)
  | "Eq" => some (.relational .eq)
  | "Ne" => some (.relational .ne)
  | "Ge" => some (.relational .ge)
  | "Le" => some (.relational .le)
  | "Gt" => some (.relational .gt)
  | "Lt" => some (.relational .lt)
  | "Shl" => some (.shift .shl)
  | "Shr" => some (.shift .shr)
  | "Ushr" => some (.shift .ushr)
  | "And" => some (.bitwise .and)
  | "Or" => some (.bitwise .or)
  | "Xor" => some (.bitwise .xor)
  | _ => none

/-- A binary operator. -/
def BinaryOp.decode (budget : Nat) (value : Json) : Option BinaryOp :=
  (value.bare? budget).bind ofName?

/-- The names of a call or of a list of parameters. -/
def Source.decodeNames : Nat → Json → Option (List String) := list? fun _ => text?

/-- The expression that a name without content stands for. -/
def Exp.ofName? : String → Option (Exp String)
  | "NullLiteral" => some (.literal .null)
  | _ => none

/-- An expression. -/
def Exp.decode : Nat → Json → Option (Exp String)
  | _, .string name => name.bind ofName?
  | _ + 1, .object [(some "Var", name)] => name.text?.map .var
  | _ + 1, .object [(some "IntLiteral", value)] => value.int32?.map .int
  | _ + 1, .object [(some "LongLiteral", value)] => value.int64?.map fun n => .literal (.long n)
  | _ + 1, .object [(some "FloatLiteral", value)] =>
      value.binary32?.map fun x => .literal (.float x)
  | _ + 1, .object [(some "DoubleLiteral", value)] =>
      value.binary64?.map fun x => .literal (.double x)
  | _ + 1, .object [(some "StringLiteral", value)] =>
      value.text?.map fun s => .literal (.string s)
  | _ + 1, .object [(some "NullLiteral", .null)] => some (.literal .null)
  | _ + 1, .object [(some "ClassLiteral", name)] => name.text?.map fun s => .literal (.named s)
  | budget + 2, .object [(some "Binary", value)] =>
      match fields? ["op", "lhs", "rhs"] value with
      | some [some op, some lhs, some rhs] => do
          return .binary (← BinaryOp.decode budget op) (← decode budget lhs) (← decode budget rhs)
      | _ => none
  | budget + 1, .object [(some "Neg", operand)] => (decode budget operand).map .neg
  | budget + 2, .object [(some "Cast", value)] =>
      match fields? ["ty", "operand"] value with
      | some [some type, some operand] => do
          return .cast (← Ty.decode budget type) (← decode budget operand)
      | _ => none
  | budget + 2, .object [(some "InstanceOf", value)] =>
      match fields? ["operand", "ty"] value with
      | some [some operand, some type] => do
          return .instanceOf (← decode budget operand) (← Ty.decode budget type)
      | _ => none
  | budget + 2, .object [(some "Invoke", value)] =>
      match fields? ["callee", "args"] value with
      | some [some callee, some args] => do
          return .call (← callee.text?) (← Source.decodeNames budget args)
      | _ => none
  | budget + 1, .object [(some "New", type)] => (Ty.decode budget type).map .new
  | _ + 2, .object [(some "FieldAccess", value)] =>
      match fields? ["base", "field"] value with
      | some [base, some name] => do
          return .field (← optionalText? base) (← name.text?)
      | _ => none
  | budget + 2, .object [(some "ArrayAccess", value)] =>
      match fields? ["base", "index"] value with
      | some [some base, some index] => do
          return .element (← base.text?) (← decode budget index)
      | _ => none
  | _ + 1, .object [(some "ArrayLength", base)] => base.text?.map .length
  | _, _ => none

/-! ## Statements -/

/-- What a definition assigns to. -/
def Location.decode : Nat → Json → Option (Location String)
  | _ + 1, .object [(some "Var", name)] => name.text?.map .var
  | _ + 2, .object [(some "FieldAccess", value)] =>
      match fields? ["base", "field"] value with
      | some [base, some name] => do
          return .field (← optionalText? base) (← name.text?)
      | _ => none
  | budget + 2, .object [(some "ArrayAccess", value)] =>
      match fields? ["base", "index"] value with
      | some [some base, some index] => do
          return .element (← base.text?) (← Exp.decode budget index)
      | _ => none
  | _, _ => none

/-- A case of a switch: a label and a target. -/
def Source.decodeCase : Nat → Json → Option (Int32 × Nat)
  | _ + 1, .array [label, target] => do
      return (← label.int32?, ← target.word?)
  | _, _ => none

/-- The statement that a name without content stands for. -/
def Stmt.ofName? : String → Option (Stmt String)
  | "Nop" => some .nop
  | _ => none

/-- A statement. -/
def Stmt.decode : Nat → Json → Option (Stmt String)
  | _, .string name => name.bind ofName?
  | budget + 2, .object [(some "Definition", value)] =>
      match fields? ["lvalue", "rvalue"] value with
      | some [some location, some value] => do
          return .define (← Location.decode budget location) (← Exp.decode budget value)
      | _ => none
  | budget + 1, .object [(some "Invoke", call)] => (Exp.decode budget call).map .invoke
  | _ + 2, .object [(some "Goto", value)] =>
      match fields? ["target"] value with
      | some [some target] => target.word?.map .goto
      | _ => none
  | budget + 2, .object [(some "If", value)] =>
      match fields? ["condition", "target"] value with
      | some [some test, some target] => do
          return .branch (← Exp.decode budget test) (← target.word?)
      | _ => none
  | budget + 2, .object [(some "Switch", value)] =>
      match fields? ["var", "cases", "default"] value with
      | some [some subject, some cases, some otherwise] => do
          return .switch (← subject.text?) (← list? Source.decodeCase budget cases)
            (← otherwise.word?)
      | _ => none
  | _ + 2, .object [(some "Return", value)] =>
      match fields? ["value"] value with
      | some [value] => (optionalText? value).map .ret
      | _ => none
  | _ + 2, .object [(some "Throw", value)] =>
      match fields? ["exception"] value with
      | some [some exception] => exception.text?.map .raise
      | _ => none
  | _ + 1, .object [(some "Nop", .null)] => some .nop
  | _, _ => none

/-! ## Procedures and programs -/

namespace Source

/-- The declaration of a variable. -/
def Declaration.decode : Nat → Json → Option Declaration
  | budget + 1, value =>
      match fields? ["name", "ty"] value with
      | some [some name, some type] => do
          return ⟨← name.text?, ← Ty.decode budget type⟩
      | _ => none
  | 0, _ => none

/-- A procedure. -/
def Procedure.decode : Nat → Json → Option Procedure
  | budget + 1, value =>
      match fields? ["name", "vars", "params", "stmts"] value with
      | some [some name, some vars, some params, some body] => do
          return ⟨← name.text?, ← list? Declaration.decode budget vars,
            ← decodeNames budget params, ← list? Stmt.decode budget body⟩
      | _ => none
  | 0, _ => none

/-- A program. -/
def Program.decode : Nat → Json → Option Program
  | budget + 1, value =>
      match fields? ["procedures"] value with
      | some [some procedures] => do
          return ⟨← list? Procedure.decode budget procedures⟩
      | _ => none
  | 0, _ => none

/-- The program that a text denotes, if it denotes one. -/
def Program.parse (text : String) : Option Program :=
  (Json.parse text).bind (Program.decode nesting)

end Source

/-- The expression that a text denotes, if it denotes one. -/
def Exp.parse (text : String) : Option (Exp String) :=
  (Json.parse text).bind (Exp.decode Source.nesting)

/-- The statement that a text denotes, if it denotes one. -/
def Stmt.parse (text : String) : Option (Stmt String) :=
  (Json.parse text).bind (Stmt.decode Source.nesting)

/-- The statements that a text denotes, if it denotes a list of them. -/
def Stmt.parseList (text : String) : Option (List (Stmt String)) :=
  (Json.parse text).bind (list? Stmt.decode Source.nesting)

end ConstantFlow
