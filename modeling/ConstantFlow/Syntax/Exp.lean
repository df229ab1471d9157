import ConstantFlow.Decimal.Layout
import ConstantFlow.Syntax.Ty

/-!
# Expressions

An expression is written over a type `ν` of variables.  A program as it is read
has names for variables, a checked one has declared variables, and checking an
expression is `Exp.traverse` with a lookup of names.  `Exp.map` goes the other
way.

Operators come in four families: arithmetic, relational, shift and bitwise.
Division and remainder are the two that trap, on a zero divisor.  A relational
operator at the root makes an expression a test.
-/

namespace ConstantFlow

/-! ## Operators -/

/-- The arithmetic operators. -/
inductive ArithmeticOp
  | add | sub | mul | div | rem
deriving DecidableEq

/-- The relational operators. -/
inductive RelationalOp
  | eq | ne | ge | le | gt | lt
deriving DecidableEq

/-- The shift operators.  `shr` keeps the sign and `ushr` does not. -/
inductive ShiftOp
  | shl | shr | ushr
deriving DecidableEq

/-- The bitwise operators. -/
inductive BitwiseOp
  | and | or | xor
deriving DecidableEq

/-- A binary operator. -/
inductive BinaryOp
  | arithmetic (op : ArithmeticOp)
  | relational (op : RelationalOp)
  | shift (op : ShiftOp)
  | bitwise (op : BitwiseOp)
deriving DecidableEq

namespace BinaryOp

/-- Whether the operator divides, and so traps on a zero divisor. -/
def isDivision : BinaryOp → Bool
  | .arithmetic .div | .arithmetic .rem => true
  | _ => false

/-- The symbol of an operator. -/
def symbol : BinaryOp → String
  | .arithmetic .add => "+"
  | .arithmetic .sub => "-"
  | .arithmetic .mul => "*"
  | .arithmetic .div => "/"
  | .arithmetic .rem => "%"
  | .relational .eq => "=="
  | .relational .ne => "!="
  | .relational .ge => ">="
  | .relational .le => "<="
  | .relational .gt => ">"
  | .relational .lt => "<"
  | .shift .shl => "<<"
  | .shift .shr => ">>"
  | .shift .ushr => ">>>"
  | .bitwise .and => "&"
  | .bitwise .or => "|"
  | .bitwise .xor => "^"

end BinaryOp

/-! ## Expressions -/

/-- A literal other than an int. -/
inductive Literal
  | long (value : Int64)
  | float (value : Binary32)
  | double (value : Binary64)
  | string (value : String)
  | null
  | named (name : String)
deriving DecidableEq

/-- An expression over variables of type `ν`. -/
inductive Exp (ν : Type)
  /-- A local variable. -/
  | var (x : ν)
  /-- An int literal. -/
  | int (value : Int32)
  /-- Any other literal. -/
  | literal (value : Literal)
  /-- A binary operation. -/
  | binary (op : BinaryOp) (lhs rhs : Exp ν)
  /-- Arithmetic negation. -/
  | neg (operand : Exp ν)
  /-- A conversion to a type. -/
  | cast (type : Ty) (operand : Exp ν)
  /-- A test of the type of a value. -/
  | instanceOf (operand : Exp ν) (type : Ty)
  /-- A call. -/
  | call (callee : String) (args : List ν)
  /-- The allocation of an object or an array. -/
  | new (type : Ty)
  /-- A field, static when there is no base. -/
  | field (base : Option ν) (name : String)
  /-- An element of an array. -/
  | element (base : ν) (index : Exp ν)
  /-- The length of an array. -/
  | length (base : ν)
deriving DecidableEq

namespace Exp

variable {ν μ : Type}

/-- Whether the expression is a test, that is, relational at the root. -/
def isTest : Exp ν → Bool
  | .binary (.relational _) _ _ => true
  | _ => false

/-- Whether the expression is a call. -/
def isCall : Exp ν → Bool
  | .call _ _ => true
  | _ => false

/-- The expression with every variable renamed. -/
def map (f : ν → μ) : Exp ν → Exp μ
  | .var x => .var (f x)
  | .int value => .int value
  | .literal value => .literal value
  | .binary op lhs rhs => .binary op (lhs.map f) (rhs.map f)
  | .neg operand => .neg (operand.map f)
  | .cast type operand => .cast type (operand.map f)
  | .instanceOf operand type => .instanceOf (operand.map f) type
  | .call callee args => .call callee (args.map f)
  | .new type => .new type
  | .field base name => .field (base.map f) name
  | .element base index => .element (f base) (index.map f)
  | .length base => .length (f base)

/-- The variables of an expression, from left to right. -/
def vars : Exp ν → List ν
  | .var x => [x]
  | .int _ | .literal _ | .new _ => []
  | .binary _ lhs rhs => lhs.vars ++ rhs.vars
  | .neg operand | .cast _ operand | .instanceOf operand _ => operand.vars
  | .call _ args => args
  | .field base _ => base.toList
  | .element base index => base :: index.vars
  | .length base => [base]

/-- The variables at the leaves of the binary operations at the root. -/
def operands : Exp ν → List ν
  | .var x => [x]
  | .binary _ lhs rhs => lhs.operands ++ rhs.operands
  | _ => []

/-- The expression with every variable looked up, from left to right.  The
first failure is the result. -/
def traverse {ε : Type} (f : ν → Except ε μ) : Exp ν → Except ε (Exp μ)
  | .var x => return .var (← f x)
  | .int value => return .int value
  | .literal value => return .literal value
  | .binary op lhs rhs => do
      let lhs ← lhs.traverse f
      let rhs ← rhs.traverse f
      return .binary op lhs rhs
  | .neg operand => return .neg (← operand.traverse f)
  | .cast type operand => return .cast type (← operand.traverse f)
  | .instanceOf operand type => return .instanceOf (← operand.traverse f) type
  | .call callee args => return .call callee (← args.mapM f)
  | .new type => return .new type
  | .field base name => return .field (← base.mapM f) name
  | .element base index => do
      let base ← f base
      let index ← index.traverse f
      return .element base index
  | .length base => return .length (← f base)

end Exp

/-! ## Texts -/

/-- The text of a literal.  The characters of a string are shown as they are. -/
def Literal.text : Literal → String
  | .long value => toString value.toInt ++ "L"
  | .float value => value.text ++ "F"
  | .double value => value.text
  | .string value => "\"" ++ value ++ "\""
  | .null => "null"
  | .named name => name ++ ".class"

/-- The text of a member: its name, after its base if it has one. -/
def memberText (base : Option String) (name : String) : String :=
  match base with
  | none => name
  | some base => base ++ "." ++ name

namespace Exp

/-- Whether the expression stands in parentheses where it is an operand. -/
def isGrouped {ν : Type} : Exp ν → Bool
  | .binary _ _ _ | .cast _ _ | .instanceOf _ _ => true
  | _ => false

/-- A text in parentheses, where they are called for. -/
def group (grouped : Bool) (text : String) : String :=
  if grouped then "(" ++ text ++ ")" else text

/-- The text of an expression over names. -/
def text : Exp String → String
  | .var x => x
  | .int value => toString value.toInt
  | .literal value => value.text
  | .binary op lhs rhs =>
      group lhs.isGrouped lhs.text ++ " " ++ op.symbol ++ " " ++ group rhs.isGrouped rhs.text
  | .neg operand => "-" ++ group operand.isGrouped operand.text
  | .cast type operand => "(" ++ type.text ++ ") " ++ group operand.isGrouped operand.text
  | .instanceOf operand type =>
      group operand.isGrouped operand.text ++ " instanceof " ++ type.text
  | .call callee args => callee ++ "(" ++ ", ".intercalate args ++ ")"
  | .new type => "new " ++ type.text
  | .field base name => memberText base name
  | .element base index => base ++ "[" ++ index.text ++ "]"
  | .length base => base ++ ".length"

end Exp

/-! ## Examples -/

/-- Only operands are grouped, and a negation is no group of its own. -/
example :
    (Exp.binary (.arithmetic .sub) (.var "a")
      (.neg (.binary (.arithmetic .mul) (.int (-2)) (.var "b")))).text = "a - -(-2 * b)" := by
  decide

end ConstantFlow
