import ConstantFlow.Syntax.Exp
import ConstantFlow.Program.Var
import ConstantFlow.Fact

/-!
# Folding

Int arithmetic is 32-bit two's complement: it wraps around, division truncates
toward zero, a shift takes its amount modulo 32 even when it is negative, and a
relational operator gives one or zero.

The value of an expression under a fact is found from the leaves.

* A variable has the value that the fact gives it, and a literal is constant.
* A division by the constant zero traps, so nothing flows out: `undefined`.
  This is asked before anything else, also of an unknown dividend.
* If one operand is unknown, so is the result.
* Two constants are folded, and otherwise an operand is still undefined.
* Every other form of expression is unknown.
-/

namespace ConstantFlow

/-! ## Arithmetic on two constants -/

/-- A truth value as an int. -/
def Int32.ofTruth (holds : Bool) : Int32 := if holds then 1 else 0

/-- Arithmetic, reduced to 32 bits. -/
def ArithmeticOp.fold : ArithmeticOp → Int32 → Int32 → Int32
  | .add, a, b => a + b
  | .sub, a, b => a - b
  | .mul, a, b => a * b
  | .div, a, b => a / b
  | .rem, a, b => a % b

/-- Comparison by sign and magnitude. -/
def RelationalOp.holds : RelationalOp → Int32 → Int32 → Bool
  | .eq, a, b => a == b
  | .ne, a, b => a != b
  | .ge, a, b => b ≤ a
  | .le, a, b => a ≤ b
  | .gt, a, b => b < a
  | .lt, a, b => a < b

/-- Shifts by an amount modulo 32. -/
def ShiftOp.fold : ShiftOp → Int32 → Int32 → Int32
  | .shl, a, b => a <<< b
  | .shr, a, b => a >>> b
  | .ushr, a, b => (a.toUInt32 >>> b.toUInt32).toInt32

/-- Operations on each of the 32 bits. -/
def BitwiseOp.fold : BitwiseOp → Int32 → Int32 → Int32
  | .and, a, b => a &&& b
  | .or, a, b => a ||| b
  | .xor, a, b => a ^^^ b

/-- The value of an operator on two ints.  A division by zero is the caller's
to exclude. -/
def BinaryOp.fold : BinaryOp → Int32 → Int32 → Int32
  | .arithmetic op, a, b => op.fold a b
  | .relational op, a, b => Int32.ofTruth (op.holds a b)
  | .shift op, a, b => op.fold a b
  | .bitwise op, a, b => op.fold a b

/-! ## Values of expressions -/

/-- The value of an operator on two abstract values. -/
def BinaryOp.apply (op : BinaryOp) (a b : Value) : Value :=
  if op.isDivision ∧ b = .constant 0 then .undefined
  else
    match a, b with
    | .unknown, _ | _, .unknown => .unknown
    | .constant a, .constant b => .constant (op.fold a b)
    | _, _ => .undefined

/-- The value of an expression under a fact. -/
def Exp.value (fact : Fact Value) : Exp Var → Value
  | .var x => fact.get x.id
  | .int value => .constant value
  | .binary op lhs rhs => op.apply (lhs.value fact) (rhs.value fact)
  | .literal _ | .neg _ | .cast _ _ | .instanceOf _ _ | .call _ _ | .new _ | .field _ _
  | .element _ _ | .length _ => .unknown

/-! ## Examples -/

/-- The least int divided by minus one wraps around. -/
example : BinaryOp.fold (.arithmetic .div) Int32.minValue (-1) = Int32.minValue := by decide

/-- A remainder has the sign of the dividend. -/
example : BinaryOp.fold (.arithmetic .rem) (-7) 2 = -1 := by decide

/-- A shift by `-31` is a shift by one. -/
example : BinaryOp.fold (.shift .shl) 1 (-31) = 2 := by decide

/-- A zero divisor traps whatever is divided. -/
example : (BinaryOp.arithmetic .div).apply .unknown (.constant 0) = .undefined := by decide

end ConstantFlow
