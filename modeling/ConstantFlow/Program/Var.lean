import ConstantFlow.Syntax.Ty

/-!
# Variables

A checked procedure refers to its variables by declaration.  A variable carries
its position in the list of declarations, by which facts are kept, with its
name and its type.
-/

namespace ConstantFlow

/-- The position of a variable among the declarations of its procedure. -/
abbrev VarId := Nat

/-- The text of a position. -/
def VarId.text (id : VarId) : String := "%" ++ toString (id : Nat)

/-- A declared variable. -/
structure Var where
  /-- Its position among the declarations. -/
  id : VarId
  /-- Its name. -/
  name : String
  /-- Its declared type. -/
  type : Ty
deriving DecidableEq

/-- Whether the variable can hold an int. -/
def Var.holdsInt (x : Var) : Bool := x.type.holdsInt

end ConstantFlow
