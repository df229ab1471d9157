import ConstantFlow.Syntax.Stmt

/-!
# Programs as they are read

A program is a list of procedures.  A procedure declares its variables,
parameters included, names its parameters in order and lists its statements.
Nothing has been checked: names may repeat or be undeclared, and a jump may go
anywhere.
-/

namespace ConstantFlow.Source

/-- The declaration of a local variable. -/
structure Declaration where
  /-- The name of the variable. -/
  name : String
  /-- Its type. -/
  type : Ty
deriving DecidableEq

/-- A procedure as it is read. -/
structure Procedure where
  /-- The name of the procedure. -/
  name : String
  /-- Every local variable, parameters included. -/
  vars : List Declaration
  /-- The names of the parameters, in order. -/
  params : List String
  /-- The statements. -/
  body : List (Stmt String)
deriving DecidableEq

/-- A program as it is read. -/
structure Program where
  /-- The procedures, in order. -/
  procedures : List Procedure
deriving DecidableEq

end ConstantFlow.Source
