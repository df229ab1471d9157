import ConstantFlow.Graph.Basic
import ConstantFlow.Program.Var
import ConstantFlow.Syntax.Stmt

/-!
# Checked programs

In a checked procedure every use of a variable is its declaration, and the
body comes with its control-flow graph.  The entry and the exit have a
statement of their own, which does nothing, so every node of the graph has one.
-/

namespace ConstantFlow

/-- A checked procedure. -/
structure Procedure where
  /-- The name of the procedure. -/
  name : String
  /-- Its variables, by position. -/
  vars : List Var
  /-- Its parameters, in order. -/
  params : List Var
  /-- Its statements. -/
  body : List (Stmt Var)
  /-- The graph of its body. -/
  graph : Graph
deriving DecidableEq

/-- A checked program. -/
structure Program where
  /-- The procedures, in order. -/
  procedures : List Procedure
deriving DecidableEq

namespace Procedure

/-- The variable declared at a position. -/
def var? (p : Procedure) (id : VarId) : Option Var := p.vars[id]?

/-- The statement of a node. -/
def stmt? (p : Procedure) : Node → Option (Stmt Var)
  | .entry | .exit => some .nop
  | .stmt index => p.body[index]?

end Procedure

/-- The procedure of a name. -/
def Program.find? (program : Program) (name : String) : Option Procedure :=
  program.procedures.find? fun p => p.name == name

/-- The text of an expression over declared variables. -/
def Exp.shown (e : Exp Var) : String := (e.map Var.name).text

/-- The text of a location over declared variables. -/
def Location.shown (l : Location Var) : String := (l.map Var.name).text

/-- The text of a statement over declared variables. -/
def Stmt.shown (s : Stmt Var) : String := (s.map Var.name).text

end ConstantFlow
