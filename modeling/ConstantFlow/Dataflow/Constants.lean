import ConstantFlow.Dataflow.Solver
import ConstantFlow.Evaluate

/-!
# Constant propagation

The analysis follows the variables that can hold an int.  Where control starts
a parameter is unknown and everything else is undefined.  Facts join entry by
entry.

The definition of a followed variable gives it the value of the right side
under the fact in front.  Every other statement carries the fact across as it
is.  In both cases the result is copied into the fact behind: a variable
without an entry in it keeps the value that it had there.

`backward` is the same analysis with the flow of facts turned around.
-/

namespace ConstantFlow.Constants

/-- The fact where control starts. -/
def boundary (p : Procedure) : Fact Value :=
  .ofList ((p.params.filter Var.holdsInt).map fun x => (x.id, .unknown))

/-- The fact that a statement makes of the one in front of it. -/
def effect (stmt : Stmt Var) (front : Fact Value) : Fact Value :=
  match stmt with
  | .define (.var x) value =>
      if x.holdsInt then front.set x.id (value.value front) else front
  | _ => front

/-- The fact behind a statement, and whether it changed. -/
def transfer (stmt : Stmt Var) (front behind : Fact Value) : Fact Value × Bool :=
  behind.copyFrom (effect stmt front)

/-- Constant propagation. -/
def analysis : Analysis Value where
  direction := .forward
  boundary := boundary
  join := Fact.meet
  transfer := transfer

/-- Constant propagation against the flow of control. -/
def backward : Analysis Value := { analysis with direction := .backward }

/-- The name of the analysis in a log. -/
def name : String := "constprop"

end ConstantFlow.Constants
