import ConstantFlow.Dataflow.Solver

/-!
# Reachability of definitions and uses

Two analyses mark variables.

* *Assigned* goes forward: a variable is marked after a statement that defines
  it, and on every path from there.
* *Read later* goes backward: a variable is marked before a statement that
  reads it, and on every path that leads there.  What counts as a read is a
  variable among the operands of the right side of a definition of a variable,
  among the operands of a test, or as the value of a return.

Nothing is marked where control starts, and no statement takes a mark away.
-/

namespace ConstantFlow.Marks

/-- The fact behind a statement that marks some variables, and whether it
changed. -/
def transfer (marked : Stmt Var → List Var) (stmt : Stmt Var) (front behind : Fact Mark) :
    Fact Mark × Bool :=
  behind.copyFrom ((marked stmt).foldl (fun fact x => fact.set x.id .yes) front)

/-- The variables that a statement reads. -/
def reads : Stmt Var → List Var
  | .define (.var _) value => value.operands
  | .branch test _ => test.operands
  | .ret (some x) => [x]
  | _ => []

/-- The variables that a statement defines. -/
def defines (stmt : Stmt Var) : List Var := stmt.defined?.toList

/-- Which variables were assigned on some path. -/
def assigned : Analysis Mark where
  direction := .forward
  boundary := fun _ => .empty
  join := Fact.meet
  transfer := transfer defines

/-- Which variables are read on some path. -/
def readLater : Analysis Mark where
  direction := .backward
  boundary := fun _ => .empty
  join := fun fact other => (fact.copyFrom other).1
  transfer := transfer reads

end ConstantFlow.Marks
