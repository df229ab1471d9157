import ConstantFlow.Dataflow.Analysis
import ConstantFlow.Error

/-!
# The worklist solver

Every node has a *cell* of two facts: the one in front of its statement, where
facts are gathered, and the one behind it.  All nodes but the start are
pending.  A visit takes the pending node that comes first in the direction of
the analysis.

1. The facts behind the nodes that feed it are joined into the fact in front.
2. The statement carries the fact in front across to the fact behind.
3. If that changed, the nodes that it feeds become pending.

The run settles when no node is pending.  It fails when a node that it looks up
has no cell, or when the node to visit has no statement.  `Machine.step` is one
visit, and `Machine.run` makes visits up to a bound.

Facts behind a node only grow, and only by values of the variables that occur
in the procedure, so a node changes a bounded number of times and each change
makes at most its arrows pending.  `visitBound` counts this generously.
-/

namespace ConstantFlow

variable {V : Type} [Domain V]

/-! ## States -/

/-- The facts around the statement of a node, along the flow of facts. -/
structure Cell (V : Type) [Domain V] where
  /-- The fact in front, where facts are gathered. -/
  front : Fact V
  /-- The fact behind. -/
  behind : Fact V

/-- The cells of the nodes of a graph. -/
structure Cells (V : Type) [Domain V] where
  /-- The nodes with their cells. -/
  rows : List (Node × Cell V)

namespace Cells

/-- The cell of a node, if the node has one. -/
def get? (cells : Cells V) (n : Node) : Option (Cell V) :=
  (cells.rows.find? fun row => row.1 == n).map Prod.snd

/-- The cell of a node.  Not to have one is an error. -/
def state (cells : Cells V) (n : Node) : Except Error (Cell V) :=
  match cells.get? n with
  | some cell => .ok cell
  | none => .error (.noCell n)

/-- The cells with that of a node replaced. -/
def set (cells : Cells V) (n : Node) (cell : Cell V) : Cells V :=
  ⟨cells.rows.map fun row => if row.1 = n then (n, cell) else row⟩

/-- The cells of a graph before anything is known. -/
def blank (g : Graph) : Cells V := ⟨g.nodes.map fun n => (n, ⟨.empty, .empty⟩)⟩

end Cells

/-! ## Visits -/

/-- One statement carried out by the analysis. -/
structure Visit (V : Type) [Domain V] where
  /-- The node that was visited. -/
  node : Node
  /-- Its statement. -/
  stmt : Stmt Var
  /-- Whether the fact behind it changed. -/
  changed : Bool
  /-- The fact behind it after the visit. -/
  behind : Fact V

/-- A run of the solver at some moment. -/
structure Machine (V : Type) [Domain V] where
  /-- The cells of all nodes. -/
  cells : Cells V
  /-- The nodes still to visit, in the order of visits. -/
  pending : List Node
  /-- The visits so far, newest first. -/
  visits : List (Visit V)

/-- What one step of a run comes to. -/
inductive Step (V : Type) [Domain V]
  /-- No node is pending. -/
  | settled
  /-- The visit failed. -/
  | failed (e : Error)
  /-- A node was visited. -/
  | moved (m : Machine V)

/-- The statement of a node.  Not to have one is an error. -/
def Procedure.stmtAt (p : Procedure) (n : Node) : Except Error (Stmt Var) :=
  match p.stmt? n with
  | some stmt => .ok stmt
  | none => .error (.noStatement n)

namespace Machine

/-- The run before the first visit: only the fact behind the start is known. -/
def start (a : Analysis V) (p : Procedure) : Except Error (Machine V) := do
  let cells : Cells V := .blank p.graph
  let cell ← cells.state a.direction.start
  return {
    cells := cells.set a.direction.start ⟨cell.front, a.boundary p⟩
    pending := (a.direction.nodes p.graph).filter fun n => n ≠ a.direction.start
    visits := [] }

/-- The run after a visit of a node. -/
def advance (a : Analysis V) (p : Procedure) (m : Machine V) (n : Node) (rest : List Node) :
    Except Error (Machine V) := do
  let feeders ← (a.direction.feeders p.graph n).mapM m.cells.state
  let cell ← m.cells.state n
  let front := feeders.foldl (fun fact feeder => a.join fact feeder.behind) cell.front
  let stmt ← p.stmtAt n
  let (behind, changed) := a.transfer stmt front cell.behind
  return {
    cells := m.cells.set n ⟨front, behind⟩
    pending :=
      if changed then
        Ascending.insertAll a.direction.before (a.direction.fed p.graph n) rest
      else rest
    visits := ⟨n, stmt, changed, behind⟩ :: m.visits }

/-- One step of a run. -/
def step (a : Analysis V) (p : Procedure) (m : Machine V) : Step V :=
  match m.pending with
  | [] => .settled
  | n :: rest =>
      match m.advance a p n rest with
      | .error e => .failed e
      | .ok m => .moved m

end Machine

/-! ## Runs -/

/-- How a run ends. -/
inductive Ending
  /-- No node is pending. -/
  | settled
  /-- A visit failed, or the run could not start. -/
  | failed (e : Error)
  /-- The bound on the visits is used up. -/
  | unsettled
deriving DecidableEq

/-- The last moment of a run of at most `bound` visits, and how it ends. -/
def Machine.run (a : Analysis V) (p : Procedure) : (bound : Nat) → Machine V → Machine V × Ending
  | 0, m => (m, if m.pending.isEmpty then .settled else .unsettled)
  | bound + 1, m =>
      match m.step a p with
      | .settled => (m, .settled)
      | .failed e => (m, .failed e)
      | .moved m => run a p bound m

/-- The variables that occur in a procedure, repetitions included. -/
def Procedure.occurrences (p : Procedure) : List Var :=
  p.params ++ p.body.flatMap Stmt.vars

/-- A bound on the visits of a run: every node once, and for each of the two
steps that the value of a variable can climb every arrow once more. -/
def Procedure.visitBound (p : Procedure) : Nat :=
  p.graph.nodes.length + 2 * p.occurrences.length * p.graph.edgeCount

/-! ## Solutions -/

/-- The facts before and after the statement of a node. -/
structure Around (V : Type) [Domain V] where
  /-- The fact before the statement. -/
  incoming : Fact V
  /-- The fact after the statement. -/
  outgoing : Fact V

/-- A cell with its facts in the order of control. -/
def Direction.around (d : Direction) (cell : Cell V) : Around V :=
  match d with
  | .forward => ⟨cell.front, cell.behind⟩
  | .backward => ⟨cell.behind, cell.front⟩

/-- The facts around every node, ascending by node. -/
structure Solution (V : Type) [Domain V] where
  /-- The nodes with their facts. -/
  rows : List (Node × Around V)

/-- The facts around a node, if the solution has the node. -/
def Solution.get? (s : Solution V) (n : Node) : Option (Around V) :=
  (s.rows.find? fun row => row.1 == n).map Prod.snd

/-- What a run has come to: its visits, oldest first, its facts and its end. -/
structure Outcome (V : Type) [Domain V] where
  /-- The visits, oldest first. -/
  visits : List (Visit V)
  /-- The facts around every node. -/
  solution : Solution V
  /-- How the run ended. -/
  ending : Ending

/-- The facts of a moment in the order of control. -/
def Machine.solution (a : Analysis V) (m : Machine V) : Solution V :=
  ⟨m.cells.rows.map fun row => (row.1, a.direction.around row.2)⟩

/-- The run of an analysis on a procedure. -/
def Analysis.run (a : Analysis V) (p : Procedure) : Outcome V :=
  match Machine.start a p with
  | .error e => ⟨[], ⟨[]⟩, .failed e⟩
  | .ok m =>
      let (last, ending) := m.run a p p.visitBound
      ⟨last.visits.reverse, last.solution a, ending⟩

/-- The solution of a run that settled, or why it did not. -/
def Outcome.result (o : Outcome V) (p : Procedure) : Except Error (Solution V) :=
  match o.ending with
  | .settled => .ok o.solution
  | .failed e => .error e
  | .unsettled => .error (.unsettled p.name)

/-- The solution of an analysis on a procedure. -/
def Analysis.solve (a : Analysis V) (p : Procedure) : Except Error (Solution V) :=
  (a.run p).result p

end ConstantFlow
