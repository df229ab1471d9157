import ConstantFlow.Dataflow.Constants
import ConstantFlow.Dataflow.Trail
import ConstantFlow.Mode
import ConstantFlow.Report.Basic

/-!
# Reporting constants

The report of a procedure is read off the solution of constant propagation.
Each fact names its variables, so a fact about a variable that is not declared
cannot be reported, and neither can a statement that the solution does not
have.

A request names the procedures to report, in any order, and an empty request
means all of them.  The reports come in the order of the program, each once.
A name that the program does not have fails the whole request.
-/

namespace ConstantFlow

/-! ## One procedure -/

/-- An entry of a fact by name. -/
def Procedure.nameEntry (p : Procedure) (entry : VarId × Value) :
    Except Error (String × String) :=
  match p.var? entry.1 with
  | some x => .ok (x.name, entry.2.text)
  | none => .error (.unknownVariable entry.1 p.name)

/-- A fact by name. -/
def Procedure.nameFact (p : Procedure) (fact : Fact Value) : Except Error Known := do
  return Ascending.ofPairs (← fact.entries.mapM p.nameEntry)

/-- What a solution says around a statement. -/
def StmtReport.ofSolution (p : Procedure) (s : Solution Value) (item : Stmt Var × Nat) :
    Except Error StmtReport :=
  let node := Node.stmt item.2
  match s.get? node with
  | none => .error (.noState node p.name)
  | some around => do
      let incoming ← p.nameFact around.incoming
      let outgoing ← p.nameFact around.outgoing
      return ⟨item.2, item.1.shown, incoming, outgoing⟩

/-- What a solution says of a procedure. -/
def Report.ofSolution (p : Procedure) (s : Solution Value) : Except Error Report := do
  let stmts ← p.body.zipIdx.mapM (StmtReport.ofSolution p s)
  return ⟨p.name, stmts⟩

/-- The report of a procedure. -/
def Report.build (p : Procedure) : Except Error Report := do
  Report.ofSolution p (← Constants.analysis.solve p)

/-! ## Several procedures -/

/-- The procedures that a request names, in the order of the program. -/
def Program.select (program : Program) (names : List String) : Except Error (List Procedure) :=
  match names.find? fun name => (program.find? name).isNone with
  | some name => .error (.noSuchProcedure name)
  | none =>
      .ok (if names.isEmpty then program.procedures
        else program.procedures.filter fun p => names.contains p.name)

/-- The reports that a request asks for. -/
def Program.report (program : Program) (mode : Mode) (names : List String) :
    Except Error (List Report) := do
  mode.collect Report.build (← program.select names)

/-! ## Log -/

/-- What is said while some procedures are reported one after the other. -/
def Report.log (procedures : List Procedure) : List LogEntry :=
  ⟨.info, "running " ++ Constants.name ++ " on " ++ toString procedures.length ++
      " procedure(s)"⟩ ::
    procedures.flatMap fun p => Constants.analysis.trail p 0

/-- What is said while a request is answered, if it names procedures of the program. -/
def Program.reportLog (program : Program) (names : List String) : List LogEntry :=
  match program.select names with
  | .error _ => []
  | .ok procedures => Report.log procedures

/-- What is said when the reports have been saved. -/
def Report.savedLog (file : String) : LogEntry := ⟨.info, "report saved at " ++ file⟩

end ConstantFlow
