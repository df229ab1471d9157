import ConstantFlow.Graph.Table
import ConstantFlow.Log
import ConstantFlow.Syntax.Stmt

/-!
# The graph of a body

The edges are put into a table, statement by statement.  Each statement adds
those that leave its node.

* A jump goes to its target.
* A branch goes to its target when the test holds and to the next node when it
  does not.  When the two are the same there is one edge, a fall-through.
* A switch goes to the target of each case and to its default.
* A return and a raise go to the exit.
* Every other statement goes to the next node, which after the last is the exit.

The entry goes to the first statement, or to the exit of an empty body.  A
target must be a statement of the body and the labels of a switch must differ.
The first statement with a fault decides the error, and in a switch the cases
are looked at in order, each for its label before its target, and the default
last.
-/

namespace ConstantFlow.Graph

variable {ν : Type}

/-! ## Edges of one statement -/

/-- The first node after the entry. -/
def first (size : Nat) : Node := if size = 0 then .exit else .stmt 0

/-- The node after a statement. -/
def next (size index : Nat) : Node := if index + 1 < size then .stmt (index + 1) else .exit

/-- The node of a target. -/
def locate (size target : Nat) : Except Error Node :=
  if target < size then .ok (.stmt target) else .error (.edgeOutOfRange target)

/-- The table with the cases of the switch at `index`, after the labels seen. -/
def insertCases (size index : Nat) (seen : List Int32) :
    List (Int32 × Nat) → Table → Except Error Table
  | [], table => .ok table
  | (label, target) :: rest, table => do
      if label ∈ seen then throw (.repeatedCase label index)
      let target ← locate size target
      let table ← insertLabel ⟨.stmt index, target⟩ (some label) table
      insertCases size index (label :: seen) rest table

/-- Whether a statement is a branch to the node that follows it. -/
def collapses (size index : Nat) : Stmt ν → Bool
  | .branch _ target => next size index == .stmt target
  | _ => false

/-- The table with the edges that leave the statement at `index`. -/
def insertStmt (size index : Nat) (stmt : Stmt ν) (table : Table) : Except Error Table :=
  match stmt with
  | .goto target => do
      insertEdge ⟨.stmt index, ← locate size target⟩ .goto table
  | .branch _ target => do
      let target ← locate size target
      let follow := next size index
      if target = follow then insertEdge ⟨.stmt index, follow⟩ .fallThrough table
      else
        let table ← insertEdge ⟨.stmt index, target⟩ (.branch true) table
        insertEdge ⟨.stmt index, follow⟩ (.branch false) table
  | .switch _ cases otherwise => do
      let table ← insertCases size index [] cases table
      insertLabel ⟨.stmt index, ← locate size otherwise⟩ none table
  | .ret _ | .raise _ => insertEdge ⟨.stmt index, .exit⟩ .leave table
  | .define _ _ | .invoke _ | .nop =>
      insertEdge ⟨.stmt index, next size index⟩ .fallThrough table

/-! ## The whole body -/

/-- The table with the edges that leave the statements from `index` on. -/
def insertStmts (size index : Nat) : List (Stmt ν) → Table → Except Error Table
  | [], table => .ok table
  | stmt :: rest, table => do
      let table ← insertStmt size index stmt table
      insertStmts size (index + 1) rest table

/-- The graph of a body, or the first fault in it. -/
def build (body : List (Stmt ν)) : Except Error Graph := do
  let size := body.length
  let table ← insertEdge ⟨.entry, first size⟩ .entry []
  let table ← insertStmts size 0 body table
  return ⟨size, table.arrows⟩

/-! ## Log -/

/-- What is said of the graph of a body: the branches that collapse, and its
size. -/
def log (body : List (Stmt ν)) (g : Graph) : List LogEntry :=
  let collapsed := (body.zipIdx.filter fun item => collapses body.length item.2 item.1).map
    fun item => "branch at " ++ (Node.stmt item.2).text ++ " collapses into a fall-through"
  (collapsed ++ ["CFG built with " ++ toString g.nodes.length ++ " nodes and " ++
    toString g.edgeCount ++ " edges"]).map fun text => ⟨.debug, text⟩

/-! ## Examples -/

example : build [Stmt.goto 1, .ret (none : Option String)] =
    .ok ⟨2, [⟨.entry, .stmt 0, .entry⟩, ⟨.stmt 0, .stmt 1, .goto⟩, ⟨.stmt 1, .exit, .leave⟩]⟩ :=
  rfl

/-- A branch to the statement that follows is no branch. -/
example : build [Stmt.branch (.var "x") 1, .nop] =
    .ok ⟨2, [⟨.entry, .stmt 0, .entry⟩, ⟨.stmt 0, .stmt 1, .fallThrough⟩,
      ⟨.stmt 1, .exit, .fallThrough⟩]⟩ :=
  rfl

end ConstantFlow.Graph
