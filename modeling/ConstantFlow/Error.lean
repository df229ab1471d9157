import ConstantFlow.Graph.Node
import ConstantFlow.Program.Var
import ConstantFlow.Syntax.Exp

/-!
# Errors

An error is a cause with the data that its message names.  Causes are of three
kinds.

* *loading*: a file cannot be read, does not hold a program, or cannot be made
  or written.
* *assumption*: the program, or a request about it, is not one that the
  analyses can work on.
* *invariant*: two parts that should agree do not.
-/

namespace ConstantFlow

/-- Why an operation failed. -/
inductive Error
  /-- The file is missing, or its bytes are not text. -/
  | unreadable
  /-- The text does not denote a program. -/
  | malformed
  /-- The report file cannot be created. -/
  | reportNotCreated
  /-- The report file was created, but the report cannot be written to it. -/
  | reportNotWritten
  /-- A variable is declared without a value. -/
  | voidVariable (name : String)
  /-- A name is not declared. -/
  | undeclared (name : String)
  /-- A jump leaves the body. -/
  | targetOutOfRange (target : Nat)
  /-- A statement that should be a call is none. -/
  | notACall (found : Exp String)
  /-- The condition of a branch is not a test. -/
  | notATest (found : Exp String)
  /-- The variable of a switch cannot hold an int. -/
  | switchOnNonInt (name : String)
  /-- A switch has two cases for one label. -/
  | repeatedCase (label : Int32) (index : Nat)
  /-- A procedure was asked for that the program does not have. -/
  | noSuchProcedure (name : String)
  /-- A procedure declares a variable twice. -/
  | repeatedVariable (name procedure : String)
  /-- A procedure has a parameter twice. -/
  | repeatedParameter (name procedure : String)
  /-- A program has two procedures of one name. -/
  | repeatedProcedure (name : String)
  /-- An edge leaves the graph. -/
  | edgeOutOfRange (target : Nat)
  /-- Two nodes have two edges. -/
  | repeatedEdge (source target : Node)
  /-- A label leads twice from a switch to one target. -/
  | repeatedLabel
  /-- The edge that a switch adds a label to is not that of a switch. -/
  | notASwitch
  /-- A node of the graph has no statement. -/
  | noStatement (node : Node)
  /-- The solver has no facts around a node. -/
  | noCell (node : Node)
  /-- A statement has no node in the solution. -/
  | noState (node : Node) (procedure : String)
  /-- A fact speaks of a variable that is not declared. -/
  | unknownVariable (id : VarId) (procedure : String)
  /-- The facts still change after as many visits as they can. -/
  | unsettled (procedure : String)
deriving DecidableEq

/-- The kinds of causes. -/
inductive Error.Kind
  | loading | assumption | invariant
deriving DecidableEq

namespace Error

/-- The kind of a cause. -/
def kind : Error → Kind
  | .unreadable | .malformed | .reportNotCreated | .reportNotWritten => .loading
  | .voidVariable _ | .undeclared _ | .targetOutOfRange _ | .notACall _ | .notATest _
  | .switchOnNonInt _ | .repeatedCase _ _ | .noSuchProcedure _ => .assumption
  | .repeatedVariable _ _ | .repeatedParameter _ _ | .repeatedProcedure _ | .edgeOutOfRange _
  | .repeatedEdge _ _ | .repeatedLabel | .notASwitch | .noStatement _ | .noCell _
  | .noState _ _ | .unknownVariable _ _ | .unsettled _ => .invariant

/-- The label of a kind, in front of a message. -/
def Kind.label : Kind → String
  | .loading => "[cprop::loading] "
  | .assumption => "[cprop::assumption] "
  | .invariant => "[cprop::invariant] "

/-- What a cause says, without the label of its kind. -/
def detail : Error → String
  | .unreadable => "Corrupted JSON file"
  | .malformed => "Error during deserialization"
  | .reportNotCreated => "unable to create the report file"
  | .reportNotWritten => "unable to write the report"
  | .voidVariable name => "variable " ++ name ++ " declared with void type"
  | .undeclared name => "reference to undeclared variable: " ++ name
  | .targetOutOfRange target => "jump target " ++ toString target ++ " out of range"
  | .notACall found => "invoke statement without a call: " ++ found.text
  | .notATest found => "branch condition is not a relational test: " ++ found.text
  | .switchOnNonInt name => "switch on a non-int variable: " ++ name
  | .repeatedCase label index =>
      "duplicated case " ++ toString label.toInt ++ " in switch at " ++ (Node.stmt index).text
  | .noSuchProcedure name => "no such procedure: " ++ name
  | .repeatedVariable name procedure =>
      "duplicated variable " ++ name ++ " in procedure " ++ procedure
  | .repeatedParameter name procedure =>
      "duplicated parameter " ++ name ++ " in procedure " ++ procedure
  | .repeatedProcedure name => "duplicated procedure " ++ name
  | .edgeOutOfRange target => "jump target " ++ toString target ++ " out of range"
  | .repeatedEdge source target =>
      "duplicated edge in CFG: " ++ source.text ++ " -> " ++ target.text
  | .repeatedLabel => "duplicated edge in CFG"
  | .notASwitch => "unexpected edge type for switch statement"
  | .noStatement node => "no statement for node " ++ node.text
  | .noCell node => "no dataflow state for node " ++ node.text
  | .noState node procedure =>
      "no dataflow state for node " ++ node.text ++ " in procedure " ++ procedure
  | .unknownVariable id procedure =>
      "unknown variable " ++ VarId.text id ++ " in procedure " ++ procedure
  | .unsettled procedure => "no fixedpoint reached in procedure " ++ procedure

/-- The message of an error. -/
def message (e : Error) : String := e.kind.label ++ e.detail

end Error

end ConstantFlow
