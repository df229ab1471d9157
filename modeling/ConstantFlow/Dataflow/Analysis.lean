import ConstantFlow.Fact
import ConstantFlow.Program.Basic

/-!
# Dataflow analyses

An analysis follows control forward, from the entry, or backward, from the
exit.  It says what is known where control starts, how the facts of several
paths join at a node, and how a statement carries a fact across.

The two directions differ only in which node control starts from, which nodes
feed a node, which nodes it feeds, and which node is visited first.
`Direction` answers these questions, so nothing else asks for the direction.
-/

namespace ConstantFlow

/-! ## Directions -/

/-- The direction in which facts flow. -/
inductive Direction
  | forward | backward
deriving DecidableEq

namespace Direction

/-- The name of a direction. -/
def text : Direction → String
  | .forward => "forward"
  | .backward => "backward"

/-- The node that facts start from. -/
def start : Direction → Node
  | .forward => .entry
  | .backward => .exit

/-- The nodes whose facts join at a node. -/
def feeders (d : Direction) (g : Graph) (n : Node) : List Node :=
  match d with
  | .forward => g.predecessors n
  | .backward => g.successors n

/-- The nodes that the fact of a node goes to. -/
def fed (d : Direction) (g : Graph) (n : Node) : List Node :=
  match d with
  | .forward => g.successors n
  | .backward => g.predecessors n

/-- Whether a node is visited before another: along the flow of facts. -/
def before (d : Direction) (a b : Node) : Bool :=
  match d with
  | .forward => a.before b
  | .backward => b.before a

/-- The nodes of a graph in the order of visits. -/
def nodes (d : Direction) (g : Graph) : List Node :=
  match d with
  | .forward => g.nodes
  | .backward => g.nodes.reverse

end Direction

/-! ## Analyses -/

/-- A dataflow analysis with facts over the domain `V`. -/
structure Analysis (V : Type) [Domain V] where
  /-- The direction in which facts flow. -/
  direction : Direction
  /-- The fact where control starts.  Every other node starts with the empty
  fact. -/
  boundary : Procedure → Fact V
  /-- A fact with another one joined into it: the first argument is the fact
  that is there. -/
  join : Fact V → Fact V → Fact V
  /-- The fact behind a statement, from the fact in front of it and the one
  that was behind it before, and whether that changed it. -/
  transfer : Stmt Var → Fact V → Fact V → Fact V × Bool

end ConstantFlow
