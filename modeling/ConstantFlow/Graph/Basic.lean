import ConstantFlow.Ascending
import ConstantFlow.Graph.Node

/-!
# Control-flow graphs

A graph is the number of its statements and a list of arrows, ascending by
source and then by target, with at most one arrow from a node to another.  All
questions are answered from the list: the arrow between two nodes, the
successors of a node and its predecessors, both ascending.

An edge says why control may take an arrow.  The labels of a switch that lead
to one target share an edge, the default first.
-/

namespace ConstantFlow

/-- Why control may go from a node to another. -/
inductive Edge
  /-- The procedure starts. -/
  | entry
  /-- The next statement follows. -/
  | fallThrough
  /-- A jump. -/
  | goto
  /-- A test holds or does not. -/
  | branch (holds : Bool)
  /-- The labels of a switch with one target, `none` for the default. -/
  | switch (labels : List (Option Int32))
  /-- The procedure ends. -/
  | leave
deriving DecidableEq

/-- An edge with its two ends. -/
structure Arrow where
  /-- Where it starts. -/
  source : Node
  /-- Where it ends. -/
  target : Node
  /-- Why control may take it. -/
  edge : Edge
deriving DecidableEq

/-- A control-flow graph. -/
structure Graph where
  /-- The number of statements. -/
  size : Nat
  /-- The arrows, by source and target. -/
  arrows : List Arrow
deriving DecidableEq

namespace Graph

/-- The nodes, ascending. -/
def nodes (g : Graph) : List Node :=
  .entry :: ((List.range g.size).map Node.stmt ++ [.exit])

/-- Whether a node belongs to the graph. -/
def contains (g : Graph) : Node → Bool
  | .entry | .exit => true
  | .stmt index => index < g.size

/-- The edge between two nodes, if there is one. -/
def edge? (g : Graph) (a b : Node) : Option Edge :=
  (g.arrows.find? fun arrow => arrow.source == a && arrow.target == b).map Arrow.edge

/-- The nodes that control may go to next, ascending. -/
def successors (g : Graph) (a : Node) : List Node :=
  (g.arrows.filter fun arrow => arrow.source == a).map Arrow.target

/-- The nodes that control may come from, ascending. -/
def predecessors (g : Graph) (b : Node) : List Node :=
  (g.arrows.filter fun arrow => arrow.target == b).map Arrow.source

/-- The number of arrows. -/
def edgeCount (g : Graph) : Nat := g.arrows.length

end Graph

end ConstantFlow
