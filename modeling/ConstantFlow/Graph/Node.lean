/-!
# Nodes of a control-flow graph

A graph has an entry, an exit and one node for each statement.  The nodes are
ordered: the entry comes first, then the statements by position, then the exit.
-/

namespace ConstantFlow

/-- A node of a control-flow graph. -/
inductive Node
  /-- Where control enters the procedure. -/
  | entry
  /-- The statement at a position. -/
  | stmt (index : Nat)
  /-- Where control leaves the procedure. -/
  | exit
deriving DecidableEq

namespace Node

/-- Whether a node comes before another. -/
def before : Node → Node → Bool
  | .entry, .entry => false
  | .entry, _ => true
  | .stmt i, .stmt j => i < j
  | .stmt _, .exit => true
  | _, _ => false

theorem before_asymm {a b : Node} (h : a.before b) : ¬ b.before a := by
  cases a <;> cases b <;> simp_all [before]
  omega

theorem before_total {a b : Node} (other : a ≠ b) (h : ¬ a.before b) : b.before a := by
  cases a <;> cases b <;> simp_all [before]
  omega

/-- How two nodes compare. -/
def order (a b : Node) : Ordering :=
  if a.before b then .lt else if b.before a then .gt else .eq

/-- The text of a node. -/
def text : Node → String
  | .entry => "entry"
  | .stmt index => "#" ++ toString index
  | .exit => "exit"

end Node

end ConstantFlow
