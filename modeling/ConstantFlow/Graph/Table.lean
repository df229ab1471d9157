import ConstantFlow.Error
import ConstantFlow.Graph.Basic

/-!
# Tables of edges

While a graph is built its edges are kept in a table, by their two ends and
ascending by source and then by target.  What is added must be new.

* An edge is refused between two nodes that have one (`insertEdge`).
* A label of a switch joins the labels between two nodes, or is the first of
  them (`insertLabel`).  It is refused if it is among them, or if the edge there
  is not that of a switch.
-/

namespace ConstantFlow

/-! ## Ends -/

/-- The two ends of an edge. -/
structure Ends where
  /-- Where it starts. -/
  source : Node
  /-- Where it ends. -/
  target : Node
deriving DecidableEq

namespace Ends

/-- Ends are ordered by source, and then by target. -/
instance : LT Ends where
  lt a b := a.source.before b.source ∨ a.source = b.source ∧ a.target.before b.target

instance : DecidableLT Ends := fun a b =>
  inferInstanceAs (Decidable (a.source.before b.source ∨
    a.source = b.source ∧ a.target.before b.target))

/-- Ends with one source are in the order of their targets. -/
@[simp] theorem lt_same {n a b : Node} : (⟨n, a⟩ : Ends) < ⟨n, b⟩ ↔ a.before b := by
  constructor
  · rintro (same | ⟨-, less⟩)
    · exact absurd same (Node.before_asymm same)
    · exact less
  · exact fun less => .inr ⟨rfl, less⟩

end Ends

/-! ## Labels -/

/-- Whether a label of a switch comes before another: the default is the first. -/
def Edge.labelBefore : Option Int32 → Option Int32 → Bool
  | none, some _ => true
  | some a, some b => a < b
  | _, none => false

theorem Edge.labelBefore_trans {a b c : Option Int32} (h : labelBefore a b)
    (h' : labelBefore b c) : labelBefore a c := by
  cases a <;> cases b <;> cases c <;> simp_all [labelBefore]
  exact Int32.lt_trans h h'

theorem Edge.labelBefore_total {a b : Option Int32} (other : a ≠ b) (h : ¬ labelBefore a b) :
    labelBefore b a := by
  cases a <;> cases b <;> simp_all [labelBefore]
  exact Int32.lt_of_le_of_ne h (Ne.symm other)

/-! ## Tables -/

namespace Graph

/-- The edges of a graph that is built, by their ends. -/
abbrev Table := List (Ends × Edge)

/-- The table with an edge between two nodes that have none. -/
def insertEdge (ends : Ends) (edge : Edge) (table : Table) : Except Error Table :=
  match Ascending.lookup ends table with
  | none => .ok (Ascending.put ends edge table)
  | some _ => .error (.repeatedEdge ends.source ends.target)

/-- The table with a label of a switch on the edge between two nodes. -/
def insertLabel (ends : Ends) (label : Option Int32) (table : Table) : Except Error Table :=
  match Ascending.lookup ends table with
  | none => .ok (Ascending.put ends (.switch [label]) table)
  | some (.switch labels) =>
      if label ∈ labels then .error .repeatedLabel
      else
        .ok (Ascending.put ends (.switch (Ascending.insert Edge.labelBefore label labels)) table)
  | some _ => .error .notASwitch

/-- The arrows of a table, in its order. -/
def Table.arrows (table : Table) : List Arrow :=
  table.map fun row => ⟨row.1.source, row.1.target, row.2⟩

end Graph

end ConstantFlow
