import ConstantFlow.Evaluate
import ConstantFlow.Proofs.Checking
import Mathlib.Logic.Function.Basic
import Mathlib.Logic.Relation

/-!
# Runs of a procedure

A *store* gives the variables that can hold an int their ints, and those that
are not assigned yet nothing.  A run carries out one statement after another.

* It starts at the first statement, and there are ints in the parameters alone.
* A definition of a variable that can hold an int stores what the right side
  comes to.  Literals, variables and binary operations are computed, and every
  other form of expression comes to any int.
* To read a variable that is not assigned or to divide by zero comes to
  nothing, so the run does not go on.
* Every other statement leaves the store as it is.
* Control goes to any of the places that the statement names (`Stmt.exits`):
  a run may take either way of a branch and any case of a switch.

A run has nothing to do with the graph, but its steps follow the arrows
(`Procedure.Step.mem_successors`).
-/

namespace ConstantFlow

/-- The ints of the variables that can hold one, by position. -/
abbrev Store := VarId → Option Int32

/-! ## Expressions -/

/-- Whether an expression is computed from its leaves. -/
def Exp.isComputed {ν : Type} : Exp ν → Bool
  | .var _ | .int _ | .binary _ _ _ => true
  | _ => false

/-- What an expression may come to. -/
inductive Exp.Evaluates (store : Store) : Exp Var → Int32 → Prop
  /-- A literal comes to itself. -/
  | int (k : Int32) : Evaluates store (.int k) k
  /-- A variable comes to what it holds. -/
  | var {x : Var} {k : Int32} (holds : x.holdsInt) (assigned : store x.id = some k) :
      Evaluates store (.var x) k
  /-- A variable of another type comes to any int. -/
  | foreign {x : Var} (holds : ¬ x.holdsInt) (k : Int32) : Evaluates store (.var x) k
  /-- Two operands are computed, unless one is divided by zero. -/
  | binary {op : BinaryOp} {lhs rhs : Exp Var} {j k : Int32} (left : Evaluates store lhs j)
      (right : Evaluates store rhs k) (safe : ¬ (op.isDivision ∧ k = 0)) :
      Evaluates store (.binary op lhs rhs) (op.fold j k)
  /-- An expression of any other form comes to any int. -/
  | other {e : Exp Var} (form : ¬ e.isComputed) (k : Int32) : Evaluates store e k

/-! ## Statements -/

/-- A statement that gives a variable that can hold an int a new value. -/
def Stmt.Defines (stmt : Stmt Var) (x : Var) (value : Exp Var) : Prop :=
  stmt = .define (.var x) value ∧ x.holdsInt

namespace Stmt.Defines

variable {stmt : Stmt Var} {x : Var} {value : Exp Var}

/-- The variable that a statement defines is one of the statement. -/
theorem mem_vars (h : stmt.Defines x value) : x ∈ stmt.vars := by
  rw [h.1]
  exact List.mem_cons_self

theorem mem_body {p : Procedure} {n : Node} (h : stmt.Defines x value)
    (found : p.stmt? n = some stmt) : stmt ∈ p.body := by
  rcases Procedure.stmt?_cases found with idle | member
  · exact absurd (h.1.symm.trans idle) (by simp)
  · exact member

/-- The statement of the entry defines nothing. -/
theorem ne_entry {p : Procedure} {n : Node} (h : stmt.Defines x value)
    (found : p.stmt? n = some stmt) : n ≠ .entry := by
  rintro rfl
  cases found
  cases h.1

/-- A statement defines one variable at most. -/
theorem eq {y : Var} {other : Exp Var} (h : stmt.Defines x value) (h' : stmt.Defines y other) :
    x = y := by
  have same := h.1.symm.trans h'.1
  simp only [Stmt.define.injEq, Location.var.injEq] at same
  exact same.1

end Stmt.Defines

/-- What a statement may make of a store. -/
inductive Stmt.Executes (stmt : Stmt Var) (store : Store) : Store → Prop
  /-- A variable gets what the right side comes to. -/
  | assign {x : Var} {value : Exp Var} {k : Int32} (defines : stmt.Defines x value)
      (comes : value.Evaluates store k) : Executes stmt store (Function.update store x.id (some k))
  /-- A statement that defines nothing leaves the store. -/
  | skip (idle : ∀ x value, ¬ stmt.Defines x value) : Executes stmt store store

/-! ## Procedures -/

/-- A moment of a run: the node that is about to be carried out, and the store. -/
structure Config where
  node : Node
  store : Store

namespace Procedure

/-- A run starts at the first statement with an int in each parameter that can
hold one, and in no other variable. -/
structure Starts (p : Procedure) (c : Config) : Prop where
  /-- It starts at the first position, which is the exit of an empty body. -/
  node : c.node = .at p.body.length 0
  /-- The parameters that can hold an int are assigned. -/
  assigned : ∀ id, (c.store id).isSome ↔ ∃ x ∈ p.params, x.holdsInt ∧ x.id = id

/-- One statement is carried out, and control goes to a place that it names. -/
inductive Step (p : Procedure) : Config → Config → Prop
  /-- The statement of a position is carried out. -/
  | intro {i : Nat} {stmt : Stmt Var} {store store' : Store} {n : Node}
      (found : p.body[i]? = some stmt) (executes : stmt.Executes store store')
      (exits : n ∈ stmt.exits p.body.length i) : Step p ⟨.stmt i, store⟩ ⟨n, store'⟩

/-- Any number of statements are carried out. -/
abbrev Runs (p : Procedure) : Config → Config → Prop := Relation.ReflTransGen p.Step

variable {p : Procedure} {c c' : Config}

/-- A step carries out the statement of its node. -/
theorem Step.executes (h : p.Step c c') :
    ∃ stmt, p.stmt? c.node = some stmt ∧ stmt.Executes c.store c'.store := by
  cases h with
  | intro found executes _ => exact ⟨_, found, executes⟩

/-- Control goes along an arrow of the graph. -/
theorem Step.mem_successors (checked : p.Checked) (h : p.Step c c') :
    c'.node ∈ p.graph.successors c.node := by
  cases h with
  | intro found _ exits =>
    exact (Graph.mem_successors_stmt checked.graph).2 ⟨_, found, exits⟩

/-- A run starts where the entry leads to. -/
theorem Starts.mem_successors (checked : p.Checked) (h : p.Starts c) :
    c.node ∈ p.graph.successors .entry :=
  (Graph.mem_successors_entry checked.graph).2 h.node

end Procedure

end ConstantFlow
