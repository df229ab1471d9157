import ConstantFlow.Graph.Build

/-!
# Renaming variables

Renaming the variables of an expression, a location or a statement is a functor:
two renamings are one (`Stmt.map_map`), and only what happens to the variables
that occur matters (`Stmt.map_congr`).  The graph of a body does not depend on
its variables (`Graph.build_map`).
-/

namespace ConstantFlow

variable {ν μ κ : Type}

/-! ## Expressions -/

namespace Exp

/-- To rename nothing leaves an expression as it is. -/
theorem map_id (e : Exp ν) : e.map id = e := by
  induction e with
  | binary op lhs rhs ihl ihr => rw [map, ihl, ihr]
  | neg operand ih => rw [map, ih]
  | cast type operand ih => rw [map, ih]
  | instanceOf operand type ih => rw [map, ih]
  | call callee args => rw [map, List.map_id]
  | field base name => rw [map, Option.map_id, id_eq]
  | element base index ih => rw [map, ih, id_eq]
  | _ => rfl

/-- To rename an expression twice is to rename it once, by both. -/
theorem map_map (f : ν → μ) (g : μ → κ) (e : Exp ν) : (e.map f).map g = e.map (g ∘ f) := by
  induction e with
  | binary op lhs rhs ihl ihr => simp only [map, ihl, ihr]
  | neg operand ih => simp only [map, ih]
  | cast type operand ih => simp only [map, ih]
  | instanceOf operand type ih => simp only [map, ih]
  | call callee args => simp only [map, List.map_map]
  | field base name => simp only [map, Option.map_map]
  | element base index ih => simp only [map, ih, Function.comp_apply]
  | _ => rfl

/-- What an expression becomes depends on what its own variables become. -/
theorem map_congr {f g : ν → μ} {e : Exp ν} (same : ∀ x ∈ e.vars, f x = g x) :
    e.map f = e.map g := by
  induction e with
  | var x => rw [map, map, same x List.mem_cons_self]
  | binary op lhs rhs ihl ihr =>
    rw [map, map, ihl fun x h => same x (List.mem_append_left _ h),
      ihr fun x h => same x (List.mem_append_right _ h)]
  | neg operand ih => rw [map, map, ih same]
  | cast type operand ih => rw [map, map, ih same]
  | instanceOf operand type ih => rw [map, map, ih same]
  | call callee args => exact congrArg (call callee) (List.map_congr_left same)
  | field base name =>
    rw [map, map, Option.map_congr fun x h => same x (Option.mem_toList.2 h)]
  | element base index ih =>
    rw [map, map, same base List.mem_cons_self, ih fun x h => same x (List.mem_cons_of_mem _ h)]
  | length base => rw [map, map, same base List.mem_cons_self]
  | _ => rfl

end Exp

/-! ## Locations -/

namespace Location

/-- To rename nothing leaves a location as it is. -/
theorem map_id (l : Location ν) : l.map id = l := by
  cases l with
  | var x => rfl
  | field base name => rw [map, Option.map_id, id_eq]
  | element base index => rw [map, Exp.map_id, id_eq]

/-- To rename a location twice is to rename it once, by both. -/
theorem map_map (f : ν → μ) (g : μ → κ) (l : Location ν) : (l.map f).map g = l.map (g ∘ f) := by
  cases l with
  | var x => rfl
  | field base name => simp only [map, Option.map_map]
  | element base index => simp only [map, Exp.map_map, Function.comp_apply]

/-- What a location becomes depends on what its own variables become. -/
theorem map_congr {f g : ν → μ} {l : Location ν} (same : ∀ x ∈ l.vars, f x = g x) :
    l.map f = l.map g := by
  cases l with
  | var x => rw [map, map, same x List.mem_cons_self]
  | field base name =>
    rw [map, map, Option.map_congr fun x h => same x (Option.mem_toList.2 h)]
  | element base index =>
    rw [map, map, same base List.mem_cons_self,
      Exp.map_congr fun x h => same x (List.mem_cons_of_mem _ h)]

end Location

/-! ## Statements -/

namespace Stmt

/-- To rename nothing leaves a statement as it is. -/
theorem map_id (stmt : Stmt ν) : stmt.map id = stmt := by
  cases stmt with
  | define location value => rw [map, Location.map_id, Exp.map_id]
  | invoke call => rw [map, Exp.map_id]
  | branch test target => rw [map, Exp.map_id]
  | ret value => rw [map, Option.map_id, id_eq]
  | _ => rfl

theorem map_map (f : ν → μ) (g : μ → κ) (stmt : Stmt ν) :
    (stmt.map f).map g = stmt.map (g ∘ f) := by
  cases stmt with
  | define location value => simp only [map, Location.map_map, Exp.map_map]
  | invoke call => simp only [map, Exp.map_map]
  | branch test target => simp only [map, Exp.map_map]
  | ret value => simp only [map, Option.map_map]
  | _ => rfl

/-- What a statement becomes depends on what its own variables become. -/
theorem map_congr {f g : ν → μ} {stmt : Stmt ν} (same : ∀ x ∈ stmt.vars, f x = g x) :
    stmt.map f = stmt.map g := by
  cases stmt with
  | define location value =>
    rw [map, map, Location.map_congr fun x h => same x (List.mem_append_left _ h),
      Exp.map_congr fun x h => same x (List.mem_append_right _ h)]
  | invoke call => rw [map, map, Exp.map_congr same]
  | branch test target => rw [map, map, Exp.map_congr same]
  | switch subject cases otherwise => rw [map, map, same subject List.mem_cons_self]
  | ret value => rw [map, map, Option.map_congr fun x h => same x (Option.mem_toList.2 h)]
  | raise exception => rw [map, map, same exception List.mem_cons_self]
  | goto target => rfl
  | nop => rfl

end Stmt

/-! ## Graphs -/

namespace Graph

theorem insertStmt_map (f : ν → μ) (size index : Nat) (stmt : Stmt ν) (table : Table) :
    insertStmt size index (stmt.map f) table = insertStmt size index stmt table := by
  cases stmt <;> rfl

theorem insertStmts_map (f : ν → μ) (size index : Nat) (stmts : List (Stmt ν)) (table : Table) :
    insertStmts size index (stmts.map (Stmt.map f)) table =
      insertStmts size index stmts table := by
  induction stmts generalizing index table with
  | nil => rfl
  | cons stmt rest ih =>
    simp only [List.map_cons, insertStmts, insertStmt_map, ih]

/-- The graph of a body does not depend on its variables, and it is built or refused for
the same reason. -/
theorem build_map (f : ν → μ) (body : List (Stmt ν)) :
    build (body.map (Stmt.map f)) = build body := by
  simp only [build, List.length_map, insertStmts_map]

end Graph

end ConstantFlow
