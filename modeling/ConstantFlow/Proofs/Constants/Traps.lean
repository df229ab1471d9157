import ConstantFlow.Proofs.Constants.Steady
import ConstantFlow.Proofs.Dataflow.History

/-!
# What a trap leaves behind

A divisor may turn out to be zero only when a loop comes around.  In an earlier
visit the quotient was unknown, if the dividend was, and that is what was copied
into the fact behind.  Now the quotient is undefined, and an undefined value is
not copied: the variable behind the statement stays unknown.

This is the one way in which what is behind a statement in the end depends on
the visits of its node.  In every other case it is what the statement makes of
the final fact in front (`Leaves.exact`).
-/

namespace ConstantFlow.Constants

variable {p : Procedure} {n : Node} {stmt : Stmt Var} {m : Machine Value}

/-- In the end a variable has behind a statement what the statement makes of it, or it
is defined there and its right side, now undefined, was unknown in a visit: the equation
behind the node says nothing there, and the fact of the visit was below the one in front
now. -/
theorem get_behind_cases (checked : p.Checked)
    (reached : Machine.Reaches analysis p (.initial analysis p) m) (idle : m.pending = [])
    (other : n ≠ .entry) (found : p.stmt? n = some stmt) (id : VarId) :
    (m.cells.get n).behind.get id = (effect stmt (m.cells.get n).front).get id ∨
      ∃ x value f, stmt.Defines x value ∧ x.id = id ∧
        value.value (m.cells.get n).front = .undefined ∧ Machine.Visited analysis p n f ∧
        value.value f = .unknown := by
  have consistent : m.Consistent analysis p :=
    .of_reaches (steady analysis_mem) checked.closed reached
  by_cases made : (effect stmt (m.cells.get n).front).get id = ⊥
  · rcases Machine.behind_made (steady analysis_mem) checked.closed reached other found id with
      nothing | ⟨f, visited, same⟩
    · exact .inl (nothing.trans made.symm)
    · have below := visited.le_front (steady analysis_mem) checked.closed reached idle
      rcases get_effect_cases stmt id with ⟨x, value, defines, named, result⟩ | kept
      · rw [result] at made
        rcases (value.value_follows below).le_or_trapped with climbs | ⟨before, after⟩
        · rw [same, result, result, made]
          exact .inl (le_bot_iff.1 (made ▸ climbs))
        · exact .inr ⟨x, value, f, defines, named, after, visited, before⟩
      · rw [kept] at made
        rw [same, kept, kept, made]
        exact .inl (le_bot_iff.1 (made ▸ below id))
  · exact .inl (consistent.get_behind (steady analysis_mem) (checked.mem_nodes_of_stmt? found) other
      (idle ▸ List.not_mem_nil) found made)

/-- What is after a statement, by what is before it and by the visits of its
node. -/
structure Leaves (p : Procedure) (n : Node) (stmt : Stmt Var) (around : Around Value) : Prop where
  /-- A variable whose right side is undefined, and was unknown in no visit, is
  undefined. -/
  undefined : ∀ x value, stmt.Defines x value → value.value around.incoming = .undefined →
    (∀ f, Machine.Visited analysis p n f → value.value f ≠ .unknown) →
      around.outgoing.get x.id = .undefined
  /-- Unless a right side is undefined now and was unknown in a visit, what is
  after the statement is what it makes of what is before it, if nothing was
  there. -/
  exact : (∀ x value f, stmt.Defines x value → value.value around.incoming = .undefined →
    Machine.Visited analysis p n f → value.value f ≠ .unknown) →
      around.outgoing = (transfer stmt around.incoming .empty).1
  /-- Otherwise a divisor has turned out to be zero since the visit, and the
  variable alone differs: it is unknown. -/
  stale : ∀ x value f, stmt.Defines x value → value.value around.incoming = .undefined →
    Machine.Visited analysis p n f → value.value f = .unknown →
      value.TurnsZero f around.incoming ∧
        around.outgoing = (transfer stmt around.incoming .empty).1.set x.id .unknown

/-- When a run is idle, each statement has left what the amended equation says.  Where
the effect is undefined the equation asks nothing, and the value behind the node is that
of a visit, whose fact was below the one in front now. -/
theorem leaves_of_idle (checked : p.Checked)
    (reached : Machine.Reaches analysis p (.initial analysis p) m) (idle : m.pending = [])
    (other : n ≠ .entry) (found : p.stmt? n = some stmt) :
    Leaves p n stmt (Direction.forward.around (m.cells.get n)) := by
  have cases := get_behind_cases checked reached idle other found
  have exact : (∀ x value f, stmt.Defines x value →
      value.value (m.cells.get n).front = .undefined → Machine.Visited analysis p n f →
        value.value f ≠ .unknown) →
      (m.cells.get n).behind = effect stmt (m.cells.get n).front := by
    intro never
    refine Fact.ext_get fun id => (cases id).resolve_right ?_
    rintro ⟨x, value, f, defines, -, undefined, visited, unknown⟩
    exact never x value f defines undefined visited unknown
  refine ⟨fun x value defines undefined never => ?_, fun never => ?_,
    fun x value f defines undefined visited unknown => ⟨?_, ?_⟩⟩
  · refine ((cases x.id).resolve_right ?_).trans ((get_effect_of_defines defines _).trans undefined)
    rintro ⟨y, value', f, defines', -, -, visited, unknown⟩
    cases defines.1.symm.trans defines'.1
    exact never f visited unknown
  · rw [transfer_empty]
    exact exact never
  · exact Exp.turnsZero_of_trapped
      (visited.le_front (steady analysis_mem) checked.closed reached idle) unknown undefined
  · rw [transfer_empty]
    refine Fact.ext_get fun id => ?_
    rw [Fact.get_set]
    split
    · next same =>
      subst same
      have above := visited.effect_le (steady analysis_mem) checked.closed found reached idle x.id
      rw [get_effect_of_defines defines, unknown] at above
      exact Value.unknown_le above
    · next different =>
      refine (cases id).resolve_right ?_
      rintro ⟨y, value', g, defines', named, -⟩
      exact different (named ▸ congrArg Var.id (defines.eq defines').symm)

/-- What constant propagation finds after a statement is what the statement
makes of what it finds before it, but for a variable whose right side was
unknown until a divisor turned out to be zero. -/
theorem solve_leaves {source : Source.Procedure} (accepted : source.check = .ok p) :
    ∃ s, analysis.solve p = .ok s ∧ ∀ n stmt, n ≠ .entry → p.stmt? n = some stmt →
      ∃ around, s.get? n = some around ∧ Leaves p n stmt around := by
  have checked := source.checked accepted
  obtain ⟨m, reached, idle, -, solved, facts⟩ :=
    solve_eq analysis_mem checked
  refine ⟨m.solution analysis, solved, fun n stmt other found => ?_⟩
  exact ⟨_, facts n (checked.mem_nodes_of_stmt? found),
    leaves_of_idle checked reached idle other found⟩

/-- The quotient at the head of the loop is undefined in the end, and was unknown
when its divisor was still undefined. -/
theorem solve_leaves_dividing :
    let x : Var := ⟨2, "x", .primitive .int⟩
    let quotient : Exp Var :=
      .binary (.arithmetic .div) (.var ⟨0, "p", .primitive .int⟩) (.var ⟨1, "z", .primitive .int⟩)
    Source.Procedure.dividing.check = .ok .dividing ∧
    ∃ s around, analysis.solve .dividing = .ok s ∧ s.get? (.stmt 0) = some around ∧
      Leaves .dividing (.stmt 0) (.define (.var x) quotient) around ∧
      ∃ f, Machine.Visited analysis .dividing (.stmt 0) f ∧ quotient.value f = .unknown := by
  intro x quotient
  obtain ⟨s, solved, leaves⟩ := solve_leaves check_dividing
  obtain ⟨around, found, leaves⟩ := leaves (.stmt 0) _ (by decide) rfl
  have visited : Machine.Visited analysis .dividing (.stmt 0) (.ofList [(0, .unknown)]) :=
    ⟨_, _, .refl, rfl, rfl, by decide⟩
  exact ⟨check_dividing, s, around, solved, found, leaves, _, visited, rfl⟩

/-- What is after a statement need not be what the statement makes of what is
before it: the quotient is undefined, and the variable unknown. -/
theorem dividing_leaves_stale :
    Source.Procedure.dividing.check = .ok .dividing ∧
    ∃ s around stmt x value, analysis.solve .dividing = .ok s ∧
      s.get? (.stmt 0) = some around ∧ Procedure.dividing.stmt? (.stmt 0) = some stmt ∧
      stmt.Defines x value ∧ value.value around.incoming = .undefined ∧
      around.outgoing.get x.id = .unknown ∧
      around.outgoing ≠ (transfer stmt around.incoming .empty).1 :=
  ⟨rfl, _, _, _, _, _, rfl, rfl, rfl, ⟨rfl, rfl⟩, rfl, rfl, by decide⟩

end ConstantFlow.Constants
