import ConstantFlow.Proofs.Constants.Steady

/-!
# The least solution

A *solution* gives every node facts before and after its statement, such that
what is known at the entry is above the boundary, what is known before a node
is above what is known after each node that leads to it, and what is known
after a node is above what its statement makes of what is known before it.

When every divisor is a literal other than zero, folding is monotone, and the
solution that a run settles on is below every other one.  Nothing is lost on
the way: a variable is unknown only if every solution says so.
-/

namespace ConstantFlow

/-! ## Guarded statements -/

section Guarded

variable {ν : Type}

/-- Whether every divisor in a location is a literal other than zero. -/
def Location.Guarded : Location ν → Prop
  | .element _ index => index.Guarded
  | .var _ | .field _ _ => True

/-- Whether every divisor in a statement is a literal other than zero. -/
def Stmt.Guarded : Stmt ν → Prop
  | .define location value => location.Guarded ∧ value.Guarded
  | .invoke call => call.Guarded
  | .branch test _ => test.Guarded
  | .goto _ | .switch _ _ _ | .ret _ | .raise _ | .nop => True

end Guarded

namespace Constants

variable {p : Procedure}

/-- The effect of a guarded statement climbs with the fact in front. -/
theorem effect_mono {stmt : Stmt Var} (guarded : stmt.Guarded) {f g : Fact Value} (h : f ≤ g) :
    effect stmt f ≤ effect stmt g := by
  intro id
  rcases get_effect_cases stmt id with ⟨x, value, defines, -, made⟩ | kept
  · rw [made, made]
    rw [defines.1] at guarded
    exact value.value_mono guarded.2 h
  · rw [kept, kept]
    exact h id

/-! ## Solutions -/

/-- Facts around every node that allow for all that may happen. -/
structure IsSolution (p : Procedure) (facts : Node → Around Value) : Prop where
  /-- What is known at the entry is above the boundary. -/
  entry : boundary p ≤ (facts .entry).outgoing
  /-- What is known before a node is above what is known after each node that
  leads to it. -/
  arrow : ∀ m n, n ∈ p.graph.successors m → (facts m).outgoing ≤ (facts n).incoming
  /-- What is known after a node is above what its statement makes of what is
  known before it. -/
  stmt : ∀ n ∈ p.graph.nodes, n ≠ .entry → ∀ stmt, p.stmt? n = some stmt →
    (transfer stmt (facts n).incoming .empty).1 ≤ (facts n).outgoing

/-- To know nothing of the declared variables is a solution. -/
theorem isSolution_unknown (checked : p.Checked) {f : Fact Value}
    (nothing : ∀ x ∈ p.vars, f.get x.id = .unknown) : IsSolution p fun _ => ⟨f, f⟩ where
  entry id := by
    rw [get_boundary]
    split
    · next param =>
      obtain ⟨x, member, -, rfl⟩ := param
      rw [nothing x (checked.mem_vars_of_param member)]
    · exact Value.undefined_le _
  arrow _ _ _ := le_rfl
  stmt n _ _ stmt found := by
    rw [transfer_empty]
    intro id
    rcases get_effect_cases stmt id with ⟨x, value, defines, rfl, -⟩ | kept
    · rw [nothing x (checked.mem_vars_of_stmt (defines.mem_body found) defines.mem_vars)]
      exact Value.le_unknown _
    · exact (kept f).le

/-- Every visit keeps below a solution. -/
theorem IsSolution.bounds {facts : Node → Around Value} (solution : IsSolution p facts)
    (guarded : ∀ stmt ∈ p.body, stmt.Guarded) :
    Machine.Bounds analysis effect p
      fun n => ⟨(facts n).incoming, (facts n).outgoing⟩ where
  boundary := solution.entry
  gathers n k feeds := solution.arrow k n (Direction.mem_feeders_iff.1 feeds)
  carries n member other stmt found f below := by
    have safe : stmt.Guarded := by
      rcases Procedure.stmt?_cases found with rfl | member
      · trivial
      · exact guarded stmt member
    have made := solution.stmt n member other stmt found
    rw [transfer_empty] at made
    exact (effect_mono safe below).trans made

/-- Constant propagation finds the least solution when every divisor is a
literal other than zero. -/
theorem solve_le_solution {source : Source.Procedure} (accepted : source.check = .ok p)
    (guarded : ∀ stmt ∈ p.body, stmt.Guarded) :
    ∃ s, analysis.solve p = .ok s ∧ ∀ facts, IsSolution p facts → ∀ n ∈ p.graph.nodes,
      ∃ around, s.get? n = some around ∧
        around.incoming ≤ (facts n).incoming ∧ around.outgoing ≤ (facts n).outgoing := by
  have checked := source.checked accepted
  have either : analysis ∈ [analysis, backward] := List.mem_cons_self
  obtain ⟨m, reached, -, -, solved, found⟩ := solve_eq either checked
  refine ⟨m.solution analysis, solved, fun facts solution n member => ?_⟩
  have below := Machine.Reaches.le_bound (steady either) checked.closed
    (solution.bounds guarded) reached n
  exact ⟨_, found n member, below.1, below.2⟩

/-- To know nothing of the three variables solves the loop, so what is found is
no less precise. -/
theorem solve_le_solution_counting :
    let nothing : Fact Value := .ofList [(0, .unknown), (1, .unknown), (2, .unknown)]
    let facts : Node → Around Value := fun _ => ⟨nothing, nothing⟩
    Source.Procedure.counting.check = .ok .counting ∧
    (∀ stmt ∈ Procedure.counting.body, stmt.Guarded) ∧ IsSolution .counting facts ∧
    ∃ s, analysis.solve .counting = .ok s ∧ ∀ n ∈ Procedure.counting.graph.nodes,
      ∃ around, s.get? n = some around ∧ around.incoming ≤ nothing ∧
        around.outgoing ≤ nothing := by
  intro nothing facts
  have guarded : ∀ stmt ∈ Procedure.counting.body, stmt.Guarded := by
    simp [Procedure.counting, Stmt.Guarded, Location.Guarded, Exp.Guarded, BinaryOp.isDivision]
  have solution : IsSolution .counting facts :=
    isSolution_unknown (Source.Procedure.checked check_counting) (by decide)
  obtain ⟨s, solved, least⟩ := solve_le_solution check_counting guarded
  exact ⟨check_counting, guarded, solution, s, solved, least facts solution⟩

end Constants

end ConstantFlow
