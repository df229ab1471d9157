import ConstantFlow.Proofs.Constants.Steady

/-!
# The equations that a solution satisfies

The facts that a run settles on are related to each other, and not to how the
run came to them.  In front of a node is the meet of what is behind its
feeders.  Behind it every variable has the value that it has in front, except
the one that the statement defines, which has the value of the right side
unless that is undefined.  To carry out a statement once more changes nothing.

This holds in both directions.  Forward, in front is before the statement and
behind is after it, and backward it is the other way around
(`Direction.around`).
-/

namespace ConstantFlow.Constants

/-- The equations between the facts in front of the nodes and behind them. -/
structure Equations (a : Analysis Value) (p : Procedure) (cells : Node → Cell Value) : Prop where
  /-- In front of the start nothing is known, and behind it the boundary. -/
  start : cells a.direction.start = ⟨.empty, a.boundary p⟩
  /-- In front of another node is the meet of what is behind its feeders. -/
  gathers : ∀ n ∈ p.graph.nodes, n ≠ a.direction.start → ∀ id,
    (cells n).front.get id =
      ((a.direction.feeders p.graph n).map fun k => (cells k).behind.get id).foldl
        Value.meet .undefined
  /-- A variable that the statement does not define has the same value behind
  it as in front. -/
  keeps : ∀ n ∈ p.graph.nodes, n ≠ a.direction.start → ∀ stmt, p.stmt? n = some stmt →
    ∀ id, (∀ x value, stmt.Defines x value → x.id ≠ id) →
      (cells n).behind.get id = (cells n).front.get id
  /-- The variable that it defines has the value of the right side, unless that
  is undefined. -/
  defines : ∀ n ∈ p.graph.nodes, n ≠ a.direction.start → ∀ stmt, p.stmt? n = some stmt →
    ∀ x value, stmt.Defines x value → value.value (cells n).front ≠ .undefined →
      (cells n).behind.get x.id = value.value (cells n).front
  /-- To carry out the statement again changes nothing. -/
  stable : ∀ n ∈ p.graph.nodes, n ≠ a.direction.start → ∀ stmt, p.stmt? n = some stmt →
    a.transfer stmt (cells n).front (cells n).behind = ((cells n).behind, false)

variable {a : Analysis Value} {p : Procedure}

/-- A moment of a run at which no node is pending satisfies the equations. -/
theorem equations_of_idle (either : a ∈ [analysis, backward]) (checked : p.Checked)
    {m : Machine Value} (reached : Machine.Reaches a p (.initial a p) m) (idle : m.pending = []) :
    Equations a p m.cells.get := by
  have consistent : m.Consistent a p := .of_reaches (steady either) checked.closed reached
  have grown : m.Grown a effect p := .of_reaches (steady either) checked.closed reached
  have settled (n : Node) : n ∉ m.pending := idle ▸ List.not_mem_nil
  refine ⟨(Machine.Valid.of_reaches checked.closed reached).start, ?_, ?_, ?_, ?_⟩
  · intro n member other id
    exact consistent.get_front (steady either) member other (settled n) id
  · intro n member other stmt found id kept
    by_cases known : (m.cells.get n).front.get id = ⊥
    · rcases grown n other stmt found id with nothing | ⟨f, below, same⟩
      · rw [known, nothing]
      · rw [get_effect_of_ne kept] at same
        rw [known, same]
        exact le_bot_iff.1 (known ▸ below id)
    · have made : (effect stmt (m.cells.get n).front).get id ≠ ⊥ := by
        rwa [get_effect_of_ne kept]
      rw [consistent.get_behind (steady either) member other (settled n) found made,
        get_effect_of_ne kept]
  · intro n member other stmt found x value defines made
    rw [← get_effect_of_defines defines] at made ⊢
    exact consistent.get_behind (steady either) member other (settled n) found made
  · intro n member other stmt found
    exact consistent.stable n member other (settled n) stmt found

/-- Constant propagation on a checked procedure has a solution, in either
direction, and it satisfies the equations. -/
theorem solve_satisfies_equations {source : Source.Procedure} (accepted : source.check = .ok p)
    (either : a ∈ [analysis, backward]) :
    ∃ s cells, a.solve p = .ok s ∧
      (∀ n ∈ p.graph.nodes, s.get? n = some (a.direction.around (cells n))) ∧
      Equations a p cells := by
  have checked := source.checked accepted
  obtain ⟨m, reached, idle, -, solved, facts⟩ := solve_eq either checked
  exact ⟨m.solution a, m.cells.get, solved, facts, equations_of_idle either checked reached idle⟩

/-- The node of the loop test joins the way in with the way around. -/
theorem solve_satisfies_equations_counting :
    Source.Procedure.counting.check = .ok .counting ∧ analysis ∈ [analysis, backward] ∧
    ∃ s cells, analysis.solve .counting = .ok s ∧
      (∀ n ∈ Procedure.counting.graph.nodes,
        s.get? n = some (Direction.forward.around (cells n))) ∧
      Equations analysis .counting cells :=
  ⟨check_counting, by simp, solve_satisfies_equations check_counting (by simp)⟩

end ConstantFlow.Constants
