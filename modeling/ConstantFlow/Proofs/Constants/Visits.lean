import ConstantFlow.Proofs.Constants.Steady

/-!
# How many visits constant propagation makes

In a body of `S` statements with `E` arrows and `K` declared variables that can
hold an int, a run in either direction makes at least `S + 1` visits and at
most `S + 1 + 2 * K * E`.  Then no node is pending.
-/

namespace ConstantFlow.Constants

variable {a : Analysis Value} {p : Procedure}

/-- At no moment of a run are more visits made and pending than the variables
and the arrows allow. -/
theorem visits_le (either : a ∈ [analysis, backward]) (checked : p.Checked) {m : Machine Value}
    (h : Machine.Reaches a p (.initial a p) m) :
    m.visits.length + m.pending.length ≤
      p.body.length + 1 + 2 * (followed p).length * p.graph.edgeCount := by
  have bound := Machine.visits_le (steady either) (confined_followed either checked)
    checked.closed h
  rwa [List.length_map, checked.size_eq] at bound

/-- Every node but the start is visited or pending. -/
theorem le_visits (either : a ∈ [analysis, backward]) (checked : p.Checked) {m : Machine Value}
    (h : Machine.Reaches a p (.initial a p) m) :
    p.body.length + 1 ≤ m.visits.length + m.pending.length := by
  have bound := (Machine.visits_bounds (steady either) (confined_followed either checked)
    checked.closed h).1
  rwa [checked.size_eq] at bound

/-- A run on a checked procedure settles after at least `S + 1` and at most
`S + 1 + 2 * K * E` visits: its last moment is reached from the first, no node
is pending there, and no moment that is reached has more visits behind it. -/
theorem run_settles_within {source : Source.Procedure} (accepted : source.check = .ok p)
    (either : a ∈ [analysis, backward]) :
    (a.run p).ending = .settled ∧
    p.body.length + 1 ≤ (a.run p).visits.length ∧
    (a.run p).visits.length ≤
      p.body.length + 1 + 2 * (p.vars.filter Var.holdsInt).length * p.graph.edgeCount ∧
    (∃ m, Machine.Reaches a p (.initial a p) m ∧ m.pending = [] ∧ m.step a p = .settled ∧
      (a.run p).visits = m.visits.reverse) ∧
    ∀ m, Machine.Reaches a p (.initial a p) m → m.visits.length ≤
      p.body.length + 1 + 2 * (p.vars.filter Var.holdsInt).length * p.graph.edgeCount := by
  have checked := source.checked accepted
  have most {m : Machine Value} (h : Machine.Reaches a p (.initial a p) m) :=
    (Nat.le_add_right _ _).trans (visits_le either checked h)
  obtain ⟨m, reached, idle, run, -, -⟩ := solve_eq either checked
  have least := le_visits either checked reached
  rw [idle, List.length_nil, Nat.add_zero] at least
  have stops : m.step a p = .settled := by simp [Machine.step, idle]
  rw [run, List.length_reverse]
  exact ⟨rfl, least, most reached, ⟨m, reached, idle, stops, rfl⟩, fun m h => most h⟩

/-- Counting up in a loop takes between 6 and 48 visits. -/
theorem run_settles_within_counting :
    Source.Procedure.counting.check = .ok .counting ∧ backward ∈ [analysis, backward] ∧
    (backward.run .counting).ending = .settled ∧
    6 ≤ (backward.run .counting).visits.length ∧
    (backward.run .counting).visits.length ≤ 48 ∧
    (∃ m, Machine.Reaches backward .counting (.initial backward .counting) m ∧
      m.pending = [] ∧ m.step backward .counting = .settled ∧
      (backward.run .counting).visits = m.visits.reverse) ∧
    ∀ m, Machine.Reaches backward .counting (.initial backward .counting) m →
      m.visits.length ≤ 48 :=
  ⟨check_counting, by simp, run_settles_within check_counting (by simp)⟩

end ConstantFlow.Constants
