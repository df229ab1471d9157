import ConstantFlow.Proofs.Dataflow.Order
import ConstantFlow.Proofs.Reporting
import ConstantFlow.Proofs.Validity.Decision

/-!
# Bodies that do not match their graph

The graph of a checked procedure is that of its body.  Here the body is replaced by
one over the same variables and the graph is kept, so a node may be without a
statement or a statement without a node.  No such procedure is reported as if nothing
were wrong (`Source.Procedure.mismatch_reported`).

* If there are too few statements, the solver ends at the first node without one in
  the direction of the analysis.  Forward this is the node behind the last statement,
  and every node before it has been visited, as often as its facts asked for.
  Backward it is the last node of all, which is the first to be visited.
* If there are too many, the solver has a statement for every node, so it settles.
  The report then wants the facts around the first statement that has no node.

The variables of the new statements are declared, so the facts of the run can still
be named.
-/

namespace ConstantFlow

/-- A list of computations fails with the first of them that does. -/
theorem mapM_eq_error {ε α β : Type} {f : α → Except ε β} {before later : List α} {x : α} {e : ε}
    (each : ∀ y ∈ before, ∃ z, f y = .ok z) (failed : f x = .error e) :
    (before ++ x :: later).mapM f = .error e := by
  induction before with
  | nil =>
    rw [List.nil_append, List.mapM_cons, failed]
    rfl
  | cons y before ih =>
    obtain ⟨z, first⟩ := each y List.mem_cons_self
    rw [List.cons_append, List.mapM_cons, first,
      ih fun y' member => each y' (List.mem_cons_of_mem _ member)]
    rfl

/-! ## Messages -/

namespace Error

theorem detail_noStatement (i : Nat) :
    (noStatement (.stmt i)).detail = "no statement for node #" ++ toString i := by
  show "no statement for node " ++ ("#" ++ toString i) = _
  rw [← String.append_assoc]
  exact congrArg (· ++ toString i) rfl

theorem detail_noState (i : Nat) (procedure : String) : (noState (.stmt i) procedure).detail =
    "no dataflow state for node #" ++ toString i ++ " in procedure " ++ procedure := by
  show "no dataflow state for node " ++ ("#" ++ toString i) ++ " in procedure " ++ procedure = _
  rw [← String.append_assoc]
  exact congrArg (· ++ toString i ++ " in procedure " ++ procedure) rfl

end Error

/-! ## What comes of a body -/

namespace Procedure

open Constants (analysis backward)

/-- What comes of a body of fewer than the `size` statements of the graph. -/
structure LacksStatements (q : Procedure) (size : Nat) : Prop where
  /-- Forward, the first node without a statement is an error, and there is no
  report for the same reason. -/
  forward : ∃ e, analysis.solve q = .error e ∧ Report.build q = .error e ∧ e.kind = .invariant ∧
    e.detail = "no statement for node #" ++ toString q.body.length
  /-- Only statements of the body have been carried out before that. -/
  visited : ∀ v ∈ (analysis.run q).visits, ∃ i < q.body.length,
    v.node = .stmt i ∧ q.body[i]? = some v.stmt
  /-- Each of them has been. -/
  every : ∀ i < q.body.length, ∃ v ∈ (analysis.run q).visits, v.node = .stmt i
  /-- Backward, the last node is an error. -/
  backward : ∃ e, backward.solve q = .error e ∧ e.kind = .invariant ∧
    e.detail = "no statement for node #" ++ toString (size - 1)
  /-- Nothing has been carried out before that. -/
  unvisited : (Constants.backward.run q).visits = []

/-- What comes of a body of as many statements as the graph has. -/
structure MatchesGraph (q : Procedure) : Prop where
  /-- There is a solution in either direction. -/
  solved : ∀ a ∈ [analysis, Constants.backward], ∃ s, a.solve q = .ok s
  /-- There is a report. -/
  reported : ∃ r, Report.build q = .ok r

/-- What comes of a body of more than the `size` statements of the graph. -/
structure LacksNodes (q : Procedure) (size : Nat) : Prop where
  /-- There is a solution in either direction. -/
  solved : ∀ a ∈ [analysis, Constants.backward], ∃ s, a.solve q = .ok s
  /-- There is no report, because of the first statement without a node. -/
  unreported : ∃ e, Report.build q = .error e ∧ e.kind = .invariant ∧
    e.detail = "no dataflow state for node #" ++ toString size ++ " in procedure " ++ q.name

end Procedure

/-! ## Runs over another body -/

namespace Constants

variable {a : Analysis Value} {p : Procedure} {body : List (Stmt Var)}

/-- With any body, constant propagation speaks of the variables that occur in it. -/
theorem confined_occurrences (either : a ∈ [analysis, backward]) (q : Procedure) :
    a.Confined effect q (q.occurrences.map Var.id) :=
  confined either fun _ member _ => List.mem_map_of_mem member

/-- With another body of no fewer statements there is a solution, in either
direction. -/
theorem solves (either : a ∈ [analysis, backward]) (checked : p.Checked)
    (enough : p.body.length ≤ body.length) : ∃ s, a.solve { p with body := body } = .ok s := by
  obtain ⟨m, -, -, -, solved, -⟩ := (steady either).solve_eq
    (confined_occurrences either { p with body := body }) checked.closed
    (checked.size_eq.trans_le enough)
  exact ⟨_, solved⟩

/-- The solution is of the nodes of the graph, and it speaks of declared variables
if the new body does. -/
theorem solve_another (checked : p.Checked) (inScope : ∀ stmt ∈ body, ∀ x ∈ stmt.vars, x ∈ p.vars)
    (enough : p.body.length ≤ body.length) :
    ∃ s, analysis.solve { p with body := body } = .ok s ∧
      (∀ i < p.body.length, ∃ around, s.get? (.stmt i) = some around ∧
        around.incoming.Declared p ∧ around.outgoing.Declared p) ∧
      s.get? (.stmt p.body.length) = none := by
  obtain ⟨m, reached, -, -, solved, facts⟩ := (steady analysis_mem).solve_eq
    (confined_occurrences analysis_mem { p with body := body }) checked.closed
    (checked.size_eq.trans_le enough)
  have confined : analysis.Confined effect { p with body := body } ((followed p).map Var.id) := by
    refine confined analysis_mem fun x member holds => List.mem_map_of_mem ?_
    refine List.mem_filter.2 ⟨?_, holds⟩
    rcases List.mem_append.1 member with param | used
    · exact checked.mem_vars_of_param param
    · obtain ⟨stmt, among, occurs⟩ := List.mem_flatMap.1 used
      exact inScope stmt among x occurs
  have within : m.Within ((followed p).map Var.id) :=
    .of_reaches (steady analysis_mem) confined checked.closed reached
  refine ⟨_, solved, fun i inside => ?_, ?_⟩
  · exact ⟨_, facts (.stmt i) (checked.mem_nodes inside), ((within _).1.speaks checked).declared,
      ((within _).2.speaks checked).declared⟩
  · have absent : Node.stmt p.body.length ∉ m.cells.nodes := by
      have valid : Machine.Valid analysis { p with body := body } m :=
        .of_reaches checked.closed reached
      rw [valid.nodes]
      simp [Graph.nodes, checked.size_eq]
    rw [Machine.solution_get?, Cells.get?_eq_none absent, Option.map_none]

end Constants

/-! ## Fewer, as many and more statements -/

namespace Procedure.Checked

open Constants (analysis backward steady analysis_mem confined_occurrences)

variable {p : Procedure} {body : List (Stmt Var)}

/-- No node but the exit comes after the last statement. -/
theorem not_mem_nodes (checked : p.Checked) {n : Node}
    (after : (Node.stmt (p.body.length - 1)).before n) (other : n ≠ .exit) :
    n ∉ p.graph.nodes := by
  obtain ⟨i, later, rfl⟩ := Node.of_stmt_before after other
  intro member
  have inside : i < p.body.length := by simpa [Graph.nodes, checked.size_eq] using member
  omega

/-- Forward, the first node without a statement is the one behind the last
statement. -/
theorem sticks_forward (checked : p.Checked) (fewer : body.length < p.body.length) :
    ∃ last, Machine.Ordered analysis { p with body := body } last ∧
      last.pending.head? = some (.stmt body.length) ∧
      analysis.run { p with body := body } =
        ⟨last.visits.reverse, last.solution analysis, .failed (.noStatement (.stmt body.length))⟩ := by
  have missing : stmt? { p with body := body } (.stmt body.length) = none :=
    List.getElem?_eq_none le_rfl
  refine (steady analysis_mem).sticks (confined_occurrences analysis_mem { p with body := body })
    checked.closed (checked.mem_nodes fewer) Node.noConfusion missing ?_
  intro k _ before
  by_cases entry : k = .entry
  · rw [entry]
    rfl
  · obtain ⟨i, inside, rfl⟩ := Node.of_before_stmt before entry
    simpa [stmt?] using inside

/-- Backward, it is the last node. -/
theorem sticks_backward (checked : p.Checked) (fewer : body.length < p.body.length) :
    ∃ last, Machine.Ordered backward { p with body := body } last ∧
      last.pending.head? = some (.stmt (p.body.length - 1)) ∧
      backward.run { p with body := body } =
        ⟨last.visits.reverse, last.solution backward,
          .failed (.noStatement (.stmt (p.body.length - 1)))⟩ := by
  have either : backward ∈ [analysis, backward] := by simp
  have missing : stmt? { p with body := body } (.stmt (p.body.length - 1)) = none :=
    List.getElem?_eq_none (Nat.le_sub_one_of_lt fewer)
  refine (steady either).sticks (confined_occurrences either { p with body := body })
    checked.closed (checked.mem_nodes (by omega)) Node.noConfusion missing ?_
  intro k member before
  by_cases exit : k = .exit
  · rw [exit]
    rfl
  · exact absurd member (checked.not_mem_nodes before exit)

/-- With fewer statements, some nodes of the graph have none. -/
theorem lacksStatements (checked : p.Checked) (fewer : body.length < p.body.length) :
    LacksStatements { p with body := body } p.body.length := by
  obtain ⟨last, ordered, head, run⟩ := checked.sticks_forward fewer
  obtain ⟨last', ordered', -, run'⟩ := checked.sticks_backward fewer
  have solve : analysis.solve { p with body := body } =
      .error (.noStatement (.stmt body.length)) := by
    rw [Analysis.solve, run]
    rfl
  have solve' : backward.solve { p with body := body } =
      .error (.noStatement (.stmt (p.body.length - 1))) := by
    rw [Analysis.solve, run']
    rfl
  constructor
  · exact ⟨_, solve, bind_eq_error.2 (.inl solve), rfl, Error.detail_noStatement _⟩
  · intro v made
    rw [run, List.mem_reverse] at made
    obtain ⟨⟨-, other⟩, found⟩ := ordered.visited v made
    have before := ordered.earlier v made _ (checked.mem_nodes fewer) Node.noConfusion
      (List.getElem?_eq_none le_rfl)
    obtain ⟨i, inside, same⟩ := Node.of_before_stmt before other
    rw [same] at found
    exact ⟨i, inside, same, found⟩
  · intro i inside
    obtain ⟨v, made, same⟩ := ordered.visited_of_before head
      (checked.mem_nodes (inside.trans fewer)) Node.noConfusion (decide_eq_true inside)
    exact ⟨v, by rwa [run, List.mem_reverse], same⟩
  · exact ⟨_, solve', rfl, Error.detail_noStatement _⟩
  · rw [run', List.reverse_eq_nil_iff]
    refine List.eq_nil_iff_forall_not_mem.2 fun v made => ?_
    obtain ⟨⟨member, other⟩, -⟩ := ordered'.visited v made
    have after := ordered'.earlier v made (.stmt (p.body.length - 1))
      (checked.mem_nodes (by omega)) Node.noConfusion
      (List.getElem?_eq_none (Nat.le_sub_one_of_lt fewer))
    exact checked.not_mem_nodes after other member

theorem matchesGraph (checked : p.Checked) (inScope : ∀ stmt ∈ body, ∀ x ∈ stmt.vars, x ∈ p.vars)
    (same : body.length = p.body.length) : MatchesGraph { p with body := body } := by
  obtain ⟨s, solved, facts, -⟩ := Constants.solve_another checked inScope same.ge
  have describes : s.Describes { p with body := body } := fun i inside => facts i (same ▸ inside)
  obtain ⟨r, made⟩ := Report.ofSolution_eq_ok describes
  exact ⟨fun a either => Constants.solves either checked same.ge,
    r, bind_eq_ok.2 ⟨s, solved, made⟩⟩

theorem lacksNodes (checked : p.Checked) (inScope : ∀ stmt ∈ body, ∀ x ∈ stmt.vars, x ∈ p.vars)
    (more : p.body.length < body.length) :
    LacksNodes { p with body := body } p.body.length := by
  obtain ⟨s, solved, facts, absent⟩ := Constants.solve_another checked inScope more.le
  refine ⟨fun a either => Constants.solves either checked more.le,
    .noState (.stmt p.body.length) p.name, ?_, rfl, ?_⟩
  · have inside : p.body.length < body.zipIdx.length := by rwa [List.length_zipIdx]
    have rows : body.zipIdx.mapM (StmtReport.ofSolution { p with body := body } s) =
        .error (.noState (.stmt p.body.length) p.name) := by
      rw [← List.take_append_drop p.body.length body.zipIdx, List.drop_eq_getElem_cons inside]
      refine mapM_eq_error ?_ ?_
      · rintro ⟨stmt, i⟩ member
        obtain ⟨j, less, same⟩ := List.mem_take_iff_getElem.1 member
        rw [List.getElem_zipIdx, Nat.zero_add] at same
        obtain ⟨-, rfl⟩ := Prod.mk.inj same
        obtain ⟨around, found, known, known'⟩ := facts j (Nat.lt_of_lt_of_le less (min_le_left _ _))
        exact StmtReport.ofSolution_eq_ok found known known' stmt
      · rw [List.getElem_zipIdx, Nat.zero_add, StmtReport.ofSolution, absent]
    exact bind_eq_error.2 (.inr ⟨s, solved, bind_eq_error.2 (.inl rows)⟩)
  · exact Error.detail_noState _ _

end Procedure.Checked

/-- A procedure whose body is replaced after it was checked, by any statements over its
variables, is reported if there are as many as before, and there is an error if there
are not. -/
theorem Source.Procedure.mismatch_reported {source : Source.Procedure}
    {p : ConstantFlow.Procedure} (accepted : source.check = .ok p) {body : List (Stmt Var)}
    (inScope : ∀ stmt ∈ body, ∀ x ∈ stmt.vars, x ∈ p.vars) :
    (body.length < p.body.length →
      Procedure.LacksStatements { p with body := body } p.body.length) ∧
    (body.length = p.body.length → Procedure.MatchesGraph { p with body := body }) ∧
    (p.body.length < body.length →
      Procedure.LacksNodes { p with body := body } p.body.length) := by
  have checked := source.checked accepted
  exact ⟨checked.lacksStatements, checked.matchesGraph inScope, checked.lacksNodes inScope⟩

/-- The loop of a procedure without the statement behind it, its statements the other
way around, and all of them with one more. -/
theorem Source.Procedure.mismatch_reported_counting :
    let p := ConstantFlow.Procedure.counting
    Source.Procedure.counting.check = .ok p ∧
    Procedure.LacksStatements { p with body := p.body.take 4 } 5 ∧
    Procedure.MatchesGraph { p with body := p.body.reverse } ∧
    Procedure.LacksNodes { p with body := p.body ++ [.nop] } 5 := by
  intro p
  have declared {stmt : Stmt Var} (among : stmt ∈ p.body) : ∀ x ∈ stmt.vars, x ∈ p.vars :=
    fun x => (Source.Procedure.counting.checked check_counting).mem_vars_of_stmt among
  refine ⟨check_counting, (mismatch_reported check_counting ?_).1 (by decide),
    (mismatch_reported check_counting ?_).2.1 rfl,
    (mismatch_reported check_counting ?_).2.2 (by decide)⟩
  · exact fun stmt among => declared (List.mem_of_mem_take among)
  · exact fun stmt among => declared (List.mem_reverse.1 among)
  · intro stmt among
    rcases List.mem_append.1 among with old | new
    · exact declared old
    · cases List.mem_singleton.1 new
      exact List.forall_mem_nil _

end ConstantFlow
