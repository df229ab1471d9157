import ConstantFlow.Proofs.Constants.Steady
import ConstantFlow.Proofs.Effects

/-!
# Checked programs are reported

To solve a procedure and to report it looks up the facts around nodes, their
statements and the variables of the entries.  In a checked program none of these
lookups fails: the solver has facts for every node of the graph from the first
visit to the last (`Machine.Valid.step_failed`), every node has a statement, and the
facts speak of declared variables that can hold an int alone
(`Constants.solve_speaks`).  So a checked procedure has a report
(`Report.build_eq_ok`), in either mode.

What is left to fail is the request.  It may name a procedure that the program
does not have, or a report file that cannot be created or written.
-/

namespace ConstantFlow

/-! ## Checked programs -/

/-- Checking takes the procedures of a program one by one. -/
theorem Source.forall₂_of_checkProcedures {seen : List String} {sources : List Source.Procedure}
    {procedures : List ConstantFlow.Procedure} (h : checkProcedures seen sources = .ok procedures) :
    List.Forall₂ (fun s p => s.check = .ok p) sources procedures := by
  induction sources generalizing seen procedures with
  | nil =>
    cases h
    exact .nil
  | cons s rest ih =>
    simp only [checkProcedures] at h
    split at h
    · obtain ⟨_, thrown, -⟩ := bind_eq_ok.1 h
      exact absurd thrown throw_ne_ok
    · obtain ⟨p, first, h⟩ := bind_eq_ok.1 h
      obtain ⟨others, later, h⟩ := bind_eq_ok.1 h
      rw [← pure_eq_ok.1 h]
      exact .cons first (ih later)

theorem Source.Program.forall₂_of_check {source : Source.Program} {program : ConstantFlow.Program}
    (accepted : source.check = .ok program) :
    List.Forall₂ (fun s p => s.check = .ok p) source.procedures program.procedures := by
  obtain ⟨procedures, checked, accepted⟩ := bind_eq_ok.1 accepted
  rw [← pure_eq_ok.1 accepted]
  exact forall₂_of_checkProcedures checked

/-- Every procedure of an accepted program is checked. -/
theorem Source.Program.checked {source : Source.Program} {program : ConstantFlow.Program}
    (h : source.check = .ok program) : ∀ p ∈ program.procedures, p.Checked := by
  obtain ⟨length, each⟩ := List.forall₂_iff_get.1 (source.forall₂_of_check h)
  intro p member
  obtain ⟨i, inside, rfl⟩ := List.getElem_of_mem member
  exact Source.Procedure.checked (each i (length ▸ inside) inside)

theorem Procedure.Checked.var?_eq {p : Procedure} (checked : p.Checked) {x : Var}
    (declared : x ∈ p.vars) : p.var? x.id = some x := by
  obtain ⟨i, at_i⟩ := List.mem_iff_getElem?.1 declared
  rw [checked.ids i x at_i]
  exact at_i

/-! ## Facts about declared variables -/

/-- Every entry of a fact is of a declared variable that can hold an int. -/
def Fact.Speaks (p : Procedure) (fact : Fact Value) : Prop :=
  ∀ id ∈ fact.keys, ∃ x ∈ p.vars, p.var? id = some x ∧ x.id = id ∧ x.holdsInt

theorem Fact.Within.speaks {p : Procedure} (checked : p.Checked) {fact : Fact Value}
    (within : fact.Within ((Constants.followed p).map Var.id)) : fact.Speaks p := by
  intro id member
  obtain ⟨⟨_, value⟩, among, rfl⟩ := List.mem_map.1 member
  obtain ⟨same, present⟩ := mem_entries.1 among
  obtain ⟨x, followed, rfl⟩ := List.mem_map.1 (within _ (same ▸ present))
  obtain ⟨declared, holds⟩ := List.mem_filter.1 followed
  exact ⟨x, declared, checked.var?_eq declared, rfl, holds⟩

namespace Constants

variable {a : Analysis Value} {p : Procedure}

/-- Constant propagation on a checked procedure has a solution, in either
direction.  It gives facts to the nodes of the graph and to no others, and the
facts speak of declared variables that can hold an int. -/
theorem solve_speaks (either : a ∈ [analysis, backward]) (checked : p.Checked) :
    ∃ s, a.solve p = .ok s ∧ s.rows.map Prod.fst = p.graph.nodes ∧
      (∀ n ∈ p.graph.nodes, ∃ around, s.get? n = some around) ∧
      ∀ n around, s.get? n = some around →
        around.incoming.Speaks p ∧ around.outgoing.Speaks p := by
  obtain ⟨m, reached, -, -, solved, facts⟩ := solve_eq either checked
  have nodes := (Machine.Valid.of_reaches checked.closed reached).nodes
  have within : m.Within ((followed p).map Var.id) :=
    .of_reaches (steady either) (confined_followed either checked) checked.closed reached
  refine ⟨m.solution a, solved, ?_, fun n member => ⟨_, facts n member⟩, fun n around found => ?_⟩
  · rw [← nodes, Cells.nodes, Machine.solution, List.map_map]
    rfl
  · rw [Machine.solution_get?] at found
    obtain ⟨cell, got, rfl⟩ := Option.map_eq_some_iff.1 found
    have same : m.cells.get n = cell := by rw [Cells.get, got, Option.getD_some]
    have front := (within n).1.speaks checked
    have behind := (within n).2.speaks checked
    rw [same] at front behind
    rcases direction_cases either with rfl | rfl
    · exact ⟨front, behind⟩
    · exact ⟨behind, front⟩

/-- Every fact of a solution speaks of declared variables that hold ints. -/
theorem speaks_of_solve (either : a ∈ [analysis, backward]) (checked : p.Checked)
    {s : Solution Value} (solved : a.solve p = .ok s) {n : Node} {around : Around Value}
    (found : s.get? n = some around) : around.incoming.Speaks p ∧ around.outgoing.Speaks p := by
  obtain ⟨s', solved', -, -, speaks⟩ := solve_speaks either checked
  cases solved.symm.trans solved'
  exact speaks n around found

end Constants

/-! ## Reports -/

/-- If no member fails, nothing does. -/
theorem exists_mapM_eq_ok {ε α β : Type} {f : α → Except ε β} {xs : List α}
    (each : ∀ x ∈ xs, ∃ y, f x = .ok y) : ∃ ys, xs.mapM f = .ok ys := by
  induction xs with
  | nil => exact ⟨[], rfl⟩
  | cons x xs ih =>
    obtain ⟨y, first⟩ := each x List.mem_cons_self
    obtain ⟨ys, later⟩ := ih fun z member => each z (List.mem_cons_of_mem _ member)
    exact ⟨y :: ys, mapM_eq_ok.2 (.cons first (mapM_eq_ok.1 later))⟩

/-- Every entry of a fact is of a declared variable. -/
def Fact.Declared (p : Procedure) (fact : Fact Value) : Prop :=
  ∀ id ∈ fact.keys, ∃ x, p.var? id = some x

theorem Fact.Speaks.declared {p : Procedure} {fact : Fact Value} (speaks : fact.Speaks p) :
    fact.Declared p := by
  intro id member
  obtain ⟨x, -, found, -⟩ := speaks id member
  exact ⟨x, found⟩

/-- A fact whose entries are declared can be named. -/
theorem Fact.Declared.nameFact {p : Procedure} {fact : Fact Value} (declared : fact.Declared p) :
    ∃ known, p.nameFact fact = .ok known := by
  have each : ∀ entry ∈ fact.entries, ∃ named, p.nameEntry entry = .ok named := by
    intro entry member
    obtain ⟨x, found⟩ := declared entry.1 (List.mem_map_of_mem member)
    exact ⟨(x.name, entry.2.text), by rw [Procedure.nameEntry, found]⟩
  obtain ⟨named, all⟩ := exists_mapM_eq_ok each
  exact ⟨_, bind_eq_ok.2 ⟨named, all, rfl⟩⟩

/-- A solution describes a procedure if it has facts about declared variables
around each of its statements. -/
def Solution.Describes (s : Solution Value) (p : Procedure) : Prop :=
  ∀ i < p.body.length, ∃ around, s.get? (.stmt i) = some around ∧
    around.incoming.Declared p ∧ around.outgoing.Declared p

/-- The solution of a checked procedure describes it. -/
theorem Constants.solve_describes {p : Procedure} (checked : p.Checked) :
    ∃ s, analysis.solve p = .ok s ∧ s.Describes p := by
  obtain ⟨s, solved, -, facts, speaks⟩ := solve_speaks analysis_mem checked
  refine ⟨s, solved, fun i inside => ?_⟩
  obtain ⟨around, found⟩ := facts (.stmt i) (checked.mem_nodes inside)
  obtain ⟨incoming, outgoing⟩ := speaks _ _ found
  exact ⟨around, found, incoming.declared, outgoing.declared⟩

/-- A statement can be reported if the facts around it are about declared
variables. -/
theorem StmtReport.ofSolution_eq_ok {p : Procedure} {s : Solution Value} {i : Nat}
    {around : Around Value} (found : s.get? (.stmt i) = some around)
    (known : around.incoming.Declared p) (known' : around.outgoing.Declared p)
    (stmt : Stmt Var) : ∃ row, StmtReport.ofSolution p s (stmt, i) = .ok row := by
  obtain ⟨incoming, before⟩ := known.nameFact
  obtain ⟨outgoing, after⟩ := known'.nameFact
  refine ⟨⟨i, stmt.shown, incoming, outgoing⟩, ?_⟩
  rw [StmtReport.ofSolution, found]
  exact bind_eq_ok.2 ⟨incoming, before, bind_eq_ok.2 ⟨outgoing, after, rfl⟩⟩

/-- What describes a procedure can be reported. -/
theorem Report.ofSolution_eq_ok {p : Procedure} {s : Solution Value} (describes : s.Describes p) :
    ∃ report, Report.ofSolution p s = .ok report := by
  have each : ∀ item ∈ p.body.zipIdx, ∃ row, StmtReport.ofSolution p s item = .ok row := by
    rintro ⟨stmt, i⟩ member
    obtain ⟨around, found, known, known'⟩ := describes i
      (List.getElem?_eq_some_iff.1 (List.mem_zipIdx_iff_getElem?.1 member)).1
    exact StmtReport.ofSolution_eq_ok found known known' stmt
  obtain ⟨rows, all⟩ := exists_mapM_eq_ok each
  exact ⟨_, bind_eq_ok.2 ⟨rows, all, rfl⟩⟩

/-- A checked procedure has a report. -/
theorem Report.build_eq_ok {p : Procedure} (checked : p.Checked) :
    ∃ report, Report.build p = .ok report := by
  obtain ⟨s, solved, describes⟩ := Constants.solve_describes checked
  obtain ⟨report, made⟩ := Report.ofSolution_eq_ok describes
  exact ⟨report, bind_eq_ok.2 ⟨s, solved, made⟩⟩

/-- In either mode there are the results of the tasks one by one. -/
theorem Mode.collect_eq {ε α β : Type} (mode : Mode) (task : α → Except ε β) (inputs : List α) :
    mode.collect task inputs = inputs.mapM task := by
  cases mode with
  | sequential => rfl
  | parallel => rw [collect, List.mapM_map]; rfl

/-- If no task fails, all are collected, in either mode. -/
theorem Mode.exists_collect_eq_ok {ε α β : Type} (mode : Mode) {task : α → Except ε β}
    {inputs : List α} (each : ∀ x ∈ inputs, ∃ y, task x = .ok y) :
    ∃ ys, mode.collect task inputs = .ok ys := by
  rw [mode.collect_eq]
  exact exists_mapM_eq_ok each

/-! ## Requests -/

/-- A request selects procedures of the program, or it names one that the
program does not have. -/
theorem Program.select_cases (program : Program) (names : List String) :
    (∃ selected, program.select names = .ok selected ∧ ∀ p ∈ selected, p ∈ program.procedures) ∨
      ∃ name ∈ names, program.find? name = none ∧
        program.select names = .error (.noSuchProcedure name) := by
  unfold select
  split
  · next name found =>
    have absent : (program.find? name).isNone := by simpa using List.find?_some found
    exact .inr ⟨name, List.mem_of_find?_eq_some found, Option.isNone_iff_eq_none.1 absent, rfl⟩
  · refine .inl ⟨_, rfl, fun p member => ?_⟩
    split at member
    · exact member
    · exact (List.mem_filter.1 member).1

/-- A checked program is reported as asked, unless the request names a
procedure that it does not have. -/
theorem Program.report_cases {program : Program} (checked : ∀ p ∈ program.procedures, p.Checked)
    (mode : Mode) (names : List String) :
    (∃ reports, program.report mode names = .ok reports) ∨
      ∃ name ∈ names, program.find? name = none ∧
        program.report mode names = .error (.noSuchProcedure name) := by
  rcases program.select_cases names with ⟨selected, found, among⟩ | ⟨name, asked, absent, failed⟩
  · obtain ⟨reports, all⟩ := mode.exists_collect_eq_ok fun p member =>
      Report.build_eq_ok (checked p (among p member))
    exact .inl ⟨reports, bind_eq_ok.2 ⟨selected, found, all⟩⟩
  · refine .inr ⟨name, asked, absent, ?_⟩
    rw [report, failed]
    rfl

/-- Saving fails only when the file cannot be created or written. -/
theorem Command.save_cases {σ : Type} (files : Files σ) (path : String) (made : List Report)
    (r : Record σ) : ((save files.system path made) r).1 = .ok () ∨
      ((save files.system path made) r).1 = .error .reportNotCreated ∨
      ((save files.system path made) r).1 = .error .reportNotWritten := by
  rw [save_eq]
  dsimp only
  split
  · split
    · exact .inl rfl
    · exact .inr (.inr rfl)
  · exact .inr (.inl rfl)

/-! ## No internal errors -/

/-- A program is analysable if nothing fails but what a request gets wrong. -/
structure Program.Analysable (program : Program) : Prop where
  /-- Constant propagation has a solution for each procedure, in either
  direction.  It is of the nodes of the graph, and it speaks of declared
  variables that can hold an int. -/
  solved : ∀ p ∈ program.procedures, ∀ a ∈ [Constants.analysis, Constants.backward],
    ∃ s, a.solve p = .ok s ∧ s.rows.map Prod.fst = p.graph.nodes ∧
      (∀ n ∈ p.graph.nodes, ∃ around, s.get? n = some around) ∧
      ∀ n around, s.get? n = some around →
        around.incoming.Speaks p ∧ around.outgoing.Speaks p
  /-- Each procedure has a report. -/
  reported : ∀ p ∈ program.procedures, ∃ report, Report.build p = .ok report
  /-- On whatever files it is carried out, a request fails if it names a procedure
  that the program does not have, or a report file that cannot be created or written,
  and never with an internal error. -/
  refused : ∀ {σ : Type} (files : Command.Files σ) (mode : Mode) (options : Command.Options)
    (r : Command.Record σ) (e : Error),
    ((Command.execute files.system mode options program) r).1 = .error e →
      e.kind ≠ .invariant ∧
        ((∃ name ∈ options.procedures, program.find? name = none ∧ e.kind = .assumption ∧
            e.detail = "no such procedure: " ++ name) ∨
          (∃ path, options.output = some path) ∧ e.kind = .loading ∧
            (e = .reportNotCreated ∨ e = .reportNotWritten))

/-- What is asked of a checked program fails for the request alone. -/
theorem Program.execute_cases {program : Program}
    (checked : ∀ p ∈ program.procedures, p.Checked) {σ : Type} {files : Command.Files σ}
    {mode : Mode} {options : Command.Options} {r : Command.Record σ} {e : Error}
    (failed : ((Command.execute files.system mode options program) r).1 = .error e) :
    (∃ name ∈ options.procedures, program.find? name = none ∧ e = .noSuchProcedure name) ∨
      (∃ path, options.output = some path) ∧ (e = .reportNotCreated ∨ e = .reportNotWritten) := by
  rw [Command.execute_eq] at failed
  rcases Program.report_cases checked mode options.procedures with
    ⟨made, found⟩ | ⟨name, asked, absent, refused⟩
  · simp only [found] at failed
    cases output : options.output with
    | none =>
      rw [output] at failed
      cases failed
    | some path =>
      refine .inr ⟨⟨path, rfl⟩, ?_⟩
      have cases := Command.save_cases files path made (r.saying (program.reportLog options.procedures))
      simp only [output] at failed
      split at failed
      · next e' after saved =>
        rw [saved] at cases
        cases failed
        simpa using cases
      · cases failed
  · simp only [refused] at failed
    cases failed
    exact .inl ⟨name, asked, absent, rfl⟩

/-- A checked program is analysable. -/
theorem Source.Program.analysable_of_check {source : Source.Program}
    {program : ConstantFlow.Program} (accepted : source.check = .ok program) :
    program.Analysable := by
  have checked := source.checked accepted
  refine ⟨fun p member a either => ?_, fun p member => ?_, fun files mode options r e failed => ?_⟩
  · exact Constants.solve_speaks either (checked p member)
  · exact Report.build_eq_ok (checked p member)
  · rcases Program.execute_cases checked failed with
      ⟨name, asked, absent, rfl⟩ | ⟨output, rfl | rfl⟩
    · exact ⟨by simp [Error.kind], .inl ⟨name, asked, absent, rfl, rfl⟩⟩
    · exact ⟨by simp [Error.kind], .inr ⟨output, rfl, .inl rfl⟩⟩
    · exact ⟨by simp [Error.kind], .inr ⟨output, rfl, .inr rfl⟩⟩

/-- A program of two loops and an empty procedure. -/
theorem Source.Program.analysable_of_check_loops :
    let none : Source.Procedure := ⟨"none", [], [], []⟩
    let empty : ConstantFlow.Procedure :=
      ⟨"none", [], [], [], ⟨0, [⟨.entry, .exit, .entry⟩]⟩⟩
    Source.Program.check ⟨[.counting, .dividing, none]⟩ = .ok ⟨[.counting, .dividing, empty]⟩ ∧
    Program.Analysable ⟨[.counting, .dividing, empty]⟩ := by
  intro none empty
  have accepted : Source.Program.check ⟨[.counting, .dividing, none]⟩ =
      .ok ⟨[.counting, .dividing, empty]⟩ := rfl
  exact ⟨accepted, analysable_of_check accepted⟩

end ConstantFlow
