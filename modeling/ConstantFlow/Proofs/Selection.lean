import ConstantFlow.Proofs.Declarations
import ConstantFlow.Proofs.Outcomes

/-!
# A request filters the reports

A request names procedures of a program, in any order and perhaps more than once.
What it gets are the reports of the whole program that have one of the names, in the
order of the program (`Source.Program.report_filters`).

This rests on three facts.  Reporting keeps the name of a procedure, so it does not
matter whether the procedures are filtered or their reports.  The report of a
procedure is made of that procedure alone, so it is the one that the procedure has
in a program of its own (`Source.Procedure.check_alone`).  And no checked procedure
fails to have a report, so there is no failure for the mode to make a difference to.
-/

namespace ConstantFlow

/-! ## One procedure -/

/-- A report has the name of its procedure. -/
theorem Report.name_of_build {p : Procedure} {r : Report} (made : Report.build p = .ok r) :
    r.name = p.name := by
  obtain ⟨s, -, made⟩ := bind_eq_ok.1 made
  obtain ⟨rows, -, made⟩ := bind_eq_ok.1 made
  rw [← pure_eq_ok.1 made]

/-- A procedure that is checked is checked in a program of its own as well. -/
theorem Source.Procedure.check_alone {s : Source.Procedure} {p : ConstantFlow.Procedure}
    (accepted : s.check = .ok p) : Source.Program.check ⟨[s]⟩ = .ok ⟨[p]⟩ := by
  rw [Source.Program.check, checkProcedures, accepted]
  rfl

/-! ## Several procedures -/

/-- Procedures that are selected by name have the reports that are selected by
name. -/
theorem Report.forall₂_filter {procedures : List Procedure} {all : List Report}
    (built : List.Forall₂ (fun p r => Report.build p = .ok r) procedures all)
    (keep : String → Bool) :
    List.Forall₂ (fun p r => Report.build p = .ok r) (procedures.filter fun p => keep p.name)
      (all.filter fun r => keep r.name) := by
  refine List.rel_filter (fun p r made => ?_) built
  show keep p.name = true ↔ keep r.name = true
  rw [Report.name_of_build made]

/-- A request that names procedures of a program gets the reports of the program
that have one of the names. -/
theorem Program.report_asked {program : Program} {all : List Report}
    (built : List.Forall₂ (fun p r => Report.build p = .ok r) program.procedures all)
    {names : List String} (known : ∀ name ∈ names, program.Has name) (mode : Mode) :
    program.report mode names =
      .ok (all.filter fun r => names = [] ∨ r.name ∈ names) := by
  have made := Report.forall₂_filter built fun name => names = [] ∨ name ∈ names
  exact bind_eq_ok.2 ⟨_, select_eq_ok known, mode.collect_eq_ok made⟩

/-! ## Reports of a program -/

/-- A report is that of a procedure if it is what the procedure has in a program of
its own, in either mode, whether the request is empty or names the procedure. -/
structure Source.Procedure.Reported (s : Source.Procedure) (r : Report) : Prop where
  /-- It has the name of the procedure. -/
  name : r.name = s.name
  /-- It is all that there is to report of the procedure alone. -/
  alone : ∃ program, Source.Program.check ⟨[s]⟩ = .ok program ∧
    ∀ mode names, (∀ name ∈ names, name = s.name) → program.report mode names = .ok [r]

/-- Some reports are those of a program if they are those of its procedures, in
order, and no two of them have one name. -/
structure Source.Program.Reported (source : Source.Program) (all : List Report) : Prop where
  /-- There is a report of each procedure. -/
  each : List.Forall₂ Source.Procedure.Reported source.procedures all
  /-- No name is there twice. -/
  distinct : (all.map Report.name).Nodup

/-- The report of a checked procedure is that of its source alone, in a program of its
own. -/
theorem Source.Procedure.reported_of_check {s : Source.Procedure} {p : ConstantFlow.Procedure}
    {r : Report} (accepted : s.check = .ok p) (made : Report.build p = .ok r) : s.Reported r := by
  have kept : p.name = s.name := (s.keeps_of_check accepted).name
  have named : r.name = s.name := (Report.name_of_build made).trans kept
  refine ⟨named, ⟨[p]⟩, check_alone accepted, fun mode names own => ?_⟩
  have known : ∀ name ∈ names, Program.Has ⟨[p]⟩ name :=
    fun name member => ⟨p, List.mem_cons_self, kept.trans (own name member).symm⟩
  have asked : names = [] ∨ r.name ∈ names := by
    rcases names with - | ⟨name, rest⟩
    · exact .inl rfl
    · exact .inr (named.trans (own name List.mem_cons_self).symm ▸ List.mem_cons_self)
  rw [Program.report_asked (.cons made .nil) known]
  simp [asked]

theorem Source.forall₂_reported {sources : List Source.Procedure}
    {procedures : List ConstantFlow.Procedure} {all : List Report}
    (checked : List.Forall₂ (fun s p => s.check = .ok p) sources procedures)
    (built : List.Forall₂ (fun p r => Report.build p = .ok r) procedures all) :
    List.Forall₂ Source.Procedure.Reported sources all := by
  induction checked generalizing all with
  | nil =>
    cases built
    exact .nil
  | cons accepted _ ih =>
    cases built with
    | cons made rest => exact .cons (Source.Procedure.reported_of_check accepted made) (ih rest)

/-- Reports have the names of their procedures. -/
theorem Source.map_name_of_reported {sources : List Source.Procedure} {all : List Report}
    (each : List.Forall₂ Source.Procedure.Reported sources all) :
    all.map Report.name = sources.map Source.Procedure.name := by
  induction each with
  | nil => rfl
  | cons reported _ ih => rw [List.map_cons, List.map_cons, reported.name, ih]

/-- A checked program has reports, one for each procedure. -/
theorem Source.Program.exists_reported {source : Source.Program}
    {program : ConstantFlow.Program} (accepted : source.check = .ok program) :
    ∃ all, List.Forall₂ (fun p r => Report.build p = .ok r) program.procedures all ∧
      source.Reported all := by
  obtain ⟨all, made⟩ := exists_mapM_eq_ok fun p member =>
    Report.build_eq_ok (source.checked accepted p member)
  have built := mapM_eq_ok.1 made
  have each := Source.forall₂_reported (source.forall₂_of_check accepted) built
  refine ⟨all, built, each, ?_⟩
  rw [Source.map_name_of_reported each]
  exact ((source.reports_check.ok_iff.trans faults_eq_nil).1 ⟨program, accepted⟩).distinct

/-! ## Requests -/

/-- To name procedures in a request is to filter the reports of the program.  A
request with an unknown name fails with the first one, and the mode makes no
difference. -/
theorem Source.Program.report_filters {source : Source.Program}
    {program : ConstantFlow.Program} (accepted : source.check = .ok program) :
    ∃ all, source.Reported all ∧ (∀ mode, program.report mode [] = .ok all) ∧
      (∀ mode names, names ≠ [] → (∀ name ∈ names, program.Has name) →
        program.report mode names = .ok (all.filter fun r => r.name ∈ names)) ∧
      (∀ mode names, (∃ name ∈ names, ¬ program.Has name) →
        ∃ before name later, names = before ++ name :: later ∧
          (∀ earlier ∈ before, program.Has earlier) ∧ ¬ program.Has name ∧
          ∃ e, program.report mode names = .error e ∧ e.kind = .assumption ∧
            e.detail = "no such procedure: " ++ name) ∧
      ∀ names, program.report .parallel names = program.report .sequential names := by
  obtain ⟨all, built, reported⟩ := source.exists_reported accepted
  refine ⟨all, reported, fun mode => ?_, fun mode names some known => ?_, ?_, fun names => ?_⟩
  · rw [Program.report_asked built (List.forall_mem_nil _)]
    simp
  · rw [Program.report_asked built known]
    simp [some]
  · rintro mode names ⟨unknown, member, missing⟩
    rcases program.has_or_first names with known | ⟨before, name, later, rfl, known, absent⟩
    · exact absurd (known unknown member) missing
    · refine ⟨before, name, later, rfl, known, absent, .noSuchProcedure name, ?_, rfl, rfl⟩
      rw [Program.report, Program.select_eq_error known absent]
      rfl
  · simp only [Program.report, Mode.collect_eq]

/-- Of three procedures, the request names the second twice and then the first. -/
theorem Source.Program.report_filters_repeating :
    let source : Source.Program := ⟨[.counting, .dividing, .comparing]⟩
    let program : ConstantFlow.Program := ⟨[.counting, .dividing, .comparing]⟩
    source.check = .ok program ∧ ∃ all, source.Reported all ∧
      (∀ mode, program.report mode [] = .ok all) ∧
      (∀ mode, program.report mode ["divide", "count", "divide"] =
        .ok (all.filter fun r => r.name ∈ ["divide", "count", "divide"])) ∧
      ∀ mode, ∃ before name later, ["count", "nope", "none"] = before ++ name :: later ∧
        (∀ earlier ∈ before, program.Has earlier) ∧ ¬ program.Has name ∧
        ∃ e, program.report mode ["count", "nope", "none"] = .error e ∧ e.kind = .assumption ∧
          e.detail = "no such procedure: " ++ name := by
  intro source program
  have accepted : source.check = .ok program := rfl
  obtain ⟨all, reported, whole, filtered, unknown, -⟩ := report_filters accepted
  have known : ∀ name ∈ ["divide", "count", "divide"], program.Has name := by
    unfold Program.Has
    decide
  have absent : ¬ program.Has "nope" := by
    unfold Program.Has
    decide
  exact ⟨accepted, all, reported, whole,
    fun mode => filtered mode _ (List.cons_ne_nil _ _) known,
    fun mode => unknown mode _ ⟨"nope", by simp, absent⟩⟩

end ConstantFlow
