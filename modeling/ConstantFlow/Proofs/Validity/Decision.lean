import ConstantFlow.Proofs.Names
import ConstantFlow.Proofs.Validity.Rules

/-!
# Checking decides validity

Checking accepts the valid programs and no others, and it fails with the first
fault of any other program (`Source.Program.check_decides_valid`).

There is one lemma for each function that may fail, which says what faults it
reports.  Checking a statement looks names up in a scope, and the scope is that
of the declarations (`Declares`).  The graph is built from the checked statements,
which are those of the source with variables for names, so it has the faults of
the source.  By then every target is known to be in the body, and the one fault
that is left for the graph to find is a repeated label.
-/

namespace ConstantFlow

open Source (Declaration)

/-! ## Reports of lookups -/

section Traverse

variable {ν μ : Type} {f : ν → Except Error μ} {faults : ν → List Error}

/-- Looking up the variables of an expression reports the faults of each, from
left to right. -/
theorem Exp.reports_traverse (each : ∀ x, Reports (f x) (faults x)) (e : Exp ν) :
    Reports (e.traverse f) (e.vars.flatMap faults) := by
  induction e with
  | var x =>
    rw [vars, List.flatMap_singleton]
    exact (each x).bind_pure
  | int value => exact .ok _
  | literal value => exact .ok _
  | binary op lhs rhs ihl ihr =>
    rw [vars, List.flatMap_append]
    exact ihl.bind fun _ _ => ihr.bind_pure
  | neg operand ih => exact ih.bind_pure
  | cast type operand ih => exact ih.bind_pure
  | instanceOf operand type ih => exact ih.bind_pure
  | call callee args => exact (Reports.mapM each).bind_pure
  | new type => exact .ok _
  | field base name => exact (Reports.optionMapM each).bind_pure
  | element base index ih => exact (each base).bind fun _ _ => ih.bind_pure
  | length base =>
    rw [vars, List.flatMap_singleton]
    exact (each base).bind_pure

/-- To look up the variables of a location reports the faults of each, in order. -/
theorem Location.reports_traverse (each : ∀ x, Reports (f x) (faults x)) (l : Location ν) :
    Reports (l.traverse f) (l.vars.flatMap faults) := by
  cases l with
  | var x =>
    rw [vars, List.flatMap_singleton]
    exact (each x).bind_pure
  | field base name => exact (Reports.optionMapM each).bind_pure
  | element base index =>
    exact (each base).bind fun _ _ => (Exp.reports_traverse each index).bind_pure

end Traverse

/-- A scope is that of some declarations, each of a name of its own. -/
structure Declares (scope : List Var) (vars : List Declaration) : Prop where
  same : scope.map Var.declaration = vars
  distinct : (vars.map Declaration.name).Nodup

namespace Declares

variable {scope : List Var} {vars : List Declaration}

theorem reports_resolve (declares : Declares scope vars) (name : String) :
    Reports (resolve scope name) (undeclared vars name) := by
  unfold resolve undeclared demand
  rw [← declares.same]
  split
  · next x found =>
    have declared : ∃ d ∈ scope.map Var.declaration, d.name = name :=
      ⟨x.declaration, List.mem_map_of_mem (List.mem_of_find?_eq_some found),
        by simpa using List.find?_some found⟩
    rw [if_pos declared]
    exact .ok x
  · next missing =>
    have absent : ¬∃ d ∈ scope.map Var.declaration, d.name = name := by
      rintro ⟨d, member, same⟩
      obtain ⟨x, among, rfl⟩ := List.mem_map.1 member
      exact absurd same (by simpa using List.find?_eq_none.1 missing x among)
    rw [if_neg absent]
    exact .error _ _

/-- What a name stands for can hold an int if and only if its declaration says
so. -/
theorem holdsInt_iff (declares : Declares scope vars) {name : String} {x : Var}
    (found : resolve scope name = .ok x) :
    x.holdsInt ↔ ∃ d ∈ vars, d.name = name ∧ d.type.holdsInt := by
  have member : x.declaration ∈ vars := declares.same ▸ List.mem_map_of_mem (mem_of_resolve found)
  have named : x.declaration.name = name := name_of_resolve name x found
  constructor
  · exact fun holds => ⟨x.declaration, member, named, holds⟩
  · rintro ⟨d, among, same, holds⟩
    rw [List.inj_on_of_nodup_map declares.distinct among member (same.trans named.symm)] at holds
    exact holds

end Declares

/-! ## Reports of statements -/

theorem reports_checkTarget (size target : Nat) :
    Reports (checkTarget size target) (outOfRange size target) :=
  .ok_or_error _

theorem Exp.isCall_map {ν μ : Type} (f : ν → μ) (e : Exp ν) : (e.map f).isCall = e.isCall := by
  cases e <;> rfl

theorem Exp.isTest_map {ν μ : Type} (f : ν → μ) (e : Exp ν) : (e.map f).isTest = e.isTest := by
  cases e with
  | binary op lhs rhs => cases op <;> rfl
  | _ => rfl

/-- Checking a statement reports its faults: those of its names, then that of its form,
then those of its targets.  The form is asked of the checked expression, which has that
of the source. -/
theorem Declares.reports_check {scope : List Var} {vars : List Declaration}
    (declares : Declares scope vars) (size : Nat) (stmt : Stmt String) :
    Reports (stmt.check scope size) (stmt.faults vars size) := by
  have names := declares.reports_resolve
  cases stmt with
  | define location value =>
    simp only [Stmt.faults, Stmt.vars, Stmt.misfits, Stmt.targets, List.flatMap_append,
      List.flatMap_nil, List.append_nil]
    exact (Location.reports_traverse names location).bind fun _ _ =>
      (Exp.reports_traverse names value).bind_pure
  | invoke found =>
    simp only [Stmt.faults, Stmt.vars, Stmt.misfits, Stmt.targets, List.flatMap_nil,
      List.append_assoc]
    refine (Exp.reports_traverse names found).bind fun call checked => ?_
    rw [← Exp.map_name_of_check checked, Exp.isCall_map]
    exact .of_demand rfl fun _ => .ok _
  | goto target =>
    simp only [Stmt.faults, Stmt.vars, Stmt.misfits, Stmt.targets, List.flatMap_nil,
      List.flatMap_singleton, List.nil_append]
    exact (reports_checkTarget size target).bind_pure
  | branch found target =>
    simp only [Stmt.faults, Stmt.vars, Stmt.misfits, Stmt.targets, List.flatMap_singleton,
      List.append_assoc]
    refine (Exp.reports_traverse names found).bind fun test checked => ?_
    rw [← Exp.map_name_of_check checked, Exp.isTest_map]
    exact .of_demand rfl fun _ => (reports_checkTarget size target).bind_pure
  | switch name cases otherwise =>
    simp only [Stmt.faults, Stmt.vars, Stmt.misfits, Stmt.targets, List.flatMap_singleton,
      List.append_assoc, List.flatMap_append, List.flatMap_map]
    refine (names name).bind fun subject found => ?_
    simp only [← declares.holdsInt_iff found]
    refine .of_demand rfl fun _ => ?_
    have each (item : Int32 × Nat) : Reports (checkCase size item) (outOfRange size item.2) :=
      (reports_checkTarget size item.2).bind_pure
    exact (Reports.mapM each).bind fun _ _ =>
      (reports_checkTarget size otherwise).bind_pure
  | ret value =>
    simp only [Stmt.faults, Stmt.vars, Stmt.misfits, Stmt.targets, List.flatMap_nil,
      List.append_nil]
    exact (Reports.optionMapM names).bind_pure
  | raise exception =>
    simp only [Stmt.faults, Stmt.vars, Stmt.misfits, Stmt.targets, List.flatMap_nil,
      List.flatMap_singleton, List.append_nil]
    exact (names exception).bind_pure
  | nop => exact .ok _

/-! ## Reports of procedures -/

/-- Declaring reports a repeated name or a void type, whichever is first.  The scope
grows at its end and the names that were seen in front, with the same members. -/
theorem reports_declare (procedure : String) (scope : List Var) (seen : List String)
    (vars : List Declaration) (same : ∀ name, name ∈ seen ↔ ∃ x ∈ scope, x.name = name) :
    Reports (declare procedure scope vars) (declarationFaults procedure seen vars) := by
  induction vars generalizing scope seen with
  | nil => exact .ok scope
  | cons d rest ih =>
    have again : (scope.any fun x => x.name == d.name) = true ↔ d.name ∈ seen := by
      simp [same]
    simp only [declare, declarationFaults, faultsOfEach, List.append_nil, List.append_assoc, again]
    refine .of_refusal rfl fun _ => .of_refusal rfl fun _ => ih _ _ fun name => ?_
    simp [same, or_and_right, exists_or, or_comm, eq_comm]

/-- What declaring accepts declares the variables. -/
theorem Declares.of_declare {procedure : String} {scope : List Var} {vars : List Declaration}
    (declared : declare procedure [] vars = .ok scope) : Declares scope vars := by
  have reports := reports_declare procedure [] [] vars (by simp)
  exact ⟨declaration_of_declare declared,
    (declarationFaults_eq_nil.1 (reports.ok_iff.1 ⟨scope, declared⟩)).1⟩

/-- Binding reports a repeated parameter or one that is not declared, whichever is
first. -/
theorem Declares.reports_bindParams {scope : List Var} {vars : List Declaration}
    (declares : Declares scope vars) (procedure : String) (seen params : List String) :
    Reports (bindParams procedure scope seen params) (paramFaults procedure vars seen params) := by
  induction params generalizing seen with
  | nil => exact .ok []
  | cons name rest ih =>
    simp only [bindParams, paramFaults, faultsOfEach, List.nil_append, List.append_assoc]
    exact .of_refusal rfl fun _ => (declares.reports_resolve name).bind fun _ _ =>
      (ih (name :: seen)).bind_pure

/-- A checked body has the names of its source. -/
theorem map_name_of_checkBody {scope : List Var} {size : Nat} {stmts : List (Stmt String)}
    {body : List (Stmt Var)} (checked : stmts.mapM (Stmt.check scope size) = .ok body) :
    body.map (Stmt.map Var.name) = stmts :=
  map_of_mapM (fun _ _ => Stmt.map_name_of_check) checked

namespace Source

/-- Checking a procedure reports its faults.  The last are those of its graph, which is
built from the checked statements: they are the faults of the source, because they do
not depend on names. -/
theorem Procedure.reports_check (p : Source.Procedure) : Reports p.check p.faults := by
  simp only [Procedure.faults, List.append_assoc]
  refine (reports_declare p.name [] [] p.vars (by simp)).bind fun vars declared => ?_
  have declares := Declares.of_declare declared
  refine (declares.reports_bindParams p.name [] p.params).bind fun params _ => ?_
  refine (Reports.mapM (declares.reports_check p.body.length)).bind fun body checked => ?_
  rw [← map_name_of_checkBody checked, Graph.faults_map]
  exact (Graph.reports_build body).bind_pure

/-- Checking several procedures reports the faults of each, in order. -/
theorem reports_checkProcedures (seen : List String) (procedures : List Source.Procedure) :
    Reports (checkProcedures seen procedures) (procedureFaults seen procedures) := by
  induction procedures generalizing seen with
  | nil => exact .ok []
  | cons p rest ih =>
    simp only [checkProcedures, procedureFaults, faultsOfEach, List.nil_append, List.append_assoc]
    exact .of_refusal rfl fun _ => p.reports_check.bind fun _ _ => (ih (p.name :: seen)).bind_pure

/-- Checking a program reports its faults. -/
theorem Program.reports_check (program : Source.Program) :
    Reports program.check program.faults :=
  (reports_checkProcedures [] program.procedures).bind_pure

end Source

/-! ## Kinds of faults -/

namespace Error

/-- Whether an error says that something is there twice: a variable, a parameter
or a procedure. -/
def isDuplicate : Error → Bool
  | .repeatedVariable _ _ | .repeatedParameter _ _ | .repeatedProcedure _ => true
  | _ => false

/-- The kind of a fault of a program: what is there twice breaks an invariant,
and everything else an assumption. -/
def programKind (e : Error) : Kind := if e.isDuplicate then .invariant else .assumption

end Error

theorem kind_of_mem_demand {c : Prop} [Decidable c] {e e' : Error}
    (graded : e.kind = e.programKind) (member : e' ∈ demand c e) : e'.kind = e'.programKind := by
  rw [eq_of_mem_demand member]
  exact graded

theorem kind_of_declare {procedure : String} {vars : List Declaration} {e : Error}
    (failed : declare procedure [] vars = .error e) : e.kind = e.programKind := by
  have first := (reports_declare procedure [] [] vars (by simp) e).1 failed
  obtain ⟨d, -, void | rfl | none⟩ := of_head?_faultsOfEach first
  · exact kind_of_mem_demand rfl (List.mem_of_mem_head? void)
  · rfl
  · cases none

theorem Declares.kind_of_bindParams {scope : List Var} {vars : List Declaration}
    (declares : Declares scope vars) {procedure : String} {params : List String} {e : Error}
    (failed : bindParams procedure scope [] params = .error e) : e.kind = e.programKind := by
  have first := (declares.reports_bindParams procedure [] params e).1 failed
  obtain ⟨name, -, none | rfl | missing⟩ := of_head?_faultsOfEach first
  · cases none
  · rfl
  · exact kind_of_mem_demand rfl (List.mem_of_mem_head? missing)

theorem Stmt.kind_of_mem_faults {vars : List Declaration} {size : Nat} {stmt : Stmt String}
    {e : Error} (member : e ∈ stmt.faults vars size) : e.kind = e.programKind := by
  simp only [faults, List.mem_append, List.mem_flatMap] at member
  rcases member with (⟨name, -, missing⟩ | misfit) | ⟨target, -, leaves⟩
  · exact kind_of_mem_demand rfl missing
  · cases stmt with
    | invoke found => exact kind_of_mem_demand rfl misfit
    | branch found target => exact kind_of_mem_demand rfl misfit
    | switch name cases otherwise => exact kind_of_mem_demand rfl misfit
    | _ => cases misfit
  · exact kind_of_mem_demand rfl leaves

theorem Declares.kind_of_checkBody {scope : List Var} {vars : List Declaration}
    (declares : Declares scope vars) {size : Nat} {stmts : List (Stmt String)} {e : Error}
    (failed : stmts.mapM (Stmt.check scope size) = .error e) : e.kind = e.programKind := by
  have first := (Reports.mapM (declares.reports_check size) e).1 failed
  obtain ⟨stmt, -, own⟩ := List.mem_flatMap.1 (List.mem_of_mem_head? first)
  exact Stmt.kind_of_mem_faults own

theorem Stmt.targets_map {ν μ : Type} (f : ν → μ) (stmt : Stmt ν) :
    (stmt.map f).targets = stmt.targets := by
  cases stmt <;> rfl

/-- The targets of checked statements are in the body, so what is left for its
graph to find is a repeated label. -/
theorem Declares.repeated_of_build {scope : List Var} {vars : List Declaration}
    (declares : Declares scope vars) {stmts : List (Stmt String)} {body : List (Stmt Var)}
    (checked : stmts.mapM (Stmt.check scope stmts.length) = .ok body) {e : Error}
    (failed : Graph.build body = .error e) : ∃ label index, e = .repeatedCase label index := by
  refine Graph.repeated_of_build (fun stmt member target named => ?_) failed
  obtain ⟨source, -, found⟩ := of_mem_mapM checked member
  obtain ⟨-, -, inside⟩ :=
    Stmt.faults_eq_nil.1 ((declares.reports_check _ source).ok_iff.1 ⟨stmt, found⟩)
  have length : body.length = stmts.length := by
    rw [← map_name_of_checkBody checked, List.length_map]
  rw [length]
  rw [← Stmt.targets_map Var.name, Stmt.map_name_of_check found] at named
  exact inside target named

/-- Two steps fail if the first does or the second does after it. -/
theorem bind_eq_error {α β : Type} {x : Except Error α} {f : α → Except Error β} {e : Error} :
    (x >>= f) = .error e ↔ x = .error e ∨ ∃ a, x = .ok a ∧ f a = .error e := by
  cases x <;> simp [bind, Except.bind]

namespace Source

/-- Checking a procedure fails with an error of its kind. -/
theorem Procedure.kind_of_check {p : Source.Procedure} {e : Error} (failed : p.check = .error e) :
    e.kind = e.programKind := by
  rcases bind_eq_error.1 failed with inVars | ⟨vars, declared, failed⟩
  · exact kind_of_declare inVars
  have declares := Declares.of_declare declared
  rcases bind_eq_error.1 failed with inParams | ⟨params, -, failed⟩
  · exact declares.kind_of_bindParams inParams
  rcases bind_eq_error.1 failed with inBody | ⟨body, checked, failed⟩
  · exact declares.kind_of_checkBody inBody
  rcases bind_eq_error.1 failed with inGraph | ⟨graph, -, failed⟩
  · obtain ⟨label, index, rfl⟩ := declares.repeated_of_build checked inGraph
    rfl
  · cases failed

/-- Checking accepts the valid programs and no others.  It fails with the first
fault of any other program, which breaks an invariant if it says that something
is there twice, and an assumption if not.  The graph of a body whose statements
were checked breaks no invariant. -/
theorem Program.check_decides_valid (program : Source.Program) :
    ((∃ checked, program.check = .ok checked) ↔ program.Valid) ∧
    (¬program.Valid → ∃ e, program.check = .error e ∧ program.faults.head? = some e ∧
      e.kind = if e.isDuplicate then .invariant else .assumption) ∧
    ∀ p ∈ program.procedures, ∀ vars body e, declare p.name [] p.vars = .ok vars →
      p.body.mapM (Stmt.check vars p.body.length) = .ok body → Graph.build body = .error e →
        e.kind = .assumption := by
  have reports := program.reports_check
  have accepts : (∃ checked, program.check = .ok checked) ↔ program.Valid :=
    reports.ok_iff.trans faults_eq_nil
  refine ⟨accepts, fun invalid => ?_, fun p _ vars body e declared checked failed => ?_⟩
  · cases result : program.check with
    | ok checked => exact absurd (accepts.1 ⟨checked, result⟩) invalid
    | error e =>
      have first := (reports e).1 result
      refine ⟨e, rfl, first, ?_⟩
      obtain ⟨p, -, none | rfl | own⟩ := of_head?_faultsOfEach first
      · cases none
      · rfl
      · exact p.kind_of_check ((p.reports_check e).2 own)
  · obtain ⟨label, index, rfl⟩ := (Declares.of_declare declared).repeated_of_build checked failed
    rfl

/-- A procedure with a switch that has a label twice. -/
def Procedure.repeating : Source.Procedure where
  name := "repeat"
  vars := [⟨"x", .primitive .int⟩]
  params := []
  body := [.switch "x" [(1, 0), (1, 0)] 0]

/-- Two procedures of one name break an invariant, and two cases of one label an
assumption. -/
theorem Program.check_decides_valid_repeating :
    Valid ⟨[.counting, .dividing]⟩ ∧
    (¬Valid ⟨[.counting, .counting]⟩ ∧
      Program.faults ⟨[.counting, .counting]⟩ = [.repeatedProcedure "count"] ∧
      Program.check ⟨[.counting, .counting]⟩ = .error (.repeatedProcedure "count")) ∧
    ¬Valid ⟨[.repeating]⟩ ∧
      Graph.build [Stmt.switch (⟨0, "x", .primitive .int⟩ : Var) [(1, 0), (1, 0)] 0] =
        .error (.repeatedCase 1 0) ∧
      (Error.repeatedCase 1 0).kind = .assumption := by
  have twice : Program.check ⟨[.counting, .counting]⟩ = .error (.repeatedProcedure "count") := rfl
  have cases : Program.check ⟨[.repeating]⟩ = .error (.repeatedCase 1 0) := rfl
  refine ⟨(check_decides_valid _).1.1 ⟨_, rfl⟩, ⟨fun valid => ?_, by decide, twice⟩,
    fun valid => ?_, rfl, ?_⟩
  · obtain ⟨checked, accepted⟩ := (check_decides_valid _).1.2 valid
    cases twice.symm.trans accepted
  · obtain ⟨checked, accepted⟩ := (check_decides_valid _).1.2 valid
    cases cases.symm.trans accepted
  · exact (check_decides_valid ⟨[.repeating]⟩).2.2 .repeating List.mem_cons_self _ _ _ rfl rfl rfl

end Source

end ConstantFlow
