import ConstantFlow.Proofs.Graph.Faults
import ConstantFlow.Source.Program

/-!
# Valid programs

A program is valid if its procedures differ by name and each of them obeys the
rules of `Source.Procedure.Valid`: no variable is `void`, variables and
parameters are there once, names are declared, targets are in the body, labels
differ, and the forms of calls, tests and switches fit.

`Source.Program.faults` lists what breaks the rules, in the order of checking:
one procedure after the other, and in each of them the declarations, the
parameters, the statements and the graph.  The list is empty for a valid program
alone (`Source.Program.faults_eq_nil`).
-/

namespace ConstantFlow

open Source (Declaration)

/-! ## The rules -/

/-- The form of a statement fits: a call statement has a call, a branch has a
test, and a switch has a variable that can hold an int. -/
inductive Stmt.Fits (vars : List Declaration) : Stmt String → Prop
  | invoke {callee : String} {args : List String} : Fits vars (.invoke (.call callee args))
  | branch {op : RelationalOp} {lhs rhs : Exp String} {target : Nat} :
      Fits vars (.branch (.binary (.relational op) lhs rhs) target)
  | switch {d : Declaration} {cases : List (Int32 × Nat)} {otherwise : Nat} (declared : d ∈ vars)
      (holds : d.type.holdsInt) : Fits vars (.switch d.name cases otherwise)
  | define {location : Location String} {value : Exp String} : Fits vars (.define location value)
  | goto {target : Nat} : Fits vars (.goto target)
  | ret {value : Option String} : Fits vars (.ret value)
  | raise {exception : String} : Fits vars (.raise exception)
  | nop : Fits vars .nop

/-- The rules for a statement of a body of `size` statements: names are declared,
the form fits, targets are in the body, and the labels of a switch differ. -/
structure Stmt.Valid (vars : List Declaration) (size : Nat) (stmt : Stmt String) : Prop where
  declared : ∀ name ∈ stmt.vars, ∃ d ∈ vars, d.name = name
  fits : stmt.Fits vars
  inside : ∀ target ∈ stmt.targets, target < size
  labels : stmt.labels.Nodup

/-- The rules for a procedure: every variable has a value and a name of its own,
parameters differ and are declared, and statements are valid. -/
structure Source.Procedure.Valid (p : Source.Procedure) : Prop where
  typed : ∀ d ∈ p.vars, d.type ≠ .void
  vars_distinct : (p.vars.map Declaration.name).Nodup
  params_distinct : p.params.Nodup
  params_declared : ∀ name ∈ p.params, ∃ d ∈ p.vars, d.name = name
  stmts : ∀ stmt ∈ p.body, stmt.Valid p.vars p.body.length

/-- The rules for a program: procedures differ by name, and each is valid. -/
structure Source.Program.Valid (program : Source.Program) : Prop where
  distinct : (program.procedures.map Procedure.name).Nodup
  procedures : ∀ p ∈ program.procedures, p.Valid

/-! ## Faults -/

/-- The fault of a name that is not declared. -/
def undeclared (vars : List Declaration) (name : String) : List Error :=
  demand (∃ d ∈ vars, d.name = name) (.undeclared name)

/-- The fault of a target that is not in the body. -/
def outOfRange (size target : Nat) : List Error :=
  demand (target < size) (.targetOutOfRange target)

/-- The fault of the form of a statement. -/
def Stmt.misfits (vars : List Declaration) : Stmt String → List Error
  | .invoke found => demand found.isCall (.notACall found)
  | .branch found _ => demand found.isTest (.notATest found)
  | .switch name _ _ =>
      demand (∃ d ∈ vars, d.name = name ∧ d.type.holdsInt) (.switchOnNonInt name)
  | .define _ _ | .goto _ | .ret _ | .raise _ | .nop => []

/-- The faults of a statement by itself. -/
def Stmt.faults (vars : List Declaration) (size : Nat) (stmt : Stmt String) : List Error :=
  stmt.vars.flatMap (undeclared vars) ++ stmt.misfits vars ++ stmt.targets.flatMap (outOfRange size)

/-- The faults of the declarations of a procedure, after the names seen. -/
def declarationFaults (procedure : String) (seen : List String) (vars : List Declaration) :
    List Error :=
  faultsOfEach Declaration.name (fun d => demand (d.type ≠ .void) (.voidVariable d.name))
    (fun d => .repeatedVariable d.name procedure) (fun _ => []) seen vars

/-- The faults of the parameters of a procedure, after the names seen. -/
def paramFaults (procedure : String) (vars : List Declaration) (seen params : List String) :
    List Error :=
  faultsOfEach id (fun _ => []) (fun name => .repeatedParameter name procedure) (undeclared vars)
    seen params

namespace Source

/-- The faults of a procedure. -/
def Procedure.faults (p : Source.Procedure) : List Error :=
  declarationFaults p.name [] p.vars ++ paramFaults p.name p.vars [] p.params ++
    p.body.flatMap (Stmt.faults p.vars p.body.length) ++ Graph.faults p.body

/-- The faults of some procedures, after the names seen. -/
def procedureFaults (seen : List String) (procedures : List Source.Procedure) : List Error :=
  faultsOfEach Procedure.name (fun _ => []) (fun p => .repeatedProcedure p.name) Procedure.faults
    seen procedures

/-- The faults of a program. -/
def Program.faults (program : Source.Program) : List Error := procedureFaults [] program.procedures

end Source

/-! ## No faults -/

theorem undeclared_eq_nil {vars : List Declaration} {name : String} :
    undeclared vars name = [] ↔ ∃ d ∈ vars, d.name = name :=
  demand_eq_nil

theorem outOfRange_eq_nil {size target : Nat} : outOfRange size target = [] ↔ target < size :=
  demand_eq_nil

/-- What is found to be a call is one. -/
theorem Exp.isCall_iff {ν : Type} {e : Exp ν} :
    e.isCall ↔ ∃ callee args, e = .call callee args := by
  cases e <;> simp [isCall]

theorem Exp.isTest_iff {ν : Type} {e : Exp ν} :
    e.isTest ↔ ∃ op lhs rhs, e = .binary (.relational op) lhs rhs := by
  cases e with
  | binary op lhs rhs => cases op <;> simp [isTest]
  | _ => simp [isTest]

/-- A statement of the right form has no misfits. -/
theorem Stmt.misfits_eq_nil {vars : List Declaration} {stmt : Stmt String} :
    stmt.misfits vars = [] ↔ stmt.Fits vars := by
  constructor
  · intro none
    cases stmt with
    | invoke found =>
      obtain ⟨callee, args, rfl⟩ := Exp.isCall_iff.1 (demand_eq_nil.1 none)
      exact .invoke
    | branch found target =>
      obtain ⟨op, lhs, rhs, rfl⟩ := Exp.isTest_iff.1 (demand_eq_nil.1 none)
      exact .branch
    | switch name cases otherwise =>
      obtain ⟨d, declared, rfl, holds⟩ := demand_eq_nil.1 none
      exact .switch declared holds
    | define location value => exact .define
    | goto target => exact .goto
    | ret value => exact .ret
    | raise exception => exact .raise
    | nop => exact .nop
  · intro fits
    cases fits with
    | switch declared holds => exact demand_eq_nil.2 ⟨_, declared, rfl, holds⟩
    | _ => rfl

/-- A statement has no faults if its names are declared, its form is right and its
targets are in range. -/
theorem Stmt.faults_eq_nil {vars : List Declaration} {size : Nat} {stmt : Stmt String} :
    stmt.faults vars size = [] ↔ (∀ name ∈ stmt.vars, ∃ d ∈ vars, d.name = name) ∧
      stmt.Fits vars ∧ ∀ target ∈ stmt.targets, target < size := by
  simp only [faults, List.append_eq_nil_iff, List.flatMap_eq_nil_iff, undeclared_eq_nil,
    misfits_eq_nil, outOfRange_eq_nil, and_assoc]

/-- Declarations have no faults if their names differ and none is void. -/
theorem declarationFaults_eq_nil {procedure : String} {vars : List Declaration} :
    declarationFaults procedure [] vars = [] ↔
      (vars.map Declaration.name).Nodup ∧ ∀ d ∈ vars, d.type ≠ .void := by
  simp [declarationFaults, faultsOfEach_eq_nil, demand_eq_nil]

theorem paramFaults_eq_nil {procedure : String} {vars : List Declaration} {params : List String} :
    paramFaults procedure vars [] params = [] ↔
      params.Nodup ∧ ∀ name ∈ params, ∃ d ∈ vars, d.name = name := by
  simp [paramFaults, faultsOfEach_eq_nil, undeclared_eq_nil]

/-- A procedure is valid if and only if it has no fault. -/
theorem Source.Procedure.faults_eq_nil {p : Source.Procedure} : p.faults = [] ↔ p.Valid := by
  simp only [faults, List.append_eq_nil_iff, declarationFaults_eq_nil, paramFaults_eq_nil,
    List.flatMap_eq_nil_iff, Stmt.faults_eq_nil, Graph.faults_eq_nil]
  constructor
  · rintro ⟨⟨⟨⟨distinct, typed⟩, params, declared⟩, stmts⟩, labels⟩
    refine ⟨typed, distinct, params, declared, fun stmt member => ?_⟩
    obtain ⟨names, fits, inside⟩ := stmts stmt member
    exact ⟨names, fits, inside, (labels stmt member).1⟩
  · intro valid
    refine ⟨⟨⟨⟨valid.vars_distinct, valid.typed⟩, valid.params_distinct, valid.params_declared⟩,
      fun stmt member => ?_⟩, fun stmt member => ?_⟩
    · obtain ⟨names, fits, inside, -⟩ := valid.stmts stmt member
      exact ⟨names, fits, inside⟩
    · exact ⟨(valid.stmts stmt member).labels, (valid.stmts stmt member).inside⟩

/-- A program is valid if and only if it has no fault. -/
theorem Source.Program.faults_eq_nil {program : Source.Program} :
    program.faults = [] ↔ program.Valid := by
  simp only [faults, procedureFaults, faultsOfEach_eq_nil, Procedure.faults_eq_nil]
  constructor
  · rintro ⟨-, distinct, valid⟩
    exact ⟨distinct, fun p member => (valid p member).2⟩
  · intro valid
    exact ⟨by simp, valid.distinct, fun p member => ⟨trivial, valid.procedures p member⟩⟩

end ConstantFlow
