import ConstantFlow.Graph.Build
import ConstantFlow.Program.Basic
import ConstantFlow.Source.Program

/-!
# Checking programs

Checking replaces each name by its declaration and builds the graph of each
body.  It fails at the first fault, in this order.

* Procedures are checked one after the other, each for its name first.
* In a procedure: the declarations, each for a `void` type before its name, the
  parameters, each for its name before its declaration, the statements, and the
  graph.
* In a statement: the names from left to right, then its form, then its
  targets.  A branch wants a test, a call statement wants a call, and a switch
  wants a variable that can hold an int.
-/

namespace ConstantFlow

open Source (Declaration)

/-! ## Names -/

/-- The declaration of a name. -/
def resolve (scope : List Var) (name : String) : Except Error Var :=
  match scope.find? fun x => x.name == name with
  | some x => .ok x
  | none => .error (.undeclared name)

/-- The variables of some declarations, after those that are there. -/
def declare (procedure : String) (scope : List Var) :
    List Declaration → Except Error (List Var)
  | [] => .ok scope
  | d :: rest =>
      if d.type = .void then .error (.voidVariable d.name)
      else if scope.any fun x => x.name == d.name then
        .error (.repeatedVariable d.name procedure)
      else declare procedure (scope ++ [⟨scope.length, d.name, d.type⟩]) rest

/-- The variables of some parameters, none of which may be among `seen`. -/
def bindParams (procedure : String) (scope : List Var) (seen : List String) :
    List String → Except Error (List Var)
  | [] => .ok []
  | name :: rest => do
      if name ∈ seen then throw (.repeatedParameter name procedure)
      let x ← resolve scope name
      let others ← bindParams procedure scope (name :: seen) rest
      return x :: others

/-! ## Statements -/

/-- A target, if it is in a body of `size` statements. -/
def checkTarget (size target : Nat) : Except Error Nat :=
  if target < size then .ok target else .error (.targetOutOfRange target)

/-- A case of a switch, if its target is in the body. -/
def checkCase (size : Nat) (item : Int32 × Nat) : Except Error (Int32 × Nat) := do
  return (item.1, ← checkTarget size item.2)

/-- An expression over declared variables. -/
def Exp.check (scope : List Var) (e : Exp String) : Except Error (Exp Var) :=
  e.traverse (resolve scope)

/-- A statement over declared variables, in a body of `size` statements. -/
def Stmt.check (scope : List Var) (size : Nat) : Stmt String → Except Error (Stmt Var)
  | .define location value => do
      let location ← location.traverse (resolve scope)
      let value ← value.check scope
      return .define location value
  | .invoke found => do
      let call ← found.check scope
      if call.isCall then return .invoke call else throw (.notACall found)
  | .goto target => return .goto (← checkTarget size target)
  | .branch found target => do
      let test ← found.check scope
      if test.isTest then return .branch test (← checkTarget size target)
      else throw (.notATest found)
  | .switch name cases otherwise => do
      let subject ← resolve scope name
      if subject.holdsInt then
        let cases ← cases.mapM (checkCase size)
        return .switch subject cases (← checkTarget size otherwise)
      else throw (.switchOnNonInt name)
  | .ret value => return .ret (← value.mapM (resolve scope))
  | .raise exception => return .raise (← resolve scope exception)
  | .nop => return .nop

/-! ## Procedures and programs -/

/-- A checked procedure. -/
def Source.Procedure.check (p : Source.Procedure) : Except Error ConstantFlow.Procedure := do
  let vars ← declare p.name [] p.vars
  let params ← bindParams p.name vars [] p.params
  let body ← p.body.mapM (Stmt.check vars p.body.length)
  let graph ← Graph.build body
  return ⟨p.name, vars, params, body, graph⟩

/-- The checked procedures, none of whose names may be among `seen`. -/
def Source.checkProcedures (seen : List String) :
    List Source.Procedure → Except Error (List ConstantFlow.Procedure)
  | [] => .ok []
  | p :: rest => do
      if p.name ∈ seen then throw (.repeatedProcedure p.name)
      let checked ← p.check
      let others ← checkProcedures (p.name :: seen) rest
      return checked :: others

/-- A checked program. -/
def Source.Program.check (program : Source.Program) : Except Error ConstantFlow.Program := do
  return ⟨← Source.checkProcedures [] program.procedures⟩

end ConstantFlow
