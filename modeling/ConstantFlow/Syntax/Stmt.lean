import ConstantFlow.Syntax.Exp

/-!
# Statements

The body of a procedure is a list of statements, and a jump names its target by
position.  Like expressions, statements are written over a type of variables.

A *location* is what a definition assigns to.  Only a definition whose location
is a variable defines a variable: a store to a field or an element does not.
-/

namespace ConstantFlow

/-- What a definition assigns to. -/
inductive Location (ν : Type)
  /-- A local variable. -/
  | var (x : ν)
  /-- A field, static when there is no base. -/
  | field (base : Option ν) (name : String)
  /-- An element of an array. -/
  | element (base : ν) (index : Exp ν)
deriving DecidableEq

/-- A statement over variables of type `ν`. -/
inductive Stmt (ν : Type)
  /-- The value of an expression goes to a location. -/
  | define (location : Location ν) (value : Exp ν)
  /-- A call whose result is dropped. -/
  | invoke (call : Exp ν)
  /-- A jump. -/
  | goto (target : Nat)
  /-- A jump when a test holds. -/
  | branch (test : Exp ν) (target : Nat)
  /-- A jump chosen by the value of a variable. -/
  | switch (subject : ν) (cases : List (Int32 × Nat)) (otherwise : Nat)
  /-- The end of the procedure, with a value or without. -/
  | ret (value : Option ν)
  /-- An exception is raised. -/
  | raise (exception : ν)
  /-- Nothing happens. -/
  | nop
deriving DecidableEq

variable {ν μ : Type}

namespace Location

/-- The location with every variable renamed. -/
def map (f : ν → μ) : Location ν → Location μ
  | .var x => .var (f x)
  | .field base name => .field (base.map f) name
  | .element base index => .element (f base) (index.map f)

/-- The variables of a location. -/
def vars : Location ν → List ν
  | .var x => [x]
  | .field base _ => base.toList
  | .element base index => base :: index.vars

/-- The location with every variable looked up. -/
def traverse {ε : Type} (f : ν → Except ε μ) : Location ν → Except ε (Location μ)
  | .var x => return .var (← f x)
  | .field base name => return .field (← base.mapM f) name
  | .element base index => do
      let base ← f base
      let index ← index.traverse f
      return .element base index

/-- The text of a location over names. -/
def text : Location String → String
  | .var x => x
  | .field base name => memberText base name
  | .element base index => base ++ "[" ++ index.text ++ "]"

end Location

namespace Stmt

/-- The location and the value of a definition. -/
def definition? : Stmt ν → Option (Location ν × Exp ν)
  | .define location value => some (location, value)
  | _ => none

/-- The variable that a statement defines, if it defines one. -/
def defined? : Stmt ν → Option ν
  | .define (.var x) _ => some x
  | _ => none

/-- The statement with every variable renamed. -/
def map (f : ν → μ) : Stmt ν → Stmt μ
  | .define location value => .define (location.map f) (value.map f)
  | .invoke call => .invoke (call.map f)
  | .goto target => .goto target
  | .branch test target => .branch (test.map f) target
  | .switch subject cases otherwise => .switch (f subject) cases otherwise
  | .ret value => .ret (value.map f)
  | .raise exception => .raise (f exception)
  | .nop => .nop

/-- The variables of a statement, from left to right. -/
def vars : Stmt ν → List ν
  | .define location value => location.vars ++ value.vars
  | .invoke call => call.vars
  | .branch test _ => test.vars
  | .switch subject _ _ => [subject]
  | .ret value => value.toList
  | .raise exception => [exception]
  | .goto _ | .nop => []

/-- The targets that a statement names, in order. -/
def targets : Stmt ν → List Nat
  | .goto target | .branch _ target => [target]
  | .switch _ cases otherwise => cases.map Prod.snd ++ [otherwise]
  | _ => []

/-- The text of one case of a switch. -/
def caseText (item : Int32 × Nat) : String :=
  "case " ++ toString item.1.toInt ++ ": " ++ toString item.2

/-- The text of a statement over names. -/
def text : Stmt String → String
  | .define location value => location.text ++ " = " ++ value.text ++ ";"
  | .invoke call => call.text ++ ";"
  | .goto target => "goto " ++ toString target ++ ";"
  | .branch test target => "if (" ++ test.text ++ ") goto " ++ toString target ++ ";"
  | .switch subject cases otherwise =>
      "switch (" ++ subject ++ ") \x7b" ++ ", ".intercalate (cases.map caseText) ++
        ", default: " ++ toString otherwise ++ "\x7d;"
  | .ret none => "return;"
  | .ret (some value) => "return " ++ value ++ ";"
  | .raise exception => "throw " ++ exception ++ ";"
  | .nop => "nop;"

end Stmt

end ConstantFlow
