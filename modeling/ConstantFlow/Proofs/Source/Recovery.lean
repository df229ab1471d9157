import ConstantFlow.Proofs.Declarations
import ConstantFlow.Proofs.Source.Format

/-!
# Checking loses nothing

A checked procedure still says what it was made of: put the name of each variable in
its place, and there is the source again (`Procedure.source_of_check`).  So two sources
that come to the same name, variables, parameters and body are one
(`Source.Procedure.check_loses_nothing`).  Floating-point numbers count as one only if
they have the same sign and the same magnitude, so the two zeros stay apart.

In a file the alternatives of types, operators, expressions, locations and statements
are one flat list each, where here some are grouped: operators in families, primitive
types, and literals other than ints.  To group them loses nothing either.  Every form of
a thing is of the alternative that its own encoding is of (`Form.alternative_eq`), so no
two alternatives are read as one.
-/

namespace ConstantFlow

open Json

/-! ## Sources of checked procedures -/

/-- A procedure with names for variables and without its graph. -/
def Procedure.source (p : Procedure) : Source.Procedure where
  name := p.name
  vars := p.vars.map Var.declaration
  params := p.params.map Var.name
  body := p.body.map (Stmt.map Var.name)

/-- The source of a checked procedure is what was checked. -/
theorem Procedure.source_of_check {s : Source.Procedure} {p : Procedure}
    (accepted : s.check = .ok p) : p.source = s := by
  obtain ⟨name, vars, params, body⟩ := s.keeps_of_check accepted
  rw [source, name, vars, params, body]

/-- Two procedures agree if they differ in their graphs at most. -/
structure Procedure.Agrees (p q : Procedure) : Prop where
  /-- They have one name. -/
  name : p.name = q.name
  /-- They have the same variables in the same order. -/
  vars : p.vars = q.vars
  /-- They have the same parameters in the same order. -/
  params : p.params = q.params
  /-- They have the same statements in the same order. -/
  body : p.body = q.body

/-- Procedures that agree have one source. -/
theorem Procedure.Agrees.source_eq {p q : Procedure} (agree : p.Agrees q) :
    p.source = q.source := by
  rw [source, source, agree.name, agree.vars, agree.params, agree.body]

/-! ## Alternatives -/

/-- The name of the alternative that a form is of, if it is a choice. -/
def Json.alternative? : Json → Option String
  | .string name => name
  | .object [(name, _)] => name
  | _ => none

/-- A form without content is of the alternative that it names. -/
theorem Json.Bare.alternative_eq {room : Nat} {name : String} {form : Json}
    (bare : Bare room name form) : form.alternative? = some name := by
  cases bare <;> rfl

/-- Every form of a type is of one alternative. -/
theorem Ty.Form.alternative_eq {room : Nat} {form : Json} {type : Ty}
    (isForm : Form room form type) : form.alternative? = type.toJson.alternative? := by
  cases isForm with
  | primitive type bare | null bare | void bare => exact bare.alternative_eq
  | named name => rfl
  | array inner => rfl

/-- Every form of an expression is of one alternative. -/
theorem Exp.Form.alternative_eq {room : Nat} {form : Json} {e : Exp String}
    (isForm : Form room form e) : form.alternative? = e.toJson.alternative? := by
  cases isForm with
  | null bare => exact bare.alternative_eq
  | _ => rfl

/-- Every form of a location is of one alternative. -/
theorem Location.Form.alternative_eq {room : Nat} {form : Json} {location : Location String}
    (isForm : Form room form location) : form.alternative? = location.toJson.alternative? := by
  cases isForm <;> rfl

/-- Every form of a statement is of one alternative. -/
theorem Stmt.Form.alternative_eq {room : Nat} {form : Json} {stmt : Stmt String}
    (isForm : Form room form stmt) : form.alternative? = stmt.toJson.alternative? := by
  cases isForm with
  | nop bare => exact bare.alternative_eq
  | _ => rfl

/-! ## Nothing is lost -/

/-- Sources that are checked and come to procedures that agree are one, and that one is
found again in either procedure.  What was read, a type, an operator, an expression, a
location or a statement, says which alternative it was read from. -/
theorem Source.Procedure.check_loses_nothing {s s' : Source.Procedure}
    {p q : ConstantFlow.Procedure} (accepted : s.check = .ok p) (accepted' : s'.check = .ok q)
    (agree : p.Agrees q) :
    s = s' ∧ p.source = s ∧ q.source = s ∧
      (∀ budget form type, Ty.decode budget form = some type →
        form.alternative? = type.toJson.alternative?) ∧
      (∀ budget form op, BinaryOp.decode budget form = some op → form.alternative? = some op.tag) ∧
      (∀ budget form e, Exp.decode budget form = some e →
        form.alternative? = e.toJson.alternative?) ∧
      (∀ budget form location, Location.decode budget form = some location →
        form.alternative? = location.toJson.alternative?) ∧
      ∀ budget form stmt, Stmt.decode budget form = some stmt →
        form.alternative? = stmt.toJson.alternative? := by
  have found := Procedure.source_of_check accepted
  have found' := Procedure.source_of_check accepted'
  have same : s = s' := found.symm.trans (agree.source_eq.trans found')
  refine ⟨same, found, found'.trans same.symm, fun _ _ _ read => ?_, fun _ _ _ read => ?_,
    fun _ _ _ read => ?_, fun _ _ _ read => ?_, fun _ _ _ read => ?_⟩
  · exact ((Ty.decode_eq_some_iff ..).1 read).alternative_eq
  · exact ((BinaryOp.decode_eq_some_iff ..).1 read).alternative_eq
  · exact (Exp.form_of_decode read).alternative_eq
  · exact ((Location.decode_eq_some_iff ..).1 read).alternative_eq
  · exact (Stmt.form_of_decode read).alternative_eq

/-- The stores and the call of a procedure are found again.  A shift and its operands,
in any order of fields, say what they were read from. -/
theorem Source.Procedure.check_loses_nothing_storing :
    let p := ConstantFlow.Procedure.storing
    let lhs := choice "LongLiteral" (.int 5)
    let form := choice "Binary"
      (.record [("rhs", .text "NullLiteral"), ("op", .text "Ushr"), ("lhs", lhs)])
    let e : Exp String := .binary (.shift .ushr) (.literal (.long 5)) (.literal .null)
    Source.Procedure.storing.check = .ok p ∧ p.Agrees p ∧ p.source = .storing ∧
      Exp.decode 3 form = some e ∧ form.alternative? = e.toJson.alternative? ∧
      Exp.decode 1 lhs = some (.literal (.long 5)) ∧
      lhs.alternative? = (Exp.literal (.long 5)).toJson.alternative? := by
  intro p lhs form e
  have accepted : Source.Procedure.storing.check = .ok p := by decide
  have agree : p.Agrees p := ⟨rfl, rfl, rfl, rfl⟩
  have read : Exp.decode 3 form = some e := by decide
  have read' : Exp.decode 1 lhs = some (.literal (.long 5)) := by decide
  obtain ⟨-, found, -, -, -, alternative, -⟩ := check_loses_nothing accepted accepted agree
  exact ⟨accepted, agree, found, read, alternative _ _ _ read, read',
    alternative _ _ _ read'⟩

end ConstantFlow
