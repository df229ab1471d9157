import ConstantFlow.Source.Decode
import ConstantFlow.Source.Encode
import ConstantFlow.Proofs.Json.Decoding
import ConstantFlow.Proofs.Json.Depth
import ConstantFlow.Proofs.Json.Reading

/-!
# Programs read back

A program is read back from its compact text, as long as the text does not open
too many arrays and objects at once, and is refused otherwise
(`Source.Program.parse_text`).

Each kind of form is read back for any budget that lasts for its depth
(`Decodes`), by induction on what it was made of, and the budget that a whole
program starts with is what its text may open.  Floating-point numbers are left
out: one that is infinite has no form of its own, and the reader is not exact on the
others.  A target of a jump is a word.
-/

namespace ConstantFlow

open Json

/-! ## Types and operators -/

theorem Ty.decode_string (budget : Nat) (name : Text) :
    Ty.decode budget (.string name) = name.bind ofName? := by
  cases budget <;> rfl

theorem Ty.decodes (type : Ty) : Decodes Ty.decode type.toJson type := by
  induction type with
  | primitive type =>
    intro budget
    rw [toJson, Json.text, decode_string]
    cases type <;> rfl
  | named name => exact .choice rfl fun budget => congrArg _ (text?_within budget name)
  | array element ih =>
    refine .choice rfl fun budget => ?_
    show (Ty.decode budget element.toJson).map Ty.array = _
    rw [ih, map_within]
  | null => exact fun budget => decode_string budget _
  | void => exact fun budget => decode_string budget _

theorem BinaryOp.decodes (op : BinaryOp) : Decodes BinaryOp.decode (.text op.tag) op := by
  intro budget
  rcases op with op | op | op | op <;> cases op <;> rfl

/-! ## Expressions -/

/-- Whether a literal is a floating-point number. -/
def Literal.isFloating : Literal → Bool
  | .float _ | .double _ => true
  | .long _ | .string _ | .null | .named _ => false

/-- The literals of an expression other than ints. -/
def Exp.literals {ν : Type} : Exp ν → List Literal
  | .literal value => [value]
  | .binary _ lhs rhs => lhs.literals ++ rhs.literals
  | .neg operand | .cast _ operand | .instanceOf operand _ => operand.literals
  | .element _ index => index.literals
  | .var _ | .int _ | .call _ _ | .new _ | .field _ _ | .length _ => []

theorem Exp.decode_string (budget : Nat) (name : Text) :
    Exp.decode budget (.string name) = name.bind ofName? := by
  cases budget <;> rfl

/-- A literal is read back, unless it is a floating-point number. -/
theorem Literal.decodes {value : Literal} (exact : value.isFloating = false) :
    Decodes Exp.decode value.toJson (.literal value) := by
  cases value with
  | long value =>
    refine .choice rfl fun budget => ?_
    show (Json.int value.toInt).int64?.map (fun n => Exp.literal (.long n)) = _
    rw [int64?_within budget, map_within]
  | string value => exact .choice rfl fun budget => congrArg _ (text?_within budget value)
  | null => exact fun budget => Exp.decode_string budget _
  | named name => exact .choice rfl fun budget => congrArg _ (text?_within budget name)
  | float value => cases exact
  | double value => cases exact

theorem Source.decodes_names (names : List String) :
    Decodes decodeNames (.array (names.map Json.text)) names :=
  .list fun name _ budget => text?_within budget name

/-- An expression without floating-point numbers is read back. -/
theorem Exp.decodes {e : Exp String} (exact : ∀ value ∈ e.literals, value.isFloating = false) :
    Decodes Exp.decode e.toJson e := by
  induction e with
  | var x => exact .choice rfl fun budget => congrArg _ (text?_within budget x)
  | int value =>
    refine .choice rfl fun budget => ?_
    show (Json.int value.toInt).int32?.map Exp.int = _
    rw [int32?_within budget, map_within]
  | literal value => exact Literal.decodes (exact value List.mem_cons_self)
  | binary op lhs rhs ihl ihr =>
    have left := ihl fun value member => exact value (List.mem_append_left _ member)
    have right := ihr fun value member => exact value (List.mem_append_right _ member)
    refine .fields rfl rfl fun budget => ?_
    show ((BinaryOp.decode budget (.text op.tag)).bind fun op =>
      (Exp.decode budget lhs.toJson).bind fun lhs =>
        (Exp.decode budget rhs.toJson).bind fun rhs => some (Exp.binary op lhs rhs)) = _
    rw [op.decodes budget, left budget, right budget]
    exact bind_within (bind_within (bind_within (within_zero budget _).symm))
  | neg operand ih =>
    refine .choice rfl fun budget => ?_
    show (Exp.decode budget operand.toJson).map Exp.neg = _
    rw [ih exact, map_within]
  | cast type operand ih =>
    refine .fields rfl rfl fun budget => ?_
    show ((Ty.decode budget type.toJson).bind fun type =>
      (Exp.decode budget operand.toJson).bind fun operand => some (Exp.cast type operand)) = _
    rw [type.decodes budget, ih exact budget]
    exact bind_within (bind_within (within_zero budget _).symm)
  | instanceOf operand type ih =>
    refine .fields rfl rfl fun budget => ?_
    show ((Exp.decode budget operand.toJson).bind fun operand =>
      (Ty.decode budget type.toJson).bind fun type => some (Exp.instanceOf operand type)) = _
    rw [type.decodes budget, ih exact budget]
    exact bind_within (bind_within (within_zero budget _).symm)
  | call callee args =>
    refine .fields rfl rfl fun budget => ?_
    show ((Json.text callee).text?.bind fun callee =>
      (Source.decodeNames budget (.array (args.map Json.text))).bind fun args =>
        some (Exp.call callee args)) = _
    rw [text?_within budget, Source.decodes_names args budget]
    exact bind_within (bind_within (within_zero budget _).symm)
  | new type =>
    refine .choice rfl fun budget => ?_
    show (Ty.decode budget type.toJson).map Exp.new = _
    rw [type.decodes, map_within]
  | field base name =>
    refine .fields rfl rfl fun budget => ?_
    show ((optionalText? (some (ofOption Json.text base))).bind fun base =>
      (Json.text name).text?.bind fun name => some (Exp.field base name)) = _
    rw [optionalText?_within budget, text?_within budget]
    exact bind_within (bind_within (within_zero budget _).symm)
  | element base index ih =>
    refine .fields rfl rfl fun budget => ?_
    show ((Json.text base).text?.bind fun base =>
      (Exp.decode budget index.toJson).bind fun index => some (Exp.element base index)) = _
    rw [text?_within budget, ih exact budget]
    exact bind_within (bind_within (within_zero budget _).symm)
  | length base => exact .choice rfl fun budget => congrArg _ (text?_within budget base)

/-! ## Statements -/

/-- The literals of a location other than ints. -/
def Location.literals {ν : Type} : Location ν → List Literal
  | .element _ index => index.literals
  | .var _ | .field _ _ => []

/-- The literals of a statement other than ints. -/
def Stmt.literals {ν : Type} : Stmt ν → List Literal
  | .define location value => location.literals ++ value.literals
  | .invoke test | .branch test _ => test.literals
  | .goto _ | .switch _ _ _ | .ret _ | .raise _ | .nop => []

theorem Location.decodes {location : Location String}
    (exact : ∀ value ∈ location.literals, value.isFloating = false) :
    Decodes Location.decode location.toJson location := by
  cases location with
  | var x => exact .choice rfl fun budget => congrArg (·.map Location.var) (text?_within budget x)
  | field base name =>
    refine .fields rfl rfl fun budget => ?_
    show ((optionalText? (some (ofOption Json.text base))).bind fun base =>
      (Json.text name).text?.bind fun name => some (Location.field base name)) = _
    rw [optionalText?_within budget, text?_within budget]
    exact bind_within (bind_within (within_zero budget _).symm)
  | element base index =>
    refine .fields rfl rfl fun budget => ?_
    show ((Json.text base).text?.bind fun base =>
      (Exp.decode budget index.toJson).bind fun index =>
        some (Location.element base index)) = _
    rw [text?_within budget, Exp.decodes exact budget]
    exact bind_within (bind_within (within_zero budget _).symm)

theorem Source.decodes_case {item : Int32 × Nat} (small : item.2 < UInt64.size) :
    Decodes decodeCase (caseToJson item) item := by
  intro budget
  cases budget with
  | zero => rfl
  | succ budget =>
    show ((Json.int item.1.toInt).int32?.bind fun label =>
      (Json.nat item.2).word?.bind fun target => some (label, target)) = _
    rw [int32?_within budget, word?_within budget small, caseToJson, depth, within_succ]
    exact bind_within (bind_within (within_zero budget _).symm)

/-- A statement without floating-point numbers is read back if its targets are
words. -/
theorem Stmt.decodes {s : Stmt String} (exact : ∀ value ∈ s.literals, value.isFloating = false)
    (small : ∀ target ∈ s.targets, target < UInt64.size) : Decodes Stmt.decode s.toJson s := by
  cases s with
  | define location value =>
    have left : Decodes _ _ location :=
      Location.decodes fun value member => exact value (List.mem_append_left _ member)
    have right : Decodes _ _ value :=
      Exp.decodes fun value member => exact value (List.mem_append_right _ member)
    refine .fields rfl rfl fun budget => ?_
    show ((Location.decode budget location.toJson).bind fun location =>
      (Exp.decode budget value.toJson).bind fun value =>
        some (Stmt.define location value)) = _
    rw [left budget, right budget]
    exact bind_within (bind_within (within_zero budget _).symm)
  | invoke call =>
    refine .choice rfl fun budget => ?_
    show (Exp.decode budget call.toJson).map Stmt.invoke = _
    rw [Exp.decodes exact, map_within]
  | goto target =>
    refine .fields rfl rfl fun budget => ?_
    show (Json.nat target).word?.map Stmt.goto = _
    rw [word?_within budget (small target List.mem_cons_self), Option.map_eq_bind]
    exact bind_within (within_zero budget _).symm
  | branch test target =>
    refine .fields rfl rfl fun budget => ?_
    show ((Exp.decode budget test.toJson).bind fun test =>
      (Json.nat target).word?.bind fun target => some (Stmt.branch test target)) = _
    rw [Exp.decodes exact budget, word?_within budget (small target List.mem_cons_self)]
    exact bind_within (bind_within (within_zero budget _).symm)
  | switch subject cases otherwise =>
    have labels : Decodes (list? Source.decodeCase) _ cases := .list fun item member =>
      Source.decodes_case (small item.2 (List.mem_append_left _ (List.mem_map_of_mem member)))
    have last := small otherwise (List.mem_append_right _ List.mem_cons_self)
    refine .fields rfl rfl fun budget => ?_
    show ((Json.text subject).text?.bind fun subject =>
      (list? Source.decodeCase budget (.array (cases.map Source.caseToJson))).bind fun cases =>
        (Json.nat otherwise).word?.bind fun otherwise =>
          some (Stmt.switch subject cases otherwise)) = _
    rw [text?_within budget, labels budget, word?_within budget last]
    exact bind_within (bind_within (bind_within (within_zero budget _).symm))
  | ret value =>
    refine .fields rfl rfl fun budget => ?_
    show (optionalText? (some (ofOption Json.text value))).map Stmt.ret = _
    rw [optionalText?_within budget, Option.map_eq_bind]
    exact bind_within (within_zero budget _).symm
  | raise exception =>
    refine .fields rfl rfl fun budget => ?_
    show (Json.text exception).text?.map Stmt.raise = _
    rw [text?_within budget, Option.map_eq_bind]
    exact bind_within (within_zero budget _).symm
  | nop => exact fun budget => by cases budget <;> rfl

/-! ## Procedures and programs -/

namespace Source

/-- The literals of a procedure other than ints. -/
def Procedure.literals (p : Procedure) : List Literal := p.body.flatMap Stmt.literals

/-- The targets that the statements of a procedure name. -/
def Procedure.targets (p : Procedure) : List Nat := p.body.flatMap Stmt.targets

/-- The literals of a program other than ints. -/
def Program.literals (program : Program) : List Literal :=
  program.procedures.flatMap Procedure.literals

/-- The targets that the statements of a program name. -/
def Program.targets (program : Program) : List Nat :=
  program.procedures.flatMap Procedure.targets

theorem Declaration.decodes (d : Declaration) : Decodes Declaration.decode d.toJson d := by
  refine .record rfl fun budget => ?_
  show ((Json.text d.name).text?.bind fun name =>
    (Ty.decode budget d.type.toJson).bind fun type => some (Declaration.mk name type)) = _
  rw [text?_within budget, d.type.decodes budget]
  exact bind_within (bind_within (within_zero budget _).symm)

/-- A procedure is read back if its statements are. -/
theorem Procedure.decodes {p : Procedure}
    (exact : ∀ value ∈ p.literals, value.isFloating = false)
    (small : ∀ target ∈ p.targets, target < UInt64.size) :
    Decodes Procedure.decode p.toJson p := by
  have vars : Decodes (list? Declaration.decode) _ p.vars := .list fun d _ => d.decodes
  have body : Decodes (list? Stmt.decode) _ p.body := .list fun s member =>
    Stmt.decodes (fun value inside => exact value (List.mem_flatMap.2 ⟨s, member, inside⟩))
      fun target inside => small target (List.mem_flatMap.2 ⟨s, member, inside⟩)
  refine .record rfl fun budget => ?_
  show ((Json.text p.name).text?.bind fun name =>
    (list? Declaration.decode budget (.array (p.vars.map Declaration.toJson))).bind fun vars =>
      (decodeNames budget (.array (p.params.map Json.text))).bind fun params =>
        (list? Stmt.decode budget (.array (p.body.map Stmt.toJson))).bind fun body =>
          some (Procedure.mk name vars params body)) = _
  rw [text?_within budget, vars budget, decodes_names p.params budget, body budget]
  exact bind_within (bind_within (bind_within (bind_within (within_zero budget _).symm)))

/-- A program without floating-point numbers is read back if its targets are
words. -/
theorem Program.decodes {program : Program}
    (exact : ∀ value ∈ program.literals, value.isFloating = false)
    (small : ∀ target ∈ program.targets, target < UInt64.size) :
    Decodes Program.decode program.toJson program := by
  have procedures : Decodes (list? Procedure.decode) _ program.procedures :=
    .list fun p member => Procedure.decodes
      (fun value inside => exact value (List.mem_flatMap.2 ⟨p, member, inside⟩))
      fun target inside => small target (List.mem_flatMap.2 ⟨p, member, inside⟩)
  refine .record rfl fun budget => ?_
  show ((list? Procedure.decode budget (.array (program.procedures.map Procedure.toJson))).bind
    fun procedures => some (Program.mk procedures)) = _
  rw [procedures budget]
  exact bind_within (within_zero budget _).symm

end Source

/-! ## Texts -/

@[simp] theorem Json.spelled_choice {name : String} {content : Json} :
    (choice name content).Spelled ↔ content.Spelled := by
  simp [choice]

theorem Ty.spelled_toJson (type : Ty) : type.toJson.Spelled := by
  induction type with
  | primitive type => exact spelled_text type.tag
  | named name => simp [toJson]
  | array element ih => simpa [toJson] using ih
  | null | void => exact spelled_text _

theorem Literal.spelled_toJson (value : Literal) : value.toJson.Spelled := by
  have binary {f : Format} (range : FullRange) (x : Binary f) : (x.toJson range).Spelled := by
    unfold Binary.toJson
    split <;> trivial
  cases value <;> simp [toJson, binary]

/-- Every string of the form of an expression has a text. -/
theorem Exp.spelled_toJson (e : Exp String) : e.toJson.Spelled := by
  induction e with
  | literal value => exact value.spelled_toJson
  | _ => simp_all [toJson, Ty.spelled_toJson]

theorem Location.spelled_toJson (location : Location String) : location.toJson.Spelled := by
  cases location <;> simp [toJson, Exp.spelled_toJson]

theorem Source.spelled_caseToJson (item : Int32 × Nat) : (caseToJson item).Spelled := by
  simp [caseToJson]

theorem Stmt.spelled_toJson (s : Stmt String) : s.toJson.Spelled := by
  cases s with
  | switch subject cases otherwise =>
    have labels : (Json.array (cases.map Source.caseToJson)).Spelled :=
      spelled_array.2 (List.forall_mem_map.2 fun item _ => Source.spelled_caseToJson item)
    simpa [toJson] using labels
  | _ => simp [toJson, Exp.spelled_toJson, Location.spelled_toJson]

theorem Source.Program.spelled_toJson (program : Program) : program.toJson.Spelled := by
  simp [toJson, Procedure.toJson, Declaration.toJson, Ty.spelled_toJson, Stmt.spelled_toJson]

/-- A program without floating-point numbers is read back from its compact text if the
budget lasts for its form. -/
theorem Source.Program.parse_text_eq {program : Program}
    (exact : ∀ value ∈ program.literals, value.isFloating = false)
    (small : ∀ target ∈ program.targets, target < UInt64.size) :
    parse program.text = within program.toJson.depth nesting program := by
  rw [parse, text, parse_compact program.spelled_toJson, Option.bind_some]
  exact Program.decodes exact small nesting

/-- The compact text of a program reads as its form.  A program without
floating-point numbers is read back from it if at most 127 arrays and objects of the
text are open at once, and refused otherwise. -/
theorem Source.Program.parse_text {program : Program}
    (exact : ∀ value ∈ program.literals, value.isFloating = false)
    (small : ∀ target ∈ program.targets, target < UInt64.size) :
    Json.parse program.text = some program.toJson ∧
      (mostOpened program.text ≤ 127 → parse program.text = some program) ∧
      (127 < mostOpened program.text → parse program.text = none) := by
  have spelled := program.spelled_toJson
  have read : Json.parse program.text = some program.toJson := parse_compact spelled
  have opened : mostOpened program.text = program.toJson.depth := mostOpened_compact spelled
  rw [opened, parse_text_eq exact small]
  exact ⟨read, fun few => if_pos few, fun many => if_neg (Nat.not_le.2 many)⟩

/-- A program that negates a number over and over, with names that need escapes, a
static field, a call and the greatest target. -/
def Source.Program.negating (times : Nat) : Program :=
  ⟨[⟨"say \"hi\"\n", [⟨"\t∀", .array (.array (.named "A\\B"))⟩, ⟨"x", .primitive .long⟩], ["x"],
    [.define (.var "x") (Nat.repeat Exp.neg times (.literal (.long Int64.minValue))),
      .switch "x" [(Int32.minValue, 0), (7, UInt64.size - 1)] 3,
      .define (.element "\t∀" (.field none "f")) (.call "g" ["x", "\t∀"]),
      .branch (.instanceOf (.literal .null) .null) 1, .ret (some "x"), .ret none]⟩]⟩

/-- A program that opens 127 arrays and objects is read back, and one more negation
is refused. -/
theorem Source.Program.parse_text_negating :
    (mostOpened (negating 120).text = 127 ∧ parse (negating 120).text = some (negating 120)) ∧
      mostOpened (negating 121).text = 128 ∧ parse (negating 121).text = none := by
  have deepest (times : Nat) : mostOpened (negating times).text = (negating times).toJson.depth :=
    mostOpened_compact (spelled_toJson _)
  have fits : mostOpened (negating 120).text = 127 := by
    rw [deepest]
    decide +kernel
  have exceeds : mostOpened (negating 121).text = 128 := by
    rw [deepest]
    decide +kernel
  obtain ⟨-, few, -⟩ := @parse_text (negating 120) (by decide) (by decide)
  obtain ⟨-, -, many⟩ := @parse_text (negating 121) (by decide) (by decide)
  exact ⟨⟨fits, few (by omega)⟩, exceeds, many (by omega)⟩

end ConstantFlow
