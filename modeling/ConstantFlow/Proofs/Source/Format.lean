import ConstantFlow.Proofs.Json.Forms
import ConstantFlow.Proofs.Source.RoundTrip

/-!
# The format of programs

`Source.Described` says which texts describe a program: a text of a JSON value that is
one of the forms of the program.  The forms of a type, an expression, a statement, a
procedure and a program are listed one by one, each with the names of its alternatives
and fields, and how many arrays and objects it may open is counted down from 127.  What
an unknown field of a record holds is not looked at, so it is not counted either.

A text is read as a program exactly if it describes the program
(`Source.Program.parse_eq_some_iff`).
-/

namespace ConstantFlow

open Json

/-! ## Types and operators -/

/-- The forms of a type. -/
inductive Ty.Form : Nat → Json → Ty → Prop
  | primitive {room : Nat} {form : Json} (type : Primitive) (bare : Bare room type.tag form) :
      Form room form (.primitive type)
  | null {room : Nat} {form : Json} (bare : Bare room "Null" form) : Form room form .null
  | void {room : Nat} {form : Json} (bare : Bare room "Void" form) : Form room form .void
  | named {room : Nat} (name : String) : Form (room + 1) (choice "Class" (.text name)) (.named name)
  | array {room : Nat} {form : Json} {element : Ty} (inner : Form room form element) :
      Form (room + 1) (choice "Array" form) (.array element)

/-- A type that is named without content has that form. -/
theorem Ty.form_of_ofName? {room : Nat} {form : Json} {name : String} {type : Ty}
    (bare : Bare room name form) (found : ofName? name = some type) : Form room form type := by
  unfold ofName? at found
  split at found
  · cases found; exact .primitive .byte bare
  · cases found; exact .primitive .short bare
  · cases found; exact .primitive .int bare
  · cases found; exact .primitive .long bare
  · cases found; exact .primitive .float bare
  · cases found; exact .primitive .double bare
  · cases found; exact .primitive .char bare
  · cases found; exact .primitive .boolean bare
  · cases found; exact .null bare
  · cases found; exact .void bare
  · cases found

/-- A type is decoded exactly from its forms. -/
theorem Ty.decode_eq_some_iff (room : Nat) (form : Json) (type : Ty) :
    decode room form = some type ↔ Form room form type := by
  constructor
  · intro read
    fun_induction decode room form generalizing type with
    | case1 room name =>
      obtain ⟨name, rfl, found⟩ := Option.bind_eq_some_iff.1 read
      exact form_of_ofName? (.name name) found
    | case2 room name =>
      obtain ⟨name, found, rfl⟩ := Option.map_eq_some_iff.1 read
      rw [text?_eq_some_iff] at found
      subst found
      exact .named name
    | case3 room element ih =>
      obtain ⟨element, found, rfl⟩ := Option.map_eq_some_iff.1 read
      exact .array (ih _ found)
    | case4 room name =>
      obtain ⟨name, rfl, found⟩ := Option.bind_eq_some_iff.1 read
      exact form_of_ofName? (.empty name) found
    | case5 => cases read
  · intro isForm
    induction isForm with
    | primitive type bare =>
      cases bare with
      | name => rw [Json.text, decode_string]; cases type <;> rfl
      | empty => cases type <;> rfl
    | null bare =>
      cases bare with
      | name => rw [Json.text, decode_string]; rfl
      | empty => rfl
    | void bare =>
      cases bare with
      | name => rw [Json.text, decode_string]; rfl
      | empty => rfl
    | named name => rfl
    | array inner ih => exact Option.map_eq_some_iff.2 ⟨_, ih, rfl⟩

/-- An operator has one name. -/
theorem BinaryOp.ofName?_eq_some_iff {name : String} {op : BinaryOp} :
    ofName? name = some op ↔ name = op.tag := by
  constructor
  · intro found
    unfold ofName? at found
    split at found <;> cases found <;> rfl
  · rintro rfl
    rcases op with op | op | op | op <;> cases op <;> rfl

theorem BinaryOp.decode_eq_some_iff (room : Nat) (form : Json) (op : BinaryOp) :
    decode room form = some op ↔ Bare room op.tag form := by
  rw [decode, Option.bind_eq_some_iff]
  simp only [bare?_eq_some_iff, ofName?_eq_some_iff]
  exact exists_eq_right

/-! ## Expressions -/

/-- The forms of a list of names. -/
def Source.NamesForm : Nat → Json → List String → Prop := Listed fun _ form name => form = .text name

theorem Source.decodeNames_eq_some_iff (room : Nat) (form : Json) (names : List String) :
    decodeNames room form = some names ↔ NamesForm room form names :=
  list?_eq_some_iff fun _ _ _ => text?_eq_some_iff

/-- The forms of an expression. -/
inductive Exp.Form : Nat → Json → Exp String → Prop
  | var {room : Nat} (x : String) : Form (room + 1) (choice "Var" (.text x)) (.var x)
  | int {room : Nat} (value : Int32) :
      Form (room + 1) (choice "IntLiteral" (.int value.toInt)) (.int value)
  | long {room : Nat} (value : Int64) :
      Form (room + 1) (choice "LongLiteral" (.int value.toInt)) (.literal (.long value))
  | float {room : Nat} {form : Json} {value : Binary32} (reads : form.binary32? = some value) :
      Form (room + 1) (choice "FloatLiteral" form) (.literal (.float value))
  | double {room : Nat} {form : Json} {value : Binary64} (reads : form.binary64? = some value) :
      Form (room + 1) (choice "DoubleLiteral" form) (.literal (.double value))
  | string {room : Nat} (value : String) :
      Form (room + 1) (choice "StringLiteral" (.text value)) (.literal (.string value))
  | null {room : Nat} {form : Json} (bare : Bare room "NullLiteral" form) :
      Form room form (.literal .null)
  | named {room : Nat} (name : String) :
      Form (room + 1) (choice "ClassLiteral" (.text name)) (.literal (.named name))
  | binary {room : Nat} {form opForm lhsForm rhsForm : Json} {op : BinaryOp} {lhs rhs : Exp String}
      (parts : Parts ["op", "lhs", "rhs"] form [some opForm, some lhsForm, some rhsForm])
      (isOp : Bare room op.tag opForm) (left : Form room lhsForm lhs)
      (right : Form room rhsForm rhs) :
      Form (room + 2) (choice "Binary" form) (.binary op lhs rhs)
  | neg {room : Nat} {form : Json} {operand : Exp String} (inner : Form room form operand) :
      Form (room + 1) (choice "Neg" form) (.neg operand)
  | cast {room : Nat} {form typeForm operandForm : Json} {type : Ty} {operand : Exp String}
      (parts : Parts ["ty", "operand"] form [some typeForm, some operandForm])
      (isType : Ty.Form room typeForm type) (inner : Form room operandForm operand) :
      Form (room + 2) (choice "Cast" form) (.cast type operand)
  | instanceOf {room : Nat} {form typeForm operandForm : Json} {type : Ty} {operand : Exp String}
      (parts : Parts ["operand", "ty"] form [some operandForm, some typeForm])
      (inner : Form room operandForm operand) (isType : Ty.Form room typeForm type) :
      Form (room + 2) (choice "InstanceOf" form) (.instanceOf operand type)
  | call {room : Nat} {form argsForm : Json} {callee : String} {args : List String}
      (parts : Parts ["callee", "args"] form [some (.text callee), some argsForm])
      (isArgs : Source.NamesForm room argsForm args) :
      Form (room + 2) (choice "Invoke" form) (.call callee args)
  | new {room : Nat} {form : Json} {type : Ty} (isType : Ty.Form room form type) :
      Form (room + 1) (choice "New" form) (.new type)
  | field {room : Nat} {form : Json} {baseForm : Option Json} {base : Option String} {name : String}
      (parts : Parts ["base", "field"] form [baseForm, some (.text name)])
      (isBase : Optional base baseForm) :
      Form (room + 2) (choice "FieldAccess" form) (.field base name)
  | element {room : Nat} {form indexForm : Json} {base : String} {index : Exp String}
      (parts : Parts ["base", "index"] form [some (.text base), some indexForm])
      (inner : Form room indexForm index) :
      Form (room + 2) (choice "ArrayAccess" form) (.element base index)
  | length {room : Nat} (base : String) :
      Form (room + 1) (choice "ArrayLength" (.text base)) (.length base)

theorem Exp.form_of_ofName? {room : Nat} {form : Json} {name : String} {e : Exp String}
    (bare : Bare room name form) (found : ofName? name = some e) : Form room form e := by
  unfold ofName? at found
  split at found
  · cases found; exact .null bare
  · cases found

/-- What is decoded as an expression is one of its forms. -/
theorem Exp.form_of_decode {room : Nat} {form : Json} {e : Exp String}
    (read : decode room form = some e) : Form room form e := by
  fun_induction decode room form generalizing e with
  | case1 room name =>
    obtain ⟨name, rfl, found⟩ := Option.bind_eq_some_iff.1 read
    exact form_of_ofName? (.name name) found
  | case2 room form =>
    obtain ⟨x, found, rfl⟩ := Option.map_eq_some_iff.1 read
    cases text?_eq_some_iff.1 found
    exact .var x
  | case3 room form =>
    obtain ⟨value, found, rfl⟩ := Option.map_eq_some_iff.1 read
    cases int32?_eq_some_iff.1 found
    exact .int value
  | case4 room form =>
    obtain ⟨value, found, rfl⟩ := Option.map_eq_some_iff.1 read
    cases int64?_eq_some_iff.1 found
    exact .long value
  | case5 room form =>
    obtain ⟨value, found, rfl⟩ := Option.map_eq_some_iff.1 read
    exact .float found
  | case6 room form =>
    obtain ⟨value, found, rfl⟩ := Option.map_eq_some_iff.1 read
    exact .double found
  | case7 room form =>
    obtain ⟨value, found, rfl⟩ := Option.map_eq_some_iff.1 read
    cases text?_eq_some_iff.1 found
    exact .string value
  | case8 room =>
    cases read
    exact .null (.empty "NullLiteral")
  | case9 room form =>
    obtain ⟨name, found, rfl⟩ := Option.map_eq_some_iff.1 read
    cases text?_eq_some_iff.1 found
    exact .named name
  | case10 room form op lhs rhs parts ihl ihr =>
    obtain ⟨op, isOp, read⟩ := Option.bind_eq_some_iff.1 read
    obtain ⟨lhs, left, read⟩ := Option.bind_eq_some_iff.1 read
    obtain ⟨rhs, right, made⟩ := Option.bind_eq_some_iff.1 read
    cases made
    exact .binary (fields?_eq_some_iff.1 parts) ((BinaryOp.decode_eq_some_iff ..).1 isOp)
      (ihl left) (ihr right)
  | case12 room form ih =>
    obtain ⟨operand, found, rfl⟩ := Option.map_eq_some_iff.1 read
    exact .neg (ih found)
  | case13 room form type operand parts ih =>
    obtain ⟨type, isType, read⟩ := Option.bind_eq_some_iff.1 read
    obtain ⟨operand, inner, made⟩ := Option.bind_eq_some_iff.1 read
    cases made
    exact .cast (fields?_eq_some_iff.1 parts) ((Ty.decode_eq_some_iff ..).1 isType) (ih inner)
  | case15 room form operand type parts ih =>
    obtain ⟨operand, inner, read⟩ := Option.bind_eq_some_iff.1 read
    obtain ⟨type, isType, made⟩ := Option.bind_eq_some_iff.1 read
    cases made
    exact .instanceOf (fields?_eq_some_iff.1 parts) (ih inner)
      ((Ty.decode_eq_some_iff ..).1 isType)
  | case17 room form callee args parts =>
    obtain ⟨callee, found, read⟩ := Option.bind_eq_some_iff.1 read
    obtain ⟨args, isArgs, made⟩ := Option.bind_eq_some_iff.1 read
    cases made
    cases text?_eq_some_iff.1 found
    exact .call (fields?_eq_some_iff.1 parts) ((Source.decodeNames_eq_some_iff ..).1 isArgs)
  | case19 room form =>
    obtain ⟨type, found, rfl⟩ := Option.map_eq_some_iff.1 read
    exact .new ((Ty.decode_eq_some_iff ..).1 found)
  | case20 room form base name parts =>
    obtain ⟨base, isBase, read⟩ := Option.bind_eq_some_iff.1 read
    obtain ⟨name, found, made⟩ := Option.bind_eq_some_iff.1 read
    cases made
    cases text?_eq_some_iff.1 found
    exact .field (fields?_eq_some_iff.1 parts) (optionalText?_eq_some_iff.1 isBase)
  | case22 room form base index parts ih =>
    obtain ⟨base, found, read⟩ := Option.bind_eq_some_iff.1 read
    obtain ⟨index, inner, made⟩ := Option.bind_eq_some_iff.1 read
    cases made
    cases text?_eq_some_iff.1 found
    exact .element (fields?_eq_some_iff.1 parts) (ih inner)
  | case24 room form =>
    obtain ⟨base, found, rfl⟩ := Option.map_eq_some_iff.1 read
    cases text?_eq_some_iff.1 found
    exact .length base
  | case11 | case14 | case16 | case18 | case21 | case23 | case25 => cases read

/-- A form of an expression is decoded as the expression. -/
theorem Exp.Form.decode_eq {room : Nat} {form : Json} {e : Exp String} (isForm : Form room form e) :
    decode room form = some e := by
  induction isForm with
  | var x => rfl
  | int value => exact Option.map_eq_some_iff.2 ⟨_, int32?_eq_some_iff.2 rfl, rfl⟩
  | long value => exact Option.map_eq_some_iff.2 ⟨_, int64?_eq_some_iff.2 rfl, rfl⟩
  | float reads => exact Option.map_eq_some_iff.2 ⟨_, reads, rfl⟩
  | double reads => exact Option.map_eq_some_iff.2 ⟨_, reads, rfl⟩
  | string value => rfl
  | null bare =>
    cases bare with
    | name => rw [Json.text, decode_string]; rfl
    | empty => rfl
  | named name => rfl
  | binary parts isOp _ _ ihl ihr =>
    simp only [choice, record, List.map_cons, List.map_nil, decode, fields?_eq_some_iff.2 parts,
      (BinaryOp.decode_eq_some_iff ..).2 isOp, ihl, ihr]
    rfl
  | neg _ ih => exact Option.map_eq_some_iff.2 ⟨_, ih, rfl⟩
  | cast parts isType _ ih =>
    simp only [choice, record, List.map_cons, List.map_nil, decode, fields?_eq_some_iff.2 parts,
      (Ty.decode_eq_some_iff ..).2 isType, ih]
    rfl
  | instanceOf parts _ isType ih =>
    simp only [choice, record, List.map_cons, List.map_nil, decode, fields?_eq_some_iff.2 parts,
      (Ty.decode_eq_some_iff ..).2 isType, ih]
    rfl
  | call parts isArgs =>
    simp only [choice, record, List.map_cons, List.map_nil, decode, fields?_eq_some_iff.2 parts,
      (Source.decodeNames_eq_some_iff ..).2 isArgs]
    rfl
  | new isType => exact Option.map_eq_some_iff.2 ⟨_, (Ty.decode_eq_some_iff ..).2 isType, rfl⟩
  | field parts isBase =>
    simp only [choice, record, List.map_cons, List.map_nil, decode, fields?_eq_some_iff.2 parts,
      optionalText?_eq_some_iff.2 isBase]
    rfl
  | element parts _ ih =>
    simp only [choice, record, List.map_cons, List.map_nil, decode, fields?_eq_some_iff.2 parts, ih]
    rfl
  | length base => rfl

/-- An expression is decoded exactly from its forms. -/
theorem Exp.decode_eq_some_iff (room : Nat) (form : Json) (e : Exp String) :
    decode room form = some e ↔ Form room form e :=
  ⟨form_of_decode, Form.decode_eq⟩

/-! ## Statements -/

/-- The forms of a location. -/
inductive Location.Form : Nat → Json → Location String → Prop
  | var {room : Nat} (x : String) : Form (room + 1) (choice "Var" (.text x)) (.var x)
  | field {room : Nat} {form : Json} {baseForm : Option Json} {base : Option String} {name : String}
      (parts : Parts ["base", "field"] form [baseForm, some (.text name)])
      (isBase : Optional base baseForm) :
      Form (room + 2) (choice "FieldAccess" form) (.field base name)
  | element {room : Nat} {form indexForm : Json} {base : String} {index : Exp String}
      (parts : Parts ["base", "index"] form [some (.text base), some indexForm])
      (inner : Exp.Form room indexForm index) :
      Form (room + 2) (choice "ArrayAccess" form) (.element base index)

theorem Location.decode_eq_some_iff (room : Nat) (form : Json) (location : Location String) :
    decode room form = some location ↔ Form room form location := by
  constructor
  · fun_cases decode room form with
    | case1 room form =>
      intro read
      obtain ⟨x, found, rfl⟩ := Option.map_eq_some_iff.1 read
      cases text?_eq_some_iff.1 found
      exact .var x
    | case2 room form base name parts =>
      intro read
      obtain ⟨base, isBase, read⟩ := Option.bind_eq_some_iff.1 read
      obtain ⟨name, found, made⟩ := Option.bind_eq_some_iff.1 read
      cases made
      cases text?_eq_some_iff.1 found
      exact .field (fields?_eq_some_iff.1 parts) (optionalText?_eq_some_iff.1 isBase)
    | case4 room form base index parts =>
      intro read
      obtain ⟨base, found, read⟩ := Option.bind_eq_some_iff.1 read
      obtain ⟨index, inner, made⟩ := Option.bind_eq_some_iff.1 read
      cases made
      cases text?_eq_some_iff.1 found
      exact .element (fields?_eq_some_iff.1 parts) (Exp.form_of_decode inner)
    | case3 | case5 | case6 => exact nofun
  · intro isForm
    cases isForm with
    | var x => rfl
    | field parts isBase =>
      simp only [choice, record, List.map_cons, List.map_nil, decode, fields?_eq_some_iff.2 parts,
        optionalText?_eq_some_iff.2 isBase]
      rfl
    | element parts inner =>
      simp only [choice, record, List.map_cons, List.map_nil, decode, fields?_eq_some_iff.2 parts,
        inner.decode_eq]
      rfl

/-- The form of a case of a switch. -/
inductive Source.CaseForm : Nat → Json → Int32 × Nat → Prop
  | mk {room : Nat} (label : Int32) {target : Nat} (small : target < UInt64.size) :
      CaseForm (room + 1) (.array [.int label.toInt, .nat target]) (label, target)

theorem Source.decodeCase_eq_some_iff (room : Nat) (form : Json) (item : Int32 × Nat) :
    decodeCase room form = some item ↔ CaseForm room form item := by
  constructor
  · intro read
    unfold decodeCase at read
    split at read
    · obtain ⟨label, isLabel, read⟩ := Option.bind_eq_some_iff.1 read
      obtain ⟨target, isTarget, made⟩ := Option.bind_eq_some_iff.1 read
      cases made
      cases int32?_eq_some_iff.1 isLabel
      obtain ⟨rfl, small⟩ := word?_eq_some_iff.1 isTarget
      exact .mk label small
    · cases read
  · rintro ⟨label, small⟩
    have isTarget := word?_eq_some_iff.2 ⟨rfl, small⟩
    simp only [decodeCase, int32?_eq_some_iff.2 rfl, isTarget]
    rfl

/-- The forms of a statement. -/
inductive Stmt.Form : Nat → Json → Stmt String → Prop
  | define {room : Nat} {form locationForm valueForm : Json} {location : Location String}
      {value : Exp String}
      (parts : Parts ["lvalue", "rvalue"] form [some locationForm, some valueForm])
      (isLocation : Location.Form room locationForm location)
      (isValue : Exp.Form room valueForm value) :
      Form (room + 2) (choice "Definition" form) (.define location value)
  | invoke {room : Nat} {form : Json} {call : Exp String} (isCall : Exp.Form room form call) :
      Form (room + 1) (choice "Invoke" form) (.invoke call)
  | goto {room : Nat} {form : Json} {target : Nat}
      (parts : Parts ["target"] form [some (.nat target)]) (small : target < UInt64.size) :
      Form (room + 2) (choice "Goto" form) (.goto target)
  | branch {room : Nat} {form testForm : Json} {test : Exp String} {target : Nat}
      (parts : Parts ["condition", "target"] form [some testForm, some (.nat target)])
      (isTest : Exp.Form room testForm test) (small : target < UInt64.size) :
      Form (room + 2) (choice "If" form) (.branch test target)
  | switch {room : Nat} {form casesForm : Json} {subject : String} {cases : List (Int32 × Nat)}
      {otherwise : Nat}
      (parts : Parts ["var", "cases", "default"] form
        [some (.text subject), some casesForm, some (.nat otherwise)])
      (isCases : Listed Source.CaseForm room casesForm cases) (small : otherwise < UInt64.size) :
      Form (room + 2) (choice "Switch" form) (.switch subject cases otherwise)
  | ret {room : Nat} {form : Json} {valueForm : Option Json} {value : Option String}
      (parts : Parts ["value"] form [valueForm]) (isValue : Optional value valueForm) :
      Form (room + 2) (choice "Return" form) (.ret value)
  | raise {room : Nat} {form : Json} {exception : String}
      (parts : Parts ["exception"] form [some (.text exception)]) :
      Form (room + 2) (choice "Throw" form) (.raise exception)
  | nop {room : Nat} {form : Json} (bare : Bare room "Nop" form) : Form room form .nop

theorem Stmt.decode_string (budget : Nat) (name : Text) :
    Stmt.decode budget (.string name) = name.bind ofName? := by
  cases budget <;> rfl

theorem Stmt.form_of_ofName? {room : Nat} {form : Json} {name : String} {s : Stmt String}
    (bare : Bare room name form) (found : ofName? name = some s) : Form room form s := by
  unfold ofName? at found
  split at found
  · cases found; exact .nop bare
  · cases found

/-- What is decoded as a statement is one of its forms. -/
theorem Stmt.form_of_decode {room : Nat} {form : Json} {s : Stmt String} :
    decode room form = some s → Form room form s := by
  fun_cases decode room form with
  | case1 name =>
    intro read
    obtain ⟨name, rfl, found⟩ := Option.bind_eq_some_iff.1 read
    exact form_of_ofName? (.name name) found
  | case2 room form location value parts =>
    intro read
    obtain ⟨location, isLocation, read⟩ := Option.bind_eq_some_iff.1 read
    obtain ⟨value, isValue, made⟩ := Option.bind_eq_some_iff.1 read
    cases made
    exact .define (fields?_eq_some_iff.1 parts) ((Location.decode_eq_some_iff ..).1 isLocation)
      (Exp.form_of_decode isValue)
  | case4 room call =>
    intro read
    obtain ⟨call, isCall, rfl⟩ := Option.map_eq_some_iff.1 read
    exact .invoke (Exp.form_of_decode isCall)
  | case5 room form target parts =>
    intro read
    obtain ⟨target, isTarget, rfl⟩ := Option.map_eq_some_iff.1 read
    obtain ⟨rfl, small⟩ := word?_eq_some_iff.1 isTarget
    exact .goto (fields?_eq_some_iff.1 parts) small
  | case7 room form test target parts =>
    intro read
    obtain ⟨test, isTest, read⟩ := Option.bind_eq_some_iff.1 read
    obtain ⟨target, isTarget, made⟩ := Option.bind_eq_some_iff.1 read
    cases made
    obtain ⟨rfl, small⟩ := word?_eq_some_iff.1 isTarget
    exact .branch (fields?_eq_some_iff.1 parts) (Exp.form_of_decode isTest) small
  | case9 room form subject cases otherwise parts =>
    intro read
    obtain ⟨subject, found, read⟩ := Option.bind_eq_some_iff.1 read
    obtain ⟨cases, isCases, read⟩ := Option.bind_eq_some_iff.1 read
    obtain ⟨otherwise, isTarget, made⟩ := Option.bind_eq_some_iff.1 read
    cases made
    cases text?_eq_some_iff.1 found
    obtain ⟨rfl, small⟩ := word?_eq_some_iff.1 isTarget
    exact .switch (fields?_eq_some_iff.1 parts)
      ((list?_eq_some_iff Source.decodeCase_eq_some_iff).1 isCases) small
  | case11 room form value parts =>
    intro read
    obtain ⟨value, isValue, rfl⟩ := Option.map_eq_some_iff.1 read
    exact .ret (fields?_eq_some_iff.1 parts) (optionalText?_eq_some_iff.1 isValue)
  | case13 room form exception parts =>
    intro read
    obtain ⟨exception, found, rfl⟩ := Option.map_eq_some_iff.1 read
    cases text?_eq_some_iff.1 found
    exact .raise (fields?_eq_some_iff.1 parts)
  | case15 room =>
    intro read
    cases read
    exact .nop (.empty "Nop")
  | case3 | case6 | case8 | case10 | case12 | case14 | case16 => exact nofun

/-- A form of a statement is decoded as the statement. -/
theorem Stmt.Form.decode_eq {room : Nat} {form : Json} {s : Stmt String}
    (isForm : Form room form s) : decode room form = some s := by
  cases isForm with
  | define parts isLocation isValue =>
    simp only [choice, record, List.map_cons, List.map_nil, decode, fields?_eq_some_iff.2 parts,
      (Location.decode_eq_some_iff ..).2 isLocation, isValue.decode_eq]
    rfl
  | invoke isCall => exact Option.map_eq_some_iff.2 ⟨_, isCall.decode_eq, rfl⟩
  | goto parts small =>
    simp only [choice, record, List.map_cons, List.map_nil, decode, fields?_eq_some_iff.2 parts,
      word?_eq_some_iff.2 ⟨rfl, small⟩]
    rfl
  | branch parts isTest small =>
    simp only [choice, record, List.map_cons, List.map_nil, decode, fields?_eq_some_iff.2 parts,
      isTest.decode_eq, word?_eq_some_iff.2 ⟨rfl, small⟩]
    rfl
  | switch parts isCases small =>
    simp only [choice, record, List.map_cons, List.map_nil, decode, fields?_eq_some_iff.2 parts,
      (list?_eq_some_iff Source.decodeCase_eq_some_iff).2 isCases, word?_eq_some_iff.2 ⟨rfl, small⟩]
    rfl
  | ret parts isValue =>
    simp only [choice, record, List.map_cons, List.map_nil, decode, fields?_eq_some_iff.2 parts,
      optionalText?_eq_some_iff.2 isValue]
    rfl
  | raise parts =>
    simp only [choice, record, List.map_cons, List.map_nil, decode, fields?_eq_some_iff.2 parts]
    rfl
  | nop bare =>
    cases bare with
    | name => rw [Json.text, decode_string]; rfl
    | empty => rfl

/-- A statement is decoded exactly from its forms. -/
theorem Stmt.decode_eq_some_iff (room : Nat) (form : Json) (s : Stmt String) :
    decode room form = some s ↔ Form room form s :=
  ⟨form_of_decode, Form.decode_eq⟩

/-! ## Procedures and programs -/

namespace Source

/-- The forms of a declaration. -/
inductive Declaration.Form : Nat → Json → Declaration → Prop
  | mk {room : Nat} {form typeForm : Json} {name : String} {type : Ty}
      (parts : Parts ["name", "ty"] form [some (.text name), some typeForm])
      (isType : Ty.Form room typeForm type) : Form (room + 1) form ⟨name, type⟩

/-- The forms of a procedure. -/
inductive Procedure.Form : Nat → Json → Procedure → Prop
  | mk {room : Nat} {form varsForm paramsForm bodyForm : Json} {name : String}
      {vars : List Declaration} {params : List String} {body : List (Stmt String)}
      (parts : Parts ["name", "vars", "params", "stmts"] form
        [some (.text name), some varsForm, some paramsForm, some bodyForm])
      (isVars : Listed Declaration.Form room varsForm vars)
      (isParams : NamesForm room paramsForm params) (isBody : Listed Stmt.Form room bodyForm body) :
      Form (room + 1) form ⟨name, vars, params, body⟩

/-- The forms of a program. -/
inductive Program.Form : Nat → Json → Program → Prop
  | mk {room : Nat} {form proceduresForm : Json} {procedures : List Procedure}
      (parts : Parts ["procedures"] form [some proceduresForm])
      (isProcedures : Listed Procedure.Form room proceduresForm procedures) :
      Form (room + 1) form ⟨procedures⟩

theorem Declaration.decode_eq_some_iff (room : Nat) (form : Json) (d : Declaration) :
    decode room form = some d ↔ Form room form d := by
  constructor
  · fun_cases decode room form with
    | case1 form room name type parts =>
      intro read
      obtain ⟨name, found, read⟩ := Option.bind_eq_some_iff.1 read
      obtain ⟨type, isType, made⟩ := Option.bind_eq_some_iff.1 read
      cases made
      cases text?_eq_some_iff.1 found
      exact .mk (fields?_eq_some_iff.1 parts) ((Ty.decode_eq_some_iff ..).1 isType)
    | case2 | case3 => exact nofun
  · rintro ⟨parts, isType⟩
    simp only [decode, fields?_eq_some_iff.2 parts, (Ty.decode_eq_some_iff ..).2 isType]
    rfl

/-- A procedure is decoded exactly from its forms. -/
theorem Procedure.decode_eq_some_iff (room : Nat) (form : Json) (p : Procedure) :
    decode room form = some p ↔ Form room form p := by
  constructor
  · fun_cases decode room form with
    | case1 form room name vars params body parts =>
      intro read
      obtain ⟨name, found, read⟩ := Option.bind_eq_some_iff.1 read
      obtain ⟨vars, isVars, read⟩ := Option.bind_eq_some_iff.1 read
      obtain ⟨params, isParams, read⟩ := Option.bind_eq_some_iff.1 read
      obtain ⟨body, isBody, made⟩ := Option.bind_eq_some_iff.1 read
      cases made
      cases text?_eq_some_iff.1 found
      exact .mk (fields?_eq_some_iff.1 parts)
        ((list?_eq_some_iff Declaration.decode_eq_some_iff).1 isVars)
        ((decodeNames_eq_some_iff ..).1 isParams)
        ((list?_eq_some_iff Stmt.decode_eq_some_iff).1 isBody)
    | case2 | case3 => exact nofun
  · rintro ⟨parts, isVars, isParams, isBody⟩
    simp only [decode, fields?_eq_some_iff.2 parts,
      (list?_eq_some_iff Declaration.decode_eq_some_iff).2 isVars,
      (decodeNames_eq_some_iff ..).2 isParams, (list?_eq_some_iff Stmt.decode_eq_some_iff).2 isBody]
    rfl

/-- A program is decoded exactly from its forms. -/
theorem Program.decode_eq_some_iff (room : Nat) (form : Json) (program : Program) :
    decode room form = some program ↔ Form room form program := by
  constructor
  · fun_cases decode room form with
    | case1 form room procedures parts =>
      intro read
      obtain ⟨procedures, isProcedures, made⟩ := Option.bind_eq_some_iff.1 read
      cases made
      exact .mk (fields?_eq_some_iff.1 parts)
        ((list?_eq_some_iff Procedure.decode_eq_some_iff).1 isProcedures)
    | case2 | case3 => exact nofun
  · rintro ⟨parts, isProcedures⟩
    simp only [decode, fields?_eq_some_iff.2 parts,
      (list?_eq_some_iff Procedure.decode_eq_some_iff).2 isProcedures]
    rfl

/-! ## Texts -/

/-- A text describes a program: it is JSON of a form of the program that opens at most
127 arrays and objects at once. -/
def Described (text : String) (program : Program) : Prop :=
  ∃ form, Describes text form ∧ Program.Form 127 form program

/-- A text is read as the program that it describes, and as no other. -/
theorem Program.parse_eq_some_iff {text : String} {program : Program} :
    parse text = some program ↔ Described text program := by
  rw [parse, Option.bind_eq_some_iff]
  simp only [Json.parse_eq_some_iff, decode_eq_some_iff]
  rfl

/-- The compact text of a program without floating-point numbers describes it, unless it
opens too many arrays and objects. -/
theorem Program.described_text {program : Program}
    (exact : ∀ value ∈ program.literals, value.isFloating = false)
    (small : ∀ target ∈ program.targets, target < UInt64.size)
    (few : program.toJson.depth ≤ 127) : Described program.text program :=
  parse_eq_some_iff.1 ((parse_text_eq exact small).trans (if_pos few))

end Source

end ConstantFlow
