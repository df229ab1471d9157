import ConstantFlow.Proofs.Names
import Mathlib

/-!
# Texts keep the grouping

The text of an expression joins a few parts by single spaces: an operand, an operator
and an operand, or a type in parentheses and an operand, or an operand, `instanceof`
and a type.  An operand that has spaces of its own stands in parentheses.  So the parts
are found again where the text is cut at the spaces outside of parentheses
(`Cut.cut_join`), however deep the operands are.

How many parts there are, and the word in the middle of three, say what kind of
expression it is.  An operand in parentheses says that it is one of the kinds that are
grouped, and without them it is a name or a number.  By induction, expressions of one
text are one expression (`Exp.Legible.eq_of_text`).

All this is about *legible* expressions, of variables, ints, binary operations, casts and
type tests.  With a negation it fails: the negation of 5 has the text of the int -5.
-/

namespace ConstantFlow

/-! ## Cutting a text -/

namespace Cut

variable {depth : Nat} {text text' : List Char} {parts : List (List Char)}

/-- How many parentheses are open after a character. -/
def opened (depth : Nat) (c : Char) : Nat :=
  if c = '(' then depth + 1 else if c = ')' then depth - 1 else depth

/-- A text, cut at its spaces outside of parentheses.  Some parentheses may be open in
front of it. -/
def cut (depth : Nat) : List Char → List (List Char)
  | [] => [[]]
  | c :: rest =>
      if c = ' ' ∧ depth = 0 then [] :: cut 0 rest
      else (cut (opened depth c) rest).modifyHead (c :: ·)

/-- A text is not cut, and opens as many parentheses as it closes. -/
def Whole (depth : Nat) (text : List Char) : Prop :=
  ∀ rest, cut depth (text ++ rest) = (cut depth rest).modifyHead (text ++ ·)

/-- A character is neither a space nor a parenthesis. -/
def Plain (c : Char) : Prop := c ∉ [' ', '(', ')']

instance (c : Char) : Decidable (Plain c) := inferInstanceAs (Decidable (c ∉ _))

theorem whole_nil : Whole depth [] := by
  intro rest
  cases h : cut depth rest <;> simp [h]

/-- Two whole texts in a row are one. -/
theorem Whole.append (first : Whole depth text) (second : Whole depth text') :
    Whole depth (text ++ text') := by
  intro rest
  rw [List.append_assoc, first, second, List.modifyHead_modifyHead]
  congr 1
  funext part
  simp

theorem whole_plain {c : Char} (plain : Plain c) : Whole depth [c] := by
  simp only [Plain, List.mem_cons, List.not_mem_nil, or_false, not_or] at plain
  intro rest
  simp [cut, opened, plain]

/-- A text of plain characters is whole. -/
theorem whole_of_plain (plain : ∀ c ∈ text, Plain c) : Whole depth text := by
  induction text with
  | nil => exact whole_nil
  | cons c text ih =>
    exact (whole_plain (plain c List.mem_cons_self)).append
      (ih fun d member => plain d (List.mem_cons_of_mem _ member))

/-- Inside of parentheses a space is no place to cut. -/
theorem whole_space : Whole (depth + 1) [' '] := by
  intro rest
  simp [cut, opened]

/-- Parentheses around a whole text make it whole one level up. -/
theorem Whole.grouped (inside : Whole (depth + 1) text) : Whole depth ('(' :: (text ++ [')'])) := by
  intro rest
  have opens : opened depth '(' = depth + 1 := rfl
  have closes : opened (depth + 1) ')' = depth := rfl
  simp only [List.cons_append, List.append_assoc, List.nil_append, cut, opens, inside _, closes,
    List.modifyHead_modifyHead]
  simp [Function.comp_def]

/-- Whole parts with spaces between them are whole inside parentheses. -/
theorem whole_join (whole : ∀ part ∈ parts, Whole (depth + 1) part) :
    Whole (depth + 1) ([' '].intercalate parts) := by
  induction parts with
  | nil => exact whole_nil
  | cons part rest ih =>
    have first := whole part List.mem_cons_self
    cases rest with
    | nil => rwa [List.intercalate_singleton]
    | cons next rest =>
      rw [List.intercalate_cons_cons]
      exact (first.append whole_space).append
        (ih fun part member => whole part (List.mem_cons_of_mem _ member))

/-- Parts that are not cut themselves are found again. -/
theorem cut_join (nonempty : parts ≠ []) (whole : ∀ part ∈ parts, Whole 0 part) :
    cut 0 ([' '].intercalate parts) = parts := by
  induction parts with
  | nil => exact absurd rfl nonempty
  | cons part rest ih =>
    have first := whole part List.mem_cons_self
    cases rest with
    | nil =>
      have here := first []
      simpa [cut] using here
    | cons next rest =>
      have others := ih (List.cons_ne_nil _ _)
        fun part member => whole part (List.mem_cons_of_mem _ member)
      rw [List.intercalate_cons_cons, List.append_assoc, first, List.cons_append, cut]
      simp [others]

end Cut

open Cut

/-! ## Words -/

/-- A letter or an underscore, and then letters, digits and underscores. -/
def IsName (name : String) : Prop :=
  ∃ first rest, name.toList = first :: rest ∧ (first.isAlpha ∨ first = '_') ∧
    ∀ c ∈ rest, c.isAlphanum ∨ c = '_'

theorem IsName.plain {name : String} (isName : IsName name) : ∀ c ∈ name.toList, Plain c := by
  obtain ⟨first, rest, letters, start, others⟩ := isName
  rw [letters]
  intro c member mark
  have either : (c.isAlpha ∨ c = '_') ∨ c.isAlphanum ∨ c = '_' := by
    rcases List.mem_cons.1 member with rfl | later
    · exact .inl start
    · exact .inr (others c later)
  simp only [List.mem_cons, List.not_mem_nil, or_false] at mark
  rcases mark with rfl | rfl | rfl <;> exact absurd either (by decide)

theorem digit_or_minus_of_mem {i : Int} {c : Char} (member : c ∈ (toString i).toList) :
    c.isDigit ∨ c = '-' := by
  have digit {n : Nat} (member : c ∈ n.repr.toList) : c.isDigit := by
    rw [Nat.toList_repr] at member
    exact Nat.isDigit_of_mem_toDigits (by decide) (by decide) member
  rw [Int.toString_eq_repr, Int.repr_eq_if] at member
  split at member
  · exact .inl (digit member)
  · rw [String.toList_append, List.mem_append] at member
    rcases member with sign | rest
    · exact .inr (List.mem_singleton.1 sign)
    · exact .inl (digit rest)

theorem plain_int (i : Int) : ∀ c ∈ (toString i).toList, Plain c := by
  intro c member mark
  have word := digit_or_minus_of_mem member
  simp only [List.mem_cons, List.not_mem_nil, or_false] at mark
  rcases mark with rfl | rfl | rfl <;> exact absurd word (by decide)

theorem not_isAlpha_of_isDigit {c : Char} (digit : c.isDigit) : ¬ c.isAlpha := by
  grind [Char.isDigit, Char.isAlpha, Char.isUpper, Char.isLower]

/-- No name is a number. -/
theorem IsName.ne_int {name : String} (isName : IsName name) (i : Int) : name ≠ toString i := by
  rintro rfl
  obtain ⟨first, rest, letters, start, -⟩ := isName
  have member : first ∈ (toString i).toList := letters ▸ List.mem_cons_self
  rcases digit_or_minus_of_mem member with digit | rfl
  · rcases start with letter | rfl
    · exact not_isAlpha_of_isDigit digit letter
    · exact absurd digit (by decide)
  · exact absurd start (by decide)

theorem BinaryOp.plain_symbol (op : BinaryOp) : ∀ c ∈ op.symbol.toList, Plain c := by
  rcases op with op | op | op | op <;> cases op <;> simp [symbol, Plain]

/-- No symbol is the word of a type test. -/
theorem BinaryOp.symbol_ne_instanceof (op : BinaryOp) :
    op.symbol.toList ≠ "instanceof".toList := by
  rcases op with op | op | op | op <;> cases op <;> decide

/-- The operators, in their families. -/
def BinaryOp.all : List BinaryOp :=
  [.arithmetic .add, .arithmetic .sub, .arithmetic .mul, .arithmetic .div, .arithmetic .rem,
    .relational .eq, .relational .ne, .relational .ge, .relational .le, .relational .gt,
    .relational .lt, .shift .shl, .shift .shr, .shift .ushr, .bitwise .and, .bitwise .or,
    .bitwise .xor]

/-- No two operators have one symbol. -/
theorem BinaryOp.symbol_injective : Function.Injective symbol := by
  have distinct : (all.map symbol).Nodup := by decide
  have complete (op : BinaryOp) : op ∈ all := by
    rcases op with op | op | op | op <;> cases op <;> decide
  exact fun op op' same => List.inj_on_of_nodup_map distinct (complete op) (complete op') same

/-! ## Types -/

/-- The primitive types. -/
def Primitive.all : List Primitive :=
  [.byte, .short, .int, .long, .float, .double, .char, .boolean]

theorem Primitive.text_injective : Function.Injective text := by
  have distinct : (all.map text).Nodup := by decide
  have complete (type : Primitive) : type ∈ all := by cases type <;> decide
  exact fun type type' same =>
    List.inj_on_of_nodup_map distinct (complete type) (complete type') same

namespace Ty

/-- A primitive type, or an array of a legible type. -/
inductive Legible : Ty → Prop
  | primitive (type : Primitive) : Legible (.primitive type)
  | array {element : Ty} : element.Legible → Legible (.array element)

theorem Legible.plain {type : Ty} (legible : type.Legible) : ∀ c ∈ type.text.toList, Plain c := by
  induction legible with
  | primitive type => cases type <;> simp [text, Primitive.text, Plain]
  | @array element _ ih =>
    intro c member
    rw [text, String.toList_append, List.mem_append] at member
    rcases member with inner | bracket
    · exact ih c inner
    · have brackets : ∀ c ∈ "[]".toList, Plain c := by simp [Plain]
      exact brackets c bracket

theorem text_primitive_ne_array (type : Primitive) (element : Ty) :
    (Ty.primitive type).text ≠ (Ty.array element).text := by
  intro same
  have spelled : type.text = element.text ++ "[]" := same
  have bracket : ']' ∈ type.text.toList := by
    rw [spelled, String.toList_append]
    exact List.mem_append_right _ (by decide)
  cases type <;> exact absurd bracket (by decide)

/-- Legible types of one text are one type. -/
theorem Legible.eq_of_text {type type' : Ty} (legible : type.Legible) (legible' : type'.Legible)
    (same : type.text = type'.text) : type = type' := by
  induction legible generalizing type' with
  | primitive type =>
    cases legible' with
    | primitive type' => rw [Primitive.text_injective same]
    | array => exact absurd same (text_primitive_ne_array _ _)
  | array _ ih =>
    cases legible' with
    | primitive => exact absurd same.symm (text_primitive_ne_array _ _)
    | array legible' => rw [ih legible' ((String.append_left_inj _).1 same)]

end Ty

/-! ## Expressions -/

namespace Exp

/-- An expression of variables, ints, binary operations, casts and type tests, with
names for its variables and legible types. -/
inductive Legible : Exp String → Prop
  | var {name : String} : IsName name → Legible (.var name)
  | int (value : Int32) : Legible (.int value)
  | binary (op : BinaryOp) {lhs rhs : Exp String} :
      lhs.Legible → rhs.Legible → Legible (.binary op lhs rhs)
  | cast {type : Ty} {operand : Exp String} :
      type.Legible → operand.Legible → Legible (.cast type operand)
  | instanceOf {operand : Exp String} {type : Ty} :
      operand.Legible → type.Legible → Legible (.instanceOf operand type)

/-- The text of an expression where it is an operand. -/
def operandText (e : Exp String) : List Char := (group e.isGrouped e.text).toList

/-- The parts that the text of an expression joins. -/
def parts : Exp String → List (List Char)
  | .binary op lhs rhs => [lhs.operandText, op.symbol.toList, rhs.operandText]
  | .cast type operand => ['(' :: (type.text.toList ++ [')']), operand.operandText]
  | .instanceOf operand type => [operand.operandText, "instanceof".toList, type.text.toList]
  | e => [e.text.toList]

variable {e e' : Exp String}

/-- The parts of an expression make its text, with a space between any two. -/
theorem join_parts (e : Exp String) : [' '].intercalate e.parts = e.text.toList := by
  cases e <;> simp [parts, text, operandText]

/-- An expression that is grouped stands in parentheses as an operand. -/
theorem operandText_of_grouped (grouped : e.isGrouped) :
    e.operandText = '(' :: (e.text.toList ++ [')']) := by
  simp [operandText, group, grouped]

theorem operandText_of_not_grouped (bare : e.isGrouped = false) :
    e.operandText = e.text.toList := by
  simp [operandText, group, bare]

/-- A legible expression that is not grouped is a name or a number. -/
theorem Legible.plain (legible : e.Legible) (bare : e.isGrouped = false) :
    ∀ c ∈ e.text.toList, Plain c := by
  cases legible with
  | var isName => exact isName.plain
  | int value => exact plain_int _
  | binary | cast | instanceOf => cases bare

/-- An operand is whole if the parts of the expression are whole inside parentheses. -/
theorem Legible.whole_operandText {depth : Nat} (legible : e.Legible)
    (whole : ∀ part ∈ e.parts, Whole (depth + 1) part) : Whole depth e.operandText := by
  cases grouped : e.isGrouped with
  | true =>
    rw [operandText_of_grouped grouped, ← join_parts]
    exact (whole_join whole).grouped
  | false =>
    rw [operandText_of_not_grouped grouped]
    exact whole_of_plain (legible.plain grouped)

/-- No part is cut, whatever is open in front of it. -/
theorem Legible.whole_parts (legible : e.Legible) (depth : Nat) :
    ∀ part ∈ e.parts, Whole depth part := by
  induction legible generalizing depth with
  | var isName => exact List.forall_mem_singleton.2 (whole_of_plain isName.plain)
  | int value => exact List.forall_mem_singleton.2 (whole_of_plain (plain_int _))
  | binary op left right ihl ihr =>
    simp only [parts, List.forall_mem_cons]
    exact ⟨left.whole_operandText (ihl _), whole_of_plain op.plain_symbol,
      right.whole_operandText (ihr _), List.forall_mem_nil _⟩
  | cast type operand ih =>
    simp only [parts, List.forall_mem_cons]
    exact ⟨(whole_of_plain type.plain).grouped, operand.whole_operandText (ih _),
      List.forall_mem_nil _⟩
  | instanceOf operand type ih =>
    simp only [parts, List.forall_mem_cons]
    exact ⟨operand.whole_operandText (ih _), whole_of_plain (by simp [Plain]),
      whole_of_plain type.plain, List.forall_mem_nil _⟩

/-- The parts of an expression are found in its text. -/
theorem Legible.cut_text (legible : e.Legible) : cut 0 e.text.toList = e.parts := by
  have nonempty : e.parts ≠ [] := by cases e <;> exact List.cons_ne_nil _ _
  rw [← join_parts, cut_join nonempty (legible.whole_parts 0)]

/-- Legible expressions with one text have the same parts: the text is cut at its own
spaces, those outside parentheses. -/
theorem Legible.parts_congr (legible : e.Legible) (legible' : e'.Legible)
    (same : e.text = e'.text) : e.parts = e'.parts := by
  rw [← legible.cut_text, ← legible'.cut_text, same]

/-! ## Reading off the parts -/

/-- No text of an operand is both grouped and not. -/
theorem Legible.operandText_ne (legible : e.Legible) (bare : e.isGrouped = false)
    (grouped : e'.isGrouped) : e.operandText ≠ e'.operandText := by
  rw [operandText_of_not_grouped bare, operandText_of_grouped grouped]
  intro same
  have plain : Plain '(' := legible.plain bare '(' (same ▸ List.mem_cons_self)
  exact absurd plain (by decide)

/-- Operands of one text are one expression, if that holds outside of parentheses. -/
theorem Legible.eq_of_operandText (legible : e.Legible) (legible' : e'.Legible)
    (texts : e.text = e'.text → e = e') (same : e.operandText = e'.operandText) : e = e' := by
  cases grouped : e.isGrouped with
  | true =>
    cases grouped' : e'.isGrouped with
    | true =>
      rw [operandText_of_grouped grouped, operandText_of_grouped grouped'] at same
      exact texts (String.toList_inj.1 (List.append_cancel_right (List.cons.inj same).2))
    | false => exact absurd same.symm (legible'.operandText_ne grouped' grouped)
  | false =>
    cases grouped' : e'.isGrouped with
    | true => exact absurd same (legible.operandText_ne grouped grouped')
    | false =>
      rw [operandText_of_not_grouped grouped, operandText_of_not_grouped grouped'] at same
      exact texts (String.toList_inj.1 same)

/-- Legible expressions of one text are one expression. -/
theorem Legible.eq_of_text (legible : e.Legible) (legible' : e'.Legible)
    (same : e.text = e'.text) : e = e' := by
  induction legible generalizing e' with
  | var isName =>
    have found := (Legible.var isName).parts_congr legible' same
    cases legible' with
    | var => exact congrArg Exp.var same
    | int value => exact absurd same (isName.ne_int _)
    | binary | cast | instanceOf => simp [parts] at found
  | int value =>
    have found := (Legible.int value).parts_congr legible' same
    cases legible' with
    | var isName => exact absurd same.symm (isName.ne_int _)
    | int value' => rw [Int32.toInt_inj.1 (Int.repr_inj.1 same)]
    | binary | cast | instanceOf => simp [parts] at found
  | binary op left right ihl ihr =>
    have found := (Legible.binary op left right).parts_congr legible' same
    cases legible' with
    | binary op' left' right' =>
      simp only [parts, List.cons.injEq, and_true] at found
      obtain ⟨first, symbols, last⟩ := found
      rw [BinaryOp.symbol_injective (String.toList_inj.1 symbols),
        left.eq_of_operandText left' (ihl left') first,
        right.eq_of_operandText right' (ihr right') last]
    | instanceOf =>
      simp only [parts, List.cons.injEq] at found
      exact absurd found.2.1 op.symbol_ne_instanceof
    | var | int | cast => simp [parts] at found
  | cast type operand ih =>
    have found := (Legible.cast type operand).parts_congr legible' same
    cases legible' with
    | cast type' operand' =>
      simp only [parts, List.cons.injEq, true_and, and_true] at found
      obtain ⟨types, operands⟩ := found
      rw [type.eq_of_text type' (String.toList_inj.1 (List.append_cancel_right types)),
        operand.eq_of_operandText operand' (ih operand') operands]
    | var | int | binary | instanceOf => simp [parts] at found
  | instanceOf operand type ih =>
    have found := (Legible.instanceOf operand type).parts_congr legible' same
    cases legible' with
    | instanceOf operand' type' =>
      simp only [parts, List.cons.injEq, true_and, and_true] at found
      obtain ⟨operands, types⟩ := found
      rw [operand.eq_of_operandText operand' (ih operand') operands,
        type.eq_of_text type' (String.toList_inj.1 types)]
    | binary op =>
      simp only [parts, List.cons.injEq] at found
      exact absurd found.2.1.symm op.symbol_ne_instanceof
    | var | int | cast => simp [parts] at found

/-- A negation is not legible, and its text may be that of an int. -/
example : (Exp.neg (.int 5)).text = (Exp.int (-5) : Exp String).text := by decide

/-! ## Checked expressions -/

/-- Legible expressions that are checked in one scope are shown alike only if they are one. -/
theorem shown_eq_iff {scope : List Var} {c c' : Exp Var} (legible : e.Legible)
    (legible' : e'.Legible) (accepted : e.check scope = .ok c)
    (accepted' : e'.check scope = .ok c') : c.shown = c'.shown ↔ e = e' := by
  rw [shown, shown, map_name_of_check accepted, map_name_of_check accepted']
  exact ⟨legible.eq_of_text legible', congrArg text⟩

/-- A difference of a conversion and an int is not shown as the conversion of a difference. -/
theorem shown_eq_iff_converting :
    let scope : List Var := [⟨0, "a", .primitive .int⟩]
    let int : Ty := .primitive .int
    let minus : Exp String → Exp String → Exp String := .binary (.arithmetic .sub)
    let difference := minus (.cast int (.var "a")) (.int (-2))
    let conversion := Exp.cast int (minus (.var "a") (.int (-2)))
    difference.Legible ∧ conversion.Legible ∧
      ∃ c c', difference.check scope = .ok c ∧ conversion.check scope = .ok c' ∧
        c.shown ≠ c'.shown := by
  intro scope int minus difference conversion
  have a : Legible (.var "a") := .var ⟨'a', [], rfl, by decide, List.forall_mem_nil _⟩
  have legible : difference.Legible := .binary _ (.cast (.primitive _) a) (.int _)
  have legible' : conversion.Legible := .cast (.primitive _) (.binary _ a (.int _))
  have accepted : difference.check scope = .ok _ := rfl
  have accepted' : conversion.check scope = .ok _ := rfl
  refine ⟨legible, legible', _, _, accepted, accepted', fun same => ?_⟩
  exact absurd ((shown_eq_iff legible legible' accepted accepted').1 same) (by decide)

end Exp

end ConstantFlow
