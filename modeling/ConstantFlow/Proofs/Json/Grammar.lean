import ConstantFlow.Proofs.Json.Written

/-!
# The JSON format

`Denotes` says which texts denote a value: those of the format, with every way to
write a number or a string that it allows.  The texts that `Written` admits are those
in which numbers and strings are written as they are printed, so they are among them
(`Written.denotes`).  `Describes` adds the blanks around a whole text.

Nothing here says how a text is read.
-/

namespace ConstantFlow.Json

mutual

/-- The texts of a value. -/
inductive Denotes : Json → List Char → Prop
  | null : Denotes .null ['n', 'u', 'l', 'l']
  | bool (value : Bool) : Denotes (.bool value) (printBool value)
  | number {n : Number} {chars : List Char} (isNumber : NumberText n chars) :
      Denotes (.number n) chars
  | string {text : Text} {chars : List Char} (isString : StringText text chars) :
      Denotes (.string text) chars
  | emptyArray {gap : List Char} (inside : Gap gap) : Denotes (.array []) ('[' :: (gap ++ [']']))
  | array {gap chars : List Char} {items : List Json} (before : Gap gap)
      (denotes : DenotesItems items chars) : Denotes (.array items) ('[' :: (gap ++ chars))
  | emptyObject {gap : List Char} (inside : Gap gap) :
      Denotes (.object []) ('\x7b' :: (gap ++ ['\x7d']))
  | object {gap chars : List Char} {members : List (Text × Json)} (before : Gap gap)
      (denotes : DenotesMembers members chars) :
      Denotes (.object members) ('\x7b' :: (gap ++ chars))

/-- The texts of the items of an array, with its closing bracket. -/
inductive DenotesItems : List Json → List Char → Prop
  | last {item : Json} {chars gap : List Char} (first : Denotes item chars) (after : Gap gap) :
      DenotesItems [item] (chars ++ (gap ++ [']']))
  | more {item : Json} {items : List Json} {chars gap gap' tail : List Char}
      (first : Denotes item chars) (after : Gap gap) (before : Gap gap')
      (rest : DenotesItems items tail) :
      DenotesItems (item :: items) (chars ++ (gap ++ ',' :: (gap' ++ tail)))

/-- The texts of the members of an object, with its closing brace. -/
inductive DenotesMembers : List (Text × Json) → List Char → Prop
  | last {key : Text} {value : Json} {name chars colon colon' gap : List Char}
      (isKey : StringText key name) (left : Gap colon) (right : Gap colon')
      (first : Denotes value chars) (after : Gap gap) :
      DenotesMembers [(key, value)]
        (name ++ (colon ++ ':' :: (colon' ++ (chars ++ (gap ++ ['\x7d'])))))
  | more {key : Text} {value : Json} {members : List (Text × Json)}
      {name chars colon colon' gap gap' tail : List Char}
      (isKey : StringText key name) (left : Gap colon) (right : Gap colon')
      (first : Denotes value chars) (after : Gap gap) (before : Gap gap')
      (rest : DenotesMembers members tail) :
      DenotesMembers ((key, value) :: members)
        (name ++ (colon ++ ':' :: (colon' ++ (chars ++ (gap ++ ',' :: (gap' ++ tail))))))

end

/-- A whole text is that of a value, blanks around it apart. -/
def Describes (text : String) (value : Json) : Prop :=
  ∃ before chars after, text.toList = before ++ (chars ++ after) ∧ Gap before ∧
    Denotes value chars ∧ Gap after

mutual

/-- A value that is written as it is printed is one of its texts. -/
theorem Written.denotes : {value : Json} → {chars : List Char} → Written value chars →
    Denotes value chars
  | _, _, .null => .null
  | _, _, .bool value => .bool value
  | _, _, .number n => .number (numberText_print n)
  | _, _, .string text => .string (stringText_quote text)
  | _, _, .emptyArray inside => .emptyArray inside
  | _, _, .array before written => .array before written.denotes
  | _, _, .emptyObject inside => .emptyObject inside
  | _, _, .object before written => .object before written.denotes

theorem WrittenItems.denotes : {items : List Json} → {chars : List Char} →
    WrittenItems items chars → DenotesItems items chars
  | _, _, .last first after => .last first.denotes after
  | _, _, .more first after before rest => .more first.denotes after before rest.denotes

theorem WrittenMembers.denotes : {members : List (Text × Json)} → {chars : List Char} →
    WrittenMembers members chars → DenotesMembers members chars
  | _, _, .last left right first after =>
    .last (stringText_quote _) left right first.denotes after
  | _, _, .more left right first after before rest =>
    .more (stringText_quote _) left right first.denotes after before rest.denotes

end

/-! ## First characters -/

/-- A character with which a value starts. -/
abbrev Starts (c : Char) : Prop := isBlank c = false ∧ c ≠ ']'

theorem isBlank_of_isDigit {c : Char} (digit : c.isDigit) : isBlank c = false := by
  by_contra blank
  rw [Bool.not_eq_false] at blank
  simp only [isBlank, Bool.or_eq_true, beq_iff_eq] at blank
  rcases blank with ((rfl | rfl) | rfl) | rfl <;> exact absurd digit (by decide)

/-- No text of a value starts with a blank or a closing bracket. -/
theorem Denotes.eq_cons {value : Json} {chars : List Char} (denotes : Denotes value chars) :
    ∃ c tail, chars = c :: tail ∧ Starts c := by
  cases denotes with
  | null => exact ⟨_, _, rfl, by decide⟩
  | bool value => cases value <;> exact ⟨_, _, rfl, by decide⟩
  | number isNumber =>
    obtain ⟨c, tail, same, lead⟩ := isNumber.eq_cons
    refine ⟨c, tail, same, ?_⟩
    rcases lead with rfl | digit
    · decide
    · refine ⟨isBlank_of_isDigit digit, ?_⟩
      rintro rfl
      exact absurd digit (by decide)
  | string isString =>
    cases isString
    exact ⟨_, _, rfl, by decide⟩
  | emptyArray inside => exact ⟨_, _, rfl, by decide⟩
  | array before denotes => exact ⟨_, _, rfl, by decide⟩
  | emptyObject inside => exact ⟨_, _, rfl, by decide⟩
  | object before denotes => exact ⟨_, _, rfl, by decide⟩

theorem DenotesItems.eq_cons {items : List Json} {chars : List Char}
    (denotes : DenotesItems items chars) : ∃ c tail, chars = c :: tail ∧ Starts c := by
  cases denotes with
  | last first after =>
    obtain ⟨c, tail, rfl, starts⟩ := first.eq_cons
    exact ⟨c, _, rfl, starts⟩
  | more first after before rest =>
    obtain ⟨c, tail, rfl, starts⟩ := first.eq_cons
    exact ⟨c, _, rfl, starts⟩

/-- A string starts with a quote. -/
theorem StringText.eq_cons {text : Text} {chars : List Char} (isText : StringText text chars) :
    ∃ tail, chars = '"' :: tail := by
  cases isText
  exact ⟨_, rfl⟩

theorem DenotesMembers.eq_cons {members : List (Text × Json)} {chars : List Char}
    (denotes : DenotesMembers members chars) : ∃ tail, chars = '"' :: tail := by
  cases denotes with
  | last isKey left right first after =>
    obtain ⟨tail, rfl⟩ := isKey.eq_cons
    exact ⟨_, rfl⟩
  | more isKey left right first after before rest =>
    obtain ⟨tail, rfl⟩ := isKey.eq_cons
    exact ⟨_, rfl⟩

end ConstantFlow.Json
