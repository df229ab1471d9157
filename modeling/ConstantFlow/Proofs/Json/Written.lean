import ConstantFlow.Proofs.Json.Number
import ConstantFlow.Proofs.Json.Quoted

/-!
# The texts of a value

A value may be written in many ways: blanks may stand between the parts of an
array or of an object.  `Written` relates a value to its texts, with numbers and
strings written as they are printed.  Provided that every string of the value has a
text, the compact layout is one of these texts (`written_print`), and so is the
indented one at any depth (`written_printAt`).
-/

namespace ConstantFlow.Json

/-! ## Texts of a value -/

/-- A text of blanks alone. -/
def Gap (text : List Char) : Prop := ∀ c ∈ text, isBlank c

mutual

/-- A text denotes a value. -/
inductive Written : Json → List Char → Prop
  | null : Written .null ['n', 'u', 'l', 'l']
  | bool (value : Bool) : Written (.bool value) (printBool value)
  | number (n : Number) : Written (.number n) (printNumber n)
  | string (text : String) : Written (.string (some text)) (quote text)
  | emptyArray {gap : List Char} (inside : Gap gap) : Written (.array []) ('[' :: (gap ++ [']']))
  | array {gap chars : List Char} {items : List Json} (before : Gap gap)
      (written : WrittenItems items chars) : Written (.array items) ('[' :: (gap ++ chars))
  | emptyObject {gap : List Char} (inside : Gap gap) :
      Written (.object []) ('\x7b' :: (gap ++ ['\x7d']))
  | object {gap chars : List Char} {members : List (Text × Json)} (before : Gap gap)
      (written : WrittenMembers members chars) :
      Written (.object members) ('\x7b' :: (gap ++ chars))

/-- A text lists the items of an array, with its closing bracket. -/
inductive WrittenItems : List Json → List Char → Prop
  | last {item : Json} {chars gap : List Char} (first : Written item chars) (after : Gap gap) :
      WrittenItems [item] (chars ++ (gap ++ [']']))
  | more {item : Json} {items : List Json} {chars gap gap' tail : List Char}
      (first : Written item chars) (after : Gap gap) (before : Gap gap')
      (rest : WrittenItems items tail) :
      WrittenItems (item :: items) (chars ++ (gap ++ ',' :: (gap' ++ tail)))

/-- A text lists the members of an object, with its closing brace. -/
inductive WrittenMembers : List (Text × Json) → List Char → Prop
  | last {key : String} {value : Json} {chars colon colon' gap : List Char}
      (left : Gap colon) (right : Gap colon') (first : Written value chars) (after : Gap gap) :
      WrittenMembers [(some key, value)]
        (quote key ++ (colon ++ ':' :: (colon' ++ (chars ++ (gap ++ ['\x7d'])))))
  | more {key : String} {value : Json} {members : List (Text × Json)}
      {chars colon colon' gap gap' tail : List Char}
      (left : Gap colon) (right : Gap colon') (first : Written value chars) (after : Gap gap)
      (before : Gap gap') (rest : WrittenMembers members tail) :
      WrittenMembers ((some key, value) :: members)
        (quote key ++ (colon ++ ':' :: (colon' ++ (chars ++ (gap ++ ',' :: (gap' ++ tail))))))

end

theorem gap_nil : Gap [] := fun _ member => absurd member List.not_mem_nil

/-! ## The compact layout -/

mutual

/-- Every string and every key of a value has a text. -/
def Spelled : Json → Prop
  | .string text => text.isSome
  | .array items => SpelledItems items
  | .object members => SpelledMembers members
  | .null | .bool _ | .number _ => True

/-- Every string of some items has a text. -/
def SpelledItems : List Json → Prop
  | [] => True
  | item :: rest => Spelled item ∧ SpelledItems rest

/-- Every key and every string of some members has a text. -/
def SpelledMembers : List (Text × Json) → Prop
  | [] => True
  | (key, value) :: rest => key.isSome ∧ Spelled value ∧ SpelledMembers rest

end

/-- Items have their texts if each has. -/
theorem spelledItems_iff {items : List Json} :
    SpelledItems items ↔ ∀ item ∈ items, item.Spelled := by
  induction items with
  | nil => simp [SpelledItems]
  | cons item rest ih => rw [SpelledItems, ih, List.forall_mem_cons]

@[simp] theorem spelled_array {items : List Json} :
    (Json.array items).Spelled ↔ ∀ item ∈ items, item.Spelled := spelledItems_iff

@[simp] theorem spelled_record {fields : List (String × Json)} :
    (record fields).Spelled ↔ ∀ field ∈ fields, field.2.Spelled := by
  show SpelledMembers (fields.map fun field => (some field.1, field.2)) ↔ _
  induction fields with
  | nil => simp [SpelledMembers]
  | cons field rest ih => simp [SpelledMembers, ih]

@[simp] theorem spelled_text (value : String) : (text value).Spelled := rfl

@[simp] theorem spelled_int (value : Int) : (int value).Spelled := trivial

@[simp] theorem spelled_nat (value : Nat) : (nat value).Spelled := trivial

@[simp] theorem spelled_ofOption (value : Option String) : (ofOption text value).Spelled := by
  cases value with
  | none => trivial
  | some value => exact spelled_text value

mutual

/-- The compact layout of a value is one of its texts. -/
theorem written_print : (value : Json) → value.Spelled → Written value value.print
  | .null, _ => .null
  | .bool value, _ => .bool value
  | .number n, _ => .number n
  | .string (some text), _ => .string text
  | .string none, spelled => absurd spelled (by simp [Spelled])
  | .array items, spelled => by
    have written := written_printItems items
    cases items with
    | nil => exact .emptyArray gap_nil
    | cons item rest => exact .array gap_nil (written (by simp) spelled)
  | .object members, spelled => by
    have written := written_printMembers members
    cases members with
    | nil => exact .emptyObject gap_nil
    | cons member rest => exact .object gap_nil (written (by simp) spelled)

/-- The items of an array are laid out as one of their texts. -/
theorem written_printItems : (items : List Json) → items ≠ [] → SpelledItems items →
    WrittenItems items (printItems items)
  | [], nonempty, _ => absurd rfl nonempty
  | [item], _, spelled => .last (written_print item spelled.1) gap_nil
  | item :: next :: rest, _, spelled =>
    .more (written_print item spelled.1) gap_nil gap_nil
      (written_printItems (next :: rest) (by simp) spelled.2)

/-- The members of an object are laid out as one of their texts. -/
theorem written_printMembers : (members : List (Text × Json)) → members ≠ [] →
    SpelledMembers members → WrittenMembers members (printMembers members)
  | [], nonempty, _ => absurd rfl nonempty
  | (none, _) :: _, _, spelled => absurd spelled.1 (by simp)
  | [(some key, value)], _, spelled => by
    have first := written_print value spelled.2.1
    simpa [printMembers, printText] using
      WrittenMembers.last gap_nil gap_nil first gap_nil
  | (some key, value) :: next :: rest, _, spelled => by
    have first := written_print value spelled.2.1
    have tail := written_printMembers (next :: rest) (by simp) spelled.2.2
    simpa [printMembers, printText] using
      WrittenMembers.more gap_nil gap_nil first gap_nil gap_nil tail

end

/-! ## The indented layout -/

theorem gap_newline (depth : Nat) : Gap (newline depth) := by
  intro c member
  rcases List.mem_cons.1 member with rfl | space
  · rfl
  · rw [List.eq_of_mem_replicate space]
    rfl

theorem gap_space : Gap [' '] := fun _ member => List.mem_singleton.1 member ▸ rfl

mutual

/-- The indented layout of a value is one of its texts, at any depth. -/
theorem written_printAt (depth : Nat) : (value : Json) → value.Spelled →
    Written value (value.printAt depth)
  | .null, _ => .null
  | .bool value, _ => .bool value
  | .number n, _ => .number n
  | .string (some text), _ => .string text
  | .string none, spelled => absurd spelled (by simp [Spelled])
  | .array [], _ => .emptyArray gap_nil
  | .array (item :: rest), spelled =>
    .array (gap_newline _) (written_printItemsAt depth (item :: rest) (by simp) spelled)
  | .object [], _ => .emptyObject gap_nil
  | .object (member :: rest), spelled =>
    .object (gap_newline _) (written_printMembersAt depth (member :: rest) (by simp) spelled)

theorem written_printItemsAt (depth : Nat) : (items : List Json) → items ≠ [] →
    SpelledItems items → WrittenItems items (printItemsAt depth items)
  | [], nonempty, _ => absurd rfl nonempty
  | [item], _, spelled => by
    have first := written_printAt (depth + 1) item spelled.1
    simpa [printItemsAt] using WrittenItems.last first (gap_newline depth)
  | item :: next :: rest, _, spelled => by
    have first := written_printAt (depth + 1) item spelled.1
    have tail := written_printItemsAt depth (next :: rest) (by simp) spelled.2
    simpa [printItemsAt] using
      WrittenItems.more first gap_nil (gap_newline (depth + 1)) tail

theorem written_printMembersAt (depth : Nat) : (members : List (Text × Json)) → members ≠ [] →
    SpelledMembers members → WrittenMembers members (printMembersAt depth members)
  | [], nonempty, _ => absurd rfl nonempty
  | (none, _) :: _, _, spelled => absurd spelled.1 (by simp)
  | [(some key, value)], _, spelled => by
    have first := written_printAt (depth + 1) value spelled.2.1
    simpa [printMembersAt, printText] using
      WrittenMembers.last gap_nil gap_space first (gap_newline depth)
  | (some key, value) :: next :: rest, _, spelled => by
    have first := written_printAt (depth + 1) value spelled.2.1
    have tail := written_printMembersAt depth (next :: rest) (by simp) spelled.2.2
    simpa [printMembersAt, printText] using
      WrittenMembers.more gap_nil gap_space first gap_nil (gap_newline (depth + 1)) tail

end

end ConstantFlow.Json
