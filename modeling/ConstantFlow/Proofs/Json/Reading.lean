import ConstantFlow.Proofs.Json.Grammar

/-!
# Texts read as values

Whatever blanks a text has, the reader finds a value that the text denotes and leaves
what follows it, and whatever the reader finds is denoted by what it has consumed.  The
steps that it is given are enough if there are as many as the text has characters, so a
whole text reads as a value exactly if it describes the value (`parse_eq_some_iff`).
-/

namespace ConstantFlow.Json

/-! ## Blanks -/

/-- Blanks are skipped. -/
theorem skipBlank_gap {gap rest : List Char} (isGap : Gap gap) :
    skipBlank (gap ++ rest) = skipBlank rest :=
  List.dropWhile_append_of_pos isGap

theorem skipBlank_cons {c : Char} {rest : List Char} (other : isBlank c = false) :
    skipBlank (c :: rest) = c :: rest := by
  simp [skipBlank, other]

/-- No blank continues a number. -/
theorem endsNumber_gap {gap rest : List Char} (isGap : Gap gap) (ends : EndsNumber rest) :
    EndsNumber (gap ++ rest) := by
  cases gap with
  | nil => exact ends
  | cons b gap =>
    intro d first
    cases first
    have blank := isGap b List.mem_cons_self
    simp only [isBlank, Bool.or_eq_true, beq_iff_eq] at blank
    rcases blank with ((rfl | rfl) | rfl) | rfl <;> decide

/-- A comma or a closing mark does not continue a number. -/
theorem endsNumber_of_mem {c : Char} (mark : c ∈ [',', ']', '\x7d']) (rest : List Char) :
    EndsNumber (c :: rest) := by
  intro d first
  cases first
  simp only [List.mem_cons, List.not_mem_nil, or_false] at mark
  rcases mark with rfl | rfl | rfl <;> decide

theorem endsNumber_nil : EndsNumber [] := fun _ first => by cases first

theorem bracket_solid : isBlank ']' = false := by decide

theorem brace_solid : isBlank '\x7d' = false := by decide

theorem quote_solid : isBlank '"' = false := by decide

theorem comma_solid : isBlank ',' = false := by decide

theorem colon_solid : isBlank ':' = false := by decide

/-! ## One step of the reader -/

section Step

variable {gap rest : List Char} {steps : Nat} (isGap : Gap gap)

include isGap

/-- A number is read, after blanks. -/
theorem readValue_number {n : Number} {chars : List Char} (isNumber : NumberText n chars)
    (ends : EndsNumber rest) :
    readValue (steps + 1) (gap ++ (chars ++ rest)) = some (.number n, rest) := by
  have read := readNumber_text isNumber ends
  obtain ⟨c, tail, rfl, lead⟩ := isNumber.eq_cons
  have clash (d : Char) (other : d ≠ '-' ∧ ¬ d.isDigit) (same : c = d) : False := by
    subst same
    exact lead.elim other.1 other.2
  have solid : isBlank c = false := by
    rcases lead with rfl | digit
    · rfl
    · exact isBlank_of_isDigit digit
  rw [List.cons_append] at read ⊢
  rw [readValue, skipBlank_gap isGap, skipBlank_cons solid]
  split
  · next same => exact (clash _ (by decide) (List.cons.inj same).1).elim
  · next same => exact (clash _ (by decide) (List.cons.inj same).1).elim
  · next same => exact (clash _ (by decide) (List.cons.inj same).1).elim
  · next same => exact (clash _ (by decide) (List.cons.inj same).1).elim
  · next same => exact (clash _ (by decide) (List.cons.inj same).1).elim
  · next same => exact (clash _ (by decide) (List.cons.inj same).1).elim
  · rw [read]
    rfl

theorem readValue_string {text : Text} {chars : List Char} (isString : StringText text chars) :
    readValue (steps + 1) (gap ++ (chars ++ rest)) = some (.string text, rest) := by
  obtain ⟨tail, rfl⟩ := isString.eq_cons
  have read : unquote (tail ++ rest) = some (text, rest) := unquote_text isString
  rw [List.cons_append, readValue, skipBlank_gap isGap, skipBlank_cons (by decide)]
  simp only [read, Option.map_some]

theorem readValue_bool (value : Bool) :
    readValue (steps + 1) (gap ++ (printBool value ++ rest)) = some (.bool value, rest) := by
  cases value <;>
    · rw [readValue, skipBlank_gap isGap, printBool, List.cons_append, skipBlank_cons (by decide)]
      rfl

theorem readValue_null :
    readValue (steps + 1) (gap ++ (['n', 'u', 'l', 'l'] ++ rest)) = some (.null, rest) := by
  rw [readValue, skipBlank_gap isGap, List.cons_append, skipBlank_cons (by decide)]
  rfl

end Step

/-! ## Whole values -/

mutual

/-- A text of a value is read, and what follows it is left over. -/
theorem readValue_denotes : (value : Json) → {chars : List Char} → Denotes value chars →
    {steps : Nat} → {gap rest : List Char} → Gap gap → chars.length ≤ steps → EndsNumber rest →
    readValue steps (gap ++ (chars ++ rest)) = some (value, rest)
  | value, chars, denotes, 0, _, _, _, enough, _ => by
    obtain ⟨c, tail, rfl, -⟩ := denotes.eq_cons
    simp at enough
  | .null, _, .null, _ + 1, _, _, isGap, _, _ => readValue_null isGap
  | .bool _, _, .bool value, _ + 1, _, _, isGap, _, _ => readValue_bool isGap value
  | .number _, _, .number isNumber, _ + 1, _, _, isGap, _, ends =>
    readValue_number isGap isNumber ends
  | .string _, _, .string isString, _ + 1, _, _, isGap, _, _ => readValue_string isGap isString
  | .array items, _, denotes, steps + 1, gap, rest, isGap, enough, _ => by
    have read {chars : List Char} := @readItems_denotes items chars
    rw [readValue, skipBlank_gap isGap]
    cases denotes with
    | emptyArray inside =>
      rw [List.cons_append, List.append_assoc, skipBlank_cons (by decide)]
      simp only [skipBlank_gap inside, List.singleton_append, skipBlank_cons bracket_solid]
    | @array _ chars _ before denotes =>
      have short : chars.length ≤ steps := by
        simp only [List.length_cons, List.length_append] at enough
        omega
      have found : readItems steps ([] ++ (chars ++ rest)) = some (items, rest) :=
        read denotes gap_nil short
      obtain ⟨c, tail, rfl, solid, other⟩ := denotes.eq_cons
      rw [List.nil_append, List.cons_append] at found
      rw [List.cons_append, List.append_assoc, skipBlank_cons (by decide)]
      simp only [skipBlank_gap before, List.cons_append, skipBlank_cons solid]
      split
      · next same => exact absurd (List.cons.inj same).1 other
      · rw [found]
        rfl
  | .object members, _, denotes, steps + 1, gap, rest, isGap, enough, _ => by
    have read {chars : List Char} := @readMembers_denotes members chars
    rw [readValue, skipBlank_gap isGap]
    cases denotes with
    | emptyObject inside =>
      rw [List.cons_append, List.append_assoc, skipBlank_cons (by decide)]
      simp only [skipBlank_gap inside, List.singleton_append, skipBlank_cons brace_solid]
    | @object _ chars _ before denotes =>
      have short : chars.length ≤ steps := by
        simp only [List.length_cons, List.length_append] at enough
        omega
      have found : readMembers steps ([] ++ (chars ++ rest)) = some (members, rest) :=
        read denotes gap_nil short
      obtain ⟨tail, rfl⟩ := denotes.eq_cons
      rw [List.nil_append, List.cons_append] at found
      rw [List.cons_append, List.append_assoc, skipBlank_cons (by decide)]
      simp only [skipBlank_gap before, List.cons_append, skipBlank_cons quote_solid]
      show (readMembers steps ('"' :: (tail ++ rest))).map _ = _
      rw [found]
      rfl

/-- The items of an array are read from each of their texts. -/
theorem readItems_denotes : (items : List Json) → {chars : List Char} → DenotesItems items chars →
    {steps : Nat} → {gap rest : List Char} → Gap gap → chars.length ≤ steps →
    readItems steps (gap ++ (chars ++ rest)) = some (items, rest)
  | _, chars, denotes, 0, _, _, _, enough => by
    obtain ⟨c, tail, rfl, -⟩ := denotes.eq_cons
    simp at enough
  | item :: items, _, denotes, steps + 1, gap, rest, isGap, enough => by
    have readFirst {chars : List Char} := @readValue_denotes item chars
    have readRest {chars : List Char} := @readItems_denotes items chars
    cases denotes with
    | @last _ chars after first isAfter =>
      simp only [List.length_append, List.length_cons] at enough
      have found : readValue steps (gap ++ (chars ++ (after ++ ']' :: rest))) =
          some (item, after ++ ']' :: rest) :=
        readFirst first isGap (by omega)
          (endsNumber_gap isAfter (endsNumber_of_mem (by decide) rest))
      simp only [List.append_assoc, List.singleton_append, readItems, found, Option.bind_eq_bind,
        Option.bind_some, skipBlank_gap isAfter, skipBlank_cons bracket_solid]
      rfl
    | @more _ _ chars after before tail first isAfter isBefore others =>
      simp only [List.length_append, List.length_cons] at enough
      have found : readValue steps (gap ++ (chars ++ (after ++ ',' :: (before ++ (tail ++ rest))))) =
          some (item, after ++ ',' :: (before ++ (tail ++ rest))) :=
        readFirst first isGap (by omega) (endsNumber_gap isAfter (endsNumber_of_mem (by decide) _))
      have later : readItems steps (before ++ (tail ++ rest)) = some (items, rest) :=
        readRest others isBefore (by omega)
      simp only [List.append_assoc, List.cons_append, readItems, found, Option.bind_eq_bind,
        Option.bind_some, skipBlank_gap isAfter, skipBlank_cons comma_solid, later]
      rfl

/-- The members of an object are read from each of their texts. -/
theorem readMembers_denotes : (members : List (Text × Json)) → {chars : List Char} →
    DenotesMembers members chars → {steps : Nat} → {gap rest : List Char} → Gap gap →
    chars.length ≤ steps → readMembers steps (gap ++ (chars ++ rest)) = some (members, rest)
  | _, chars, denotes, 0, _, _, _, enough => by
    obtain ⟨tail, rfl⟩ := denotes.eq_cons
    simp at enough
  | (_, value) :: members, _, denotes, steps + 1, gap, rest, isGap, enough => by
    have readFirst {chars : List Char} := @readValue_denotes value chars
    have readRest {chars : List Char} := @readMembers_denotes members chars
    cases denotes with
    | @last _ _ _ chars colon colon' after isKey left right first isAfter =>
      simp only [List.length_append, List.length_cons] at enough
      have found : readValue steps (colon' ++ (chars ++ (after ++ '\x7d' :: rest))) =
          some (value, after ++ '\x7d' :: rest) :=
        readFirst first right (by omega)
          (endsNumber_gap isAfter (endsNumber_of_mem (by decide) rest))
      obtain ⟨tail, rfl⟩ := isKey.eq_cons
      have read {rest : List Char} : unquote (tail ++ rest) = some (_, rest) := unquote_text isKey
      simp only [List.append_assoc, List.cons_append, List.nil_append, readMembers,
        skipBlank_gap isGap, skipBlank_cons quote_solid, read, Option.bind_eq_bind,
        Option.bind_some, skipBlank_gap left, skipBlank_cons colon_solid, found,
        skipBlank_gap isAfter, skipBlank_cons brace_solid]
      rfl
    | @more _ _ _ _ chars colon colon' after before last isKey left right first isAfter isBefore
        others =>
      simp only [List.length_append, List.length_cons] at enough
      have found : readValue steps
          (colon' ++ (chars ++ (after ++ ',' :: (before ++ (last ++ rest))))) =
          some (value, after ++ ',' :: (before ++ (last ++ rest))) :=
        readFirst first right (by omega) (endsNumber_gap isAfter (endsNumber_of_mem (by decide) _))
      have later : readMembers steps (before ++ (last ++ rest)) = some (members, rest) :=
        readRest others isBefore (by omega)
      obtain ⟨tail, rfl⟩ := isKey.eq_cons
      have read {rest : List Char} : unquote (tail ++ rest) = some (_, rest) := unquote_text isKey
      simp only [List.append_assoc, List.cons_append, readMembers,
        skipBlank_gap isGap, skipBlank_cons quote_solid, read, Option.bind_eq_bind,
        Option.bind_some, skipBlank_gap left, skipBlank_cons colon_solid, found,
        skipBlank_gap isAfter, skipBlank_cons comma_solid, later]
      rfl

end

/-! ## What is read is a text -/

theorem gap_append {gap gap' : List Char} (isGap : Gap gap) (isGap' : Gap gap') :
    Gap (gap ++ gap') := fun c member => (List.mem_append.1 member).elim (isGap c) (isGap' c)

/-- What is skipped is a gap. -/
theorem exists_gap (text : List Char) : ∃ gap, Gap gap ∧ text = gap ++ skipBlank text :=
  ⟨text.takeWhile isBlank, fun _ member => List.mem_takeWhile_imp member,
    List.takeWhile_append_dropWhile.symm⟩

/-- What is left when blanks have been skipped stands behind a gap. -/
theorem gap_of_skipBlank {text rest : List Char} (skipped : skipBlank text = rest) :
    ∃ gap, Gap gap ∧ text = gap ++ rest :=
  skipped ▸ exists_gap text

mutual

/-- What is read as a value is one of its texts, with blanks before it. -/
theorem denotes_of_readValue : (steps : Nat) → {text rest : List Char} → {value : Json} →
    readValue steps text = some (value, rest) →
    ∃ gap chars, Gap gap ∧ Denotes value chars ∧ text = gap ++ (chars ++ rest)
  | 0, _, _, _, read => by cases read
  | steps + 1, text, rest, value, read => by
    obtain ⟨gap, isGap, same⟩ := exists_gap text
    rw [readValue] at read
    generalize skipBlank text = opened at same read
    subst same
    split at read
    · next inner =>
      split at read
      · next closed =>
        obtain ⟨inside, isInside, rfl⟩ := gap_of_skipBlank closed
        cases read
        exact ⟨gap, _, isGap, .emptyObject isInside, by simp⟩
      · obtain ⟨inside, isInside, same⟩ := exists_gap inner
        obtain ⟨⟨members, rest'⟩, found, made⟩ := Option.map_eq_some_iff.1 read
        cases made
        obtain ⟨before, chars, isBefore, denotes, split⟩ := denotes_of_readMembers steps found
        rw [split] at same
        exact ⟨gap, _, isGap, .object (gap_append isInside isBefore) denotes, by simp [same]⟩
    · next inner =>
      split at read
      · next closed =>
        obtain ⟨inside, isInside, rfl⟩ := gap_of_skipBlank closed
        cases read
        exact ⟨gap, _, isGap, .emptyArray isInside, by simp⟩
      · obtain ⟨inside, isInside, same⟩ := exists_gap inner
        obtain ⟨⟨items, rest'⟩, found, made⟩ := Option.map_eq_some_iff.1 read
        cases made
        obtain ⟨before, chars, isBefore, denotes, split⟩ := denotes_of_readItems steps found
        rw [split] at same
        exact ⟨gap, _, isGap, .array (gap_append isInside isBefore) denotes, by simp [same]⟩
    · obtain ⟨⟨text, rest'⟩, found, made⟩ := Option.map_eq_some_iff.1 read
      cases made
      obtain ⟨tail, isString, rfl⟩ := text_of_unquote found
      exact ⟨gap, _, isGap, .string isString, rfl⟩
    · cases read
      exact ⟨gap, _, isGap, .null, rfl⟩
    · cases read
      exact ⟨gap, _, isGap, .bool true, rfl⟩
    · cases read
      exact ⟨gap, _, isGap, .bool false, rfl⟩
    · obtain ⟨⟨n, rest'⟩, found, made⟩ := Option.map_eq_some_iff.1 read
      cases made
      obtain ⟨chars, isNumber, rfl⟩ := text_of_readNumber found
      exact ⟨gap, _, isGap, .number isNumber, rfl⟩

/-- What is read as the items of an array is one of their texts. -/
theorem denotes_of_readItems : (steps : Nat) → {text rest : List Char} → {items : List Json} →
    readItems steps text = some (items, rest) →
    ∃ gap chars, Gap gap ∧ DenotesItems items chars ∧ text = gap ++ (chars ++ rest)
  | 0, _, _, _, read => by cases read
  | steps + 1, text, rest, items, read => by
    rw [readItems] at read
    obtain ⟨⟨item, left⟩, found, ended⟩ := Option.bind_eq_some_iff.1 read
    obtain ⟨gap, chars, isGap, first, rfl⟩ := denotes_of_readValue steps found
    dsimp only at ended
    split at ended
    · next comma =>
      obtain ⟨after, isAfter, rfl⟩ := gap_of_skipBlank comma
      obtain ⟨⟨others, rest'⟩, later, made⟩ := Option.bind_eq_some_iff.1 ended
      cases made
      obtain ⟨before, tail, isBefore, denotes, rfl⟩ := denotes_of_readItems steps later
      exact ⟨gap, _, isGap, .more first isAfter isBefore denotes, by simp⟩
    · next bracket =>
      obtain ⟨after, isAfter, rfl⟩ := gap_of_skipBlank bracket
      cases ended
      exact ⟨gap, _, isGap, .last first isAfter, by simp⟩
    · cases ended

/-- What is read as the members of an object is one of their texts. -/
theorem denotes_of_readMembers : (steps : Nat) → {text rest : List Char} →
    {members : List (Text × Json)} → readMembers steps text = some (members, rest) →
    ∃ gap chars, Gap gap ∧ DenotesMembers members chars ∧ text = gap ++ (chars ++ rest)
  | 0, _, _, _, read => by cases read
  | steps + 1, text, rest, members, read => by
    rw [readMembers] at read
    split at read
    · next quoted =>
      obtain ⟨gap, isGap, rfl⟩ := gap_of_skipBlank quoted
      obtain ⟨⟨key, named⟩, foundKey, afterKey⟩ := Option.bind_eq_some_iff.1 read
      obtain ⟨name, isKey, rfl⟩ := text_of_unquote foundKey
      dsimp only at afterKey
      split at afterKey
      · next colon =>
        obtain ⟨left, isLeft, rfl⟩ := gap_of_skipBlank colon
        obtain ⟨⟨value, ended⟩, found, afterValue⟩ := Option.bind_eq_some_iff.1 afterKey
        obtain ⟨right, chars, isRight, first, rfl⟩ := denotes_of_readValue steps found
        dsimp only at afterValue
        split at afterValue
        · next comma =>
          obtain ⟨after, isAfter, rfl⟩ := gap_of_skipBlank comma
          obtain ⟨⟨others, rest'⟩, later, made⟩ := Option.bind_eq_some_iff.1 afterValue
          cases made
          obtain ⟨before, tail, isBefore, denotes, rfl⟩ := denotes_of_readMembers steps later
          exact ⟨gap, _, isGap, .more isKey isLeft isRight first isAfter isBefore denotes, by simp⟩
        · next brace =>
          obtain ⟨after, isAfter, rfl⟩ := gap_of_skipBlank brace
          cases afterValue
          exact ⟨gap, _, isGap, .last isKey isLeft isRight first isAfter, by simp⟩
        · cases afterValue
      · cases afterKey
    · cases read

end

/-! ## Whole texts -/

/-- A text is read as the value that it describes, and as no other. -/
theorem parse_eq_some_iff {text : String} {value : Json} :
    parse text = some value ↔ Describes text value := by
  constructor
  · intro read
    simp only [parse] at read
    split at read
    · next found =>
      split at read
      · next ended =>
        cases read
        obtain ⟨before, chars, isBefore, denotes, same⟩ := denotes_of_readValue _ found
        obtain ⟨after, isAfter, rfl⟩ := gap_of_skipBlank (List.isEmpty_iff.1 ended)
        rw [List.append_nil] at same
        exact ⟨before, chars, after, same, isBefore, denotes, isAfter⟩
      · cases read
    · cases read
  · rintro ⟨before, chars, after, same, isBefore, denotes, isAfter⟩
    have ends : EndsNumber (after ++ []) := endsNumber_gap isAfter endsNumber_nil
    have left : skipBlank (after ++ []) = [] := skipBlank_gap isAfter
    rw [List.append_nil] at ends left
    have enough : chars.length ≤ (before ++ (chars ++ after)).length + 1 := by
      simp only [List.length_append]
      omega
    have read := readValue_denotes value denotes isBefore enough ends
    simp only [parse, same, read, left]
    rfl

/-- A text that is written as it would be printed describes its value. -/
theorem Written.describes {value : Json} {text : String} (written : Written value text.toList) :
    Describes text value :=
  ⟨[], text.toList, [], by simp, gap_nil, written.denotes, gap_nil⟩

/-- The compact text of a value reads as the value. -/
theorem parse_compact {value : Json} (spelled : value.Spelled) :
    parse value.compact = some value :=
  parse_eq_some_iff.2 (Written.describes (by
    rw [compact, String.toList_ofList]
    exact written_print value spelled))

/-- The indented text of a value reads as the value. -/
theorem parse_pretty {value : Json} (spelled : value.Spelled) :
    parse value.pretty = some value :=
  parse_eq_some_iff.2 (Written.describes (by
    rw [pretty, String.toList_ofList]
    exact written_printAt 0 value spelled))

end ConstantFlow.Json
