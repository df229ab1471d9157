import ConstantFlow.Proofs.Json.Written

/-!
# Depth in a text

How many arrays and objects are open at once can be read off a text, character
by character: a bracket outside of strings opens or closes one (`Scan.step`).  In
a text of a value the greatest number that is open at once is the depth of the
value, whatever blanks the text has (`mostOpened_compact` for the compact layout).
-/

namespace ConstantFlow.Json

/-! ## Scanning a text -/

/-- What has been seen of a text. -/
structure Scan where
  /-- Whether the next character is inside a string. -/
  quoted : Bool
  /-- Whether it is escaped. -/
  escaped : Bool
  /-- How many arrays and objects are open. -/
  opened : Nat
  /-- How many have been open at most. -/
  most : Nat

namespace Scan

/-- Outside of strings. -/
def outside (opened most : Nat) : Scan := ⟨false, false, opened, most⟩

/-- Inside a string. -/
def inside (opened most : Nat) : Scan := ⟨true, false, opened, most⟩

/-- One more character. -/
def step (s : Scan) (c : Char) : Scan :=
  if s.escaped then { s with escaped := false }
  else if s.quoted then
    if c = '"' then { s with quoted := false }
    else if c = '\\' then { s with escaped := true }
    else s
  else if c = '"' then { s with quoted := true }
  else if c = '[' ∨ c = '\x7b' then
    { s with opened := s.opened + 1, most := max s.most (s.opened + 1) }
  else if c = ']' ∨ c = '\x7d' then { s with opened := s.opened - 1 }
  else s

end Scan

/-- The greatest number of arrays and objects that are open at once in a text. -/
def mostOpened (text : String) : Nat := (text.toList.foldl Scan.step (.outside 0 0)).most

namespace Scan

variable {k m : Nat}

/-! ## Scalars -/

/-- Outside of strings a character other than a quote or a bracket changes
nothing. -/
def Plain (c : Char) : Prop := c ∉ ['"', '[', ']', '\x7b', '\x7d']

instance (c : Char) : Decidable (Plain c) := inferInstanceAs (Decidable (c ∉ _))

/-- A plain character opens and closes nothing. -/
theorem step_plain {c : Char} (plain : Plain c) : (outside k m).step c = outside k m := by
  simp only [Plain, List.mem_cons, List.not_mem_nil, or_false, not_or] at plain
  obtain ⟨quote, open_, close, open', close'⟩ := plain
  simp [step, outside, quote, open_, close, open', close']

theorem foldl_plain {chars : List Char} (plain : ∀ c ∈ chars, Plain c) :
    chars.foldl step (outside k m) = outside k m := by
  induction chars with
  | nil => rfl
  | cons c chars ih =>
    rw [List.foldl_cons, step_plain (plain c List.mem_cons_self)]
    exact ih fun d member => plain d (List.mem_cons_of_mem _ member)

theorem foldl_gap {gap : List Char} (isGap : Gap gap) :
    gap.foldl step (outside k m) = outside k m := by
  refine foldl_plain fun c member => ?_
  have blank := isGap c member
  simp only [isBlank, Bool.or_eq_true, beq_iff_eq] at blank
  rcases blank with ((rfl | rfl) | rfl) | rfl <;> decide

theorem plain_of_isDigit {c : Char} (digit : c.isDigit) : Plain c := by
  intro mark
  simp only [List.mem_cons, List.not_mem_nil, or_false] at mark
  rcases mark with rfl | rfl | rfl | rfl | rfl <;> exact absurd digit (by decide)

theorem foldl_printNumber (n : Number) :
    (printNumber n).foldl step (outside k m) = outside k m := by
  refine foldl_plain fun c member => ?_
  simp only [printNumber, List.mem_append] at member
  rcases member with ((sign | whole) | fraction) | exponent
  · split at sign
    · rw [List.mem_singleton.1 sign]
      decide
    · exact absurd sign List.not_mem_nil
  · exact plain_of_isDigit (isDigit_of_mem whole)
  · cases fractionDigits : n.fraction with
    | nil =>
      rw [fractionDigits] at fraction
      exact absurd fraction List.not_mem_nil
    | cons d digits =>
      rw [fractionDigits, printFraction, List.mem_cons] at fraction
      · rcases fraction with rfl | digit
        · decide
        · obtain ⟨d, -, rfl⟩ := List.mem_map.1 digit
          exact plain_of_isDigit (by simp [Nat.isDigit_digitChar])
      · exact List.cons_ne_nil _ _
  · cases power : n.exponent with
    | none =>
      rw [power] at exponent
      exact absurd exponent List.not_mem_nil
    | some e =>
      rw [power, printExponent, List.mem_cons, List.mem_cons] at exponent
      rcases exponent with rfl | sign | digit
      · decide
      · split at sign <;> rw [sign] <;> decide
      · exact plain_of_isDigit (isDigit_of_mem digit)

/-- What stands for a character in a string opens and closes nothing. -/
theorem foldl_escape (c : Char) : (escape c).foldl step (inside k m) = inside k m := by
  have hex (n : Nat) : Nat.digitChar n ≠ '"' ∧ Nat.digitChar n ≠ '\\' := by simp
  by_cases marked : c = '"' ∨ c = '\\'
  · rcases marked with rfl | rfl <;> rfl
  · obtain ⟨notQuote, notBackslash⟩ := not_or.1 marked
    by_cases control : c.toNat < 0x20
    · by_cases short : c.toNat ∈ [0x08, 0x09, 0x0A, 0x0C, 0x0D]
      · have named := eq_of_short short
        simp only [List.mem_cons, List.not_mem_nil, or_false] at named
        rcases named with rfl | rfl | rfl | rfl | rfl <;> rfl
      · rw [escape_control control short]
        simp [step, inside, hex]
    · rw [escape_plain notQuote notBackslash control]
      simp [step, inside, notQuote, notBackslash]

/-- A string opens and closes nothing, whatever brackets it has: they are between its
quotes. -/
theorem foldl_quote (text : String) : (quote text).foldl step (outside k m) = outside k m := by
  have body (chars : List Char) : (chars.flatMap escape).foldl step (inside k m) = inside k m := by
    induction chars with
    | nil => rfl
    | cons c chars ih => rw [List.flatMap_cons, List.foldl_append, foldl_escape, ih]
  have opens : (outside k m).step '"' = inside k m := rfl
  rw [quote, List.foldl_cons, List.foldl_append, opens, body]
  rfl

/-! ## Values -/

theorem step_open {c : Char} (mark : c = '[' ∨ c = '\x7b') :
    (outside k m).step c = outside (k + 1) (max m (k + 1)) := by
  rcases mark with rfl | rfl <;> rfl

theorem step_close {c : Char} (mark : c = ']' ∨ c = '\x7d') :
    (outside (k + 1) m).step c = outside k m := by
  rcases mark with rfl | rfl <;> rfl

end Scan

mutual

/-- A text of a value leaves as much open as there was, and in between the depth
of the value is open. -/
theorem foldl_written : (value : Json) → {chars : List Char} → Written value chars →
    {k m : Nat} → k ≤ m →
    chars.foldl Scan.step (.outside k m) = .outside k (max m (k + value.depth))
  | .null, _, .null, k, m, le => by
    rw [Scan.foldl_plain (by simp [Scan.Plain]), depth, Nat.add_zero, Nat.max_eq_left le]
  | .bool _, _, .bool value, k, m, le => by
    rw [Scan.foldl_plain (by cases value <;> simp [printBool, Scan.Plain]), depth, Nat.add_zero,
      Nat.max_eq_left le]
  | .number _, _, .number n, k, m, le => by
    rw [Scan.foldl_printNumber, depth, Nat.add_zero, Nat.max_eq_left le]
  | .string _, _, .string text, k, m, le => by
    rw [Scan.foldl_quote, depth, Nat.add_zero, Nat.max_eq_left le]
  | .array items, _, written, k, m, le => by
    have scan {chars : List Char} := @foldl_writtenItems items chars
    cases written with
    | emptyArray inside =>
      rw [List.foldl_cons, List.foldl_append, Scan.step_open (.inl rfl), Scan.foldl_gap inside,
        List.foldl_cons, Scan.step_close (.inl rfl), depth, depthItems]
      rfl
    | array before written =>
      rw [List.foldl_cons, List.foldl_append, Scan.step_open (.inl rfl), Scan.foldl_gap before,
        scan written (Nat.le_max_right _ _), depth]
      congr 1
      omega
  | .object members, _, written, k, m, le => by
    have scan {chars : List Char} := @foldl_writtenMembers members chars
    cases written with
    | emptyObject inside =>
      rw [List.foldl_cons, List.foldl_append, Scan.step_open (.inr rfl), Scan.foldl_gap inside,
        List.foldl_cons, Scan.step_close (.inr rfl), depth, depthMembers]
      rfl
    | object before written =>
      rw [List.foldl_cons, List.foldl_append, Scan.step_open (.inr rfl), Scan.foldl_gap before,
        scan written (Nat.le_max_right _ _), depth]
      congr 1
      omega

/-- The items of an array are scanned one level down, and its bracket closes it. -/
theorem foldl_writtenItems : (items : List Json) → {chars : List Char} →
    WrittenItems items chars → {k m : Nat} → k + 1 ≤ m →
    chars.foldl Scan.step (.outside (k + 1) m) = .outside k (max m (k + 1 + depthItems items))
  | item :: items, _, written, k, m, le => by
    have scanFirst {chars : List Char} := @foldl_written item chars
    have scanRest {chars : List Char} := @foldl_writtenItems items chars
    cases written with
    | last first after =>
      rw [List.foldl_append, scanFirst first le, List.foldl_append, Scan.foldl_gap after,
        List.foldl_cons, Scan.step_close (.inl rfl), depthItems, depthItems, Nat.max_zero]
      rfl
    | more first after before others =>
      rw [List.foldl_append, scanFirst first le, List.foldl_append, Scan.foldl_gap after,
        List.foldl_cons, Scan.step_plain (by decide), List.foldl_append, Scan.foldl_gap before,
        scanRest others (Nat.le_trans le (Nat.le_max_left _ _)), depthItems]
      congr 1
      omega

/-- The members of an object are scanned one level down, and its brace closes it. -/
theorem foldl_writtenMembers : (members : List (Text × Json)) → {chars : List Char} →
    WrittenMembers members chars → {k m : Nat} → k + 1 ≤ m →
    chars.foldl Scan.step (.outside (k + 1) m) = .outside k (max m (k + 1 + depthMembers members))
  | (_, value) :: members, _, written, k, m, le => by
    have scanFirst {chars : List Char} := @foldl_written value chars
    have scanRest {chars : List Char} := @foldl_writtenMembers members chars
    cases written with
    | last left right first after =>
      rw [List.foldl_append, Scan.foldl_quote, List.foldl_append, Scan.foldl_gap left,
        List.foldl_cons, Scan.step_plain (by decide), List.foldl_append, Scan.foldl_gap right,
        List.foldl_append, scanFirst first le, List.foldl_append, Scan.foldl_gap after,
        List.foldl_cons, Scan.step_close (.inr rfl), depthMembers, depthMembers, Nat.max_zero]
      rfl
    | more left right first after before others =>
      rw [List.foldl_append, Scan.foldl_quote, List.foldl_append, Scan.foldl_gap left,
        List.foldl_cons, Scan.step_plain (by decide), List.foldl_append, Scan.foldl_gap right,
        List.foldl_append, scanFirst first le, List.foldl_append, Scan.foldl_gap after,
        List.foldl_cons, Scan.step_plain (by decide), List.foldl_append, Scan.foldl_gap before,
        scanRest others (Nat.le_trans le (Nat.le_max_left _ _)), depthMembers]
      congr 1
      omega

end

/-- In the compact text of a value as much is open at once as the value is deep. -/
theorem mostOpened_compact {value : Json} (spelled : value.Spelled) :
    mostOpened value.compact = value.depth := by
  have scanned := foldl_written value (written_print value spelled) (Nat.le_refl 0)
  rw [mostOpened, compact, String.toList_ofList, scanned, Nat.zero_max, Nat.zero_add]
  rfl

end ConstantFlow.Json
