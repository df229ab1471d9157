import ConstantFlow.Json.Quoted
import Mathlib.Data.Char

/-!
# The texts of a string

`StringText` says which texts denote a string.  Between the quotes stands one piece
after the other: a character that needs no escape, an escape of one letter, or an
escape by the four digits of a UTF-16 unit (`PieceText`).  The pieces join to a text
if the units among them are those of characters, one unit or a pair for each
(`Joined`).  If they are not, the string has no text.

The reader takes a string off the front of a text exactly if one of its texts is there
(`unquote_text`, `text_of_unquote`).  The printed form of a string is one of its texts,
whatever characters it has (`stringText_quote`).
-/

namespace ConstantFlow.Json

/-! ## Texts of the parts -/

/-- A hexadecimal digit of a value, in either case. -/
def HexDigit (value : Nat) (c : Char) : Prop :=
  value < 16 ∧ (c = value.digitChar ∨ c = value.digitChar.toUpper)

/-- The letters after a backslash with the characters that they stand for. -/
def shortEscapes : List (Char × Char) :=
  [('"', '"'), ('\\', '\\'), ('/', '/'), ('b', '\x08'), ('f', '\x0c'), ('n', '\n'), ('r', '\r'),
    ('t', '\t')]

/-- The texts of a piece of a string. -/
inductive PieceText : Piece → List Char → Prop
  | plain {c : Char} (notQuote : c ≠ '"') (notBackslash : c ≠ '\\') (printable : 0x20 ≤ c.toNat) :
      PieceText (.char c) [c]
  | short {letter c : Char} (escapes : (letter, c) ∈ shortEscapes) :
      PieceText (.char c) ['\\', letter]
  | unit {i j k l : Nat} {a b c d : Char} (first : HexDigit i a) (second : HexDigit j b)
      (third : HexDigit k c) (fourth : HexDigit l d) :
      PieceText (.unit (((i * 16 + j) * 16 + k) * 16 + l)) ['\\', 'u', a, b, c, d]

/-- The texts of the pieces of a string, with its closing quote. -/
inductive PiecesText : List Piece → List Char → Prop
  | close : PiecesText [] ['"']
  | cons {piece : Piece} {pieces : List Piece} {chars tail : List Char}
      (first : PieceText piece chars) (rest : PiecesText pieces tail) :
      PiecesText (piece :: pieces) (chars ++ tail)

/-- The UTF-16 units of a character. -/
def units (c : Char) : List Nat :=
  if c.toNat < 0x10000 then [c.toNat]
  else [0xD800 + (c.toNat - 0x10000) / 0x400, 0xDC00 + (c.toNat - 0x10000) % 0x400]

/-- The pieces of a string join to some characters. -/
inductive Joined : List Piece → List Char → Prop
  | nil : Joined [] []
  | char (c : Char) {pieces : List Piece} {chars : List Char} (rest : Joined pieces chars) :
      Joined (.char c :: pieces) (c :: chars)
  | units (c : Char) {pieces : List Piece} {chars : List Char} (rest : Joined pieces chars) :
      Joined ((units c).map .unit ++ pieces) (c :: chars)

/-- The texts of a string.  It may have none itself. -/
inductive StringText : Option String → List Char → Prop
  | mk {text : Option String} {pieces : List Piece} {tail : List Char}
      (isPieces : PiecesText pieces tail)
      (joins : ∀ s, text = some s ↔ Joined pieces s.toList) : StringText text ('"' :: tail)

/-! ## Hexadecimal digits -/

theorem toNat_le {c d : Char} (le : c ≤ d) : c.toNat ≤ d.toNat := le

/-- The digits that are read are those of the value. -/
theorem hexValue_eq_some_iff {c : Char} {value : Nat} :
    hexValue c = some value ↔ HexDigit value c := by
  constructor
  · intro read
    have ascii : c.toNat < 128 := by
      unfold hexValue at read
      split at read
      · next range => exact Nat.lt_of_le_of_lt (toNat_le range.2) (by decide)
      · split at read
        · next range => exact Nat.lt_of_le_of_lt (toNat_le range.2) (by decide)
        · split at read
          · next range => exact Nat.lt_of_le_of_lt (toNat_le range.2) (by decide)
          · cases read
    have all : ∀ n < 128, ∀ value ∈ hexValue (Char.ofNat n), value < 16 ∧
        (Char.ofNat n = value.digitChar ∨ Char.ofNat n = value.digitChar.toUpper) := by
      decide
    have found := all c.toNat ascii value
    rw [Char.ofNat_toNat] at found
    exact found read
  · rintro ⟨small, same⟩
    have all : ∀ value < 16, hexValue value.digitChar = some value ∧
        hexValue value.digitChar.toUpper = some value := by
      decide
    rcases same with rfl | rfl
    · exact (all value small).1
    · exact (all value small).2

/-- Four digits name the unit that they are the digits of. -/
theorem hexUnit_eq_some_iff {a b c d : Char} {value : Nat} :
    hexUnit a b c d = some value ↔ ∃ i j k l, HexDigit i a ∧ HexDigit j b ∧ HexDigit k c ∧
      HexDigit l d ∧ value = ((i * 16 + j) * 16 + k) * 16 + l := by
  simp only [hexUnit, Option.bind_eq_bind, Option.bind_eq_some_iff, hexValue_eq_some_iff,
    Option.pure_def, Option.some.injEq]
  constructor
  · rintro ⟨i, first, j, second, k, third, l, fourth, rfl⟩
    exact ⟨i, j, k, l, first, second, third, fourth, rfl⟩
  · rintro ⟨i, j, k, l, first, second, third, fourth, rfl⟩
    exact ⟨i, first, j, second, k, third, l, fourth, rfl⟩

/-- An escape names a unit of 16 bits. -/
theorem PieceText.bounded {value : Nat} {chars : List Char} (text : PieceText (.unit value) chars) :
    value < 0x10000 := by
  cases text with
  | unit first second third fourth =>
    have := first.1
    have := second.1
    have := third.1
    have := fourth.1
    omega

theorem PiecesText.bounded {pieces : List Piece} {tail : List Char}
    (text : PiecesText pieces tail) {value : Nat} (member : .unit value ∈ pieces) :
    value < 0x10000 := by
  induction text with
  | close => cases member
  | cons first rest ih =>
    rcases List.mem_cons.1 member with rfl | member
    · exact first.bounded
    · exact ih member

/-! ## Reading pieces -/

/-- The escapes of one letter are those of the table. -/
theorem shortEscape_eq_some_iff {letter c : Char} :
    shortEscape letter = some c ↔ (letter, c) ∈ shortEscapes := by
  constructor
  · intro read
    unfold shortEscape at read
    split at read <;> first | cases read; decide | cases read
  · intro member
    simp only [shortEscapes, List.mem_cons, Prod.mk.injEq, List.not_mem_nil, or_false] at member
    rcases member with ⟨rfl, rfl⟩ | ⟨rfl, rfl⟩ | ⟨rfl, rfl⟩ | ⟨rfl, rfl⟩ | ⟨rfl, rfl⟩ | ⟨rfl, rfl⟩ |
      ⟨rfl, rfl⟩ | ⟨rfl, rfl⟩ <;> rfl

theorem readPieces_plain (acc : List Piece) {c : Char} (notQuote : c ≠ '"')
    (notBackslash : c ≠ '\\') (printable : 0x20 ≤ c.toNat) (rest : List Char) :
    readPieces acc (c :: rest) = readPieces (.char c :: acc) rest := by
  rw [readPieces.eq_def acc]
  split
  · next same => cases same
  · next same => exact absurd (List.cons.inj same).1 notQuote
  · next same => exact absurd (List.cons.inj same).1 notBackslash
  · next same => exact absurd (List.cons.inj same).1 notBackslash
  · next same =>
    obtain ⟨rfl, rfl⟩ := List.cons.inj same
    rw [if_neg (Nat.not_lt.2 printable)]

theorem readPieces_short (acc : List Piece) {letter c : Char}
    (escapes : (letter, c) ∈ shortEscapes) (rest : List Char) :
    readPieces acc ('\\' :: letter :: rest) = readPieces (.char c :: acc) rest := by
  have notUnit : letter ≠ 'u' := by
    rintro rfl
    exact absurd (shortEscape_eq_some_iff.2 escapes) (by simp [shortEscape])
  rw [readPieces.eq_def acc]
  split
  · next same => cases same
  · next same => exact absurd (List.cons.inj same).1 (by decide)
  · next same =>
    simp only [List.cons.injEq, true_and] at same
    exact absurd same.1 notUnit
  · next same =>
    simp only [List.cons.injEq, true_and] at same
    obtain ⟨rfl, rfl⟩ := same
    rw [shortEscape_eq_some_iff.2 escapes]
  · next noUnit noShort same =>
    obtain ⟨rfl, rfl⟩ := List.cons.inj same
    exact (noShort _ _ rfl rfl).elim

/-- A text of a piece is read as the piece. -/
theorem PieceText.readPieces_eq {piece : Piece} {chars : List Char} (text : PieceText piece chars)
    (acc : List Piece) (rest : List Char) :
    readPieces acc (chars ++ rest) = readPieces (piece :: acc) rest := by
  cases text with
  | plain notQuote notBackslash printable =>
    exact readPieces_plain acc notQuote notBackslash printable rest
  | short escapes => exact readPieces_short acc escapes rest
  | unit first second third fourth =>
    have value := hexUnit_eq_some_iff.2 ⟨_, _, _, _, first, second, third, fourth, rfl⟩
    simp only [List.cons_append, List.nil_append, readPieces, value]

/-- A text of some pieces is read as these, up to the closing quote. -/
theorem PiecesText.readPieces_eq {pieces : List Piece} {tail : List Char}
    (text : PiecesText pieces tail) (acc : List Piece) (rest : List Char) :
    readPieces acc (tail ++ rest) = some (acc.reverse ++ pieces, rest) := by
  induction text generalizing acc with
  | close =>
    rw [List.append_nil]
    rfl
  | cons first later ih =>
    rw [List.append_assoc, first.readPieces_eq, ih, List.reverse_cons, List.append_assoc]
    rfl

/-- What is read as pieces is one of their texts. -/
theorem text_of_readPieces {acc pieces : List Piece} {text rest : List Char}
    (read : readPieces acc text = some (pieces, rest)) :
    ∃ mine tail, PiecesText mine tail ∧ pieces = acc.reverse ++ mine ∧ text = tail ++ rest := by
  have more {piece : Piece} {chars text : List Char} {acc : List Piece}
      (first : PieceText piece chars) (later : ∃ mine tail, PiecesText mine tail ∧
        pieces = (piece :: acc).reverse ++ mine ∧ text = tail ++ rest) :
      ∃ mine tail, PiecesText mine tail ∧ pieces = acc.reverse ++ mine ∧
        chars ++ text = tail ++ rest := by
    obtain ⟨mine, tail, isPieces, rfl, rfl⟩ := later
    refine ⟨piece :: mine, chars ++ tail, .cons first isPieces, ?_, by rw [List.append_assoc]⟩
    rw [List.reverse_cons, List.append_assoc]
    rfl
  fun_induction readPieces acc text with
  | case1 => cases read
  | case2 acc rest' =>
    cases read
    exact ⟨[], ['"'], .close, (List.append_nil _).symm, rfl⟩
  | case3 => cases read
  | case4 acc a b c d rest' value named ih =>
    obtain ⟨i, j, k, l, first, second, third, fourth, rfl⟩ := hexUnit_eq_some_iff.1 named
    exact more (.unit first second third fourth) (ih read)
  | case5 => cases read
  | case6 acc letter rest' noUnit c named ih =>
    exact more (.short (shortEscape_eq_some_iff.1 named)) (ih read)
  | case7 => cases read
  | case8 acc c rest' notQuote noUnit noShort printable ih =>
    have notBackslash : c ≠ '\\' := by
      rintro rfl
      cases rest' with
      | nil => cases read
      | cons letter rest' => exact noShort letter rest' rfl rfl
    exact more (.plain notQuote notBackslash (Nat.not_lt.1 printable)) (ih read)

/-! ## Joining pieces -/

theorem toNat_ofNat_of_valid {value : Nat} (scalar : value.isValidChar) :
    (Char.ofNat value).toNat = value := by
  rw [Char.ofNat, dif_pos scalar]
  rfl

/-- A character of the basic plane has one unit, its code. -/
theorem units_single {c : Char} (small : c.toNat < 0x10000) : units c = [c.toNat] := if_pos small

/-- A unit that is no surrogate is that of a character. -/
theorem units_ofNat {value : Nat} (small : value < 0x10000) (opens : opensPair value = false)
    (closes : closesPair value = false) : units (Char.ofNat value) = [value] := by
  have scalar : value.isValidChar := by
    simp only [opensPair, closesPair, Bool.and_eq_false_iff, decide_eq_false_iff_not] at opens closes
    unfold Nat.isValidChar
    omega
  have same : (Char.ofNat value).toNat = value := toNat_ofNat_of_valid scalar
  rw [units_single (by rwa [same]), same]

/-- Two surrogates that match are the units of a character. -/
theorem units_pairChar {high low : Nat} (opens : opensPair high) (closes : closesPair low) :
    units (pairChar high low) = [high, low] := by
  simp only [opensPair, closesPair, Bool.and_eq_true, decide_eq_true_eq] at opens closes
  have scalar : (0x10000 + (high - 0xD800) * 0x400 + (low - 0xDC00)).isValidChar := by
    unfold Nat.isValidChar
    omega
  have same : (pairChar high low).toNat = 0x10000 + (high - 0xD800) * 0x400 + (low - 0xDC00) :=
    toNat_ofNat_of_valid scalar
  have first : 0xD800 + (0x10000 + (high - 0xD800) * 0x400 + (low - 0xDC00) - 0x10000) / 0x400 =
      high := by
    omega
  have second : 0xDC00 + (0x10000 + (high - 0xD800) * 0x400 + (low - 0xDC00) - 0x10000) % 0x400 =
      low := by
    omega
  rw [units, same, if_neg (by omega), first, second]

theorem joinPieces_single (acc : List Char) {value : Nat} (opens : opensPair value = false)
    (closes : closesPair value = false) (pieces : List Piece) :
    joinPieces acc (.unit value :: pieces) = joinPieces (Char.ofNat value :: acc) pieces := by
  cases pieces with
  | nil => simp [joinPieces, opens, closes]
  | cons piece pieces => cases piece <;> simp [joinPieces, opens, closes]

/-- The units of a character are read as the character. -/
theorem joinPieces_units (acc : List Char) (c : Char) (pieces : List Piece) :
    joinPieces acc ((units c).map .unit ++ pieces) = joinPieces (c :: acc) pieces := by
  have scalar : c.toNat.isValidChar := c.valid
  unfold Nat.isValidChar at scalar
  by_cases small : c.toNat < 0x10000
  · have opens : opensPair c.toNat = false := by
      simp only [opensPair, Bool.and_eq_false_iff, decide_eq_false_iff_not]
      omega
    have closes : closesPair c.toNat = false := by
      simp only [closesPair, Bool.and_eq_false_iff, decide_eq_false_iff_not]
      omega
    rw [units_single small]
    show joinPieces acc (.unit c.toNat :: pieces) = _
    rw [joinPieces_single acc opens closes, Char.ofNat_toNat]
  · have opens : opensPair (0xD800 + (c.toNat - 0x10000) / 0x400) = true := by
      simp only [opensPair, Bool.and_eq_true, decide_eq_true_eq]
      omega
    have closes : closesPair (0xDC00 + (c.toNat - 0x10000) % 0x400) = true := by
      simp only [closesPair, Bool.and_eq_true, decide_eq_true_eq]
      omega
    have whole : 0x10000 + (0xD800 + (c.toNat - 0x10000) / 0x400 - 0xD800) * 0x400 +
        (0xDC00 + (c.toNat - 0x10000) % 0x400 - 0xDC00) = c.toNat := by
      omega
    rw [units, if_neg small]
    show joinPieces acc (.unit _ :: .unit _ :: pieces) = _
    rw [joinPieces, opens, closes, Bool.and_self, if_pos rfl, pairChar, whole, Char.ofNat_toNat]

/-- Pieces that join to some characters are read as these. -/
theorem Joined.joinPieces_eq {pieces : List Piece} {chars : List Char}
    (joined : Joined pieces chars) (acc : List Char) :
    joinPieces acc pieces = some (String.ofList (acc.reverse ++ chars)) := by
  induction joined generalizing acc with
  | nil =>
    rw [List.append_nil]
    rfl
  | char c rest ih =>
    rw [joinPieces, ih, List.reverse_cons, List.append_assoc]
    rfl
  | units c rest ih =>
    rw [joinPieces_units, ih, List.reverse_cons, List.append_assoc]
    rfl

/-- Pieces that are read as a text join to its characters. -/
theorem joined_of_joinPieces {acc : List Char} {pieces : List Piece} {text : String}
    (bounded : ∀ value, .unit value ∈ pieces → value < 0x10000)
    (read : joinPieces acc pieces = some text) :
    ∃ chars, Joined pieces chars ∧ text = String.ofList (acc.reverse ++ chars) := by
  have single {acc : List Char} {value : Nat} {pieces : List Piece}
      (bounded : ∀ v, .unit v ∈ .unit value :: pieces → v < 0x10000)
      (whole : ¬ (opensPair value || closesPair value) = true)
      (later : ∃ chars, Joined pieces chars ∧
        text = String.ofList ((Char.ofNat value :: acc).reverse ++ chars)) :
      ∃ chars, Joined (.unit value :: pieces) chars ∧
        text = String.ofList (acc.reverse ++ chars) := by
    obtain ⟨chars, joined, rfl⟩ := later
    rw [Bool.not_eq_true, Bool.or_eq_false_iff] at whole
    have step := Joined.units (Char.ofNat value) joined
    rw [units_ofNat (bounded value List.mem_cons_self) whole.1 whole.2] at step
    exact ⟨_, step, by rw [List.reverse_cons, List.append_assoc]; rfl⟩
  fun_induction joinPieces acc pieces with
  | case1 acc =>
    cases read
    exact ⟨[], .nil, by rw [List.append_nil]⟩
  | case2 acc c rest ih =>
    obtain ⟨chars, joined, rfl⟩ := ih (fun v member => bounded v (List.mem_cons_of_mem _ member)) read
    exact ⟨_, .char c joined, by rw [List.reverse_cons, List.append_assoc]; rfl⟩
  | case3 acc high low rest pair ih =>
    rw [Bool.and_eq_true] at pair
    obtain ⟨chars, joined, rfl⟩ := ih (fun v member =>
      bounded v (List.mem_cons_of_mem _ (List.mem_cons_of_mem _ member))) read
    have step := Joined.units (pairChar high low) joined
    rw [units_pairChar pair.1 pair.2] at step
    exact ⟨_, step, by rw [List.reverse_cons, List.append_assoc]; rfl⟩
  | case4 => cases read
  | case5 acc high low rest notPair whole ih =>
    exact single bounded whole
      (ih (fun v member => bounded v (List.mem_cons_of_mem _ member)) read)
  | case6 => cases read
  | case7 acc value rest notPair whole ih =>
    exact single bounded whole
      (ih (fun v member => bounded v (List.mem_cons_of_mem _ member)) read)

/-- The pieces of a string are read as a text exactly if they join to it. -/
theorem joinPieces_eq_some_iff {pieces : List Piece} {tail : List Char}
    (text : PiecesText pieces tail) {s : String} :
    joinPieces [] pieces = some s ↔ Joined pieces s.toList := by
  constructor
  · intro read
    obtain ⟨chars, joined, rfl⟩ := joined_of_joinPieces (fun _ member => text.bounded member) read
    rwa [List.reverse_nil, List.nil_append, String.toList_ofList]
  · intro joined
    rw [joined.joinPieces_eq, List.reverse_nil, List.nil_append, String.ofList_toList]

/-! ## Strings are read -/

/-- A text of a string is read, and what follows it is left over. -/
theorem unquote_text {text : Option String} {tail rest : List Char}
    (isText : StringText text ('"' :: tail)) : unquote (tail ++ rest) = some (text, rest) := by
  cases isText with
  | mk isPieces joins =>
    have same : joinPieces [] _ = text := Option.ext fun s =>
      (joinPieces_eq_some_iff isPieces).trans (joins s).symm
    rw [unquote, isPieces.readPieces_eq, List.reverse_nil, List.nil_append]
    exact congrArg (fun text => some (text, rest)) same

/-- What is read as a string is one of its texts. -/
theorem text_of_unquote {text : Option String} {chars rest : List Char}
    (read : unquote chars = some (text, rest)) :
    ∃ tail, StringText text ('"' :: tail) ∧ chars = tail ++ rest := by
  obtain ⟨⟨pieces, rest'⟩, found, same⟩ := Option.map_eq_some_iff.1 read
  cases same
  obtain ⟨mine, tail, isPieces, rfl, rfl⟩ := text_of_readPieces found
  exact ⟨tail, .mk isPieces fun s => joinPieces_eq_some_iff isPieces, rfl⟩

/-! ## Printed strings -/

/-- The piece as which the printed form of a character is read. -/
def pieceOf (c : Char) : Piece :=
  if c.toNat < 0x20 ∧ c.toNat ∉ [0x08, 0x09, 0x0A, 0x0C, 0x0D] then .unit c.toNat else .char c

/-- Only a control character has one of these codes, and it has a short escape. -/
theorem eq_of_short {c : Char} (short : c.toNat ∈ [0x08, 0x09, 0x0A, 0x0C, 0x0D]) :
    c ∈ ['\x08', '\t', '\n', '\x0c', '\r'] := by
  have same : c = Char.ofNat c.toNat := (Char.ofNat_toNat c).symm
  simp only [List.mem_cons, List.not_mem_nil, or_false] at short
  rcases short with code | code | code | code | code <;> rw [same, code] <;> decide

/-- A control character without a short escape is written by its digits. -/
theorem escape_control {c : Char} (control : c.toNat < 0x20)
    (long : c.toNat ∉ [0x08, 0x09, 0x0A, 0x0C, 0x0D]) : escape c =
      ['\\', 'u', '0', '0', Nat.digitChar (c.toNat / 16), Nat.digitChar (c.toNat % 16)] := by
  have notQuote : c ≠ '"' := by
    rintro rfl
    exact absurd control (by decide)
  have notBackslash : c ≠ '\\' := by
    rintro rfl
    exact absurd control (by decide)
  simp only [List.mem_cons, List.not_mem_nil, or_false, not_or] at long
  obtain ⟨b, t, n, f, r⟩ := long
  rw [escape, if_neg notQuote, if_neg notBackslash, if_pos control, if_neg b, if_neg t, if_neg n,
    if_neg f, if_neg r]

/-- Any other character is written as itself, quotes and backslashes apart. -/
theorem escape_plain {c : Char} (notQuote : c ≠ '"') (notBackslash : c ≠ '\\')
    (other : ¬ c.toNat < 0x20) : escape c = [c] := by
  rw [escape, if_neg notQuote, if_neg notBackslash, if_neg other]

theorem hexDigit_digitChar {value : Nat} (small : value < 16) : HexDigit value value.digitChar :=
  ⟨small, .inl rfl⟩

/-- The printed form of a control character is a text of its piece. -/
theorem pieceText_control {c : Char} (control : c.toNat < 0x20) :
    PieceText (pieceOf c) (escape c) := by
  by_cases short : c.toNat ∈ [0x08, 0x09, 0x0A, 0x0C, 0x0D]
  · have named := eq_of_short short
    simp only [List.mem_cons, List.not_mem_nil, or_false] at named
    rcases named with rfl | rfl | rfl | rfl | rfl <;> exact .short (by decide)
  · have zero := hexDigit_digitChar (show 0 < 16 by decide)
    have text := PieceText.unit zero zero
      (hexDigit_digitChar (show c.toNat / 16 < 16 by omega))
      (hexDigit_digitChar (show c.toNat % 16 < 16 by omega))
    have value : ((0 * 16 + 0) * 16 + c.toNat / 16) * 16 + c.toNat % 16 = c.toNat := by omega
    rw [value] at text
    rw [escape_control control short, pieceOf, if_pos ⟨control, short⟩]
    exact text

/-- The printed form of a character is a text of its piece. -/
theorem pieceText_escape (c : Char) : PieceText (pieceOf c) (escape c) := by
  by_cases marked : c = '"' ∨ c = '\\'
  · rcases marked with rfl | rfl <;> exact .short (by decide)
  · by_cases control : c.toNat < 0x20
    · exact pieceText_control control
    · have part : pieceOf c = .char c := if_neg fun both => control both.1
      obtain ⟨notQuote, notBackslash⟩ := not_or.1 marked
      rw [escape_plain notQuote notBackslash control, part]
      exact .plain notQuote notBackslash (Nat.not_lt.1 control)

/-- The printed form of some characters is a text of their pieces. -/
theorem piecesText_flatMap (text : List Char) :
    PiecesText (text.map pieceOf) (text.flatMap escape ++ ['"']) := by
  induction text with
  | nil => exact .close
  | cons c text ih =>
    rw [List.flatMap_cons, List.append_assoc]
    exact .cons (pieceText_escape c) ih

theorem joined_map (text : List Char) : Joined (text.map pieceOf) text := by
  induction text with
  | nil => exact .nil
  | cons c text ih =>
    rw [List.map_cons, pieceOf]
    split
    · next control =>
      have step := Joined.units c ih
      rwa [units_single (by omega)] at step
    · exact .char c ih

/-- The printed form of a string is one of its texts. -/
theorem stringText_quote (text : String) : StringText (some text) (quote text) := by
  have isPieces := piecesText_flatMap text.toList
  refine .mk isPieces fun s => ?_
  rw [← joinPieces_eq_some_iff isPieces, (joined_map text.toList).joinPieces_eq, List.reverse_nil,
    List.nil_append, String.ofList_toList]

end ConstantFlow.Json
