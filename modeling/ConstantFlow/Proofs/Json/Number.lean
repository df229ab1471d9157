import ConstantFlow.Json.Printer
import ConstantFlow.Json.Reader
import Mathlib.Data.List.TakeWhile

/-!
# The texts of a number

`NumberText` says which texts denote a number: an optional minus, digits without a
superfluous zero in front, a point with digits and an exponent with a letter of either
size, an optional sign and digits, the last two optional.

The reader takes a number off the front of a text exactly if one of its texts is
there, unless what follows continues it (`readNumber_text`, `text_of_readNumber`).  A
number is continued by a digit, a point or the letter of an exponent.  The printed
form of a number is one of its texts (`numberText_print`).
-/

namespace ConstantFlow.Json

/-! ## Texts of the parts -/

/-- Some digits. -/
structure Digits (text : List Char) : Prop where
  /-- There is at least one. -/
  nonempty : text ≠ []
  /-- There is nothing else. -/
  all : ∀ c ∈ text, c.isDigit

/-- The texts of the digits before the point: no superfluous zero is in front. -/
inductive WholeText : Nat → List Char → Prop
  | zero : WholeText 0 ['0']
  | digits {c : Char} {cs : List Char} (isDigits : Digits (c :: cs)) (lead : c ≠ '0') :
      WholeText (Nat.ofDigitChars 10 (c :: cs) 0) (c :: cs)

/-- The texts of the digits after the point. -/
inductive FractionText : List (Fin 10) → List Char → Prop
  | none : FractionText [] []
  | point {digits : List Char} (isDigits : Digits digits) :
      FractionText (digits.map digitValue) ('.' :: digits)

/-- The texts of the sign of an exponent, by whether it is a minus. -/
inductive SignText : Bool → List Char → Prop
  | none : SignText false []
  | plus : SignText false ['+']
  | minus : SignText true ['-']

/-- The texts of the sign of a number, by whether it is a minus. -/
inductive MinusText : Bool → List Char → Prop
  | none : MinusText false []
  | minus : MinusText true ['-']

/-- The texts of an exponent, with its letter. -/
inductive ExponentText : Option Int → List Char → Prop
  | none : ExponentText .none []
  | some {letter : Char} {negative : Bool} {sign digits : List Char}
      (mark : letter = 'e' ∨ letter = 'E') (isSign : SignText negative sign)
      (isDigits : Digits digits) :
      ExponentText
        (.some (if negative then -(Nat.ofDigitChars 10 digits 0 : Int)
          else Nat.ofDigitChars 10 digits 0))
        (letter :: (sign ++ digits))

/-- The texts of a number. -/
inductive NumberText : Number → List Char → Prop
  | mk {negative : Bool} {w : Nat} {f : List (Fin 10)} {e : Option Int}
      {minus whole fraction exponent : List Char} (isMinus : MinusText negative minus)
      (isWhole : WholeText w whole) (isFraction : FractionText f fraction)
      (isExponent : ExponentText e exponent) :
      NumberText ⟨negative, w, f, e⟩ (minus ++ (whole ++ (fraction ++ exponent)))

/-! ## What follows a number -/

/-- A text does not start with a digit. -/
def EndsDigits (rest : List Char) : Prop := ∀ c ∈ rest.head?, ¬ c.isDigit

/-- A text does not continue a number that is in front of it. -/
def EndsNumber (rest : List Char) : Prop :=
  ∀ c ∈ rest.head?, ¬ c.isDigit ∧ c ≠ '.' ∧ c ≠ 'e' ∧ c ≠ 'E'

/-- What does not continue a number does not continue its digits. -/
theorem EndsNumber.digits {rest : List Char} (ends : EndsNumber rest) : EndsDigits rest :=
  fun c first => (ends c first).1

theorem endsDigits_cons {c : Char} {rest : List Char} (other : c.isDigit = false) :
    EndsDigits (c :: rest) := by
  intro d first
  cases first
  simp [other]

/-- A fraction or an exponent does not continue the digits before it. -/
theorem ExponentText.ends {e : Option Int} {exponent rest : List Char}
    (text : ExponentText e exponent) (ends : EndsNumber rest) :
    EndsDigits (exponent ++ rest) ∧ (exponent ++ rest).head? ≠ Option.some '.' := by
  cases text with
  | none => exact ⟨ends.digits, fun first => (ends '.' first).2.1 rfl⟩
  | some mark =>
    rcases mark with rfl | rfl
    · exact ⟨endsDigits_cons rfl, by simp⟩
    · exact ⟨endsDigits_cons rfl, by simp⟩

theorem FractionText.ends {f : List (Fin 10)} {fraction rest : List Char}
    (text : FractionText f fraction) (ends : EndsDigits rest) : EndsDigits (fraction ++ rest) := by
  cases text with
  | none => exact ends
  | point => exact endsDigits_cons rfl

theorem WholeText.eq_cons {w : Nat} {whole : List Char} (text : WholeText w whole) :
    ∃ c tail, whole = c :: tail ∧ c.isDigit := by
  cases text with
  | zero => exact ⟨'0', [], rfl, rfl⟩
  | digits digits => exact ⟨_, _, rfl, digits.all _ List.mem_cons_self⟩

/-- A number starts with a minus or a digit. -/
theorem NumberText.eq_cons {n : Number} {chars : List Char} (text : NumberText n chars) :
    ∃ c tail, chars = c :: tail ∧ (c = '-' ∨ c.isDigit) := by
  obtain ⟨isMinus, whole, fraction, exponent⟩ := text
  cases isMinus with
  | none =>
    obtain ⟨c, tail, rfl, digit⟩ := whole.eq_cons
    exact ⟨c, _, rfl, .inr digit⟩
  | minus => exact ⟨'-', _, rfl, .inl rfl⟩

/-! ## Texts are read -/

/-- Digits are read up to the first character that is none. -/
theorem readDigits_append {digits rest : List Char} (text : Digits digits)
    (ends : EndsDigits rest) : readDigits (digits ++ rest) = some (digits, rest) := by
  have none_left : rest.takeWhile Char.isDigit = [] ∧ rest.dropWhile Char.isDigit = rest := by
    cases rest with
    | nil => exact ⟨rfl, rfl⟩
    | cons c rest =>
      have other : ¬ c.isDigit := ends c rfl
      simp [other]
  have taken : (digits ++ rest).takeWhile Char.isDigit = digits := by
    rw [List.takeWhile_append_of_pos text.all, none_left.1, List.append_nil]
  have dropped : (digits ++ rest).dropWhile Char.isDigit = rest := by
    rw [List.dropWhile_append_of_pos text.all, none_left.2]
  unfold readDigits
  rw [taken, dropped]
  cases digits with
  | nil => exact absurd rfl text.nonempty
  | cons c digits => rfl

/-- The digits before the point are read. -/
theorem readWhole_text {w : Nat} {whole rest : List Char} (text : WholeText w whole)
    (ends : EndsDigits rest) : readWhole (whole ++ rest) = some (w, rest) := by
  cases text with
  | zero => rfl
  | digits digits lead =>
    have read := readDigits_append digits ends
    rw [List.cons_append] at read ⊢
    unfold readWhole
    split
    · next same => exact absurd (List.cons.inj same).1 lead
    · rw [read]
      rfl

theorem readFraction_text {f : List (Fin 10)} {fraction rest : List Char}
    (text : FractionText f fraction) (ends : EndsDigits rest) (noPoint : rest.head? ≠ some '.') :
    readFraction (fraction ++ rest) = some (f, rest) := by
  cases text with
  | none =>
    rw [List.nil_append]
    unfold readFraction
    split
    · exact absurd rfl noPoint
    · rfl
  | point digits =>
    show (readDigits (_ ++ rest)).map _ = _
    rw [readDigits_append digits ends]
    rfl

theorem readSign_text {negative : Bool} {sign digits rest : List Char}
    (text : SignText negative sign) (isDigits : Digits digits) :
    readSign (sign ++ (digits ++ rest)) = (negative, digits ++ rest) := by
  cases text with
  | none =>
    obtain ⟨nonempty, all⟩ := isDigits
    obtain ⟨c, cs, rfl⟩ := List.exists_cons_of_ne_nil nonempty
    have digit := all c List.mem_cons_self
    rw [List.nil_append, List.cons_append]
    unfold readSign
    split
    · next same => exact absurd ((List.cons.inj same).1 ▸ digit) (by decide)
    · next same => exact absurd ((List.cons.inj same).1 ▸ digit) (by decide)
    · rfl
  | plus => rfl
  | minus => rfl

theorem readMinus_text {negative : Bool} {minus text : List Char} (isMinus : MinusText negative minus)
    {w : Nat} {whole : List Char} (isWhole : WholeText w whole) :
    readMinus (minus ++ (whole ++ text)) = (negative, whole ++ text) := by
  cases isMinus with
  | none =>
    obtain ⟨c, tail, rfl, digit⟩ := isWhole.eq_cons
    rw [List.nil_append, List.cons_append]
    unfold readMinus
    split
    · next same => exact absurd ((List.cons.inj same).1 ▸ digit) (by decide)
    · rfl
  | minus => rfl

/-- An exponent, with its letter, is read after the other digits. -/
theorem readExponent_text {negative : Bool} {sign digits rest : List Char}
    (isSign : SignText negative sign) (isDigits : Digits digits) (ends : EndsDigits rest) :
    readExponent (sign ++ (digits ++ rest)) =
      some (some (if negative then -(Nat.ofDigitChars 10 digits 0 : Int)
        else Nat.ofDigitChars 10 digits 0), rest) := by
  unfold readExponent
  rw [readSign_text isSign isDigits]
  show (readDigits (digits ++ rest)).map _ = _
  rw [readDigits_append isDigits ends]
  rfl

/-- A text of a number is read, and what follows it is left over. -/
theorem readNumber_text {n : Number} {chars rest : List Char} (text : NumberText n chars)
    (ends : EndsNumber rest) : readNumber (chars ++ rest) = some (n, rest) := by
  obtain ⟨isMinus, isWhole, isFraction, isExponent⟩ := text
  obtain ⟨exponentEnds, noPoint⟩ := isExponent.ends ends
  have readW := readWhole_text isWhole (isFraction.ends exponentEnds)
  have readF := readFraction_text isFraction exponentEnds noPoint
  simp only [List.append_assoc]
  unfold readNumber
  rw [readMinus_text isMinus isWhole]
  simp only [readW, readF, Option.bind_eq_bind, Option.bind_some]
  cases isExponent with
  | none =>
    rw [List.nil_append]
    split
    · exact absurd rfl (ends 'e' rfl).2.2.1
    · exact absurd rfl (ends 'E' rfl).2.2.2
    · rfl
  | some mark isSign isDigits =>
    have read := readExponent_text isSign isDigits ends.digits
    rw [List.cons_append, List.append_assoc]
    rcases mark with rfl | rfl
    · simp only [read]
      rfl
    · simp only [read]
      rfl

/-! ## What is read is a text -/

/-- What is read as digits is digits. -/
theorem text_of_readDigits {text digits rest : List Char}
    (read : readDigits text = some (digits, rest)) : Digits digits ∧ text = digits ++ rest := by
  unfold readDigits at read
  split at read
  · cases read
  · next taken nonempty =>
    cases read
    refine ⟨⟨nonempty, fun c member => ?_⟩, List.takeWhile_append_dropWhile.symm⟩
    exact List.mem_takeWhile_imp member

theorem text_of_readWhole {text rest : List Char} {w : Nat}
    (read : readWhole text = some (w, rest)) :
    ∃ whole, WholeText w whole ∧ text = whole ++ rest := by
  unfold readWhole at read
  split at read
  · cases read
    exact ⟨['0'], .zero, rfl⟩
  · next other =>
    obtain ⟨⟨digits, rest'⟩, found, same⟩ := Option.map_eq_some_iff.1 read
    cases same
    obtain ⟨isDigits, rfl⟩ := text_of_readDigits found
    obtain ⟨c, cs, rfl⟩ := List.exists_cons_of_ne_nil isDigits.nonempty
    refine ⟨c :: cs, .digits isDigits ?_, rfl⟩
    rintro rfl
    exact other _ rfl

theorem text_of_readFraction {text rest : List Char} {f : List (Fin 10)}
    (read : readFraction text = some (f, rest)) :
    ∃ fraction, FractionText f fraction ∧ text = fraction ++ rest := by
  unfold readFraction at read
  split at read
  · obtain ⟨⟨digits, rest'⟩, found, same⟩ := Option.map_eq_some_iff.1 read
    cases same
    obtain ⟨isDigits, rfl⟩ := text_of_readDigits found
    exact ⟨_, .point isDigits, rfl⟩
  · cases read
    exact ⟨[], .none, rfl⟩

theorem text_of_readSign (text : List Char) :
    ∃ sign, SignText (readSign text).1 sign ∧ text = sign ++ (readSign text).2 := by
  unfold readSign
  split
  · exact ⟨['-'], .minus, rfl⟩
  · exact ⟨['+'], .plus, rfl⟩
  · exact ⟨[], .none, rfl⟩

/-- What is read as an exponent is one of its texts. -/
theorem text_of_readExponent {letter : Char} (mark : letter = 'e' ∨ letter = 'E')
    {text rest : List Char} {e : Option Int} (read : readExponent text = some (e, rest)) :
    ∃ exponent, ExponentText e exponent ∧ letter :: text = exponent ++ rest := by
  obtain ⟨sign, isSign, same⟩ := text_of_readSign text
  unfold readExponent at read
  generalize readSign text = signed at isSign same read
  obtain ⟨negative, unsigned⟩ := signed
  obtain ⟨⟨digits, rest'⟩, found, made⟩ := Option.map_eq_some_iff.1 read
  cases made
  obtain ⟨isDigits, rfl⟩ := text_of_readDigits found
  refine ⟨letter :: (sign ++ digits), .some mark isSign isDigits, ?_⟩
  rw [same, List.cons_append, List.append_assoc]

theorem text_of_readMinus (text : List Char) :
    ∃ minus, MinusText (readMinus text).1 minus ∧ text = minus ++ (readMinus text).2 := by
  unfold readMinus
  split
  · exact ⟨['-'], .minus, rfl⟩
  · exact ⟨[], .none, rfl⟩

/-- What is read as a number is one of its texts. -/
theorem text_of_readNumber {text rest : List Char} {n : Number}
    (read : readNumber text = some (n, rest)) :
    ∃ chars, NumberText n chars ∧ text = chars ++ rest := by
  obtain ⟨minus, isMinus, same⟩ := text_of_readMinus text
  unfold readNumber at read
  generalize readMinus text = signed at isMinus same read
  obtain ⟨negative, unsigned⟩ := signed
  obtain ⟨⟨w, afterWhole⟩, readW, after⟩ := Option.bind_eq_some_iff.1 read
  obtain ⟨⟨f, afterFraction⟩, readF, left⟩ := Option.bind_eq_some_iff.1 after
  obtain ⟨whole, isWhole, rfl⟩ := text_of_readWhole readW
  obtain ⟨fraction, isFraction, rfl⟩ := text_of_readFraction readF
  have last : ∃ e exponent, ExponentText e exponent ∧ afterFraction = exponent ++ rest ∧
      n = ⟨negative, w, f, e⟩ := by
    dsimp only at left
    split at left
    · obtain ⟨⟨e, rest'⟩, readE, made⟩ := Option.bind_eq_some_iff.1 left
      cases made
      obtain ⟨exponent, isExponent, same⟩ := text_of_readExponent (.inl rfl) readE
      exact ⟨e, exponent, isExponent, same, rfl⟩
    · obtain ⟨⟨e, rest'⟩, readE, made⟩ := Option.bind_eq_some_iff.1 left
      cases made
      obtain ⟨exponent, isExponent, same⟩ := text_of_readExponent (.inr rfl) readE
      exact ⟨e, exponent, isExponent, same, rfl⟩
    · cases left
      exact ⟨none, [], .none, rfl, rfl⟩
  obtain ⟨e, exponent, isExponent, rfl, rfl⟩ := last
  refine ⟨_, .mk isMinus isWhole isFraction isExponent, ?_⟩
  simp only [same, List.append_assoc]

/-! ## Printed numbers -/

theorem isDigit_of_mem {w : Nat} {c : Char} (member : c ∈ Nat.toDigits 10 w) : c.isDigit :=
  Nat.isDigit_of_mem_toDigits (by decide) (by decide) member

theorem digits_toDigits (w : Nat) : Digits (Nat.toDigits 10 w) :=
  ⟨Nat.toDigits_ne_nil, fun _ => isDigit_of_mem⟩

/-- The first digit of a number is zero for zero alone. -/
theorem toDigits_eq_cons (w : Nat) :
    ∃ d ds, Nat.toDigits 10 w = d :: ds ∧ d.isDigit ∧ (d = '0' → w = 0) := by
  induction w using Nat.strongRecOn with
  | ind w ih =>
    by_cases small : w < 10
    · refine ⟨w.digitChar, [], Nat.toDigits_of_lt_base small, ?_, Nat.digitChar_eq_zero.1⟩
      simp [Nat.isDigit_digitChar, small]
    · have large : 10 ≤ w := Nat.le_of_not_lt small
      obtain ⟨d, ds, lead, digit, zero⟩ := ih (w / 10) (by omega)
      refine ⟨d, ds ++ [(w % 10).digitChar], ?_, digit, fun same => ?_⟩
      · rw [Nat.toDigits_of_base_le (by decide) large, lead]
        rfl
      · have := zero same
        omega

/-- The digits of a number are a text of it: they start with a zero for zero alone. -/
theorem wholeText_toDigits (w : Nat) : WholeText w (Nat.toDigits 10 w) := by
  obtain ⟨d, ds, digits, -, zero⟩ := toDigits_eq_cons w
  by_cases lead : d = '0'
  · rw [zero lead, Nat.toDigits_zero]
    exact .zero
  · have text := WholeText.digits (digits ▸ digits_toDigits w) lead
    rwa [← digits, Nat.ofDigitChars_ten_toDigits] at text

theorem digitValue_digitChar (d : Fin 10) : digitValue (Nat.digitChar d.val) = d := by
  revert d
  decide

/-- The printed form of the digits after the point is a text of them. -/
theorem fractionText_print (f : List (Fin 10)) : FractionText f (printFraction f) := by
  cases f with
  | nil => exact .none
  | cons d f =>
    have isDigits : Digits ((d :: f).map fun d => Nat.digitChar d.val) := by
      refine ⟨by simp, fun c member => ?_⟩
      obtain ⟨d, -, rfl⟩ := List.mem_map.1 member
      simp [Nat.isDigit_digitChar]
    have values : ((d :: f).map fun d => Nat.digitChar d.val).map digitValue = d :: f := by
      rw [List.map_map]
      exact (List.map_congr_left fun d _ => digitValue_digitChar d).trans (List.map_id _)
    have text := FractionText.point isDigits
    rwa [values] at text

/-- The printed form of an exponent is a text of it. -/
theorem exponentText_print (e : Option Int) : ExponentText e (printExponent e) := by
  cases e with
  | none => exact .none
  | some e =>
    have isDigits := digits_toDigits e.natAbs
    by_cases negative : e < 0
    · have value : -(e.natAbs : Int) = e := by omega
      have text := ExponentText.some (.inl rfl) .minus isDigits
      rw [Nat.ofDigitChars_ten_toDigits, if_pos rfl, value] at text
      rw [printExponent, if_pos negative]
      exact text
    · have value : (e.natAbs : Int) = e := by omega
      have text := ExponentText.some (.inl rfl) .plus isDigits
      rw [Nat.ofDigitChars_ten_toDigits, if_neg Bool.false_ne_true, value] at text
      rw [printExponent, if_neg negative]
      exact text

/-- The printed form of a number is one of its texts. -/
theorem numberText_print (n : Number) : NumberText n (printNumber n) := by
  have isMinus : MinusText n.negative (if n.negative then ['-'] else []) := by
    cases n.negative with
    | false => exact .none
    | true => exact .minus
  have text := NumberText.mk isMinus (wholeText_toDigits n.whole) (fractionText_print n.fraction)
    (exponentText_print n.exponent)
  simpa only [printNumber, List.append_assoc] using text

end ConstantFlow.Json
