import ConstantFlow.Evaluate
import Mathlib.Algebra.Order.Group.Unbundled.Abs
import Mathlib.Algebra.Order.Ring.Int
import Mathlib.Data.Int.ModEq
import Mathlib.Tactic.Ring

/-!
# Folding in the integers

What an operator makes of two ints is said in the integers, or bit by bit
(`BinaryOp.Exact`).

* An integer is *reduced* to the int that is congruent to it modulo `2 ^ 32`
  (`Int32.Reduces`).  There is one such int.
* Division truncates toward zero.  The remainder is what the quotient leaves of
  the dividend, so it is smaller than the divisor and has the sign of the
  dividend.
* A shift takes its amount modulo 32, so the amount is from 0 to 31, also if it
  is negative.  To the left it multiplies by a power of two, to the right it
  divides by one and rounds down.  A shift that does not keep the sign divides
  the residue modulo `2 ^ 32`.
* The bits of an int are the digits of its two's complement.

Folding computes an int that is exact in this sense, and there is no other
(`BinaryOp.fold_exact`).
-/

namespace ConstantFlow

/-! ## Reduction -/

/-- An integer is reduced to an int if the two are congruent modulo `2 ^ 32`. -/
def Int32.Reduces (r : Int32) (n : Int) : Prop := r.toInt ≡ n [ZMOD 2 ^ 32]

namespace Int32.Reduces

variable {r r' : Int32} {n : Int}

theorem of_bmod (h : r.toInt = n.bmod (2 ^ 32)) : Reduces r n := by
  unfold Reduces Int.ModEq
  rw [h]
  exact Int.bmod_emod

/-- An integer is reduced to one int only. -/
theorem unique (h : Reduces r n) (h' : Reduces r' n) : r = r' := by
  have congruent : r.toInt % 2 ^ 32 = r'.toInt % 2 ^ 32 := h.trans h'.symm
  have range := And.intro r.le_toInt r.toInt_lt
  have range' := And.intro r'.le_toInt r'.toInt_lt
  exact Int32.toInt_inj.1 (by omega)

end Int32.Reduces

/-! ## Shifts -/

/-- How far a shift by an int goes. -/
def Int32.amount (b : Int32) : Nat := (b.toInt % 32).toNat

namespace Int32

variable (a b : Int32)

theorem amount_lt : amount b < 32 := by
  unfold amount
  omega

/-- A shift amount is the residue of the operand modulo the width, negative operands
included. -/
theorem amount_modEq : (amount b : Int) ≡ b.toInt [ZMOD 32] := by
  unfold amount Int.ModEq
  omega

/-- The bits of an int, read without the sign, are its residue. -/
theorem toNat_toBitVec : (a.toBitVec.toNat : Int) = a.toInt % 2 ^ 32 := by
  have signed := BitVec.toInt_eq_toNat_cond a.toBitVec
  have range := a.toBitVec.isLt
  rw [← a.toInt_toBitVec, signed]
  split <;> omega

/-- The signed remainder that a shift takes of its operand is the amount. -/
theorem toNat_smod : (b.toBitVec.smod 32).toNat = amount b := by
  have residue : (b.toBitVec.smod 32).toInt = b.toInt % 32 := by
    rw [BitVec.toInt_smod, Int.fmod_eq_emod_of_nonneg _ (by decide)]
    rfl
  have nonneg : 0 ≤ b.toInt % 32 := Int.emod_nonneg _ (by decide)
  have unsigned := toNat_toBitVec (.ofBitVec (b.toBitVec.smod 32))
  rw [Int32.toInt_ofBitVec, Int32.toBitVec_ofBitVec, residue] at unsigned
  unfold amount
  omega

theorem toNat_umod : (b.toBitVec % 32).toNat = amount b := by
  have unsigned := toNat_toBitVec b
  have residue : (b.toBitVec % 32).toNat = b.toBitVec.toNat % 32 := rfl
  unfold amount
  omega

/-- A shift to the left multiplies by a power of two and wraps around. -/
theorem reduces_shiftLeft : Reduces (a <<< b) (a.toInt * 2 ^ amount b) := by
  have shifted : (a <<< b).toInt = ((a.toBitVec.toNat <<< amount b : Nat) : Int).bmod (2 ^ 32) := by
    rw [← Int32.toInt_toBitVec, Int32.toBitVec_shiftLeft, BitVec.shiftLeft_eq',
      BitVec.toInt_shiftLeft, toNat_smod]
  refine (Reduces.of_bmod shifted).trans ?_
  rw [Nat.shiftLeft_eq, Nat.cast_mul, Nat.cast_pow, toNat_toBitVec]
  exact (Int.mod_modEq _ _).mul_right _

/-- A shift to the right divides by a power of two and rounds down. -/
theorem toInt_shiftRight : (a >>> b).toInt = a.toInt.fdiv (2 ^ amount b) := by
  rw [← Int32.toInt_toBitVec, Int32.toBitVec_shiftRight, BitVec.toInt_sshiftRight', toNat_smod,
    Int.shiftRight_eq_div_pow, Int.fdiv_eq_ediv_of_nonneg _ (pow_nonneg zero_le_two _),
    Nat.cast_pow, Int32.toInt_toBitVec]
  rfl

/-- An unsigned shift divides the residue modulo `2 ^ 32`, and what it gives is read as
signed again. -/
theorem reduces_shiftRight_unsigned :
    Reduces (a.toUInt32 >>> b.toUInt32).toInt32 ((a.toInt % 2 ^ 32).fdiv (2 ^ amount b)) := by
  have shifted : (a.toUInt32 >>> b.toUInt32).toInt32.toInt =
      ((a.toBitVec.toNat >>> amount b : Nat) : Int).bmod (2 ^ 32) := by
    rw [← Int32.toInt_toBitVec, UInt32.toBitVec_toInt32, UInt32.toBitVec_shiftRight,
      BitVec.ushiftRight_eq', BitVec.toInt_eq_toNat_bmod, BitVec.toNat_ushiftRight,
      Int32.toBitVec_toUInt32, Int32.toBitVec_toUInt32, toNat_umod]
  refine (Reduces.of_bmod shifted).trans ?_
  rw [Nat.shiftRight_eq_div_pow, Int.natCast_ediv, Nat.cast_pow, toNat_toBitVec,
    Int.fdiv_eq_ediv_of_nonneg _ (pow_nonneg zero_le_two _)]
  rfl

/-! ## Bits -/

/-- The digit of the two's complement of an int at a position. -/
def bit (a : Int32) (i : Nat) : Bool := a.toInt.fdiv (2 ^ i) % 2 = 1

/-- The lower binary digits of an integer are those of its residue: what is above the
residue is a multiple of the next power of two and leaves the digit alone. -/
theorem digit_emod (n : Int) {i : Nat} (inside : i < 32) :
    n % 2 ^ 32 / 2 ^ i % 2 = n / 2 ^ i % 2 := by
  have power : (2 : Int) ^ 32 = 2 ^ i * (2 * 2 ^ (31 - i)) := by
    rw [← pow_succ', ← pow_add]
    congr 1
    omega
  have whole : n = n % 2 ^ 32 + 2 ^ i * (2 * (2 ^ (31 - i) * (n / 2 ^ 32))) := by
    rw [← mul_assoc 2, ← mul_assoc (2 ^ i), ← power, Int.emod_add_mul_ediv]
  conv_rhs => rw [whole, Int.add_mul_ediv_left _ _ (pow_ne_zero _ two_ne_zero),
    Int.add_mul_emod_self_left]

/-- The digit at a position is the bit that is kept there. -/
theorem bit_eq_getLsbD {i : Nat} (inside : i < 32) : bit a i = a.toBitVec.getLsbD i := by
  rw [← BitVec.testBit_toNat, Nat.testBit_eq_decide_div_mod_eq, bit, decide_eq_decide,
    Int.fdiv_eq_ediv_of_nonneg _ (pow_nonneg zero_le_two _), ← digit_emod _ inside,
    ← toNat_toBitVec]
  norm_cast

variable {a b} in
/-- Ints with the same bits are equal. -/
theorem ext_bit (same : ∀ i < 32, bit a i = bit b i) : a = b := by
  refine Int32.toBitVec_inj.1 (BitVec.eq_of_getLsbD_eq fun i inside => ?_)
  rw [← bit_eq_getLsbD a inside, ← bit_eq_getLsbD b inside, same i inside]

end Int32

/-! ## Operators -/

/-- What an arithmetic operator makes of two integers. -/
def ArithmeticOp.Exact : ArithmeticOp → Int → Int → Int32 → Prop
  | .add, a, b, r => Int32.Reduces r (a + b)
  | .sub, a, b, r => Int32.Reduces r (a - b)
  | .mul, a, b, r => Int32.Reduces r (a * b)
  | .div, a, b, r => Int32.Reduces r (a.tdiv b)
  | .rem, a, b, r =>
      r.toInt = a - b * a.tdiv b ∧ |r.toInt| < |b| ∧ (r.toInt = 0 ∨ r.toInt.sign = a.sign)

/-- How two integers compare. -/
def RelationalOp.Relates : RelationalOp → Int → Int → Prop
  | .eq, a, b => a = b
  | .ne, a, b => a ≠ b
  | .ge, a, b => a ≥ b
  | .le, a, b => a ≤ b
  | .gt, a, b => a > b
  | .lt, a, b => a < b

/-- What a shift by some amount makes of an integer. -/
def ShiftOp.Exact : ShiftOp → Int → Nat → Int32 → Prop
  | .shl, a, s, r => Int32.Reduces r (a * 2 ^ s)
  | .shr, a, s, r => r.toInt = a.fdiv (2 ^ s)
  | .ushr, a, s, r => Int32.Reduces r ((a % 2 ^ 32).fdiv (2 ^ s))

/-- What a bitwise operator makes of two bits. -/
def BitwiseOp.onBits : BitwiseOp → Bool → Bool → Bool
  | .and => Bool.and
  | .or => Bool.or
  | .xor => Bool.xor

/-- Whether an int is what an operator makes of two ints. -/
def BinaryOp.Exact : BinaryOp → Int32 → Int32 → Int32 → Prop
  | .arithmetic op, a, b, r => op.Exact a.toInt b.toInt r
  | .relational op, a, b, r =>
      (op.Relates a.toInt b.toInt → r = 1) ∧ (¬ op.Relates a.toInt b.toInt → r = 0)
  | .shift op, a, b, r =>
      ∃ s : Nat, s < 32 ∧ (s : Int) ≡ b.toInt [ZMOD 32] ∧ op.Exact a.toInt s r
  | .bitwise op, a, b, r => ∀ i < 32, Int32.bit r i = op.onBits (Int32.bit a i) (Int32.bit b i)

section Operators

variable {a b r r' : Int32}

/-- An arithmetic operator gives the reduced integer result.  A remainder takes a
divisor other than zero. -/
theorem ArithmeticOp.exact_fold (op : ArithmeticOp) (safe : op = .rem → b ≠ 0) :
    op.Exact a.toInt b.toInt (op.fold a b) := by
  cases op with
  | add => exact Int32.Reduces.of_bmod (Int32.toInt_add a b)
  | sub => exact Int32.Reduces.of_bmod (Int32.toInt_sub a b)
  | mul => exact Int32.Reduces.of_bmod (Int32.toInt_mul a b)
  | div => exact Int32.Reduces.of_bmod (Int32.toInt_div a b)
  | rem =>
    have nonzero : b.toInt ≠ 0 := fun zero => safe rfl (Int32.toInt_inj.1 zero)
    have value : (fold .rem a b).toInt = a.toInt.tmod b.toInt := Int32.toInt_mod a b
    refine ⟨value.trans (Int.tmod_def _ _), ?_, ?_⟩
    · rw [value, Int.abs_eq_natAbs, Int.abs_eq_natAbs, Int.natAbs_tmod]
      exact Int.ofNat_lt.2 (Nat.mod_lt _ (Int.natAbs_pos.2 nonzero))
    · rw [value]
      by_cases divides : b.toInt ∣ a.toInt
      · exact .inl (Int.tmod_eq_zero_of_dvd divides)
      · exact .inr ((Int.sign_tmod _ _).trans (if_neg divides))

theorem RelationalOp.holds_iff (op : RelationalOp) :
    op.holds a b ↔ op.Relates a.toInt b.toInt := by
  cases op <;>
    simp [holds, Relates, Int32.toInt_inj, Int32.le_iff_toInt_le, Int32.lt_iff_toInt_lt]

theorem ShiftOp.exact_fold (op : ShiftOp) : op.Exact a.toInt (Int32.amount b) (op.fold a b) := by
  cases op with
  | shl => exact Int32.reduces_shiftLeft a b
  | shr => exact Int32.toInt_shiftRight a b
  | ushr => exact Int32.reduces_shiftRight_unsigned a b

theorem BitwiseOp.bit_fold (op : BitwiseOp) {i : Nat} (inside : i < 32) :
    Int32.bit (op.fold a b) i = op.onBits (Int32.bit a i) (Int32.bit b i) := by
  simp only [Int32.bit_eq_getLsbD _ inside]
  cases op with
  | and => exact BitVec.getLsbD_and
  | or => exact BitVec.getLsbD_or
  | xor => exact BitVec.getLsbD_xor

namespace BinaryOp

/-- Every operator meets its specification, provided that a division has a divisor other
than zero. -/
theorem exact_fold (op : BinaryOp) (safe : op.isDivision → b ≠ 0) : op.Exact a b (op.fold a b) := by
  cases op with
  | arithmetic op => exact op.exact_fold fun remainder => safe (by rw [remainder]; rfl)
  | relational op =>
    refine ⟨fun relates => ?_, fun unrelated => ?_⟩
    · rw [fold, op.holds_iff.2 relates]
      rfl
    · rw [fold, Bool.eq_false_iff.2 fun holds => unrelated (op.holds_iff.1 holds)]
      rfl
  | shift op => exact ⟨_, Int32.amount_lt b, Int32.amount_modEq b, op.exact_fold⟩
  | bitwise op => exact fun i inside => op.bit_fold inside

/-- An operator makes one int of two ints. -/
theorem Exact.unique {op : BinaryOp} (h : op.Exact a b r) (h' : op.Exact a b r') : r = r' := by
  cases op with
  | arithmetic op =>
    cases op with
    | add | sub | mul | div => exact Int32.Reduces.unique h h'
    | rem => exact Int32.toInt_inj.1 (h.1.trans h'.1.symm)
  | relational op =>
    by_cases relates : op.Relates a.toInt b.toInt
    · exact (h.1 relates).trans (h'.1 relates).symm
    · exact (h.2 relates).trans (h'.2 relates).symm
  | shift op =>
    obtain ⟨s, inside, congruent, h⟩ := h
    obtain ⟨s', inside', congruent', h'⟩ := h'
    obtain rfl : s = s' := by
      have same : (s : Int) % 32 = s' % 32 := congruent.trans congruent'.symm
      omega
    cases op with
    | shl | ushr => exact Int32.Reduces.unique h h'
    | shr => exact Int32.toInt_inj.1 (h.trans h'.symm)
  | bitwise op => exact Int32.ext_bit fun i inside => (h i inside).trans (h' i inside).symm

/-- Quotient and remainder make up the dividend. -/
theorem fold_div_mul_add_fold_rem (a b : Int32) :
    (fold (.arithmetic .div) a b).toInt * b.toInt + (fold (.arithmetic .rem) a b).toInt ≡
      a.toInt [ZMOD 2 ^ 32] := by
  have quotient : (fold (.arithmetic .div) a b).toInt ≡ a.toInt.tdiv b.toInt [ZMOD 2 ^ 32] :=
    Int32.Reduces.of_bmod (Int32.toInt_div a b)
  have remainder : (fold (.arithmetic .rem) a b).toInt = a.toInt.tmod b.toInt := Int32.toInt_mod a b
  rw [remainder]
  calc (fold (.arithmetic .div) a b).toInt * b.toInt + a.toInt.tmod b.toInt
      ≡ a.toInt.tdiv b.toInt * b.toInt + a.toInt.tmod b.toInt [ZMOD 2 ^ 32] :=
        (quotient.mul_right _).add_right _
    _ = a.toInt := Int.tdiv_mul_add_tmod _ _

/-- Folding computes the int that is exact, and there is no other.  A quotient
times the divisor and the remainder come to the dividend. -/
theorem fold_exact (op : BinaryOp) (a b : Int32) (safe : op.isDivision → b ≠ 0) :
    (∀ r, op.Exact a b r ↔ r = op.fold a b) ∧
      (op.isDivision → (fold (.arithmetic .div) a b).toInt * b.toInt +
        (fold (.arithmetic .rem) a b).toInt ≡ a.toInt [ZMOD 2 ^ 32]) := by
  have exact := op.exact_fold (a := a) safe
  refine ⟨fun r => ⟨fun other => other.unique exact, ?_⟩, fun _ => fold_div_mul_add_fold_rem a b⟩
  rintro rfl
  exact exact

/-- The least int divided by minus one wraps around, and nothing remains. -/
theorem fold_exact_wrapping :
    ((BinaryOp.arithmetic .div).isDivision → (-1 : Int32) ≠ 0) ∧
    (∀ r, (BinaryOp.arithmetic .div).Exact Int32.minValue (-1) r ↔ r = Int32.minValue) ∧
    Int32.minValue.toInt * (-1 : Int32).toInt + (0 : Int32).toInt ≡
      Int32.minValue.toInt [ZMOD 2 ^ 32] := by
  have safe : (BinaryOp.arithmetic .div).isDivision → (-1 : Int32) ≠ 0 := fun _ => by decide
  have quotient : fold (.arithmetic .div) Int32.minValue (-1) = Int32.minValue := by decide
  have remainder : fold (.arithmetic .rem) Int32.minValue (-1) = 0 := by decide
  obtain ⟨exact, whole⟩ := fold_exact (.arithmetic .div) Int32.minValue (-1) safe
  rw [quotient] at exact whole
  rw [remainder] at whole
  exact ⟨safe, exact, whole rfl⟩

end BinaryOp

end Operators

end ConstantFlow
