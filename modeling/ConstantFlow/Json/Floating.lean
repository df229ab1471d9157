import ConstantFlow.Decimal.Shortest
import ConstantFlow.Json.Basic

/-!
# Floating-point numbers from JSON

A number is read in two stages, and neither is exact.

1. Its digits are collected in a word of 64 bits, from the first on.  Once a
   digit before the point does not fit, it and all others before the point only
   count as a power of ten, and the digits after the point are tried next.  Once
   one of those does not fit, the rest is dropped.
2. The word is rounded to 64 bits and multiplied with or divided by a power of
   ten that is rounded too.  The greatest such power is `10 ^ 308`, and a smaller
   number is divided by that until the rest of the way is short enough.

Each product and each quotient is rounded, so the result may be off by a unit or
more in the last place.  A product that rounds to infinity is out of range, and so
is any number but zero that calls for a greater power.
-/

namespace ConstantFlow

open Json

/-! ## Digits that are kept -/

/-- The digits before the point that fit in a word after those that are kept. -/
def Json.keepWhole (kept : Nat) : List (Fin 10) → Scientific
  | [] => ⟨kept, 0⟩
  | d :: rest =>
      if 10 * kept + d.val < UInt64.size then keepWhole (10 * kept + d.val) rest
      else ⟨kept, rest.length + 1⟩

/-- The digits after the point that fit in a word after those that are kept. -/
def Json.keepFraction (x : Scientific) : List (Fin 10) → Scientific
  | [] => x
  | d :: rest =>
      if 10 * x.digits + d.val < UInt64.size then
        keepFraction ⟨10 * x.digits + d.val, x.exponent - 1⟩ rest
      else x

/-- The magnitude of a number as far as its digits are kept. -/
def Json.Number.kept (n : Number) : Scientific :=
  let x := keepFraction (keepWhole 0 (digitsOf n.whole)) n.fraction
  ⟨x.digits, x.exponent + n.exponent.getD 0⟩

/-! ## Powers of ten -/

namespace Binary64

/-- The exponent of the greatest power of ten that is used. -/
def greatestPower : Nat := 308

/-- A power of ten, rounded. -/
def powerOfTen (k : Nat) : Binary64 := .ofRatio false (tenTo k) 1

/-- A number divided a number of times by the greatest power, unless it is zero
before. -/
def shrink (x : Binary64) : Nat → Binary64
  | 0 => x
  | times + 1 => if x.index = 0 then x else shrink (x.div (powerOfTen greatestPower)) times

/-- A magnitude in steps that are each rounded, if it is in range. -/
def ofScientific? (x : Scientific) : Option Binary64 :=
  let digits : Binary64 := .ofRatio false x.digits 1
  match x.exponent with
  | .ofNat k =>
      if k ≤ greatestPower then
        let product := digits.mul (powerOfTen k)
        if product.isInfinite then none else some product
      else if x.digits = 0 then some digits
      else none
  | .negSucc k =>
      let times := k / greatestPower
      some ((shrink digits times).div (powerOfTen (k + 1 - times * greatestPower)))

end Binary64

/-- A number in the 64-bit format, if it is in range. -/
def Json.Number.binary64? (n : Number) : Option Binary64 :=
  (Binary64.ofScientific? n.kept).map fun x => { x with negative := n.negative }

/-! ## Examples -/

/-- An odd number that needs 54 bits lies halfway between two others.  With a digit
after the point it is read as the greater one, whose significand is odd. -/
example : Number.binary64? ⟨false, 9007199254740993, [0], none⟩ =
    some (.ofRatio false 9007199254740994 1) := by
  decide +kernel

/-- Digits that denote the greatest number of the format are out of range. -/
example : Number.binary64?
    ⟨false, 1, [7, 9, 7, 6, 9, 3, 1, 3, 4, 8, 6, 2, 3, 1, 5, 8], some 308⟩ = none := by
  decide +kernel

end ConstantFlow
