import ConstantFlow.Decimal.Shortest

/-!
# Texts of binary numbers

A statement shows a floating-point literal in full: never an exponent, no point
for a whole number, a minus for negative zero, and `inf` for infinity.

* `1.5` is `1.5`, `1e21` is a one with twenty-one zeros, `1e-5` is `0.00001`.
* A tie between two shortest decimals goes away from zero.
-/

namespace ConstantFlow

/-- A decimal magnitude in full, with a point only where digits follow it. -/
def Scientific.plain (x : Scientific) : String :=
  let digits := Nat.toDigits 10 x.digits
  match x.exponent with
  | .ofNat k =>
      if x.digits = 0 then "0" else String.ofList (digits ++ List.replicate k '0')
  | .negSucc k =>
      let places := k + 1
      let padded := List.replicate (places + 1 - digits.length) '0' ++ digits
      String.ofList (padded.take (padded.length - places)) ++ "." ++
        String.ofList (padded.drop (padded.length - places))

/-- The text of a number in a statement. -/
def Binary.text {f : Format} (x : Binary f) : String :=
  (if x.negative then "-" else "") ++
    if x.isInfinite then "inf" else (x.shortest .away).plain

/-! ## Examples -/

example : Scientific.plain ⟨15, -1⟩ = "1.5" := by decide

example : Scientific.plain ⟨1, -3⟩ = "0.001" := by decide

example : Scientific.plain ⟨12, 2⟩ = "1200" := by decide

/-- A tenth is not a binary number, but the nearest one has one digit. -/
example : (Binary.ofRatio false 1 10 : Binary64).text = "0.1" := by decide +kernel

end ConstantFlow
