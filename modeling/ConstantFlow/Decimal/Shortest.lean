import ConstantFlow.Decimal.Binary

/-!
# The shortest decimal that reads back

Every finite binary magnitude is a whole multiple of a power of ten.  So are
the two points halfway to its neighbours, and a decimal between those points
reads back as the magnitude.  The points themselves do so exactly when the
index is even.

The search takes the grids of multiples of `10 ^ k`, from the coarsest with one
digit down to the unit, and stops at the first that has a point in the
interval.  If a grid has one at all, then one of the two grid points around the
magnitude is one, so only these are tried: of two hits the nearer is taken, and
the tie rule decides between hits that are equally near.
-/

namespace ConstantFlow

/-- Which of two equally near decimals is taken. -/
inductive Tie
  /-- The one farther from zero. -/
  | away
  /-- The one whose last digit is even. -/
  | even
deriving DecidableEq

/-- A decimal magnitude, `digits * 10 ^ exponent`. -/
structure Scientific where
  /-- The digits, as one whole number. -/
  digits : Nat
  /-- The power of ten of the last digit. -/
  exponent : Int
deriving DecidableEq

namespace Scientific

/-- The magnitude with the zeros at its end moved into the exponent. -/
def trim (digits : Nat) (exponent : Int) : Nat → Scientific
  | 0 => ⟨digits, exponent⟩
  | fuel + 1 =>
      if digits ≠ 0 ∧ digits % 10 = 0 then trim (digits / 10) (exponent + 1) fuel
      else ⟨digits, exponent⟩

end Scientific

/-- The decimals that read back as one magnitude, all in units of one power of
ten. -/
structure Neighbourhood where
  /-- The point halfway to the magnitude below. -/
  low : Nat
  /-- The magnitude itself. -/
  center : Nat
  /-- The point halfway to the magnitude above. -/
  high : Nat
  /-- Whether the two ends belong to it. -/
  closed : Bool
  /-- The power of ten of the unit. -/
  exponent : Int

namespace Neighbourhood

/-- Whether a decimal reads back as the magnitude. -/
def holds (n : Neighbourhood) (point : Nat) : Bool :=
  if n.closed then n.low ≤ point && point ≤ n.high
  else n.low < point && point < n.high

/-- The neighbourhood of a finite magnitude.  Quarters of a step are the unit
in binary, and powers of five make it a power of ten. -/
def of {f : Format} (x : Binary f) : Neighbourhood :=
  let below := if x.startsBlock then 4 * x.significand - 1 else 4 * x.significand - 2
  let closed := x.significand % 2 == 0
  match x.step - 2 with
  | .ofNat k =>
      let two := twoTo k
      ⟨below * two, 4 * x.significand * two, (4 * x.significand + 2) * two, closed, 0⟩
  | .negSucc k =>
      let five := Nat.pow 5 (k + 1)
      ⟨below * five, 4 * x.significand * five, (4 * x.significand + 2) * five, closed,
        .negSucc k⟩

/-- The grid point of `10 ^ k` to take, as a count of grid steps, if one of the
two around the magnitude lies in the neighbourhood. -/
def onGrid (n : Neighbourhood) (tie : Tie) (k : Nat) : Option Nat :=
  let unit := tenTo k
  let below := n.center / unit
  let above := below + 1
  let belowHits := decide (0 < below) && n.holds (below * unit)
  let aboveHits := n.holds (above * unit)
  if belowHits && aboveHits then
    let down := n.center - below * unit
    let up := above * unit - n.center
    if down < up then some below
    else if up < down then some above
    else match tie with
      | .away => some above
      | .even => if below % 2 = 0 then some below else some above
  else if belowHits then some below
  else if aboveHits then some above
  else none

/-- The first grid with a point in the neighbourhood, from `10 ^ k` down. -/
def search (n : Neighbourhood) (tie : Tie) : Nat → Scientific
  | 0 => ⟨(n.onGrid tie 0).getD n.center, n.exponent⟩
  | k + 1 =>
      match n.onGrid tie (k + 1) with
      | some count => ⟨count, n.exponent + (k + 1 : Nat)⟩
      | none => n.search tie k

end Neighbourhood

/-- The shortest decimal that reads back as a finite magnitude, without zeros
at its end.  Zero is the digit zero. -/
def Binary.shortest {f : Format} (tie : Tie) (x : Binary f) : Scientific :=
  if x.index = 0 then ⟨0, 0⟩
  else
    let n := Neighbourhood.of x
    let size := (Nat.toDigits 10 n.center).length
    let found := n.search tie (size - 1)
    Scientific.trim found.digits found.exponent size

end ConstantFlow
