/-!
# Binary floating-point numbers

A *format* says how many bits a significand has and how wide the exponent is.
The magnitudes of a format, from zero up to infinity, are numbered `0, 1, 2, …`
in increasing order, and a number is a sign with the index of its magnitude.

* The first `2 ^ precision` indices count the multiples of the smallest step.
* From there on each block of `2 ^ (precision - 1)` indices has a step twice as
  long as the block before.
* The index after the largest finite magnitude is infinity.

An index is even exactly when its significand is even, so "round half to even"
is a rule on indices.  Rounding is exact arithmetic on natural numbers: a
quotient is cut to the step that its size calls for, and the remainder decides.
No number here is "not a number", since no text denotes one.
-/

namespace ConstantFlow

/-! ## Powers -/

/-- A power of two. -/
def twoTo (k : Nat) : Nat := Nat.pow 2 k

/-- A power of ten. -/
def tenTo (k : Nat) : Nat := Nat.pow 10 k

/-! ## Formats -/

/-- The sizes of a binary floating-point format. -/
structure Format where
  /-- Bits of a significand, the leading one included. -/
  precision : Nat
  /-- Bits of the exponent. -/
  exponentBits : Nat
deriving DecidableEq

/-- The format of 32 bits. -/
def Format.single : Format := ⟨24, 8⟩

/-- The format of 64 bits. -/
def Format.double : Format := ⟨53, 11⟩

namespace Format

/-- How many indices share one step, above the first block. -/
def block (f : Format) : Nat := twoTo (f.precision - 1)

/-- The power of two that is the smallest step. -/
def minStep (f : Format) : Int := 3 - (twoTo (f.exponentBits - 1) : Int) - f.precision

/-- The index of infinity. -/
def infinity (f : Format) : Nat := (twoTo f.exponentBits - 1) * f.block

end Format

/-! ## Numbers -/

/-- A number of the format `f`: a sign and the index of a magnitude. -/
structure Binary (f : Format) where
  /-- Whether the sign is a minus.  Zero has both signs. -/
  negative : Bool
  /-- The index of the magnitude, at most that of infinity. -/
  index : Nat
deriving DecidableEq

/-- The 32-bit numbers. -/
abbrev Binary32 := Binary .single

/-- The 64-bit numbers. -/
abbrev Binary64 := Binary .double

namespace Binary

variable {f : Format}

/-- Whether the magnitude is infinity. -/
def isInfinite (x : Binary f) : Bool := f.infinity ≤ x.index

/-- The significand of a finite magnitude. -/
def significand (x : Binary f) : Nat :=
  if x.index < f.block then x.index else f.block + x.index % f.block

/-- The power of two that a finite magnitude counts in: the magnitude is
`significand * 2 ^ step`. -/
def step (x : Binary f) : Int :=
  f.minStep + ((x.index / f.block - 1 : Nat) : Int)

/-- Whether the magnitude below is only half a step away, which is so at the
start of every block but the first two. -/
def startsBlock (x : Binary f) : Bool :=
  x.index % f.block == 0 && 2 * f.block ≤ x.index

/-! ## Rounding -/

/-- The whole number nearest to `num / den`, a half going to the even one. -/
def roundHalfEven (num den : Nat) : Nat :=
  let low := num / den
  let rest := num % den
  if 2 * rest < den then low
  else if 2 * rest > den then low + 1
  else low + low % 2

/-- `num / den` counted in steps of `2 ^ step`, as a quotient of naturals. -/
def scaled (num den : Nat) : Int → Nat × Nat
  | .ofNat k => (num, den * twoTo k)
  | .negSucc k => (num * twoTo (k + 1), den)

/-- The step that the size of `num / den` calls for: the count of steps has at
most `precision` bits, and exactly that many unless the step is the smallest. -/
def stepFor (f : Format) (num den : Nat) : Int :=
  let guess : Int := (Nat.log2 num : Int) - Nat.log2 den - f.precision
  let guess := max guess f.minStep
  let (n, d) := scaled num den guess
  if n / d < twoTo f.precision then guess else guess + 1

/-- The index of the magnitude nearest to `num / den`. -/
def indexOfRatio (f : Format) (num den : Nat) : Nat :=
  let step := stepFor f num den
  let (n, d) := scaled num den step
  min f.infinity ((step - f.minStep).toNat * f.block + roundHalfEven n d)

/-- The number nearest to `num / den` under a sign. -/
def ofRatio (negative : Bool) (num den : Nat) : Binary f :=
  ⟨negative, if num = 0 then 0 else indexOfRatio f num den⟩

/-- The number nearest to `num / den * 2 ^ step` under a sign. -/
def ofScaled (negative : Bool) (num den : Nat) (step : Int) : Binary f :=
  let (n, d) := scaled num den (-step)
  ofRatio negative n d

/-- A number rounded to another format, its sign kept. -/
def convert {g : Format} (x : Binary f) : Binary g :=
  if x.isInfinite then ⟨x.negative, g.infinity⟩
  else ofScaled x.negative x.significand 1 x.step

/-! ## Products and quotients -/

/-- The product of two finite numbers, rounded. -/
def mul (x y : Binary f) : Binary f :=
  ofScaled (x.negative != y.negative) (x.significand * y.significand) 1 (x.step + y.step)

/-- The quotient of two finite numbers, the second not zero, rounded. -/
def div (x y : Binary f) : Binary f :=
  ofScaled (x.negative != y.negative) x.significand y.significand (x.step - y.step)

end Binary

end ConstantFlow
