/-!
# Abstract values

A *domain* is what an analysis says of one variable at one point.  Values meet
where paths join, `bottom` says that no path has arrived and is neutral for
`meet`, and `top` says that nothing is known and absorbs.

The flat domain of constants has three layers.

* `undefined` is the bottom.
* `constant k` says the variable holds `k` on every path.
* `unknown` is the top: two different constants meet in it.

The domain of marks has two points, `no` below `yes`.  Its meet is
disjunction, so a mark survives if some path carries it.
-/

namespace ConstantFlow

/-! ## Domains -/

/-- A domain of abstract values. -/
class Domain (V : Type) where
  /-- The least value, of a point that no path has reached. -/
  bottom : V
  /-- The greatest value, of which nothing is known. -/
  top : V
  /-- The value where two paths join. -/
  meet : V → V → V
  /-- How two values compare, if they do. -/
  order : V → V → Option Ordering
  /-- How a value is shown in a log. -/
  debug : V → String

/-! ## Constants -/

/-- What is known of an int variable. -/
inductive Value
  /-- No definition has reached the point. -/
  | undefined
  /-- The same value on every path. -/
  | constant (value : Int32)
  /-- Not a constant. -/
  | unknown
deriving DecidableEq

namespace Value

/-- Whether no definition has reached the point. -/
def isUndefined : Value → Bool
  | .undefined => true
  | _ => false

/-- Whether the value is a known constant. -/
def isConstant : Value → Bool
  | .constant _ => true
  | _ => false

/-- Whether the value is known not to be a constant. -/
def isUnknown : Value → Bool
  | .unknown => true
  | _ => false

/-- The constant, if there is one. -/
def constant? : Value → Option Int32
  | .constant value => some value
  | _ => none

/-- The value where two paths join. -/
def meet : Value → Value → Value
  | .unknown, _ | _, .unknown => .unknown
  | .undefined, b => b
  | a, .undefined => a
  | .constant a, .constant b => if a = b then .constant a else .unknown

/-- How two values compare: different constants do not. -/
def order : Value → Value → Option Ordering
  | .undefined, .undefined | .unknown, .unknown => some .eq
  | .undefined, _ | _, .unknown => some .lt
  | _, .undefined | .unknown, _ => some .gt
  | .constant a, .constant b => if a = b then some .eq else none

/-- The text of a value in a report. -/
def text : Value → String
  | .undefined => "UNDEF"
  | .constant value => toString value.toInt
  | .unknown => "NAC"

/-- The text of a value in a log. -/
def debug : Value → String
  | .undefined => "Undefined"
  | .constant value => "Constant(" ++ toString value.toInt ++ ")"
  | .unknown => "Nac"

instance : Domain Value where
  bottom := .undefined
  top := .unknown
  meet := meet
  order := order
  debug := debug

end Value

/-! ## Marks -/

/-- Whether some path carries a mark. -/
inductive Mark
  | no | yes
deriving DecidableEq

namespace Mark

/-- A mark survives a join if one side carries it. -/
def meet : Mark → Mark → Mark
  | .no, b => b
  | .yes, _ => .yes

/-- How two marks compare. -/
def order : Mark → Mark → Option Ordering
  | .no, .no | .yes, .yes => some .eq
  | .no, .yes => some .lt
  | .yes, .no => some .gt

/-- The text of a mark in a log. -/
def debug : Mark → String
  | .no => "No"
  | .yes => "Yes"

instance : Domain Mark where
  bottom := .no
  top := .yes
  meet := meet
  order := order
  debug := debug

end Mark

end ConstantFlow
