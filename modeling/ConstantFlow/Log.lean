/-!
# Log entries

What an operation says about its work is a list of entries, oldest first.  An
entry has a level, and a reader asks for as much detail as it wants: `info`
alone, `debug` too, or everything.
-/

namespace ConstantFlow

/-- How detailed an entry is. -/
inductive Level
  | info | debug | trace
deriving DecidableEq

/-- An entry of a log. -/
structure LogEntry where
  /-- Its level. -/
  level : Level
  /-- What it says. -/
  text : String
deriving DecidableEq

namespace Level

/-- The name of a level. -/
def text : Level → String
  | .info => "INFO"
  | .debug => "DEBUG"
  | .trace => "TRACE"

/-- Whether a level is shown when details are asked for a number of times. -/
def shownAt (verbosity : Nat) : Level → Bool
  | .info => true
  | .debug => 1 ≤ verbosity
  | .trace => 2 ≤ verbosity

end Level

end ConstantFlow
