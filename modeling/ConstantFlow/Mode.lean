/-!
# Modes

Procedures are analysed one after the other, or in parallel.  In parallel each
is analysed whatever comes of the others, and nothing is traced, since the
lines of several runs would have no order.  What is found is the same.
-/

namespace ConstantFlow

/-- How several procedures are analysed. -/
inductive Mode
  | sequential | parallel
deriving DecidableEq

namespace Mode

/-- The mode that a setting asks for: `1` asks for the parallel one. -/
def ofSetting (setting : Option String) : Mode :=
  if setting = some "1" then .parallel else .sequential

/-- The results of some independent tasks, or the first failure among them. -/
def collect {ε α β : Type} (mode : Mode) (task : α → Except ε β) (inputs : List α) :
    Except ε (List β) :=
  match mode with
  | .sequential => inputs.mapM task
  | .parallel => (inputs.map task).mapM id

end Mode

end ConstantFlow
