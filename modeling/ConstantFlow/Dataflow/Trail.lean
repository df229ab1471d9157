import ConstantFlow.Dataflow.Solver
import ConstantFlow.Trace

/-!
# The trail of a run

A run is traced in a scope named for its direction and its procedure.  Each
visit that changed a fact is an event, and the number of visits is told when
the run settles.
-/

namespace ConstantFlow

variable {V : Type} [Domain V]

/-- The title of a run. -/
def Analysis.title (a : Analysis V) (p : Procedure) : String :=
  a.direction.text ++ " " ++ p.name

/-- The event of a visit that changed a fact. -/
def Visit.event (v : Visit V) : String := v.node.text ++ " changed: " ++ v.behind.debug

/-- The log of a run that settles, in a scope of the given level. -/
def Analysis.trail (a : Analysis V) (p : Procedure) (level : Nat) : List LogEntry :=
  let visits := (a.run p).visits
  let title := a.title p
  let events := (visits.filter Visit.changed).map fun v =>
    ⟨.trace, Trace.eventLine level v.event⟩
  ⟨.trace, Trace.openLine level title⟩ :: events ++
    [⟨.debug, "[" ++ p.name ++ "] " ++ a.direction.text ++ " fixedpoint reached after " ++
        toString visits.length ++ " visits"⟩,
      ⟨.trace, Trace.closeLine level title⟩]

end ConstantFlow
