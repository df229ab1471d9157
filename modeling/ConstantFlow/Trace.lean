import ConstantFlow.Log

/-!
# Nested traces

Work is traced in *scopes*.  A scope has a title and a level, and its lines are
indented by two spaces for each level: one line when it opens, one for each
event in it and one when it closes.  Scopes are told apart by a number, given
out in the order in which they open.

The depth says at which level the next scope opens.  Opening takes the depth
for the level of the scope and raises it by one.  Closing sets the depth back
to that level, whatever it has become: scopes may close in any order.

Where each scope that closes is the last one opened, the depth counts the open
scopes, and a line is indented by the scopes around it.
-/

namespace ConstantFlow.Trace

/-! ## Lines -/

/-- The indentation of a level. -/
def indent (level : Nat) : String := String.ofList (List.replicate (2 * level) ' ')

/-- The line of a scope that opens. -/
def openLine (level : Nat) (title : String) : String := indent level ++ "-> " ++ title

/-- The line of an event in a scope. -/
def eventLine (level : Nat) (event : String) : String := indent level ++ " " ++ event

/-- The line of a scope that closes. -/
def closeLine (level : Nat) (title : String) : String := indent level ++ "<- " ++ title

/-! ## Nesting -/

/-- A scope that is open. -/
structure Scope where
  /-- Its number. -/
  number : Nat
  /-- Its title. -/
  title : String
  /-- Its level. -/
  level : Nat
deriving DecidableEq

/-- The scopes that are open, and the depth. -/
structure Nesting where
  /-- The level of the next scope. -/
  depth : Nat
  /-- The number of the next scope. -/
  opened : Nat
  /-- The open scopes, newest first. -/
  scopes : List Scope
deriving DecidableEq

/-- What is done to a scope. -/
inductive Action
  /-- A scope opens. -/
  | start (title : String)
  /-- Something happens in a scope. -/
  | event (number : Nat) (text : String)
  /-- A scope closes. -/
  | finish (number : Nat)
deriving DecidableEq

namespace Nesting

/-- No scope has been opened, and the first one has the given level. -/
def initial (depth : Nat) : Nesting := ⟨depth, 0, []⟩

/-- The open scope of a number. -/
def find? (n : Nesting) (number : Nat) : Option Scope :=
  n.scopes.find? fun scope => scope.number == number

/-- The open scopes but that of a number. -/
def others (n : Nesting) (number : Nat) : List Scope :=
  n.scopes.filter fun scope => scope.number ≠ number

/-- The nesting after an action, and the line that it writes.  An event in a
scope that is not open, or its closing, does nothing. -/
def step (n : Nesting) : Action → Nesting × Option String
  | .start title =>
      (⟨n.depth + 1, n.opened + 1, ⟨n.opened, title, n.depth⟩ :: n.scopes⟩,
        some (openLine n.depth title))
  | .event number text =>
      (n, (n.find? number).map fun scope => eventLine scope.level text)
  | .finish number =>
      match n.find? number with
      | none => (n, none)
      | some scope =>
          (⟨scope.level, n.opened, n.others number⟩, some (closeLine scope.level scope.title))

/-- The nesting after some actions, and the line of each. -/
def run (n : Nesting) : List Action → Nesting × List (Option String)
  | [] => (n, [])
  | action :: rest =>
      let (after, line) := n.step action
      let (last, lines) := after.run rest
      (last, line :: lines)

end Nesting

/-! ## Examples -/

/-- The outer scope closes first, and the inner one keeps its level. -/
example : ((Nesting.initial 0).run [.start "a", .start "b", .finish 0, .finish 1]).2 =
    [some "-> a", some "  -> b", some "<- a", some "  <- b"] := by decide

end ConstantFlow.Trace
