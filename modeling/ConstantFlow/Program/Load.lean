import ConstantFlow.Program.Check
import ConstantFlow.Source.Decode

/-!
# Loading programs

The content of a file is decoded as UTF-8, read as JSON and checked.  A file
that is missing has no content.
-/

namespace ConstantFlow

/-- The program that the content of a file denotes. -/
def Program.load (content : Option ByteArray) : Except Error Program :=
  match content.bind String.fromUTF8? with
  | none => .error .unreadable
  | some text =>
      match Source.Program.parse text with
      | none => .error .malformed
      | some program => program.check

/-- What is said when a program has been loaded from a file. -/
def Program.loadLog (program : Program) (file : String) : List LogEntry :=
  (program.procedures.flatMap fun p => Graph.log p.body p.graph) ++
    [⟨.debug, toString program.procedures.length ++ " procedure(s) loaded from " ++ file⟩]

end ConstantFlow
