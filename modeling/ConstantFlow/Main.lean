import ConstantFlow.Command.Run

/-!
# The command

Reads the arguments and carries out the request on the files and the standard
output of the process.  The log goes to standard output as far as its level is
asked for.  In parallel mode nothing is traced.  The exit code is zero on success
and one otherwise.
-/

open ConstantFlow

namespace ConstantFlow.Command

/-- Whether an action could be carried out. -/
def succeeds (action : IO Unit) : IO Bool := do
  try
    action
    return true
  catch _ =>
    return false

/-- The content of a file, if it can be read. -/
def readFile (path : String) : IO (Option ByteArray) := do
  try
    return some (← IO.FS.readBinFile path)
  catch _ =>
    return none

/-- Prints an entry of the log if it is asked for. -/
def printEntry (mode : Mode) (verbosity : Nat) (entry : LogEntry) : IO Unit := do
  if entry.level.shownAt verbosity ∧ (mode = .sequential ∨ entry.level ≠ .trace) then
    IO.println ("[" ++ entry.level.text ++ "] " ++ entry.text)

/-- The system of a process. -/
def process (mode : Mode) (verbosity : Nat) : System IO where
  read := readFile
  create path := succeeds (IO.FS.writeFile path "")
  write path text := succeeds (IO.FS.writeFile path text)
  say := printEntry mode verbosity
  print text := IO.println text

/-- Carries out a run and gives its exit code. -/
def perform (options : Options) : IO UInt32 := do
  let mode := Mode.ofSetting (← IO.getEnv "CPROP_PARALLEL")
  match ← (run (process mode options.verbosity) mode options).run with
  | .ok () => return 0
  | .error e =>
      IO.eprintln ("Error: " ++ e.message)
      return 1

end ConstantFlow.Command

/-- Carries out the request of the arguments. -/
def main (arguments : List String) : IO UInt32 := do
  match Command.request arguments with
  | .version =>
      IO.println Command.version
      return 0
  | .usage =>
      IO.eprintln "usage: cprop-engine [-v]... [-o FILE] [-p NAME...] INPUT"
      return 1
  | .analyze options => Command.perform options
