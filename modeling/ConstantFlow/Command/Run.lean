import ConstantFlow.Command.Options
import ConstantFlow.Program.Load
import ConstantFlow.Report.Build

/-!
# Runs of the command

A run loads the input file, reports the procedures that are asked for, saves
the reports if a report file is asked for, and prints them.  The first failure
ends it: then nothing is printed, and no file is touched unless all reports
were made before.

What a run does to the system that it runs on is five operations, which are a
parameter (`System`).  The command gives them by its input and output.  Here the
files are given instead (`Files`), and what is printed and said is collected in
a record (`Files.system`), so the outcome of a run is a value.
-/

namespace ConstantFlow.Command

/-! ## Systems -/

/-- What a run does to the system that it runs on. -/
structure System (m : Type → Type) where
  /-- The content of a file, if it can be read. -/
  read : String → m (Option ByteArray)
  /-- Creates a file, or empties the one that is there, and says whether it could. -/
  create : String → m Bool
  /-- Writes a text to a file that was created, and says whether it could. -/
  write : String → String → m Bool
  /-- Says an entry of the log. -/
  say : LogEntry → m Unit
  /-- Prints a text and ends its last line. -/
  print : String → m Unit

/-! ## Runs -/

section Run

variable {m : Type → Type} [Monad m] (system : System m)

/-- Loads the program of a file. -/
def load (path : String) : ExceptT Error m Program := do
  let program ← Program.load (← system.read path)
  (program.loadLog path).forM fun entry => system.say entry
  system.say ⟨.info, "program loaded from " ++ path⟩
  return program

/-- Saves reports to a file. -/
def save (path : String) (made : List Report) : ExceptT Error m Unit := do
  if ← system.create path then
    if ← system.write path (Report.file made) then system.say (Report.savedLog path)
    else throw .reportNotWritten
  else throw .reportNotCreated

/-- Reports the procedures of a program that are asked for, and saves the reports if
a file is asked for. -/
def execute (mode : Mode) (options : Options) (program : Program) :
    ExceptT Error m (List Report) := do
  (program.reportLog options.procedures).forM fun entry => system.say entry
  let made ← program.report mode options.procedures
  if let some path := options.output then save system path made
  return made

/-- A run of the command. -/
def run (mode : Mode) (options : Options) : ExceptT Error m Unit := do
  let program ← load system options.input
  let made ← execute system mode options program
  made.forM fun report => system.print report.text

end Run

/-! ## Given files -/

/-- The files of a system whose states are `σ`. -/
structure Files (σ : Type) where
  /-- The content of the file at a path, if it can be read. -/
  read : String → σ → Option ByteArray
  /-- Whether a file can be created at a path, and the state after that. -/
  create : String → σ → Bool × σ
  /-- Whether a text can be written to the file at a path, and the state after that. -/
  write : String → String → σ → Bool × σ

/-- A state of the files with what has been printed and said. -/
structure Record (σ : Type) where
  /-- The state of the files. -/
  files : σ
  /-- The texts that were printed, in order. -/
  printed : List String
  /-- The entries that were said, in order. -/
  said : List LogEntry

variable {σ : Type}

/-- A step of the files alone. -/
def Record.step {α : Type} (change : σ → α × σ) : StateM (Record σ) α := fun r =>
  let (answer, after) := change r.files
  (answer, { r with files := after })

/-- The system that has the given files and keeps a record. -/
def Files.system (files : Files σ) : System (StateM (Record σ)) where
  read path := Record.step fun s => (files.read path s, s)
  create path := Record.step (files.create path)
  write path text := Record.step (files.write path text)
  say entry := modify fun r => { r with said := r.said ++ [entry] }
  print text := modify fun r => { r with printed := r.printed ++ [text] }

/-- Whether a run on given files fails, and the record that it leaves. -/
def Files.run (files : Files σ) (mode : Mode) (options : Options) (s : σ) :
    Except Error Unit × Record σ :=
  Command.run files.system mode options ⟨s, [], []⟩

/-- The version of the command. -/
def version : String := "cprop-engine 0.1.0"

end ConstantFlow.Command
