import ConstantFlow.Json.Printer

/-!
# Reports

A report of a procedure lists its statements with what is known before and
after each: a map from names to texts of values, ascending by name.

It has two forms.

* The text shows, below the name of the procedure, a line for each statement
  with what is known after it.
* The file is JSON, indented, an array with a record for each procedure.
-/

namespace ConstantFlow

/-- What is known of some variables, by name. -/
abbrev Known := List (String × String)

/-- What is known around one statement. -/
structure StmtReport where
  /-- The position of the statement. -/
  index : Nat
  /-- Its text. -/
  stmt : String
  /-- What is known before it. -/
  incoming : Known
  /-- What is known after it. -/
  outgoing : Known
deriving DecidableEq

/-- What is known in one procedure. -/
structure Report where
  /-- The name of the procedure. -/
  name : String
  /-- Its statements, in order. -/
  stmts : List StmtReport
deriving DecidableEq

/-! ## Text -/

/-- The text of what is known. -/
def Known.text (known : Known) : String :=
  "\x7b" ++ ", ".intercalate (known.map fun item => item.1 ++ "=" ++ item.2) ++ "\x7d"

/-- The line of a statement. -/
def StmtReport.text (s : StmtReport) : String :=
  "  [" ++ toString s.index ++ "] " ++ s.stmt ++ " " ++ Known.text s.outgoing

/-- The text of a report. -/
def Report.text (r : Report) : String :=
  "\n".intercalate (r.name :: r.stmts.map StmtReport.text)

/-! ## File -/

/-- What is known, as an object. -/
def Known.toJson (known : Known) : Json :=
  .record (known.map fun item => (item.1, .text item.2))

/-- The record of a statement. -/
def StmtReport.toJson (s : StmtReport) : Json :=
  .record [("index", .nat s.index), ("stmt", .text s.stmt),
    ("incoming", Known.toJson s.incoming), ("outgoing", Known.toJson s.outgoing)]

/-- The record of a procedure. -/
def Report.toJson (r : Report) : Json :=
  .record [("name", .text r.name), ("stmts", .array (r.stmts.map StmtReport.toJson))]

/-- The text of a file of reports. -/
def Report.file (reports : List Report) : String :=
  (Json.array (reports.map Report.toJson)).pretty

end ConstantFlow
