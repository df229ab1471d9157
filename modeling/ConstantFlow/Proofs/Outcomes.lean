import ConstantFlow.Proofs.Reporting
import ConstantFlow.Proofs.Saved
import ConstantFlow.Proofs.Source.Format

/-!
# What runs leave behind

A run of the command goes through its steps in a fixed order: it reads the input
file, reads it as a program, checks the program, looks up the procedures that
are asked for, reports them, and creates the report file.  Only the reporting
cannot fail, because the program has been checked (`Report.build_eq_ok`).

So a run succeeds exactly if each of the other steps does (`Succeeds`), and it
fails with the first that does not (`Fails`).  Nothing is written before the
report file can be created, and nothing is printed before it has been written.
A run that succeeds prints the reports in the order of the program and writes
the same reports to the report file, if one is asked for (`Answers`).  A run that
fails prints nothing and, as long as it does not ask for the report file, leaves the
files as they were.

The files are those of any system.  All that is asked of them is that the report file,
once it could be created, takes what is written to it and holds it (`Files.Faithful`).  What
the input file and the report file hold is told by the formats of programs and of
JSON, and not by how the command reads and writes them.
-/

namespace ConstantFlow

/-! ## Names of procedures -/

namespace Program

/-- Whether a program has a procedure of a name. -/
def Has (program : Program) (name : String) : Prop := ∃ p ∈ program.procedures, p.name = name

/-- The procedures of some names in the order of the program, or all procedures if
there are no names. -/
def asked (program : Program) (names : List String) : List Procedure :=
  program.procedures.filter fun p => names = [] ∨ p.name ∈ names

variable {program : Program} {names : List String} {name : String}

theorem find?_isSome_iff : (program.find? name).isSome ↔ program.Has name := by
  simp [find?, Has]

theorem find?_isNone_iff : (program.find? name).isNone ↔ ¬ program.Has name := by
  rw [← find?_isSome_iff, Option.isNone_iff_eq_none, Option.not_isSome_iff_eq_none]

/-- Either a program has each of some names, or there is a first one that it
does not have. -/
theorem has_or_first (program : Program) (names : List String) :
    (∀ name ∈ names, program.Has name) ∨ ∃ before name later, names = before ++ name :: later ∧
      (∀ earlier ∈ before, program.Has earlier) ∧ ¬ program.Has name := by
  cases found : names.find? fun name => (program.find? name).isNone with
  | none =>
    refine .inl fun name member => not_not.1 fun absent => ?_
    exact List.find?_eq_none.1 found name member (find?_isNone_iff.2 absent)
  | some name =>
    obtain ⟨absent, before, later, rfl, known⟩ := List.find?_eq_some_iff_append.1 found
    refine .inr ⟨before, name, later, rfl, fun earlier member => ?_, find?_isNone_iff.1 absent⟩
    have present := known earlier member
    rwa [Option.not_isNone, find?_isSome_iff] at present

/-- A request for procedures of the program selects those that it asks for. -/
theorem select_eq_ok (known : ∀ name ∈ names, program.Has name) :
    program.select names = .ok (program.asked names) := by
  have none : names.find? (fun name => (program.find? name).isNone) = none :=
    List.find?_eq_none.2 fun name member absent => find?_isNone_iff.1 absent (known name member)
  rw [select, none]
  cases names <;> simp [asked]

/-- A request fails with the first name that the program does not have. -/
theorem select_eq_error {before later : List String}
    (known : ∀ earlier ∈ before, program.Has earlier) (absent : ¬ program.Has name) :
    program.select (before ++ name :: later) = .error (.noSuchProcedure name) := by
  have first : (before ++ name :: later).find? (fun name => (program.find? name).isNone) =
      some name := by
    refine List.find?_eq_some_iff_append.2 ⟨find?_isNone_iff.2 absent, before, later, rfl, ?_⟩
    intro earlier member
    rw [Option.not_isNone, find?_isSome_iff]
    exact known earlier member
  rw [select, first]

end Program

/-- Several tasks give the results of each, in order. -/
theorem Mode.collect_eq_ok {ε α β : Type} (mode : Mode) {task : α → Except ε β} {inputs : List α}
    {outputs : List β} (each : List.Forall₂ (fun x y => task x = .ok y) inputs outputs) :
    mode.collect task inputs = .ok outputs := by
  rw [mode.collect_eq]
  exact mapM_eq_ok.2 each

/-! ## Files -/

/-- The content of a file is a text if it is the text in UTF-8. -/
theorem fromUTF8?_eq_some_iff {content : ByteArray} {text : String} :
    String.fromUTF8? content = some text ↔ content = text.toUTF8 := by
  constructor
  · intro decoded
    unfold String.fromUTF8? at decoded
    split at decoded
    · cases decoded
      rfl
    · cases decoded
  · rintro rfl
    exact dif_pos (String.isValidUTF8 text)

namespace Command

/-- If a file can be created at a path, it takes and holds what is written to it. -/
structure Files.Faithful {σ : Type} (files : Files σ) (s : σ) (path : String) : Prop where
  /-- The file that was created can be written. -/
  writes : (files.create path s).1 = true → ∀ text,
    (files.write path text (files.create path s).2).1 = true
  /-- It then holds what was written. -/
  keeps : (files.create path s).1 = true → ∀ text,
    files.read path (files.write path text (files.create path s).2).2 = some text.toUTF8

variable {σ : Type} (files : Files σ) (s : σ)

/-- A file can be read, and it holds some text. -/
def Holds (path text : String) : Prop := files.read path s = some text.toUTF8

/-- A file can be created at a path. -/
def CanCreate (path : String) : Prop := (files.create path s).1 = true

/-! ## Outcomes -/

/-- The input file describes a program, and checking accepts it. -/
def Loads (options : Options) (program : Program) : Prop :=
  ∃ text source, Holds files s options.input text ∧ Source.Described text source ∧
    source.check = .ok program

/-- Why a run fails: the first of its steps that does. -/
inductive Fails (options : Options) : Error → Prop
  /-- The input file cannot be read, or it is not text. -/
  | unreadable (none : ∀ text, ¬ Holds files s options.input text) : Fails options .unreadable
  /-- The text describes no program. -/
  | malformed {text : String} (holds : Holds files s options.input text)
      (rejected : ∀ source, ¬ Source.Described text source) : Fails options .malformed
  /-- Checking fails. -/
  | refused {text : String} {source : Source.Program} {e : Error}
      (holds : Holds files s options.input text) (described : Source.Described text source)
      (failed : source.check = .error e) : Fails options e
  /-- A procedure is asked for that the program does not have, after some that it
  has. -/
  | unknown {program : Program} {before later : List String} {name : String}
      (loads : Loads files s options program) (names : options.procedures = before ++ name :: later)
      (known : ∀ earlier ∈ before, program.Has earlier) (absent : ¬ program.Has name) :
      Fails options (.noSuchProcedure name)
  /-- The report file cannot be created. -/
  | notCreated {program : Program} {path : String} (loads : Loads files s options program)
      (known : ∀ name ∈ options.procedures, program.Has name)
      (asked : options.output = some path) (barred : ¬ CanCreate files s path) :
      Fails options .reportNotCreated

/-- Every step of a run can be taken. -/
def Succeeds (options : Options) : Prop :=
  ∃ program, Loads files s options program ∧ (∀ name ∈ options.procedures, program.Has name) ∧
    ∀ path, options.output = some path → CanCreate files s path

/-- The text that shows a report: its name, and below it a line for each statement with
its position, its text and what is known after it. -/
def shown (r : Report) : String :=
  "\n".intercalate (r.name :: r.stmts.map fun stmt =>
    "  [" ++ toString stmt.index ++ "] " ++ stmt.stmt ++ " " ++
      ("\x7b" ++ ", ".intercalate (stmt.outgoing.map fun row => row.1 ++ "=" ++ row.2) ++ "\x7d"))

/-- What is known around a statement as JSON: an object with a string for each name. -/
def listedKnown (rows : Known) : Json :=
  .object (rows.map fun row => (some row.1, .string (some row.2)))

/-- Some reports as JSON: an array with an object for each. -/
def listed (made : List Report) : Json :=
  .array (made.map fun r => .object
    [(some "name", .string (some r.name)),
      (some "stmts", .array (r.stmts.map fun stmt => .object
        [(some "index", .number ⟨false, stmt.index, [], none⟩),
          (some "stmt", .string (some stmt.stmt)),
          (some "incoming", listedKnown stmt.incoming),
          (some "outgoing", listedKnown stmt.outgoing)]))])

/-- A run has the reports that were asked for, in the order of the program. -/
structure Answers (options : Options) (after : Record σ) (program : Program)
    (made : List Report) : Prop where
  /-- The program is that of the input file. -/
  loads : Loads files s options program
  /-- There is a report of each procedure that is asked for. -/
  built : List.Forall₂ (fun p report => Report.build p = .ok report)
    (program.asked options.procedures) made
  /-- The reports are printed. -/
  printed : after.printed = made.map shown
  /-- If no report file is asked for, no file changes. -/
  unsaved : options.output = none → after.files = s
  /-- The report file is created and written once, and then it holds the same
  reports. -/
  saved : ∀ path, options.output = some path → ∃ text : String,
    (listed made).Written text.toList ∧
      after.files = (files.write path text (files.create path s).2).2 ∧
      Holds files after.files path text

/-! ## Runs -/

variable {files s} {mode : Mode} {options : Options} {program : Program} {e : Error}

/-- A report is shown as it is printed. -/
theorem text_eq_shown : Report.text = shown := rfl

/-- The file of some reports is written as JSON of these. -/
theorem written_file (made : List Report) : (listed made).Written (Report.file made).toList := by
  have same : .array (made.map Report.toJson) = listed made := by
    simp only [Report.toJson_eq, StmtReport.toJson_eq, Known.toJson_eq, listed, listedKnown]
  rw [← same, Report.file, Json.pretty, String.toList_ofList]
  exact Json.written_printAt 0 _ (Report.spelled_toJson made)

/-- A run that ends before the report file is asked for: it fails, prints nothing and
changes no file. -/
structure StopsEarly (outcome : Except Error Unit × Record σ) (s : σ) (e : Error) : Prop where
  failed : outcome.1 = .error e
  quiet : outcome.2.printed = []
  same : outcome.2.files = s

/-- A file is read as the text that it holds. -/
theorem holds_iff {path text : String} :
    (files.read path s).bind String.fromUTF8? = some text ↔ Holds files s path text := by
  rw [Option.bind_eq_some_iff]
  constructor
  · rintro ⟨content, found, decoded⟩
    rw [Holds, found, fromUTF8?_eq_some_iff.1 decoded]
  · exact fun holds => ⟨_, holds, fromUTF8?_eq_some_iff.2 rfl⟩

/-- A file that describes an accepted program is loaded. -/
theorem Loads.load_eq (h : Loads files s options program) :
    Program.load (files.read options.input s) = .ok program := by
  obtain ⟨text, source, holds, described, accepted⟩ := h
  rw [Program.load, holds_iff.2 holds]
  simp only [Source.Program.parse_eq_some_iff.2 described, accepted]

/-- A run stops early if the program cannot be loaded. -/
theorem stopsEarly_of_load (failed : Program.load (files.read options.input s) = .error e) :
    StopsEarly (files.run mode options s) s e := by
  rw [Files.run_of_load_error failed]
  exact ⟨rfl, rfl, rfl⟩

theorem stopsEarly_of_report (loaded : Program.load (files.read options.input s) = .ok program)
    (failed : program.report mode options.procedures = .error e) :
    StopsEarly (files.run mode options s) s e := by
  obtain ⟨r, rfl, quiet, same⟩ := Files.run_of_load mode loaded
  rw [same, execute_of_error failed]
  exact ⟨rfl, quiet, rfl⟩

section Reported

variable {made : List Report} (loaded : Program.load (files.read options.input s) = .ok program)
  (reported : program.report mode options.procedures = .ok made)

include loaded reported

theorem run_unsaved (unasked : options.output = none) :
    (files.run mode options s).1 = .ok () ∧
      (files.run mode options s).2.printed = made.map Report.text ∧
      (files.run mode options s).2.files = s := by
  obtain ⟨r, rfl, quiet, same⟩ := Files.run_of_load mode loaded
  rw [same, execute_unsaved reported unasked]
  refine ⟨rfl, ?_, rfl⟩
  show r.printed ++ _ = _
  rw [quiet, List.nil_append]

/-- A run that has its reports and can save them does, and then prints them. -/
theorem run_saved {path : String} (asked : options.output = some path)
    (created : (files.create path s).1 = true)
    (written : (files.write path (Report.file made) (files.create path s).2).1 = true) :
    (files.run mode options s).1 = .ok () ∧
      (files.run mode options s).2.printed = made.map Report.text ∧
      (files.run mode options s).2.files =
        (files.write path (Report.file made) (files.create path s).2).2 := by
  obtain ⟨r, rfl, quiet, same⟩ := Files.run_of_load mode loaded
  rw [same, execute_saved reported asked (save_of_written (r := r.saying _) created written)]
  refine ⟨rfl, ?_, rfl⟩
  show r.printed ++ _ = _
  rw [quiet, List.nil_append]

/-- A run whose report file cannot be created fails and prints nothing. -/
theorem run_notCreated {path : String} (asked : options.output = some path)
    (barred : ¬ (files.create path s).1 = true) :
    (files.run mode options s).1 = .error .reportNotCreated ∧
      (files.run mode options s).2.printed = [] := by
  obtain ⟨r, rfl, quiet, same⟩ := Files.run_of_load mode loaded
  rw [same, execute_of_unsaved reported asked (save_of_barred (r := r.saying _) barred)]
  exact ⟨rfl, quiet⟩

end Reported

/-- The reports can be made if the program has all procedures that are asked
for. -/
theorem Loads.exists_reports (mode : Mode) (h : Loads files s options program)
    (known : ∀ name ∈ options.procedures, program.Has name) : ∃ made,
      List.Forall₂ (fun p report => Report.build p = .ok report)
        (program.asked options.procedures) made ∧
      program.report mode options.procedures = .ok made := by
  obtain ⟨-, source, -, -, accepted⟩ := h
  have each : ∀ p ∈ program.asked options.procedures, ∃ r, Report.build p = .ok r :=
    fun p member => Report.build_eq_ok (source.checked accepted p (List.mem_filter.1 member).1)
  obtain ⟨made, all⟩ := exists_mapM_eq_ok each
  have built := mapM_eq_ok.1 all
  exact ⟨made, built, bind_eq_ok.2 ⟨_, Program.select_eq_ok known, mode.collect_eq_ok built⟩⟩

/-- A run fails as it should, prints nothing, and changes no file before it asks for the
report file. -/
theorem Fails.run_fails (mode : Mode) (h : Fails files s options e) :
    (files.run mode options s).1 = .error e ∧ (files.run mode options s).2.printed = [] ∧
      (e ≠ .reportNotCreated → (files.run mode options s).2.files = s) := by
  have early (stops : StopsEarly (files.run mode options s) s e) :
      (files.run mode options s).1 = .error e ∧ (files.run mode options s).2.printed = [] ∧
        (e ≠ .reportNotCreated → (files.run mode options s).2.files = s) :=
    ⟨stops.failed, stops.quiet, fun _ => stops.same⟩
  cases h with
  | unreadable none =>
    have absent : (files.read options.input s).bind String.fromUTF8? = .none :=
      Option.eq_none_iff_forall_ne_some.2 fun text read => none text (holds_iff.1 read)
    exact early (stopsEarly_of_load (by rw [Program.load, absent]))
  | malformed holds rejected =>
    have unparsed : Source.Program.parse _ = .none :=
      Option.eq_none_iff_forall_ne_some.2 fun source parsed =>
        rejected source (Source.Program.parse_eq_some_iff.1 parsed)
    refine early (stopsEarly_of_load ?_)
    rw [Program.load, holds_iff.2 holds]
    simp only [unparsed]
  | refused holds described failed =>
    refine early (stopsEarly_of_load ?_)
    rw [Program.load, holds_iff.2 holds]
    simp only [Source.Program.parse_eq_some_iff.2 described, failed]
  | unknown loads names known absent =>
    refine early (stopsEarly_of_report loads.load_eq ?_)
    rw [names, Program.report, Program.select_eq_error known absent]
    rfl
  | notCreated loads known asked barred =>
    obtain ⟨made, -, reported⟩ := loads.exists_reports mode known
    obtain ⟨failed, quiet⟩ := run_notCreated loads.load_eq reported asked barred
    exact ⟨failed, quiet, fun other => absurd rfl other⟩

/-- A run whose steps can all be taken has the reports that were asked for. -/
theorem Succeeds.run_answers (mode : Mode)
    (faithful : ∀ path, options.output = some path → files.Faithful s path)
    (h : Succeeds files s options) : (files.run mode options s).1 = .ok () ∧
    ∃ program made, Answers files s options (files.run mode options s).2 program made := by
  obtain ⟨program, loads, known, creates⟩ := h
  obtain ⟨made, built, reported⟩ := loads.exists_reports mode known
  cases asked : options.output with
  | none =>
    obtain ⟨success, printed, same⟩ := run_unsaved loads.load_eq reported asked
    refine ⟨success, program, made, loads, built, printed, fun _ => same, fun path given => ?_⟩
    cases asked.symm.trans given
  | some path =>
    have created := creates path asked
    have written := (faithful path asked).writes created (Report.file made)
    obtain ⟨success, printed, after⟩ := run_saved loads.load_eq reported asked created written
    refine ⟨success, program, made, loads, built, printed, fun given => ?_, fun path' given => ?_⟩
    · cases asked.symm.trans given
    · cases asked.symm.trans given
      refine ⟨Report.file made, written_file made, after, ?_⟩
      rw [after]
      exact (faithful path asked).keeps created (Report.file made)

/-- Every step can be taken, or there is a first that cannot. -/
theorem succeeds_or_fails (files : Files σ) (s : σ) (options : Options) :
    Succeeds files s options ∨ ∃ e, Fails files s options e := by
  by_cases readable : ∃ text, Holds files s options.input text
  swap
  · exact .inr ⟨_, .unreadable fun text holds => readable ⟨text, holds⟩⟩
  obtain ⟨text, holds⟩ := readable
  by_cases parsed : ∃ source, Source.Described text source
  swap
  · exact .inr ⟨_, .malformed holds fun source described => parsed ⟨source, described⟩⟩
  obtain ⟨source, described⟩ := parsed
  cases accepted : source.check with
  | error e => exact .inr ⟨e, .refused holds described accepted⟩
  | ok program =>
  have loads : Loads files s options program := ⟨text, source, holds, described, accepted⟩
  rcases program.has_or_first options.procedures with known | ⟨_, _, _, names, known, absent⟩
  swap
  · exact .inr ⟨_, .unknown loads names known absent⟩
  by_cases creates : ∀ path, options.output = some path → CanCreate files s path
  · exact .inl ⟨program, loads, known, creates⟩
  · obtain ⟨path, barred⟩ := not_forall.1 creates
    obtain ⟨asked, barred⟩ := Classical.not_imp.1 barred
    exact .inr ⟨_, .notCreated loads known asked barred⟩

/-- A run succeeds if every step can be taken, and then it has the reports that
were asked for.  Otherwise it fails with the first step that cannot, nothing is printed,
and no file has changed unless it is the report file that cannot be created. -/
theorem run_outcome (mode : Mode) (files : Files σ) (s : σ) (options : Options)
    (faithful : ∀ path, options.output = some path → files.Faithful s path) :
    ((files.run mode options s).1 = .ok () ↔ Succeeds files s options) ∧
    ((files.run mode options s).1 = .ok () →
      ∃ program made, Answers files s options (files.run mode options s).2 program made) ∧
    (∀ e, (files.run mode options s).1 = .error e ↔ Fails files s options e) ∧
    ∀ e, (files.run mode options s).1 = .error e →
      (files.run mode options s).2.printed = [] ∧
        (e ≠ .reportNotCreated → (files.run mode options s).2.files = s) := by
  rcases succeeds_or_fails files s options with succeeds | ⟨e, fails⟩
  · obtain ⟨success, answers⟩ := succeeds.run_answers mode faithful
    rw [success]
    refine ⟨⟨fun _ => succeeds, fun _ => rfl⟩, fun _ => answers, fun e => ⟨nofun, fun fails => ?_⟩,
      nofun⟩
    rw [← success, (fails.run_fails mode).1]
  · obtain ⟨failed, quiet⟩ := fails.run_fails mode
    rw [failed]
    refine ⟨⟨nofun, fun succeeds => ?_⟩, nofun, fun e' => ⟨fun same => ?_, fun fails' => ?_⟩,
      fun e' same => ?_⟩
    · rw [← failed, (succeeds.run_answers mode faithful).1]
    · cases same
      exact fails
    · rw [← failed, (fails'.run_fails mode).1]
    · cases same
      exact quiet

/-- Files in memory, with a content for each path.  One can be created at every path but
the empty one. -/
def Files.memory : Files (String → Option ByteArray) where
  read path s := s path
  create path s := (path ≠ "", if path = "" then s else Function.update s path (some ⟨#[]⟩))
  write path text s := (true, Function.update s path (some text.toUTF8))

/-- A single file, with a text. -/
def onlyFile (path text : String) : String → Option ByteArray :=
  Function.update (fun _ => none) path (some text.toUTF8)

theorem holds_onlyFile (path text : String) :
    Holds Files.memory (onlyFile path text) path text := by
  show onlyFile path text path = _
  rw [onlyFile, Function.update_self]

theorem Files.faithful_memory (s : String → Option ByteArray) (path : String) :
    Files.memory.Faithful s path :=
  ⟨fun _ _ => rfl, fun _ _ => Function.update_self path _ _⟩

/-- Of two procedures, the second is asked for.  Its report is printed, and the file that
is created holds it as JSON. -/
theorem run_outcome_saving :
    let source : Source.Program := ⟨[.dividing, .counting]⟩
    let store := onlyFile "in.json" source.text
    let options : Options := ⟨0, some "out.json", ["count"], "in.json"⟩
    Files.memory.Faithful store "out.json" ∧
    (Files.memory.run .sequential options store).1 = .ok () ∧
      ∃ (report : Report) (text : String),
        (Files.memory.run .sequential options store).2.printed = [shown report] ∧
        shown report =
          "count\n  [0] i = 0; \x7bi=0, n=NAC\x7d\n  [1] if (i >= n) goto 4; \x7bi=NAC, n=NAC\x7d" ++
            "\n  [2] i = i + 1; \x7bi=NAC, n=NAC\x7d\n  [3] goto 1; \x7bi=NAC, n=NAC\x7d" ++
            "\n  [4] k = 10 / 2; \x7bi=NAC, k=5, n=NAC\x7d" ∧
        (listed [report]).Written text.toList ∧
        Holds Files.memory (Files.memory.run .sequential options store).2.files "out.json" text := by
  intro source store options
  have described : Source.Described source.text source :=
    Source.Program.described_text (by decide) (by decide) (by decide)
  have loads : Loads Files.memory store options ⟨[.dividing, .counting]⟩ :=
    ⟨source.text, source, holds_onlyFile _ _, described, rfl⟩
  have known : ∀ name ∈ options.procedures, Program.Has ⟨[.dividing, .counting]⟩ name := by
    show ∀ name ∈ ["count"], Program.Has _ name
    unfold Program.Has
    decide
  have creates : ∀ path, options.output = some path → CanCreate Files.memory store path := by
    rintro path ⟨rfl⟩
    show decide ("out.json" ≠ "") = true
    decide
  obtain ⟨success, answers, -, -⟩ :=
    run_outcome .sequential Files.memory store options fun path _ =>
      Files.faithful_memory store path
  have succeeded := success.2 ⟨_, loads, known, creates⟩
  obtain ⟨program, made, answer⟩ := answers succeeded
  have same : program = ⟨[.dividing, .counting]⟩ :=
    Except.ok.inj (answer.loads.load_eq.symm.trans loads.load_eq)
  subst same
  have built : List.Forall₂ (fun p report => Report.build p = .ok report) [.counting] made :=
    answer.built
  obtain ⟨text, written, -, holds⟩ := answer.saved "out.json" rfl
  have printed := answer.printed
  cases built with
  | @cons _ report _ _ first rest =>
    cases rest
    have line : shown report = (match Report.build .counting with
        | .ok report => shown report
        | .error _ => "") := by
      rw [first]
    exact ⟨Files.faithful_memory store "out.json", succeeded, report, text, printed,
      line.trans (by decide +kernel), written, holds⟩

end Command

end ConstantFlow
