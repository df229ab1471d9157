import ConstantFlow.Command.Run

/-!
# Runs on given files

When the files are given, a run is a function of its record: it fails or not, and it
leaves a record.  Each part of a run is opened once here, as an equation for what it
makes of a record (`load_eq`, `save_eq`, `execute_eq`, `print_eq`), so nothing else
asks how the effects of a run are composed.
-/

namespace ConstantFlow.Command

variable {σ α β : Type} {files : Files σ} {mode : Mode} {options : Options} {program : Program}

/-- What a part of a run on given files does. -/
abbrev Effect (σ α : Type) := ExceptT Error (StateM (Record σ)) α

namespace Record

/-- A record with more entries said. -/
def saying (r : Record σ) (entries : List LogEntry) : Record σ :=
  { r with said := r.said ++ entries }

/-- A record with more texts printed. -/
def printing (r : Record σ) (texts : List String) : Record σ :=
  { r with printed := r.printed ++ texts }

theorem saying_nil (r : Record σ) : r.saying [] = r := by
  rw [saying, List.append_nil]

theorem saying_saying (r : Record σ) (entries more : List LogEntry) :
    (r.saying entries).saying more = r.saying (entries ++ more) := by
  simp only [saying, List.append_assoc]

theorem printing_nil (r : Record σ) : r.printing [] = r := by
  rw [printing, List.append_nil]

theorem printing_printing (r : Record σ) (texts more : List String) :
    (r.printing texts).printing more = r.printing (texts ++ more) := by
  simp only [printing, List.append_assoc]

end Record

/-! ## Composition -/

/-- The first failure ends a part of a run, and what follows it leaves the record
alone. -/
theorem run_bind (x : Effect σ α) (f : α → Effect σ β) (r : Record σ) :
    (x >>= f) r = match x r with
      | (.ok a, after) => f a after
      | (.error e, after) => (.error e, after) := by
  show ExceptT.bindCont f (x r).1 (x r).2 = _
  rcases x r with ⟨e | a, after⟩ <;> rfl

/-- An operation of the system does not fail. -/
theorem run_lift (x : StateM (Record σ) α) (r : Record σ) :
    (liftM x : Effect σ α) r = (.ok (x r).1, (x r).2) := rfl

/-- A computation leaves the record alone. -/
theorem run_except (x : Except Error α) (r : Record σ) : (liftM x : Effect σ α) r = (x, r) := rfl

/-- If an operation adds one element to the record, then to carry it out for each of some
elements adds them all. -/
theorem run_forM {act : α → StateM (Record σ) Unit} (add : Record σ → List α → Record σ)
    (none : ∀ r, add r [] = r) (more : ∀ r x xs, add (add r [x]) xs = add r (x :: xs))
    (one : ∀ x r, act x r = ((), add r [x])) (xs : List α) (r : Record σ) :
    (xs.forM fun x => (act x : Effect σ Unit)) r = (.ok (), add r xs) := by
  induction xs generalizing r with
  | nil =>
    rw [none]
    rfl
  | cons x rest ih =>
    rw [List.forM, run_bind, run_lift, one]
    dsimp only
    rw [ih, more]

/-- To say some entries adds them to the record. -/
theorem run_forM_say (entries : List LogEntry) (r : Record σ) :
    (entries.forM (fun entry => (files.system.say entry : Effect σ Unit)) : Effect σ Unit) r =
      (.ok (), r.saying entries) :=
  run_forM Record.saying Record.saying_nil (fun r entry => r.saying_saying [entry])
    (fun _ _ => rfl) entries r

/-! ## Parts of a run -/

/-- What loading a file makes of a record. -/
theorem load_eq (path : String) (r : Record σ) :
    load files.system path r = match Program.load (files.read path r.files) with
      | .error e => (.error e, r)
      | .ok program => (.ok program, (r.saying (program.loadLog path)).saying
          [⟨.info, "program loaded from " ++ path⟩]) := by
  rw [load, run_bind, run_lift]
  show (liftM (Program.load (files.read path r.files)) >>= _ : Effect σ Program) r = _
  rw [run_bind, run_except]
  cases Program.load (files.read path r.files) with
  | error e => rfl
  | ok program =>
    simp only [run_bind, run_forM_say]
    rfl

theorem create_eq (path : String) (r : Record σ) : files.system.create path r =
    ((files.create path r.files).1, { r with files := (files.create path r.files).2 }) := rfl

theorem write_eq (path text : String) (r : Record σ) : files.system.write path text r =
    ((files.write path text r.files).1, { r with files := (files.write path text r.files).2 }) :=
  rfl

/-- What saving reports makes of a record. -/
theorem save_eq (path : String) (made : List Report) (r : Record σ) :
    save files.system path made r =
      let created := files.create path r.files
      let written := files.write path (Report.file made) created.2
      if created.1 then
        if written.1 then
          (.ok (), Record.saying { r with files := written.2 } [Report.savedLog path])
        else (.error .reportNotWritten, { r with files := written.2 })
      else (.error .reportNotCreated, { r with files := created.2 }) := by
  rw [save, run_bind, run_lift, create_eq]
  dsimp only
  split
  · rw [run_bind, run_lift, write_eq]
    dsimp only
    split <;> rfl
  · rfl

/-- Saving stops at a file that cannot be created. -/
theorem save_of_barred {path : String} {made : List Report} {r : Record σ}
    (barred : ¬ (files.create path r.files).1 = true) : save files.system path made r =
      (.error .reportNotCreated, { r with files := (files.create path r.files).2 }) := by
  rw [save_eq]
  exact if_neg barred

/-- Saving to a file that can be created and written changes the files and says so. -/
theorem save_of_written {path : String} {made : List Report} {r : Record σ}
    (created : (files.create path r.files).1 = true)
    (written : (files.write path (Report.file made) (files.create path r.files).2).1 = true) :
    save files.system path made r = (.ok (), Record.saying
      { r with files := (files.write path (Report.file made) (files.create path r.files).2).2 }
      [Report.savedLog path]) := by
  rw [save_eq]
  dsimp only
  rw [if_pos created, if_pos written]

/-- What reporting procedures makes of a record. -/
theorem execute_eq (r : Record σ) : execute files.system mode options program r =
    let r := r.saying (program.reportLog options.procedures)
    match program.report mode options.procedures with
    | .error e => (.error e, r)
    | .ok made =>
        match options.output with
        | none => (.ok made, r)
        | some path =>
            match save files.system path made r with
            | (.error e, after) => (.error e, after)
            | (.ok (), after) => (.ok made, after) := by
  rw [execute, run_bind, run_forM_say]
  dsimp only
  rw [run_bind, run_except]
  cases program.report mode options.procedures with
  | error e => rfl
  | ok made =>
    cases options.output with
    | none => rfl
    | some path =>
      simp only [run_bind]
      rcases save files.system path made _ with ⟨e | done, after⟩ <;> rfl

section Execute

variable {made : List Report} {r after : Record σ} {path : String} {e : Error}

/-- A request that fails says what it does and changes no file. -/
theorem execute_of_error (failed : program.report mode options.procedures = .error e) :
    execute files.system mode options program r =
      (.error e, r.saying (program.reportLog options.procedures)) := by
  rw [execute_eq, failed]

/-- Without a report file, a request that has its reports changes no file. -/
theorem execute_unsaved (reported : program.report mode options.procedures = .ok made)
    (unasked : options.output = none) : execute files.system mode options program r =
      (.ok made, r.saying (program.reportLog options.procedures)) := by
  rw [execute_eq, reported]
  simp only [unasked]

theorem execute_saved (reported : program.report mode options.procedures = .ok made)
    (asked : options.output = some path)
    (saved : save files.system path made (r.saying (program.reportLog options.procedures)) =
      (.ok (), after)) : execute files.system mode options program r = (.ok made, after) := by
  rw [execute_eq, reported]
  simp only [asked, saved]

theorem execute_of_unsaved (reported : program.report mode options.procedures = .ok made)
    (asked : options.output = some path)
    (failed : save files.system path made (r.saying (program.reportLog options.procedures)) =
      (.error e, after)) : execute files.system mode options program r = (.error e, after) := by
  rw [execute_eq, reported]
  simp only [asked, failed]

end Execute

/-- What printing reports makes of a record. -/
theorem print_eq (made : List Report) (r : Record σ) :
    (made.forM (fun report => (files.system.print report.text : Effect σ Unit)) :
      Effect σ Unit) r = (.ok (), r.printing (made.map Report.text)) :=
  run_forM (fun r made => r.printing (made.map Report.text)) Record.printing_nil
    (fun r report rest => r.printing_printing [report.text] (rest.map Report.text))
    (fun _ _ => rfl) made r

/-- A run that cannot load the program ends there. -/
theorem Files.run_of_load_error {s : σ} {e : Error}
    (failed : Program.load (files.read options.input s) = .error e) :
    files.run mode options s = (.error e, ⟨s, [], []⟩) := by
  show Command.run files.system mode options ⟨s, [], []⟩ = _
  rw [Command.run, run_bind, load_eq]
  simp only [failed]

/-- A run that loads the program has printed nothing and changed no file before it is
carried out. -/
theorem Files.run_of_load (mode : Mode) {s : σ}
    (loaded : Program.load (files.read options.input s) = .ok program) :
    ∃ r : Record σ, r.files = s ∧ r.printed = [] ∧ files.run mode options s =
      match execute files.system mode options program r with
      | (.error e, after) => (.error e, after)
      | (.ok made, after) => (.ok (), after.printing (made.map Report.text)) := by
  refine ⟨Record.saying (Record.saying ⟨s, [], []⟩ (program.loadLog options.input))
    [⟨.info, "program loaded from " ++ options.input⟩], rfl, rfl, ?_⟩
  show Command.run files.system mode options ⟨s, [], []⟩ = _
  rw [Command.run, run_bind, load_eq]
  simp only [loaded]
  rw [run_bind]
  split
  · next made after executed =>
    rw [executed]
    exact print_eq made after
  · next e after executed => rw [executed]

end ConstantFlow.Command
