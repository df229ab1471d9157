import ConstantFlow.Command.Run
import ConstantFlow.Proofs.Json.Reading
import Mathlib.Data.List.Basic
import Mathlib.Logic.Function.Basic

/-!
# Saved reports read back

A file of reports is the indented text of their form, and every string of the form has
a text.  So the file is JSON, and to read it gives the form (`Json.parse_pretty`),
whatever the names and texts of the reports are.

The form has all that the reports have: the strings, the positions, the rows of both
maps and the order of everything.  So no two lists of reports have one form, and none
share a file.
-/

namespace ConstantFlow

open Json

/-! ## Forms of reports -/

/-- What is known is an object with a string for each name. -/
theorem Known.toJson_eq (known : Known) : Known.toJson known =
    .object (known.map fun item => (some item.1, .string (some item.2))) := by
  rw [toJson, record, List.map_map]
  rfl

/-- What is known can be told from its form. -/
theorem Known.toJson_injective : Function.Injective Known.toJson := by
  intro known known' same
  rw [toJson_eq, toJson_eq, object.injEq] at same
  refine List.map_injective_iff.2 ?_ same
  rintro ⟨name, value⟩ ⟨name', value'⟩ row
  simpa using row

/-- The report of a statement is an object with four fields. -/
theorem StmtReport.toJson_eq : StmtReport.toJson = fun s => .object
    [(some "index", .number ⟨false, s.index, [], none⟩), (some "stmt", .string (some s.stmt)),
      (some "incoming", Known.toJson s.incoming), (some "outgoing", Known.toJson s.outgoing)] :=
  rfl

/-- The report of a procedure is an object with two fields. -/
theorem Report.toJson_eq : Report.toJson = fun r => .object
    [(some "name", .string (some r.name)),
      (some "stmts", .array (r.stmts.map StmtReport.toJson))] :=
  rfl

/-- The report of a statement can be told from its form. -/
theorem StmtReport.toJson_injective : Function.Injective StmtReport.toJson := by
  rintro ⟨index, stmt, incoming, outgoing⟩ ⟨index', stmt', incoming', outgoing'⟩ same
  simp only [toJson_eq, object.injEq, List.cons.injEq, Prod.mk.injEq, number.injEq,
    Number.mk.injEq, string.injEq, Option.some.injEq, true_and, and_true] at same
  obtain ⟨rfl, rfl, before, after⟩ := same
  rw [Known.toJson_injective before, Known.toJson_injective after]

theorem Report.toJson_injective : Function.Injective Report.toJson := by
  rintro ⟨name, stmts⟩ ⟨name', stmts'⟩ same
  simp only [toJson_eq, object.injEq, array.injEq, List.cons.injEq, Prod.mk.injEq, string.injEq,
    Option.some.injEq, true_and, and_true] at same
  obtain ⟨rfl, rows⟩ := same
  rw [List.map_injective_iff.2 StmtReport.toJson_injective rows]

theorem Known.spelled_toJson (known : Known) : (Known.toJson known).Spelled := by
  rw [toJson, spelled_record]
  exact List.forall_mem_map.2 fun item _ => spelled_text item.2

theorem StmtReport.spelled_toJson (s : StmtReport) : s.toJson.Spelled := by
  simp [toJson, Known.spelled_toJson]

/-- Every string of some reports has a text. -/
theorem Report.spelled_toJson (reports : List Report) :
    (Json.array (reports.map Report.toJson)).Spelled := by
  simp [toJson, StmtReport.spelled_toJson]

/-! ## Files -/

/-- A file of reports is read as their form. -/
theorem Report.parse_file (reports : List Report) :
    Json.parse (Report.file reports) = some (.array (reports.map Report.toJson)) :=
  parse_pretty (spelled_toJson reports)

/-- A file of reports is JSON.  It reads as an array of objects with exactly the fields
that are listed here, which hold what the reports hold, in the same order.  So different
reports have different files, down to the bytes. -/
theorem Report.file_reads_back :
    (∀ reports : List Report,
      let known (rows : Known) : Json :=
        .object (rows.map fun row => (some row.1, .string (some row.2)))
      let form : Json := .array (reports.map fun r => .object
        [(some "name", .string (some r.name)),
          (some "stmts", .array (r.stmts.map fun s => .object
            [(some "index", .number ⟨false, s.index, [], none⟩),
              (some "stmt", .string (some s.stmt)),
              (some "incoming", known s.incoming),
              (some "outgoing", known s.outgoing)]))])
      Written form (Report.file reports).toList ∧
        Json.parse (Report.file reports) = some form ∧
        String.fromUTF8? (Report.file reports).toUTF8 = some (Report.file reports)) ∧
    Function.Injective fun reports => (Report.file reports).toUTF8 := by
  constructor
  · intro reports known form
    have same : .array (reports.map Report.toJson) = form := by
      simp only [Report.toJson_eq, StmtReport.toJson_eq, Known.toJson_eq, form, known]
    rw [← same]
    refine ⟨?_, parse_file reports, dif_pos (String.isValidUTF8 _)⟩
    rw [file, pretty, String.toList_ofList]
    exact written_printAt 0 _ (spelled_toJson reports)
  · intro reports others same
    have files : Report.file reports = Report.file others := String.toByteArray_inj.1 same
    have forms := (parse_file reports).symm.trans ((congrArg _ files).trans (parse_file others))
    exact List.map_injective_iff.2 Report.toJson_injective (Json.array.inj (Option.some.inj forms))

end ConstantFlow
