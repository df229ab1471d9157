import ConstantFlow.Proofs.Known
import Mathlib

/-!
# Reports show the facts

Of a fact the report of a procedure has one entry for each variable whose value
is not undefined: the name of the variable with the text of the value
(`Procedure.Shows`).  Names and texts both say what they stand for, since no two
variables have one name and no two values one text (`Value.text_injective`).  So
a fact can be read off what is shown of it (`Procedure.Shows.eq`), and whatever
differs between two solutions around a statement shows in their reports
(`Source.Procedure.build_shows`).
-/

namespace ConstantFlow

/-! ## Texts of values -/

namespace Value

/-- The text of a constant is a number, and the others are none. -/
theorem toInt?_text (a : Value) : a.text.toInt? = a.constant?.map Int32.toInt := by
  cases a with
  | undefined => cbv
  | constant k => exact Int.toInt?_repr k.toInt
  | unknown => cbv

/-- No two values have one text. -/
theorem text_injective : Function.Injective text := by
  intro a b same
  have numbers : a.constant?.map Int32.toInt = b.constant?.map Int32.toInt := by
    rw [← toInt?_text, ← toInt?_text, same]
  cases a with
  | constant j =>
    cases b with
    | constant k => exact congrArg constant (Int32.toInt_inj.1 (Option.some.inj numbers))
    | undefined => cases numbers
    | unknown => cases numbers
  | undefined =>
    cases b with
    | constant k => cases numbers
    | undefined => rfl
    | unknown => exact absurd same (by decide)
  | unknown =>
    cases b with
    | constant k => cases numbers
    | undefined => exact absurd same (by decide)
    | unknown => rfl

end Value

namespace Procedure

variable {p : Procedure} {fact : Fact Value} {known : Known}

/-! ## Facts -/

/-- What is known of a fact shows it. -/
structure Shows (p : Procedure) (fact : Fact Value) (known : Known) : Prop where
  /-- The names ascend, so each is there once. -/
  ascending : known.Pairwise fun a b => a.1 < b.1
  /-- A variable is there with the text of its value, unless that is undefined. -/
  value : ∀ x ∈ p.vars, Ascending.lookup x.name known =
    if fact.get x.id = .undefined then none else some (fact.get x.id).text
  /-- Every name is that of a variable. -/
  named : ∀ row ∈ known, ∃ x ∈ p.vars, x.name = row.1
  /-- There are as many names as entries. -/
  size : known.length = fact.size
  /-- No value is shown as undefined. -/
  present : ∀ row ∈ known, row.2 ≠ "UNDEF"
  /-- Every entry is of a declared variable. -/
  declared : fact.Declared p

/-- A fact that is named is shown. -/
theorem Named.shows (named : p.Named) (found : p.nameFact fact = .ok known) :
    p.Shows fact known where
  ascending := pairwise_nameFact found
  value x declared := by
    split
    · next nothing =>
      refine Ascending.lookup_eq_none fun row member same => ?_
      obtain ⟨y, declared', name, present, -⟩ := (named.mem_nameFact found).1 member
      rw [named.eq_of_name declared' declared (name.trans same.symm)] at present
      exact present nothing
    · next present =>
      exact (Ascending.lookup_eq_some_iff (nodup_nameFact found)).2
        ((named.mem_nameFact found).2 ⟨x, declared, rfl, present, rfl⟩)
  named row member := by
    obtain ⟨x, declared, name, -⟩ := (named.mem_nameFact found).1 member
    exact ⟨x, declared, name⟩
  size := by
    obtain ⟨rows, all, rfl⟩ := nameFact_eq_ok.1 found
    rw [(named.perm_ofPairs all).length_eq, ← (mapM_eq_ok.1 all).length_eq]
    rfl
  present row member := by
    obtain ⟨x, -, -, present, text⟩ := (named.mem_nameFact found).1 member
    rw [← text]
    exact fun undefined => present (Value.text_injective undefined)
  declared id member := by
    obtain ⟨entry, among, rfl⟩ := List.mem_map.1 member
    obtain ⟨rows, all, -⟩ := nameFact_eq_ok.1 found
    obtain ⟨row, -, here⟩ := exists_of_mapM all among
    obtain ⟨x, declared, same, -⟩ := named.nameEntry_eq_ok.1 here
    exact ⟨x, named.var?_eq_some_iff.2 ⟨declared, same⟩⟩

/-- A fact can be read off what is shown of it. -/
theorem Shows.eq {fact' : Fact Value} (checked : p.Checked) (shows : p.Shows fact known)
    (shows' : p.Shows fact' known) : fact = fact' := by
  refine Fact.ext_get fun id => ?_
  by_cases found : ∃ x, p.var? id = some x
  · obtain ⟨x, found⟩ := found
    obtain ⟨declared, rfl⟩ := checked.var?_eq_some_iff.1 found
    have same := (shows.value x declared).symm.trans (shows'.value x declared)
    by_cases nothing : fact.get x.id = .undefined
    · by_cases nothing' : fact'.get x.id = .undefined
      · rw [nothing, nothing']
      · simp [nothing, nothing'] at same
    · by_cases nothing' : fact'.get x.id = .undefined
      · simp [nothing, nothing'] at same
      · simp only [nothing, nothing', if_false, Option.some.injEq] at same
        exact Value.text_injective same
  · have absent {f : Fact Value} (declared : f.Declared p) : f.get id = Domain.bottom := by
      by_contra present
      exact found (declared id (List.mem_map.2 ⟨_, Fact.mem_entries.2 ⟨rfl, present⟩, rfl⟩))
    rw [absent shows.declared, absent shows'.declared]

end Procedure

/-! ## Reports -/

/-- The row of a statement gives its position, its text and the facts around it. -/
structure StmtReport.Shows (row : StmtReport) (p : Procedure) (i : Nat) (stmt : Stmt Var)
    (around : Around Value) : Prop where
  /-- The position of the statement. -/
  index : row.index = i
  /-- The text of the statement. -/
  text : row.stmt = stmt.shown
  /-- The fact before it. -/
  incoming : p.Shows around.incoming row.incoming
  /-- The fact after it. -/
  outgoing : p.Shows around.outgoing row.outgoing

/-- A report has the name of a procedure and a row for each of its statements,
with the facts of a solution. -/
structure Report.Shows (r : Report) (p : Procedure) (s : Solution Value) : Prop where
  /-- The name of the procedure. -/
  name : r.name = p.name
  /-- There are as many rows as statements. -/
  length : r.stmts.length = p.body.length
  /-- Each row is about the statement at its place. -/
  stmts : ∀ i stmt, p.body[i]? = some stmt → ∃ around row,
    s.get? (.stmt i) = some around ∧ r.stmts[i]? = some row ∧ row.Shows p i stmt around

namespace Procedure.Named

variable {p : Procedure} {s : Solution Value}

/-- A row shows the statement and what the solution has around it. -/
theorem shows_row (named : p.Named) {i : Nat} {stmt : Stmt Var} {row : StmtReport}
    (made : StmtReport.ofSolution p s (stmt, i) = .ok row) :
    ∃ around, s.get? (.stmt i) = some around ∧ row.Shows p i stmt around := by
  unfold StmtReport.ofSolution at made
  dsimp only at made
  split at made
  · cases made
  · next around found =>
    obtain ⟨incoming, before, made⟩ := bind_eq_ok.1 made
    obtain ⟨outgoing, after, made⟩ := bind_eq_ok.1 made
    rw [← pure_eq_ok.1 made]
    exact ⟨around, found, rfl, rfl, named.shows before, named.shows after⟩

/-- The report of a solution shows it. -/
theorem shows_report (named : p.Named) {r : Report} (made : Report.ofSolution p s = .ok r) :
    r.Shows p s := by
  obtain ⟨rows, all, made⟩ := bind_eq_ok.1 made
  rw [← pure_eq_ok.1 made]
  obtain ⟨length, each⟩ := List.forall₂_iff_get.1 (mapM_eq_ok.1 all)
  rw [List.length_zipIdx] at length
  refine ⟨rfl, length.symm, fun i stmt at_i => ?_⟩
  obtain ⟨inside, rfl⟩ := List.getElem?_eq_some_iff.1 at_i
  have here := each i (by rwa [List.length_zipIdx]) (length ▸ inside)
  simp only [List.get_eq_getElem, List.getElem_zipIdx, Nat.zero_add] at here
  obtain ⟨around, found, shows⟩ := named.shows_row here
  exact ⟨around, _, found, List.getElem?_eq_getElem _, shows⟩

/-- Solutions with one report agree around every statement. -/
theorem get?_eq_of_report (named : p.Named) {s' : Solution Value} {r : Report} (shows : r.Shows p s)
    (shows' : r.Shows p s') {i : Nat} (inside : i < p.body.length) :
    s.get? (.stmt i) = s'.get? (.stmt i) := by
  obtain ⟨around, row, found, at_i, here⟩ := shows.stmts i _ (List.getElem?_eq_getElem inside)
  obtain ⟨around', row', found', at_i', here'⟩ :=
    shows'.stmts i _ (List.getElem?_eq_getElem inside)
  cases at_i.symm.trans at_i'
  have incoming := here.incoming.eq named.toChecked here'.incoming
  have outgoing := here.outgoing.eq named.toChecked here'.outgoing
  rw [found, found']
  cases around
  cases around'
  simp_all

end Procedure.Named

/-- Solutions that agree around every statement have one report. -/
theorem Report.ofSolution_congr {p : Procedure} {s s' : Solution Value}
    (same : ∀ i < p.body.length, s.get? (.stmt i) = s'.get? (.stmt i)) :
    Report.ofSolution p s = Report.ofSolution p s' := by
  rw [ofSolution, ofSolution, mapM_congr]
  rintro ⟨stmt, i⟩ member
  have inside := (List.getElem?_eq_some_iff.1 (List.mem_zipIdx_iff_getElem?.1 member)).1
  rw [StmtReport.ofSolution, StmtReport.ofSolution, same i inside]

/-- The report of a checked procedure shows its solution.  Two solutions that
describe the procedure have one report only if they agree around every
statement. -/
theorem Source.Procedure.build_shows {source : Source.Procedure} {p : ConstantFlow.Procedure}
    (accepted : source.check = .ok p) :
    (∃ s r, Constants.analysis.solve p = .ok s ∧ s.Describes p ∧ Report.build p = .ok r ∧
      r.Shows p s) ∧
    ∀ s s' : Solution Value, s.Describes p → s'.Describes p →
      ∃ r r', Report.ofSolution p s = .ok r ∧ Report.ofSolution p s' = .ok r' ∧
        r.Shows p s ∧ r'.Shows p s' ∧
        (r = r' ↔ ∀ i < p.body.length, s.get? (.stmt i) = s'.get? (.stmt i)) := by
  have named := Procedure.Named.of_check accepted
  constructor
  · obtain ⟨s, solved, describes⟩ := Constants.solve_describes named.toChecked
    obtain ⟨r, made⟩ := Report.ofSolution_eq_ok describes
    exact ⟨s, r, solved, describes, bind_eq_ok.2 ⟨s, solved, made⟩, named.shows_report made⟩
  · intro s s' describes describes'
    obtain ⟨r, made⟩ := Report.ofSolution_eq_ok describes
    obtain ⟨r', made'⟩ := Report.ofSolution_eq_ok describes'
    have shows := named.shows_report made
    have shows' := named.shows_report made'
    refine ⟨r, r', made, made', shows, shows', fun same i inside => ?_, fun same => ?_⟩
    · exact named.get?_eq_of_report shows (same ▸ shows') inside
    · exact Except.ok.inj (made.symm.trans ((Report.ofSolution_congr same).trans made'))

/-- The loop that counts is reported with its solution, and two solutions of it
that differ in one value after the last statement have two reports. -/
theorem Source.Procedure.build_shows_counting :
    let p : ConstantFlow.Procedure := .counting
    let upTo (last : Fact Value) : Solution Value :=
      ⟨[(.stmt 0, ⟨.empty, .empty⟩), (.stmt 1, ⟨.empty, .empty⟩), (.stmt 2, ⟨.empty, .empty⟩),
        (.stmt 3, ⟨.empty, .empty⟩), (.stmt 4, ⟨.empty, last⟩)]⟩
    let five : Fact Value := .ofList [(2, .constant 5)]
    Source.Procedure.counting.check = .ok p ∧
    (∃ s r, Constants.analysis.solve p = .ok s ∧ Report.build p = .ok r ∧ r.Shows p s) ∧
    (upTo .empty).Describes p ∧ (upTo five).Describes p ∧
    ∃ r r', Report.ofSolution p (upTo .empty) = .ok r ∧ Report.ofSolution p (upTo five) = .ok r' ∧
      r ≠ r' := by
  intro p upTo five
  obtain ⟨⟨s, r, solved, -, built, shows⟩, apart⟩ := build_shows check_counting
  have describes (last : Fact Value) (declared : last.Declared p) : (upTo last).Describes p := by
    have nothing : (Fact.empty : Fact Value).Declared p := fun id member => by cases member
    intro i inside
    match i, inside with
    | 0, _ | 1, _ | 2, _ | 3, _ => exact ⟨_, rfl, nothing, nothing⟩
    | 4, _ => exact ⟨_, rfl, nothing, declared⟩
  have quiet := describes .empty fun id member => by cases member
  have loud := describes five fun id member => by
    rw [show five.keys = [2] by decide, List.mem_singleton] at member
    subst member
    exact ⟨_, rfl⟩
  obtain ⟨r, r', made, made', -, -, same⟩ := apart _ _ quiet loud
  refine ⟨check_counting, ⟨s, _, solved, built, shows⟩, quiet, loud, r, r', made, made', ?_⟩
  intro equal
  have last : some (Around.mk .empty .empty) = some (Around.mk .empty five) :=
    same.1 equal 4 (by decide)
  have facts : Fact.empty = five := congrArg Around.outgoing (Option.some.inj last)
  exact absurd facts (by decide)

end ConstantFlow
