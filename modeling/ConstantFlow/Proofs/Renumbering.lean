import ConstantFlow.Proofs.Known
import ConstantFlow.Proofs.Dataflow.History
import ConstantFlow.Proofs.Renaming
import Mathlib.Logic.Equiv.Defs

/-!
# Renumbering variables

Facts are kept by the positions of variables.  If a permutation gives every
variable of a procedure another position, the run of constant propagation goes
through the same nodes in the same order, and at every moment each fact says of
the new position of a variable what it said of the old one
(`Constants.Reaches.renumbered`).  For this the flag of every visit has to be the
same, which holds because facts that differ still differ when they are
renumbered.

A report names its variables, so renumbering does not show in it
(`Procedure.Renumbers.build_eq`).
-/

namespace ConstantFlow

variable {σ : Equiv.Perm VarId}

/-- The variable at the position that a permutation gives it. -/
def Var.renumber (σ : Equiv.Perm VarId) (x : Var) : Var := { x with id := σ x.id }

@[simp] theorem Var.id_renumber (x : Var) : (x.renumber σ).id = σ x.id := rfl

@[simp] theorem Var.name_renumber (x : Var) : (x.renumber σ).name = x.name := rfl

@[simp] theorem Var.holdsInt_renumber (x : Var) : (x.renumber σ).holdsInt = x.holdsInt := rfl

/-- A permutation comes back. -/
theorem Var.exists_renumber_eq (σ : Equiv.Perm VarId) (y : Var) : ∃ x : Var, x.renumber σ = y :=
  ⟨y.renumber σ.symm, by simp [renumber]⟩

/-! ## Facts -/

/-- A fact says of each new position what another one says of the old one. -/
def Fact.Renumbered {V : Type} [Domain V] (σ : Equiv.Perm VarId) (f g : Fact V) : Prop :=
  ∀ id, g.get (σ id) = f.get id

namespace Fact.Renumbered

variable {V : Type} [Domain V] {f g f' g' : Fact V}

theorem empty : Renumbered σ (.empty : Fact V) .empty := fun _ => rfl

/-- What is renumbered alike is equal or not alike. -/
theorem eq_iff (related : Renumbered σ f g) (related' : Renumbered σ f' g') :
    f = f' ↔ g = g' := by
  constructor
  · rintro rfl
    refine ext_get fun id => ?_
    obtain ⟨k, rfl⟩ := σ.surjective id
    rw [related, related']
  · rintro rfl
    refine ext_get fun id => ?_
    rw [← related id, related' id]

variable [DecidableEq V]

theorem set (related : Renumbered σ f g) (id : VarId) (value : V) :
    Renumbered σ (f.set id value) (g.set (σ id) value) := by
  intro k
  rw [get_set, get_set, related k]
  simp only [σ.injective.eq_iff]

theorem copyFrom (related : Renumbered σ f g) (related' : Renumbered σ f' g') :
    Renumbered σ (f.copyFrom f').1 (g.copyFrom g').1 := by
  intro id
  rw [get_copyFrom, get_copyFrom, related id, related' id]

/-- The flag of a copy does not depend on positions. -/
theorem copyFrom_snd (related : Renumbered σ f g) (related' : Renumbered σ f' g') :
    (g.copyFrom g').2 = (f.copyFrom f').2 := by
  rw [Bool.eq_iff_iff, copyFrom_changed_iff, copyFrom_changed_iff, Ne, Ne,
    (related.copyFrom related').eq_iff related]

theorem meet [Domain.Lawful V] (related : Renumbered σ f g) (related' : Renumbered σ f' g') :
    Renumbered σ (f.meet f') (g.meet g') := by
  intro id
  rw [get_meet, get_meet, related id, related' id]

end Fact.Renumbered

/-! ## Statements -/

/-- An expression has one value in corresponding facts. -/
theorem Exp.value_renumbered {f g : Fact Value} (related : f.Renumbered σ g) (e : Exp Var) :
    (e.map (Var.renumber σ)).value g = e.value f := by
  induction e with
  | var x => exact related x.id
  | binary op lhs rhs ihl ihr => rw [map, value, value, ihl, ihr]
  | _ => rfl

namespace Constants

/-- A statement makes corresponding facts of them. -/
theorem effect_renumbered {f g : Fact Value} (related : f.Renumbered σ g) (stmt : Stmt Var) :
    (effect stmt f).Renumbered σ (effect (stmt.map (Var.renumber σ)) g) := by
  cases stmt with
  | define location value =>
    cases location with
    | var x =>
      simp only [effect, Stmt.map, Location.map, Var.holdsInt_renumber, Var.id_renumber,
        Exp.value_renumbered related]
      split
      · exact related.set x.id _
      · exact related
    | field base name => exact related
    | element base index => exact related
  | _ => exact related

end Constants

/-! ## Procedures -/

/-- A procedure is another one with its variables renumbered. -/
structure Procedure.Renumbers (σ : Equiv.Perm VarId) (p q : Procedure) : Prop where
  /-- They have one name. -/
  name : q.name = p.name
  /-- The variables are renumbered, in whatever order. -/
  vars : ∀ x : Var, x.renumber σ ∈ q.vars ↔ x ∈ p.vars
  /-- So are the parameters. -/
  params : ∀ x : Var, x.renumber σ ∈ q.params ↔ x ∈ p.params
  /-- The statements differ in the positions of variables alone. -/
  body : q.body = p.body.map (Stmt.map (Var.renumber σ))
  /-- The graph is the same. -/
  graph : q.graph = p.graph

namespace Constants

variable {a : Analysis Value} {p q : Procedure} {m m₁ m' : Machine Value}

theorem boundary_renumbered (renumbers : p.Renumbers σ q) :
    (boundary p).Renumbered σ (boundary q) := by
  intro id
  rw [get_boundary, get_boundary]
  have params : (∃ x ∈ q.params, x.holdsInt ∧ x.id = σ id) ↔
      ∃ x ∈ p.params, x.holdsInt ∧ x.id = id := by
    constructor
    · rintro ⟨y, member, holds, here⟩
      obtain ⟨x, rfl⟩ := Var.exists_renumber_eq σ y
      exact ⟨x, (renumbers.params x).1 member, holds, σ.injective here⟩
    · rintro ⟨x, member, holds, rfl⟩
      exact ⟨x.renumber σ, (renumbers.params x).2 member, holds, rfl⟩
  simp only [params]

/-- Every node has the renumbered statement. -/
theorem stmt?_renumbered (renumbers : p.Renumbers σ q) (n : Node) :
    q.stmt? n = (p.stmt? n).map (Stmt.map (Var.renumber σ)) := by
  cases n with
  | stmt i => rw [Procedure.stmt?, Procedure.stmt?, renumbers.body, List.getElem?_map]
  | entry => rfl
  | exit => rfl

/-! ## Runs -/

/-- Two moments differ in the positions of variables alone. -/
structure Renumbered (σ : Equiv.Perm VarId) (m m' : Machine Value) : Prop where
  /-- The same nodes are pending. -/
  pending : m'.pending = m.pending
  /-- The facts in front are renumbered. -/
  front : ∀ n, (m.cells.get n).front.Renumbered σ (m'.cells.get n).front
  /-- The facts behind are renumbered. -/
  behind : ∀ n, (m.cells.get n).behind.Renumbered σ (m'.cells.get n).behind

theorem renumbered_initial (either : a ∈ [analysis, backward]) (renumbers : p.Renumbers σ q) :
    Renumbered σ (.initial a p) (.initial a q) := by
  refine ⟨?_, fun n => ?_, fun n => ?_⟩
  · simp only [Machine.initial, renumbers.graph]
  · simp only [Machine.initial, Cells.get_initial]
    split <;> exact .empty
  · simp only [Machine.initial, Cells.get_initial, boundary_eq either]
    split
    · exact boundary_renumbered renumbers
    · exact .empty

theorem Renumbered.gather (either : a ∈ [analysis, backward]) (renumbers : p.Renumbers σ q)
    (related : Renumbered σ m m') (n : Node) :
    (Machine.gather a p m.cells n).Renumbered σ (Machine.gather a q m'.cells n) := by
  have joined (feeders : List Node) {f g : Fact Value} (start : f.Renumbered σ g) :
      (feeders.foldl (fun f k => f.meet (m.cells.get k).behind) f).Renumbered σ
        (feeders.foldl (fun g k => g.meet (m'.cells.get k).behind) g) := by
    induction feeders generalizing f g with
    | nil => exact start
    | cons k rest ih => exact ih (start.meet (related.behind k))
  simp only [Machine.gather, join_eq either, renumbers.graph]
  exact joined _ (related.front n)

/-- A visit makes of renumbered facts what it makes of the others, renumbered,
with the same flag. -/
theorem Renumbered.carried (either : a ∈ [analysis, backward]) (renumbers : p.Renumbers σ q)
    (related : Renumbered σ m m') (n : Node) (stmt : Stmt Var) :
    (m.carried a p n stmt).1.Renumbered σ (m'.carried a q n (stmt.map (Var.renumber σ))).1 ∧
      (m'.carried a q n (stmt.map (Var.renumber σ))).2 = (m.carried a p n stmt).2 := by
  have made := effect_renumbered (related.gather either renumbers n) stmt
  simp only [Machine.carried, transfer_eq either, transfer]
  exact ⟨(related.behind n).copyFrom made, (related.behind n).copyFrom_snd made⟩

/-- A visit of one procedure is a visit of the other. -/
theorem Renumbered.moves (either : a ∈ [analysis, backward]) (renumbers : p.Renumbers σ q)
    (closed : q.graph.Closed) (valid : m.Valid a p) (valid' : m'.Valid a q) (related : Renumbered σ m m')
    (move : Machine.Moves a p m m₁) : ∃ m₁', Machine.Moves a q m' m₁' ∧ Renumbered σ m₁ m₁' := by
  obtain ⟨n, rest, stmt, pending, found, rfl⟩ := move.visit
  have pending' : m'.pending = n :: rest := related.pending.trans pending
  have found' : q.stmt? n = some (stmt.map (Var.renumber σ)) := by
    rw [stmt?_renumbered renumbers, found, Option.map_some]
  obtain ⟨behind, changed⟩ := related.carried either renumbers n stmt
  refine ⟨_, valid'.moves_visit closed pending' found', ?_, fun k => ?_, fun k => ?_⟩
  · rw [Machine.visit_pending, Machine.visit_pending, changed, renumbers.graph]
  · rw [valid.get_visit pending, valid'.get_visit pending']
    split
    · exact related.gather either renumbers n
    · exact related.front k
  · rw [valid.get_visit pending, valid'.get_visit pending']
    split
    · exact behind
    · exact related.behind k

/-- A run of one procedure is a run of the other. -/
theorem Reaches.renumbered (either : a ∈ [analysis, backward]) (renumbers : p.Renumbers σ q)
    (closed : p.graph.Closed) (reached : Machine.Reaches a p (.initial a p) m) :
    ∃ m', Machine.Reaches a q (.initial a q) m' ∧ Renumbered σ m m' := by
  induction reached with
  | refl => exact ⟨_, .refl, renumbered_initial either renumbers⟩
  | tail earlier move ih =>
    obtain ⟨m', earlier', related⟩ := ih
    have valid := Machine.Valid.of_reaches closed earlier
    have closed' : q.graph.Closed := renumbers.graph ▸ closed
    have valid' := Machine.Valid.of_reaches closed' earlier'
    obtain ⟨next, move', related'⟩ := related.moves either renumbers closed' valid valid' move
    exact ⟨next, .tail earlier' move', related'⟩

/-- The solutions of two procedures that differ in the positions of variables differ in
them alone.  Both runs settle, so the moment that corresponds to the last one is the
last one. -/
theorem solve_renumbered (either : a ∈ [analysis, backward]) (renumbers : p.Renumbers σ q)
    (checked : p.Checked) (checked' : q.Checked) :
    ∃ s s', a.solve p = .ok s ∧ a.solve q = .ok s' ∧
      ∀ n ∈ p.graph.nodes, ∃ around around', s.get? n = some around ∧
        s'.get? n = some around' ∧ around.incoming.Renumbered σ around'.incoming ∧
        around.outgoing.Renumbered σ around'.outgoing := by
  obtain ⟨m, reached, idle, -, solved, facts⟩ := solve_eq either checked
  obtain ⟨m', reached', idle', -, solved', facts'⟩ := solve_eq either checked'
  obtain ⟨last, passed, related⟩ := Reaches.renumbered either renumbers checked.closed reached
  have same : last = m' :=
    Machine.Reaches.eq_of_idle (related.pending.trans idle) idle' passed reached'
  refine ⟨m.solution a, m'.solution a, solved, solved', fun n member => ?_⟩
  refine ⟨_, _, facts n member, facts' n (renumbers.graph ▸ member), ?_⟩
  subst same
  rcases direction_cases either with rfl | rfl
  · exact ⟨related.front n, related.behind n⟩
  · exact ⟨related.behind n, related.front n⟩

end Constants

/-! ## Reports -/

namespace Procedure.Renumbers

variable {p q : Procedure} {f g : Fact Value}

/-- A renumbered fact has the same names. -/
theorem nameFact (renumbers : p.Renumbers σ q) (named : p.Named) (named' : q.Named)
    (related : f.Renumbered σ g) (speaks : f.Speaks p) (speaks' : g.Speaks q) :
    q.nameFact g = p.nameFact f := by
  obtain ⟨known, found⟩ := speaks.declared.nameFact
  obtain ⟨known', found'⟩ := speaks'.declared.nameFact
  have same : known = known' := by
    refine named.nameFact_eq named' (fun name value => ?_) found found'
    constructor
    · rintro ⟨x, declared, here, rfl⟩
      exact ⟨x.renumber σ, (renumbers.vars x).2 declared, here, related x.id⟩
    · rintro ⟨y, declared, here, rfl⟩
      obtain ⟨x, rfl⟩ := Var.exists_renumber_eq σ y
      exact ⟨x, (renumbers.vars x).1 declared, here, (related x.id).symm⟩
  rw [found, found', same]

/-- A renumbered statement is shown alike, because it is shown by names. -/
theorem shown (stmt : Stmt Var) : (stmt.map (Var.renumber σ)).shown = stmt.shown := by
  rw [Stmt.shown, Stmt.map_map]
  rfl

/-- Renumbering the variables of a procedure does not change its report. -/
theorem build_eq (renumbers : p.Renumbers σ q) (named : p.Named) (named' : q.Named) :
    Report.build q = Report.build p := by
  have either := Constants.analysis_mem
  obtain ⟨s, s', solved, solved', facts⟩ :=
    Constants.solve_renumbered either renumbers named.toChecked named'.toChecked
  have each : ∀ item ∈ p.body.zipIdx,
      StmtReport.ofSolution q s' (item.map (Stmt.map (Var.renumber σ)) id) =
        StmtReport.ofSolution p s item := by
    rintro ⟨stmt, i⟩ member
    have inside := (List.getElem?_eq_some_iff.1 (List.mem_zipIdx_iff_getElem?.1 member)).1
    obtain ⟨around, around', found, found', before, after⟩ :=
      facts (.stmt i) (named.mem_nodes inside)
    have speaks := Constants.speaks_of_solve either named.toChecked solved found
    have speaks' := Constants.speaks_of_solve either named'.toChecked solved' found'
    have incoming := renumbers.nameFact named named' before speaks.1 speaks'.1
    have outgoing := renumbers.nameFact named named' after speaks.2 speaks'.2
    simp only [StmtReport.ofSolution, Prod.map_apply, id_eq, found, found', incoming, outgoing,
      shown]
  have rows : q.body.zipIdx.mapM (StmtReport.ofSolution q s') =
      p.body.zipIdx.mapM (StmtReport.ofSolution p s) := by
    rw [renumbers.body, List.zipIdx_map, List.mapM_map]
    exact mapM_congr each
  rw [Report.build, Report.build, solved, solved']
  show Report.ofSolution q s' = Report.ofSolution p s
  rw [Report.ofSolution, Report.ofSolution, rows, renumbers.name]

end Procedure.Renumbers

end ConstantFlow
