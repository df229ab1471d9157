import ConstantFlow.Proofs.Constants.Steady

/-!
# Facts only climb

In a run of constant propagation, in either direction, what is known around a
node changes in one way only: an undefined value may become anything, a constant
may become `unknown`, and `unknown` stays (`Fact.Climbs`).

This holds from any moment of the run to any later one.  The moments between
visits are those that `Machine.Reaches` relates.  A visit writes one entry after
another into the cell of its node (`Cell.write`): first it meets the entries of
the facts behind the feeders into the fact in front, and then it copies the
entries of the effect into the fact behind.  The *stages* of the visit are the
cells in between, and they ascend as well.

Folding is not monotone, so the entries that are copied need not be above those
copied before them for another fact in front.  They are above those that are
still there, since an entry that has vanished from the effect is not copied.
-/

namespace ConstantFlow

/-! ## Climbing -/

/-- What a fact may become in a run. -/
structure Fact.Climbs (f g : Fact Value) : Prop where
  /-- No value falls. -/
  le : ∀ id, f.get id ≤ g.get id
  /-- A constant is kept or lost, and not replaced by another. -/
  constant : ∀ id k, f.get id = .constant k → g.get id = .constant k ∨ g.get id = .unknown
  /-- An unknown value stays unknown. -/
  unknown : ∀ id, f.get id = .unknown → g.get id = .unknown

theorem Fact.climbs_of_le {f g : Fact Value} (h : f ≤ g) : f.Climbs g where
  le := h
  constant id _ same := Value.constant_le (same ▸ h id)
  unknown id same := Value.unknown_le (same ▸ h id)

/-- What the facts around a node may become in a run. -/
structure Cell.Climbs (c d : Cell Value) : Prop where
  front : c.front.Climbs d.front
  behind : c.behind.Climbs d.behind

theorem Cell.climbs_of_le {c d : Cell Value} (h : c ≤ d) : c.Climbs d :=
  ⟨Fact.climbs_of_le h.1, Fact.climbs_of_le h.2⟩

/-! ## Stages of a visit -/

/-- An entry that is written into the cell of a node: it is met into the fact in
front, or copied into the fact behind. -/
inductive Write
  | meet (entry : VarId × Value)
  | copy (entry : VarId × Value)

namespace Cell

/-- The cell after one entry has been written. -/
def write (cell : Cell Value) : Write → Cell Value
  | .meet e => ⟨cell.front.set e.1 (Value.meet (cell.front.get e.1) e.2), cell.behind⟩
  | .copy e => ⟨cell.front, cell.behind.set e.1 e.2⟩

/-- A cell climbs when some entries are written into it: those that are copied
are above what is there, and no two of them are of one variable. -/
structure Admits (cell : Cell Value) (writes : List Write) : Prop where
  above : ∀ e, .copy e ∈ writes → cell.behind.get e.1 ≤ e.2
  once : writes.Pairwise fun w w' => ∀ e e', w = .copy e → w' = .copy e' → e.1 ≠ e'.1

/-- If a cell admits some writes, the first of them makes it no less, and what it makes
admits the others.  To copy an entry changes no other variable, and a later copy is of
another one. -/
theorem Admits.step {cell : Cell Value} {w : Write} {writes : List Write}
    (admits : cell.Admits (w :: writes)) : cell ≤ cell.write w ∧ (cell.write w).Admits writes := by
  obtain ⟨first, later⟩ := List.pairwise_cons.1 admits.once
  cases w with
  | meet e =>
    refine ⟨⟨fun id => ?_, le_rfl⟩, ?_, later⟩
    · rw [write, Fact.get_set]
      split
      · next same =>
        subst same
        exact (le_sup_left : cell.front.get e.1 ≤ cell.front.get e.1 ⊔ e.2)
      · exact le_rfl
    · exact fun e' member => admits.above e' (List.mem_cons_of_mem _ member)
  | copy e =>
    refine ⟨⟨le_rfl, fun id => ?_⟩, fun e' member => ?_, later⟩
    · rw [write, Fact.get_set]
      split
      · next same =>
        subst same
        exact admits.above e List.mem_cons_self
      · exact le_rfl
    · have other : e'.1 ≠ e.1 := (first _ member e e' rfl rfl).symm
      rw [write, Fact.get_set, if_neg other]
      exact admits.above e' (List.mem_cons_of_mem _ member)

/-- At no point while some admitted writes are made is the cell less than it was
before. -/
theorem Admits.le_of_mem {cell : Cell Value} {writes : List Write} (admits : cell.Admits writes) :
    ∀ c ∈ writes.scanl write cell, cell ≤ c := by
  induction writes generalizing cell with
  | nil => simp
  | cons w writes ih =>
    obtain ⟨climbs, rest⟩ := admits.step
    intro c member
    rw [List.scanl_cons] at member
    rcases List.mem_cons.1 member with rfl | later
    · exact le_rfl
    · exact climbs.trans (ih rest c later)

/-- The cells that a cell goes through ascend. -/
theorem Admits.ascending {cell : Cell Value} {writes : List Write} (admits : cell.Admits writes) :
    (writes.scanl write cell).Pairwise (· ≤ ·) := by
  induction writes generalizing cell with
  | nil => simp
  | cons w writes ih =>
    have above := admits.le_of_mem
    rw [List.scanl_cons] at above ⊢
    exact List.pairwise_cons.2
      ⟨fun c later => above c (List.mem_cons_of_mem _ later), ih admits.step.2⟩

/-- To meet with some entries writes in front alone. -/
theorem foldl_write_meet (entries : List (VarId × Value)) (cell : Cell Value) :
    (entries.map Write.meet).foldl write cell =
      ⟨entries.foldl (fun f e => f.set e.1 (Value.meet (f.get e.1) e.2)) cell.front,
        cell.behind⟩ := by
  induction entries generalizing cell with
  | nil => rfl
  | cons e rest ih => exact ih (cell.write (.meet e))

theorem foldl_write_copy (entries : List (VarId × Value)) (cell : Cell Value) :
    (entries.map Write.copy).foldl write cell =
      ⟨cell.front, entries.foldl (fun f e => f.set e.1 e.2) cell.behind⟩ := by
  induction entries generalizing cell with
  | nil => rfl
  | cons e rest ih => exact ih (cell.write (.copy e))

end Cell

namespace Constants

/-- The entries that the visit of a node writes, in order. -/
def writes (a : Analysis Value) (p : Procedure) (m : Machine Value) (n : Node) (stmt : Stmt Var) :
    List Write :=
  ((a.direction.feeders p.graph n).flatMap fun k => (m.cells.get k).behind.entries).map .meet ++
    (effect stmt (Machine.gather a p m.cells n)).entries.map .copy

/-- The cells that a node goes through in its visit. -/
def stages (a : Analysis Value) (p : Procedure) (m : Machine Value) (n : Node) (stmt : Stmt Var) :
    List (Cell Value) :=
  (writes a p m n stmt).scanl Cell.write (m.cells.get n)

variable {a : Analysis Value} {p : Procedure} {m : Machine Value} {n : Node} {stmt : Stmt Var}

/-- To write all entries of a visit comes to what the visit makes of the cell. -/
theorem foldl_writes (either : a ∈ [analysis, backward]) :
    (writes a p m n stmt).foldl Cell.write (m.cells.get n) =
      ⟨Machine.gather a p m.cells n, (m.carried a p n stmt).1⟩ := by
  have gathered : ((a.direction.feeders p.graph n).flatMap fun k =>
      (m.cells.get k).behind.entries).foldl
        (fun f e => f.set e.1 (Value.meet (f.get e.1) e.2)) (m.cells.get n).front =
      Machine.gather a p m.cells n := by
    rw [List.foldl_flatMap, Machine.gather, join_eq either]
    rfl
  rw [writes, List.foldl_append, Cell.foldl_write_meet, Cell.foldl_write_copy, gathered,
    Machine.carried_fst (steady either), Fact.copyFrom_eq_foldl, Fact.foldl_copyEntry_fst]

/-- What a visit copies is above what is behind the node, wherever a run is: a copied
entry is defined, so it is what the copy leaves behind, and by the invariant of the run
that is no less than what was there. -/
theorem admits_writes (either : a ∈ [analysis, backward]) (grown : m.Grown a effect p)
    (other : n ≠ a.direction.start) (found : p.stmt? n = some stmt) :
    (m.cells.get n).Admits (writes a p m n stmt) := by
  constructor
  · intro e member
    have copied : e ∈ (effect stmt (Machine.gather a p m.cells n)).entries := by
      simpa [writes] using member
    obtain ⟨value, present⟩ := Fact.mem_entries.1 copied
    have climbs := (grown n other stmt found).le_copyFrom (steady either)
      (Machine.front_le_gather (p := p) (steady either) m.cells n) e.1
    rwa [Fact.get_copyFrom, value, if_neg present] at climbs
  · refine List.pairwise_append.2 ⟨?_, ?_, ?_⟩
    · exact List.pairwise_map.2 (List.pairwise_of_forall fun _ _ _ _ same => by cases same)
    · refine List.pairwise_map.2 ((Fact.ascending _).imp fun less e e' same same' => ?_)
      cases same
      cases same'
      exact Nat.ne_of_lt less
    · intro w member w' _ e e' same
      obtain ⟨entry, -, rfl⟩ := List.mem_map.1 member
      cases same

/-! ## Runs -/

/-- Behind a node a later visit leaves no less than an earlier one, and what is there
now is no less than what any visit has left.  A new visit is compared with all earlier
ones at once, since none of them left more than what is behind the node before it. -/
theorem visits_climb (either : a ∈ [analysis, backward]) (closed : p.graph.Closed)
    (h : Machine.Reaches a p (.initial a p) m) :
    (m.visits.Pairwise fun w v => v.node = w.node → v.behind ≤ w.behind) ∧
      ∀ v ∈ m.visits, v.behind ≤ (m.cells.get v.node).behind := by
  induction h with
  | refl => exact ⟨.nil, fun v member => absurd member List.not_mem_nil⟩
  | @tail before after earlier move ih =>
    obtain ⟨ascending, kept⟩ := ih
    have valid : Machine.Valid a p before := .of_reaches closed earlier
    have climbs := move.le (steady either) valid (.of_reaches (steady either) closed earlier)
    obtain ⟨n, rest, stmt, pending, -, rfl⟩ := move.visit
    have behind : ((before.visit a p n stmt rest).cells.get n).behind =
        (before.carried a p n stmt).1 := by
      rw [valid.get_visit pending, if_pos rfl]
    rw [Machine.visit_visits]
    refine ⟨List.pairwise_cons.2 ⟨fun v member same => ?_, ascending⟩, fun v member => ?_⟩
    · have now := (kept v member).trans (climbs v.node).2
      rwa [same, behind] at now
    · rcases List.mem_cons.1 member with rfl | old
      · exact behind.ge
      · exact (kept v old).trans (climbs v.node).2

/-- What it means that facts only climb in the runs of an analysis. -/
structure Climbing (a : Analysis Value) (p : Procedure) : Prop where
  /-- The cell of a node climbs from any moment of the run to a later one. -/
  cells : ∀ m m', Machine.Reaches a p (.initial a p) m → Machine.Reaches a p m m' →
    ∀ n, (m.cells.get n).Climbs (m'.cells.get n)
  /-- It climbs from any stage of a visit to a later one, and the other cells
  stay. -/
  stages : ∀ m m', Machine.Reaches a p (.initial a p) m → Machine.Moves a p m m' →
    ∃ n stmt, m.pending.head? = some n ∧ p.stmt? n = some stmt ∧
      (stages a p m n stmt).head? = some (m.cells.get n) ∧
      (stages a p m n stmt).getLast? = some (m'.cells.get n) ∧
      (stages a p m n stmt).Pairwise Cell.Climbs ∧
      ∀ k, k ≠ n → m'.cells.get k = m.cells.get k
  /-- What the visits of one node leave behind it climbs from each visit of the
  run to every later one. -/
  visits : (a.run p).visits.Pairwise fun v w => v.node = w.node → v.behind.Climbs w.behind

/-- In a run of constant propagation on a checked procedure, in either
direction, facts only climb. -/
theorem run_climbs {source : Source.Procedure} (accepted : source.check = .ok p)
    (either : a ∈ [analysis, backward]) : Climbing a p := by
  have checked := source.checked accepted
  refine ⟨fun m m' before h n => ?_, fun m m' before move => ?_, ?_⟩
  · exact Cell.climbs_of_le (before.le (steady either) checked.closed h n)
  · have valid : Machine.Valid a p m := .of_reaches checked.closed before
    have grown : m.Grown a effect p := .of_reaches (steady either) checked.closed before
    obtain ⟨n, rest, stmt, pending, found, rfl⟩ := move.visit
    have other := (valid.pending n (pending ▸ List.mem_cons_self)).2
    have ascending := (admits_writes either grown other found).ascending
    refine ⟨n, stmt, by rw [pending, List.head?_cons], found, List.head?_scanl, ?_,
      ascending.imp Cell.climbs_of_le, fun k different => ?_⟩
    · rw [stages, List.getLast?_scanl, foldl_writes either, valid.get_visit pending, if_pos rfl]
    · rw [valid.get_visit pending, if_neg different]
  · obtain ⟨m, reached, -, run, -, -⟩ := solve_eq either checked
    rw [run]
    refine List.pairwise_reverse.2 ?_
    exact (visits_climb either checked.closed reached).1.imp fun climbs same =>
      Fact.climbs_of_le (climbs same)

/-- Under the zero that comes around the loop nothing is made of the division,
and what was behind it stays unknown. -/
theorem run_climbs_dividing :
    Source.Procedure.dividing.check = .ok .dividing ∧ analysis ∈ [analysis, backward] ∧
    Climbing analysis .dividing :=
  ⟨check_dividing, by simp, run_climbs check_dividing (by simp)⟩

end Constants

end ConstantFlow
