import ConstantFlow.Proofs.Dataflow.Steady
import Mathlib.Algebra.BigOperators.Ring.List

/-!
# How many visits a run makes

At first every node but the start is pending.  A visit takes one node off, and
puts the nodes that it feeds back only if the fact behind it climbs.  That fact
climbs at most twice for each of its variables.  So with `K` variables and `E`
arrows, all visits made and pending at any moment are at most `2 * K * E` more
than at first (`Machine.visits_le`).

The bound on the visits of `Analysis.run` counts the variables that occur in
the procedure, so it is never used up (`Analysis.Steady.settles`).
-/

namespace ConstantFlow

variable {V : Type} [Domain V] [Domain.Lawful V]

/-! ## Sums and insertions -/

theorem Ascending.length_insert {α : Type} [DecidableEq α] (before : α → α → Bool) (x : α)
    (ys : List α) :
    ys.length ≤ (insert before x ys).length ∧ (insert before x ys).length ≤ ys.length + 1 := by
  induction ys with
  | nil => simp [insert]
  | cons y ys ih =>
    simp only [insert]
    split
    · simp
    · split
      · simp
      · simpa using ih

theorem Ascending.length_insertAll {α : Type} [DecidableEq α] (before : α → α → Bool)
    (xs ys : List α) :
    ys.length ≤ (insertAll before xs ys).length ∧
      (insertAll before xs ys).length ≤ ys.length + xs.length := by
  induction xs generalizing ys with
  | nil => simp [insertAll]
  | cons x xs ih =>
    have one := length_insert before x ys
    have others := ih (insert before x ys)
    have step : insertAll before (x :: xs) ys = insertAll before xs (insert before x ys) := rfl
    rw [step, List.length_cons]
    omega

/-- A sum grows at least as much as one of its terms, if no other falls. -/
theorem sum_map_add_le {α : Type} {f g : α → Nat} {xs : List α} {x : α} {c : Nat}
    (terms : ∀ y ∈ xs, f y ≤ g y) (member : x ∈ xs) (grows : f x + c ≤ g x) :
    (xs.map f).sum + c ≤ (xs.map g).sum := by
  induction xs with
  | nil => exact absurd member List.not_mem_nil
  | cons y ys ih =>
    have first := terms y List.mem_cons_self
    have later : ∀ z ∈ ys, f z ≤ g z := fun z h => terms z (List.mem_cons_of_mem _ h)
    simp only [List.map_cons, List.sum_cons]
    rcases List.mem_cons.1 member with same | among
    · subst same
      have := List.sum_le_sum later
      omega
    · have := ih later among
      omega

/-! ## The variables of facts -/

/-- The analysis speaks of the given variables only. -/
structure Analysis.Confined (a : Analysis V) (effect : Stmt Var → Fact V → Fact V)
    (p : Procedure) (ids : List VarId) : Prop where
  /-- What is known at the start. -/
  boundary : Fact.Within ids (a.boundary p)
  /-- What a statement of the procedure makes of what is known. -/
  effect : ∀ n stmt, p.stmt? n = some stmt → ∀ f, Fact.Within ids f → Fact.Within ids (effect stmt f)

theorem Fact.Within.copyFrom [DecidableEq V] {ids : List VarId} {f g : Fact V}
    (hf : Within ids f) (hg : Within ids g) : Within ids (f.copyFrom g).1 := by
  intro id present
  rw [get_copyFrom] at present
  split at present
  · exact hf id present
  · exact hg id present

namespace Machine

variable [DecidableEq V] {a : Analysis V} {effect : Stmt Var → Fact V → Fact V} {p : Procedure}
  {ids : List VarId} {m m' : Machine V}

/-- Every fact speaks of the given variables only. -/
def Within (ids : List VarId) (m : Machine V) : Prop :=
  ∀ n, Fact.Within ids (m.cells.get n).front ∧ Fact.Within ids (m.cells.get n).behind

omit [DecidableEq V] in
theorem within_initial (confined : a.Confined effect p ids) : Within ids (initial a p) := by
  intro n
  rw [initial, Cells.get_initial]
  split
  · exact ⟨Fact.within_empty ids, confined.boundary⟩
  · exact ⟨Fact.within_empty ids, Fact.within_empty ids⟩

theorem within_gather (steady : a.Steady effect) (within : Within ids m) (n : Node) :
    Fact.Within ids (gather a p m.cells n) := by
  intro id present
  by_contra outside
  have absent {f : Fact V} (hf : Fact.Within ids f) : f.get id ≤ ⊥ :=
    le_bot_iff.2 (not_not.1 fun known => outside (hf id known))
  exact present (le_bot_iff.1
    (get_gather_le steady (absent (within n).1) fun k _ => absent (within k).2))

/-- A visit speaks of no variable but those that the analysis is confined to. -/
theorem Within.moves (steady : a.Steady effect) (confined : a.Confined effect p ids)
    (valid : Valid a p m) (within : Within ids m) (h : Moves a p m m') : Within ids m' := by
  obtain ⟨n, rest, stmt, pending, found, rfl⟩ := h.visit
  intro k
  rw [valid.get_visit pending]
  split
  · have front := within_gather (p := p) steady within n
    refine ⟨front, ?_⟩
    rw [carried_fst steady]
    exact (within n).2.copyFrom (confined.effect n stmt found _ front)
  · exact within k

theorem Within.of_reaches (steady : a.Steady effect) (confined : a.Confined effect p ids)
    (closed : p.graph.Closed) (h : Reaches a p (initial a p) m) : Within ids m := by
  induction h with
  | refl => exact within_initial confined
  | tail earlier move ih => exact ih.moves steady confined (.of_reaches closed earlier) move

/-! ## Growth -/

/-- How often the facts behind all nodes have climbed, each climb counted once
for every node that is fed. -/
def growth (a : Analysis V) (p : Procedure) (ids : List VarId) (m : Machine V) : Nat :=
  (p.graph.nodes.map fun n =>
    (m.cells.get n).behind.height ids * (a.direction.fed p.graph n).length).sum

omit [DecidableEq V] in
/-- The growth of a run is bounded: each edge takes part with twice the number of
variables. -/
theorem growth_le (closed : p.graph.Closed) (m : Machine V) :
    growth a p ids m ≤ 2 * ids.length * p.graph.edgeCount := by
  rw [← Direction.sum_fed (d := a.direction) closed, ← List.sum_map_mul_left]
  exact List.sum_le_sum fun n _ => Nat.mul_le_mul_right _ (Fact.height_le ids _)

/-- A visit that changes a fact pays for all nodes that it makes pending. -/
theorem growth_visit (steady : a.Steady effect) (valid : Valid a p m) (grown : Grown a effect p m)
    (within : Within ids m') (move : Moves a p m m') {n : Node} {rest : List Node}
    {stmt : Stmt Var} (pending : m.pending = n :: rest) (eq : m' = m.visit a p n stmt rest) :
    m'.pending.length + growth a p ids m ≤ rest.length + growth a p ids m' := by
  have climbs := move.le steady valid grown
  have terms : ∀ k ∈ p.graph.nodes,
      (m.cells.get k).behind.height ids * (a.direction.fed p.graph k).length ≤
        (m'.cells.get k).behind.height ids * (a.direction.fed p.graph k).length :=
    fun k _ => Nat.mul_le_mul_right _ (Fact.height_mono ids (climbs k).2)
  by_cases changed : (m.carried a p n stmt).2 = true
  · have member := (valid.pending n (pending ▸ List.mem_cons_self)).1
    have behind : (m'.cells.get n).behind = (m.carried a p n stmt).1 := by
      rw [eq, valid.get_visit pending, if_pos rfl]
    have less : (m.cells.get n).behind < (m'.cells.get n).behind :=
      lt_of_le_of_ne (climbs n).2 fun same =>
        (carried_snd_iff steady n stmt).1 changed (behind.symm.trans same.symm)
    have grows : (m.cells.get n).behind.height ids * (a.direction.fed p.graph n).length +
        (a.direction.fed p.graph n).length ≤
          (m'.cells.get n).behind.height ids * (a.direction.fed p.graph n).length := by
      rw [← Nat.succ_mul]
      exact Nat.mul_le_mul_right _ (Fact.height_lt (within n).2 less)
    have sum : growth a p ids m + (a.direction.fed p.graph n).length ≤ growth a p ids m' :=
      sum_map_add_le terms member grows
    have added := (Ascending.length_insertAll a.direction.before (a.direction.fed p.graph n) rest).2
    have pending' : m'.pending =
        Ascending.insertAll a.direction.before (a.direction.fed p.graph n) rest := by
      rw [eq, visit_pending, if_pos changed]
    rw [pending']
    omega
  · have sum : growth a p ids m ≤ growth a p ids m' := List.sum_le_sum terms
    have pending' : m'.pending = rest := by
      rw [eq, visit_pending, if_neg changed]
    rw [pending']
    omega

/-! ## Visits made and pending -/

omit [Domain.Lawful V] [DecidableEq V] in
theorem length_pending_initial (a : Analysis V) (p : Procedure) :
    (initial a p).pending.length = p.graph.size + 1 := by
  have distinct := a.direction.nodes_nodup p.graph
  have member : a.direction.start ∈ a.direction.nodes p.graph :=
    Direction.mem_nodes.2 (a.direction.start_mem p.graph)
  have erased : (initial a p).pending = (a.direction.nodes p.graph).erase a.direction.start := by
    rw [distinct.erase_eq_filter]
    simp [initial, bne, Bool.beq_eq_decide_eq]
  rw [erased, List.length_erase_of_mem member, Direction.length_nodes]
  rfl

/-- No visit loses a node, and only growth makes nodes pending. -/
theorem visits_bounds (steady : a.Steady effect) (confined : a.Confined effect p ids)
    (closed : p.graph.Closed) (h : Reaches a p (initial a p) m) :
    p.graph.size + 1 ≤ m.visits.length + m.pending.length ∧
      m.visits.length + m.pending.length ≤ p.graph.size + 1 + growth a p ids m := by
  induction h with
  | refl =>
    rw [length_pending_initial]
    simp [initial]
  | @tail before after earlier move ih =>
    obtain ⟨n, rest, stmt, pending, -, eq⟩ := move.visit
    have within : Within ids after := .of_reaches steady confined closed (earlier.tail move)
    have paid := growth_visit steady (.of_reaches closed earlier)
      (.of_reaches steady closed earlier) within move pending eq
    have kept : rest.length ≤ after.pending.length := by
      rw [eq, visit_pending]
      split
      · exact (Ascending.length_insertAll _ _ _).1
      · exact le_rfl
    rw [pending, List.length_cons] at ih
    rw [eq] at paid kept ⊢
    rw [visit_visits, List.length_cons]
    omega

/-- All visits made and pending at a moment of a run, with `K` variables and
`E` arrows, are at most `2 * K * E` more than at first. -/
theorem visits_le (steady : a.Steady effect) (confined : a.Confined effect p ids)
    (closed : p.graph.Closed) (h : Reaches a p (initial a p) m) :
    m.visits.length + m.pending.length ≤
      p.graph.size + 1 + 2 * ids.length * p.graph.edgeCount :=
  (visits_bounds steady confined closed h).2.trans (Nat.add_le_add_left (growth_le closed m) _)

end Machine

/-! ## Runs settle -/

/-- Every node has a statement if the body is as long as the graph says. -/
theorem Procedure.stmt?_isSome {p : Procedure} (size : p.graph.size ≤ p.body.length) {n : Node}
    (member : n ∈ p.graph.nodes) : (p.stmt? n).isSome := by
  rcases Graph.mem_nodes.1 member with rfl | rfl | ⟨i, inside, rfl⟩
  · rfl
  · rfl
  · simpa [Procedure.stmt?] using Nat.lt_of_lt_of_le inside size

/-- A run of a steady analysis settles when every node has a statement and the
analysis speaks of occurring variables only. -/
theorem Analysis.Steady.settles [DecidableEq V] {a : Analysis V}
    {effect : Stmt Var → Fact V → Fact V} {p : Procedure} (steady : a.Steady effect)
    (confined : a.Confined effect p (p.occurrences.map Var.id)) (closed : p.graph.Closed)
    (size : p.graph.size ≤ p.body.length) :
    ∃ m, Machine.Reaches a p (.initial a p) m ∧ m.pending = [] ∧
      a.run p = ⟨m.visits.reverse, m.solution a, .settled⟩ := by
  have settled : (Machine.run a p p.visitBound (.initial a p)).2 = .settled := by
    refine Machine.run_settled closed (Machine.valid_initial a p)
      (fun m h => Machine.visits_le steady confined closed h) (fun m h n pending => ?_) ?_
    · have valid : Machine.Valid a p m := .of_reaches closed h
      exact Procedure.stmt?_isSome size (valid.pending n pending).1
    · simp only [Machine.initial, Procedure.visitBound, Graph.length_nodes, List.length_map,
        List.length_nil]
      omega
  refine ⟨(Machine.run a p p.visitBound (.initial a p)).1, Machine.run_reaches _ _,
    Machine.pending_of_run_settled settled, ?_⟩
  rw [Analysis.run_eq, settled]

/-- The solution of a steady analysis is what the last moment of its run says of each node. -/
theorem Analysis.Steady.solve_eq [DecidableEq V] {a : Analysis V}
    {effect : Stmt Var → Fact V → Fact V} {p : Procedure} (steady : a.Steady effect)
    (confined : a.Confined effect p (p.occurrences.map Var.id)) (closed : p.graph.Closed)
    (size : p.graph.size ≤ p.body.length) :
    ∃ m, Machine.Reaches a p (.initial a p) m ∧ m.pending = [] ∧
      a.run p = ⟨m.visits.reverse, m.solution a, .settled⟩ ∧
      a.solve p = .ok (m.solution a) ∧
      ∀ n ∈ p.graph.nodes,
        (m.solution a).get? n = some (a.direction.around (m.cells.get n)) := by
  obtain ⟨m, reached, idle, run⟩ := steady.settles confined closed size
  have nodes := (Machine.Valid.of_reaches closed reached).nodes
  refine ⟨m, reached, idle, run, ?_, fun n member => ?_⟩
  · rw [Analysis.solve, run]
    rfl
  · rw [Machine.solution_get?, Cells.get?_eq_some (nodes ▸ member), Option.map_some]

end ConstantFlow
