import ConstantFlow.Dataflow.Solver
import ConstantFlow.Proofs.Facts
import ConstantFlow.Proofs.Graph
import Mathlib.Logic.Relation

/-!
# Runs of the solver

`Machine.Moves` is one visit and `Machine.Reaches` a run of any number of them.
A run is determined by its first moment, and what a visit keeps holds at every
moment that is reached.

A visit looks up the cells of a node and of the nodes that feed it, and each
lookup can fail.  What a visit makes of cells that are there is `Machine.visit`,
which reads them with `Cells.get`.  A step that moves has made such a visit
(`Moves.visit`), and the run starts at `Machine.initial` (`start_eq`).

Three things hold at every moment of every analysis (`Machine.Valid`): the
cells are those of the nodes of the graph, only nodes other than the start are
pending, and the cell of the start is as it was at first.  The feeders of a node
of a closed graph are nodes of it, so no lookup of a cell ever fails: a run can
only fail at a node without a statement (`run_failed`).

`Machine.run` makes visits up to a bound.  If no moment has more visits behind
and in front of it than the bound allows, the run settles or comes to a node without a
statement (`run_ends`), so the bound does not show.
-/

namespace ConstantFlow

/-! ## Directions -/

namespace Direction

variable {d : Direction} {g : Graph}

/-- A node feeds another exactly if that one is fed by it. -/
theorem mem_feeders_iff {m n : Node} : m ∈ d.feeders g n ↔ n ∈ d.fed g m := by
  cases d with
  | forward => exact Graph.mem_predecessors_iff
  | backward => exact Graph.mem_predecessors_iff.symm

/-- Whatever a node feeds is a node of the graph, and it is not the start. -/
theorem mem_nodes_of_fed (closed : g.Closed) {m n : Node} (h : n ∈ d.fed g m) :
    n ∈ g.nodes ∧ n ≠ d.start := by
  cases d with
  | forward =>
    obtain ⟨arrow, member, -, rfl⟩ := Graph.mem_successors.1 h
    exact ⟨closed.target_mem arrow member, closed.target_ne arrow member⟩
  | backward =>
    obtain ⟨arrow, member, rfl, -⟩ := Graph.mem_predecessors.1 h
    exact ⟨closed.source_mem arrow member, closed.source_ne arrow member⟩

/-- The nodes that feed a node are nodes of the graph. -/
theorem mem_nodes_of_feeders (closed : g.Closed) {m n : Node} (h : m ∈ d.feeders g n) :
    m ∈ g.nodes := by
  cases d with
  | forward =>
    obtain ⟨arrow, member, rfl, -⟩ := Graph.mem_predecessors.1 h
    exact closed.source_mem arrow member
  | backward =>
    obtain ⟨arrow, member, -, rfl⟩ := Graph.mem_successors.1 h
    exact closed.target_mem arrow member

/-- There is one pair of a node and one that it feeds for each edge. -/
theorem sum_fed (closed : g.Closed) :
    (g.nodes.map fun n => (d.fed g n).length).sum = g.edgeCount := by
  cases d with
  | forward => exact closed.sum_successors
  | backward => exact closed.sum_predecessors

@[simp] theorem mem_nodes {n : Node} : n ∈ d.nodes g ↔ n ∈ g.nodes := by
  cases d <;> simp [nodes]

theorem nodes_nodup (d : Direction) (g : Graph) : (d.nodes g).Nodup := by
  cases d with
  | forward => exact g.nodes_nodup
  | backward => exact List.nodup_reverse.2 g.nodes_nodup

@[simp] theorem length_nodes : (d.nodes g).length = g.size + 2 := by
  cases d <;> simp [nodes]

theorem start_mem (d : Direction) (g : Graph) : d.start ∈ g.nodes := by
  cases d with
  | forward => exact Graph.mem_nodes.2 (.inl rfl)
  | backward => exact Graph.mem_nodes.2 (.inr (.inl rfl))

end Direction

/-! ## Cells -/

namespace Cells

variable {V : Type} [Domain V]

/-- The cell of a node, with empty facts for a node that has none. -/
def get (cells : Cells V) (n : Node) : Cell V :=
  (cells.get? n).getD ⟨.empty, .empty⟩

/-- The cells before the first visit. -/
def initial (a : Analysis V) (p : Procedure) : Cells V :=
  (blank p.graph).set a.direction.start ⟨.empty, a.boundary p⟩

/-- The nodes that have a cell. -/
def nodes (cells : Cells V) : List Node := cells.rows.map Prod.fst

theorem nodes_set (cells : Cells V) (n : Node) (cell : Cell V) :
    (cells.set n cell).nodes = cells.nodes := by
  simp only [nodes, set, List.map_map]
  refine List.map_congr_left fun row _ => ?_
  by_cases h : row.1 = n <;> simp [h]

theorem get?_set_self {cells : Cells V} {n : Node} (member : n ∈ cells.nodes) (cell : Cell V) :
    (cells.set n cell).get? n = some cell := by
  obtain ⟨rows⟩ := cells
  simp only [get?, set, nodes] at member ⊢
  induction rows with
  | nil => exact absurd member List.not_mem_nil
  | cons row rest ih =>
    by_cases h : row.1 = n
    · simp [h]
    · have later : n ∈ rest.map Prod.fst := by
        simpa [Ne.symm h] using member
      simpa [h] using ih later

theorem get?_set_ne {cells : Cells V} {n k : Node} (h : k ≠ n) (cell : Cell V) :
    (cells.set n cell).get? k = cells.get? k := by
  obtain ⟨rows⟩ := cells
  simp only [get?, set]
  induction rows with
  | nil => rfl
  | cons row rest ih =>
    rw [List.map_cons]
    by_cases same : row.1 = n
    · have other : (row.1 == k) = false := by simp [same, Ne.symm h]
      have other' : (n == k) = false := by simp [Ne.symm h]
      rw [if_pos same, List.find?_cons_of_neg (by simp [other']),
        List.find?_cons_of_neg (by simp [other])]
      exact ih
    · rw [if_neg same]
      by_cases found : row.1 = k
      · simp [found]
      · simpa [found] using ih

/-- Setting a cell changes that of its node alone. -/
theorem get_set {cells : Cells V} {n : Node} (member : n ∈ cells.nodes) (cell : Cell V)
    (k : Node) : (cells.set n cell).get k = if k = n then cell else cells.get k := by
  unfold get
  split
  · next same => rw [same, get?_set_self member, Option.getD_some]
  · next other => rw [get?_set_ne other]

theorem get?_eq_some {cells : Cells V} {n : Node} (member : n ∈ cells.nodes) :
    cells.get? n = some (cells.get n) := by
  have found : (cells.get? n).isSome := by
    simpa [get?, nodes] using member
  obtain ⟨cell, found⟩ := Option.isSome_iff_exists.1 found
  rw [get, found, Option.getD_some]

theorem get?_eq_none {cells : Cells V} {n : Node} (absent : n ∉ cells.nodes) :
    cells.get? n = none := by
  simp only [get?, Option.map_eq_none_iff, List.find?_eq_none]
  intro row member same
  exact absent (List.mem_map.2 ⟨row, member, by simpa using same⟩)

/-- A node that has a cell is looked up. -/
theorem state_eq {cells : Cells V} {n : Node} (member : n ∈ cells.nodes) :
    cells.state n = .ok (cells.get n) := by
  rw [state, get?_eq_some member]

/-- What is looked up is the cell of the node. -/
theorem get_of_state {cells : Cells V} {n : Node} {cell : Cell V}
    (found : cells.state n = .ok cell) : cells.get n = cell := by
  unfold state at found
  split at found
  · next got => rw [get, got, Option.getD_some, Except.ok.inj found]
  · cases found

/-- Nodes that have cells are looked up one after the other. -/
theorem mapM_state_eq {cells : Cells V} {ks : List Node} (members : ∀ k ∈ ks, k ∈ cells.nodes) :
    ks.mapM cells.state = .ok (ks.map cells.get) := by
  induction ks with
  | nil => rfl
  | cons k ks ih =>
    have first := state_eq (members k List.mem_cons_self)
    have later := ih fun j member => members j (List.mem_cons_of_mem _ member)
    rw [List.mapM_cons, first, later]
    rfl

theorem map_get_of_mapM_state {cells : Cells V} {ks : List Node} {found : List (Cell V)}
    (looked : ks.mapM cells.state = .ok found) : ks.map cells.get = found := by
  induction ks generalizing found with
  | nil => exact pure_eq_ok.1 looked
  | cons k ks ih =>
    rw [List.mapM_cons] at looked
    obtain ⟨cell, first, looked⟩ := bind_eq_ok.1 looked
    obtain ⟨cells, later, looked⟩ := bind_eq_ok.1 looked
    rw [List.map_cons, get_of_state first, ih later]
    exact pure_eq_ok.1 looked

@[simp] theorem nodes_blank (g : Graph) : (blank g : Cells V).nodes = g.nodes := by
  simp [nodes, blank, Function.comp_def]

/-- At first nothing is known. -/
@[simp] theorem get_blank (g : Graph) (n : Node) :
    (blank g : Cells V).get n = ⟨.empty, .empty⟩ := by
  by_cases member : n ∈ g.nodes
  · have found : (blank g : Cells V).get? n = some ⟨.empty, .empty⟩ := by
      simp only [get?, blank]
      generalize g.nodes = nodes at member ⊢
      induction nodes with
      | nil => exact absurd member List.not_mem_nil
      | cons k rest ih =>
        by_cases same : k = n
        · simp [same]
        · simpa [same] using ih (by simpa [Ne.symm same] using member)
    rw [get, found, Option.getD_some]
  · rw [get, get?_eq_none (by rwa [nodes_blank]), Option.getD_none]

theorem nodes_initial (a : Analysis V) (p : Procedure) :
    (initial a p).nodes = p.graph.nodes := by
  rw [initial, nodes_set, nodes_blank]

/-- Only the fact behind the start is known before the first visit. -/
theorem get_initial (a : Analysis V) (p : Procedure) (n : Node) :
    (initial a p).get n =
      if n = a.direction.start then ⟨.empty, a.boundary p⟩ else ⟨.empty, .empty⟩ := by
  have member : a.direction.start ∈ (blank p.graph : Cells V).nodes := by
    rw [nodes_blank]
    exact a.direction.start_mem p.graph
  rw [initial, get_set member, get_blank]

end Cells

/-! ## Visits -/

namespace Machine

variable {V : Type} [Domain V]

/-! ### Moments -/

/-- The run before the first visit. -/
def initial (a : Analysis V) (p : Procedure) : Machine V where
  cells := .initial a p
  pending := (a.direction.nodes p.graph).filter fun n => n ≠ a.direction.start
  visits := []

/-- The fact in front of a node with the facts of its feeders joined into it. -/
def gather (a : Analysis V) (p : Procedure) (cells : Cells V) (n : Node) : Fact V :=
  (a.direction.feeders p.graph n).foldl
    (fun fact feeder => a.join fact (cells.get feeder).behind) (cells.get n).front

/-- The run after a visit of a node with a statement. -/
def visit (a : Analysis V) (p : Procedure) (m : Machine V) (n : Node) (stmt : Stmt Var)
    (rest : List Node) : Machine V :=
  let front := gather a p m.cells n
  let (behind, changed) := a.transfer stmt front (m.cells.get n).behind
  { cells := m.cells.set n ⟨front, behind⟩
    pending :=
      if changed then
        Ascending.insertAll a.direction.before (a.direction.fed p.graph n) rest
      else rest
    visits := ⟨n, stmt, changed, behind⟩ :: m.visits }

/-- A visit leads from a moment of a run to the next. -/
def Moves (a : Analysis V) (p : Procedure) (m m' : Machine V) : Prop := m.step a p = .moved m'

/-- A number of visits lead from a moment of a run to another. -/
abbrev Reaches (a : Analysis V) (p : Procedure) : Machine V → Machine V → Prop :=
  Relation.ReflTransGen (Moves a p)

variable {a : Analysis V} {p : Procedure} {m m' : Machine V}

/-! ### Lookups -/

/-- A run starts with the cells of its graph and the boundary behind the start. -/
theorem start_eq (a : Analysis V) (p : Procedure) : start a p = .ok (initial a p) := by
  have member : a.direction.start ∈ (Cells.blank p.graph : Cells V).nodes := by
    rw [Cells.nodes_blank]
    exact a.direction.start_mem p.graph
  have found := Cells.state_eq member
  rw [Cells.get_blank] at found
  exact bind_eq_ok.2 ⟨_, found, rfl⟩

/-- If the node to visit and its feeders have cells, only its statement can be
missing. -/
theorem advance_eq {n : Node} {rest : List Node}
    (known : ∀ k ∈ n :: a.direction.feeders p.graph n, k ∈ m.cells.nodes) :
    m.advance a p n rest = (p.stmtAt n).map fun stmt => m.visit a p n stmt rest := by
  obtain ⟨own, feeders⟩ := List.forall_mem_cons.1 known
  rw [advance, Cells.mapM_state_eq feeders, Cells.state_eq own]
  show (p.stmtAt n >>= _) = _
  cases p.stmtAt n with
  | error e => rfl
  | ok stmt =>
    rw [List.foldl_map]
    rfl

/-- What came of a visit is what the cells that were looked up make of it. -/
theorem visit_of_advance {n : Node} {rest : List Node} (h : m.advance a p n rest = .ok m') :
    ∃ stmt, p.stmt? n = some stmt ∧ m' = m.visit a p n stmt rest := by
  obtain ⟨feeders, looked, h⟩ := bind_eq_ok.1 h
  obtain ⟨cell, own, h⟩ := bind_eq_ok.1 h
  obtain ⟨stmt, found, h⟩ := bind_eq_ok.1 h
  refine ⟨stmt, ?_, ?_⟩
  · unfold Procedure.stmtAt at found
    split at found
    · next got => rw [got, Except.ok.inj found]
    · cases found
  · rw [← Cells.map_get_of_mapM_state looked, ← Cells.get_of_state own, List.foldl_map] at h
    exact (Except.ok.inj h).symm

/-! ### Moves -/

/-- What a visit is: the first pending node is taken, and it has a statement. -/
theorem Moves.visit (h : Moves a p m m') :
    ∃ n rest stmt, m.pending = n :: rest ∧ p.stmt? n = some stmt ∧
      m' = m.visit a p n stmt rest := by
  unfold Moves step at h
  split at h
  · cases h
  · next n rest pending =>
    split at h
    · cases h
    · next moved =>
      cases h
      obtain ⟨stmt, found, eq⟩ := visit_of_advance moved
      exact ⟨n, rest, stmt, pending, found, eq⟩

section Visit

variable (a : Analysis V) (p : Procedure) (m : Machine V) (n : Node) (stmt : Stmt Var)
  (rest : List Node)

/-- What the statement of a visited node makes of the facts around it. -/
def carried : Fact V × Bool :=
  a.transfer stmt (gather a p m.cells n) (m.cells.get n).behind

@[simp] theorem visit_cells : (m.visit a p n stmt rest).cells =
    m.cells.set n ⟨gather a p m.cells n, (m.carried a p n stmt).1⟩ := rfl

@[simp] theorem visit_pending : (m.visit a p n stmt rest).pending =
    if (m.carried a p n stmt).2 then
      Ascending.insertAll a.direction.before (a.direction.fed p.graph n) rest
    else rest := rfl

@[simp] theorem visit_visits : (m.visit a p n stmt rest).visits =
    ⟨n, stmt, (m.carried a p n stmt).2, (m.carried a p n stmt).1⟩ :: m.visits := rfl

/-- After a visit, a node is pending if it was pending before or if it is fed by the
visited one, which has changed. -/
theorem mem_visit_pending {k : Node} : k ∈ (m.visit a p n stmt rest).pending ↔
    (m.carried a p n stmt).2 = true ∧ k ∈ a.direction.fed p.graph n ∨ k ∈ rest := by
  rw [visit_pending]
  split
  · next changed => simp [changed]
  · next unchanged => simp [unchanged]

end Visit

/-! ## What holds at every moment -/

/-- What holds at every moment of every analysis. -/
structure Valid (a : Analysis V) (p : Procedure) (m : Machine V) : Prop where
  /-- The nodes of the graph have a cell. -/
  nodes : m.cells.nodes = p.graph.nodes
  /-- Pending nodes are nodes of the graph, but not the start. -/
  pending : ∀ n ∈ m.pending, n ∈ p.graph.nodes ∧ n ≠ a.direction.start
  /-- The cell of the start is as it was. -/
  start : m.cells.get a.direction.start = ⟨.empty, a.boundary p⟩

theorem valid_initial (a : Analysis V) (p : Procedure) : Valid a p (initial a p) where
  nodes := Cells.nodes_initial a p
  pending n member := by simpa [initial] using member
  start := by simp [initial, Cells.get_initial]

/-- A visit leads from a valid moment to a valid one. -/
theorem Valid.moves (closed : p.graph.Closed) (valid : Valid a p m) (h : Moves a p m m') :
    Valid a p m' := by
  obtain ⟨n, rest, stmt, pending, -, rfl⟩ := h.visit
  obtain ⟨member, other⟩ := valid.pending n (pending ▸ List.mem_cons_self)
  constructor
  · rw [visit_cells, Cells.nodes_set, valid.nodes]
  · intro k pending'
    rcases (mem_visit_pending a p m n stmt rest).1 pending' with ⟨-, fed⟩ | old
    · exact Direction.mem_nodes_of_fed closed fed
    · exact valid.pending k (pending ▸ List.mem_cons_of_mem _ old)
  · rw [visit_cells, Cells.get_set (valid.nodes ▸ member), if_neg other.symm, valid.start]

/-- Every moment of a run is valid. -/
theorem Valid.of_reaches (closed : p.graph.Closed) (h : Reaches a p (initial a p) m) :
    Valid a p m := by
  induction h with
  | refl => exact valid_initial a p
  | tail _ move ih => exact ih.moves closed move

/-- The cells after a visit: that of the visited node is new. -/
theorem Valid.get_visit (valid : Valid a p m) {n : Node} {rest : List Node}
    (pending : m.pending = n :: rest) (stmt : Stmt Var) (k : Node) :
    (m.visit a p n stmt rest).cells.get k =
      if k = n then ⟨gather a p m.cells n, (m.carried a p n stmt).1⟩ else m.cells.get k := by
  have member := (valid.pending n (pending ▸ List.mem_cons_self)).1
  rw [visit_cells, Cells.get_set (valid.nodes ▸ member)]

/-! ## Lookups that do not fail -/

section Known

variable {n : Node} {rest : List Node} {stmt : Stmt Var}

/-- The node to visit and its feeders have cells. -/
theorem Valid.known (closed : p.graph.Closed) (valid : Valid a p m) (pending : m.pending = n :: rest) :
    ∀ k ∈ n :: a.direction.feeders p.graph n, k ∈ m.cells.nodes := by
  rw [valid.nodes]
  refine List.forall_mem_cons.2 ⟨?_, fun k feeds => Direction.mem_nodes_of_feeders closed feeds⟩
  exact (valid.pending n (pending ▸ List.mem_cons_self)).1

/-- A pending node that has a statement is visited. -/
theorem Valid.moves_visit (closed : p.graph.Closed) (valid : Valid a p m)
    (pending : m.pending = n :: rest) (found : p.stmt? n = some stmt) :
    Moves a p m (m.visit a p n stmt rest) := by
  have moved : m.advance a p n rest = .ok (m.visit a p n stmt rest) := by
    rw [advance_eq (valid.known closed pending), Procedure.stmtAt, found]
    rfl
  unfold Moves step
  rw [pending]
  simp only [moved]

/-- A visit can only fail for want of a statement. -/
theorem Valid.step_failed (closed : p.graph.Closed) (valid : Valid a p m) {e : Error}
    (h : m.step a p = .failed e) :
    ∃ n rest, m.pending = n :: rest ∧ p.stmt? n = none ∧ e = .noStatement n := by
  unfold step at h
  split at h
  · cases h
  · next n rest pending =>
    rw [advance_eq (valid.known closed pending), Procedure.stmtAt] at h
    cases found : p.stmt? n with
    | some stmt =>
      rw [found] at h
      cases h
    | none =>
      rw [found] at h
      cases h
      exact ⟨n, rest, pending, found, rfl⟩

end Known

/-! ## Bounded runs -/

/-- What a run makes of a machine is reached from it by moves. -/
theorem run_reaches (bound : Nat) (m : Machine V) : Reaches a p m (run a p bound m).1 := by
  induction bound generalizing m with
  | zero => exact .refl
  | succ bound ih =>
    rw [run]
    split
    · exact .refl
    · exact .refl
    · next next move => exact .head move (ih next)

/-- A run that settles leaves no node pending. -/
theorem pending_of_run_settled {bound : Nat} (h : (run a p bound m).2 = .settled) :
    (run a p bound m).1.pending = [] := by
  induction bound generalizing m with
  | zero =>
    simp only [run] at h ⊢
    split at h
    · next none => exact List.isEmpty_iff.1 none
    · cases h
  | succ bound ih =>
    rw [run] at h ⊢
    split at h
    · next stop =>
      unfold step at stop
      split at stop
      · next none => exact none
      · split at stop <;> cases stop
    · cases h
    · exact ih h

/-- A run only fails at a node without a statement: no lookup of a cell ever does. -/
theorem run_failed {bound : Nat} {e : Error} (closed : p.graph.Closed) (valid : Valid a p m)
    (h : (run a p bound m).2 = .failed e) : ∃ n rest,
      (run a p bound m).1.pending = n :: rest ∧ p.stmt? n = none ∧ e = .noStatement n := by
  induction bound generalizing m with
  | zero =>
    simp only [run] at h
    split at h <;> cases h
  | succ bound ih =>
    rw [run] at h ⊢
    split at h
    · cases h
    · next stop =>
      cases h
      exact valid.step_failed closed stop
    · next next move => exact ih (valid.moves closed move) h

/-- The bound is not used up when no moment has more visits made and pending than it
allows. -/
theorem run_ne_unsettled {total bound : Nat}
    (budget : ∀ m', Reaches a p m m' → m'.visits.length + m'.pending.length ≤ total)
    (enough : total ≤ m.visits.length + bound) : (run a p bound m).2 ≠ .unsettled := by
  induction bound generalizing m with
  | zero =>
    have none : m.pending.length = 0 := by
      have := budget m .refl
      omega
    simp [run, List.length_eq_zero_iff.1 none]
  | succ bound ih =>
    rw [run]
    split
    · exact Ending.noConfusion
    · exact Ending.noConfusion
    · next next move =>
      refine ih (fun m' h => budget m' (.head move h)) ?_
      obtain ⟨n, rest, stmt, -, -, rfl⟩ := Moves.visit move
      rw [visit_visits, List.length_cons]
      omega

/-- With enough visits, a run settles or comes to a node without a statement. -/
theorem run_ends {total bound : Nat} (closed : p.graph.Closed) (valid : Valid a p m)
    (budget : ∀ m', Reaches a p m m' → m'.visits.length + m'.pending.length ≤ total)
    (enough : total ≤ m.visits.length + bound) :
    (run a p bound m).2 = .settled ∨ ∃ n rest, (run a p bound m).1.pending = n :: rest ∧
      p.stmt? n = none ∧ (run a p bound m).2 = .failed (.noStatement n) := by
  cases ending : (run a p bound m).2 with
  | settled => exact .inl rfl
  | failed e =>
    obtain ⟨n, rest, pending, missing, rfl⟩ := run_failed closed valid ending
    exact .inr ⟨n, rest, pending, missing, rfl⟩
  | unsettled => exact absurd ending (run_ne_unsettled budget enough)

/-- If every pending node has a statement, such a run settles. -/
theorem run_settled {total bound : Nat} (closed : p.graph.Closed) (valid : Valid a p m)
    (budget : ∀ m', Reaches a p m m' → m'.visits.length + m'.pending.length ≤ total)
    (stmts : ∀ m', Reaches a p m m' → ∀ n ∈ m'.pending, (p.stmt? n).isSome)
    (enough : total ≤ m.visits.length + bound) : (run a p bound m).2 = .settled := by
  rcases run_ends closed valid budget enough with settled | ⟨n, rest, pending, missing, -⟩
  · exact settled
  · have found := stmts _ (run_reaches bound m) n (pending ▸ List.mem_cons_self)
    exact absurd found (by simp [missing])

end Machine

/-! ## Outcomes -/

section Outcome

variable {V : Type} [Domain V]

/-- The solution has what the cells of its nodes hold, in the direction of the
analysis. -/
theorem Machine.solution_get? (a : Analysis V) (m : Machine V) (n : Node) :
    (m.solution a).get? n = (m.cells.get? n).map a.direction.around := by
  simp only [solution, Solution.get?, Cells.get?]
  rw [List.find?_map, Option.map_map, Option.map_map]
  rfl

theorem Analysis.run_eq (a : Analysis V) (p : Procedure) : a.run p =
    ⟨(Machine.run a p p.visitBound (.initial a p)).1.visits.reverse,
      (Machine.run a p p.visitBound (.initial a p)).1.solution a,
      (Machine.run a p p.visitBound (.initial a p)).2⟩ := by
  rw [Analysis.run, Machine.start_eq]

end Outcome

end ConstantFlow
