import ConstantFlow.Proofs.Dataflow.Termination

/-!
# The order of visits

The pending nodes of a run ascend in the direction of the analysis, so a visit takes
the first of them.  No node is dropped: every node but the start is pending or has
been visited (`Machine.Ordered`).

A node without a statement is never visited, so it stays pending.  The first such
node is therefore where the run ends, and nothing behind it in the direction of the
analysis has been visited by then (`Analysis.Steady.sticks`).  The nodes in front of
it are visited as often as their facts ask for.  That the run comes to an end is
what bounds the visits of any other run (`Machine.visits_le`), which does not ask for
statements.
-/

namespace ConstantFlow

/-! ## The order of nodes -/

namespace Node

/-- The order of nodes is transitive. -/
theorem before_trans {a b c : Node} (h : a.before b) (h' : b.before c) : a.before c := by
  cases a <;> cases b <;> cases c <;> simp_all [before]
  omega

/-- What comes before a statement is one that comes earlier, or the entry. -/
theorem of_before_stmt {n : Node} {i : Nat} (h : n.before (.stmt i)) (other : n ≠ .entry) :
    ∃ j < i, n = .stmt j := by
  cases n with
  | entry => exact absurd rfl other
  | stmt j => exact ⟨j, of_decide_eq_true h, rfl⟩
  | exit => cases h

/-- What comes after a statement is one that comes later, or the exit. -/
theorem of_stmt_before {n : Node} {i : Nat} (h : (Node.stmt i).before n) (other : n ≠ .exit) :
    ∃ j > i, n = .stmt j := by
  cases n with
  | entry => cases h
  | stmt j => exact ⟨j, of_decide_eq_true h, rfl⟩
  | exit => exact absurd rfl other

end Node

theorem Graph.pairwise_nodes (g : Graph) : g.nodes.Pairwise fun a b => a.before b := by
  have stmts : ((List.range g.size).map Node.stmt).Pairwise fun a b => a.before b := by
    refine List.pairwise_map.2 (List.pairwise_lt_range.imp fun less => ?_)
    simpa [Node.before] using less
  refine List.pairwise_cons.2 ⟨?_, List.pairwise_append.2 ⟨stmts, List.pairwise_singleton _ _, ?_⟩⟩
  · intro n member
    rcases List.mem_append.1 member with among | last
    · obtain ⟨i, -, rfl⟩ := List.mem_map.1 among
      rfl
    · cases List.mem_singleton.1 last
      rfl
  · intro n among k last
    obtain ⟨i, -, rfl⟩ := List.mem_map.1 among
    cases List.mem_singleton.1 last
    rfl

namespace Direction

variable {d : Direction} {a b c : Node}

/-- The order of a direction, which may turn that of the nodes around, is transitive
too. -/
theorem before_trans (h : d.before a b) (h' : d.before b c) : d.before a c := by
  cases d with
  | forward => exact Node.before_trans h h'
  | backward => exact Node.before_trans h' h

theorem before_asymm (h : d.before a b) : ¬ d.before b a := by
  cases d with
  | forward => exact Node.before_asymm h
  | backward => exact Node.before_asymm h

theorem before_total (other : a ≠ b) (h : ¬ d.before a b) : d.before b a := by
  cases d with
  | forward => exact Node.before_total other h
  | backward => exact Node.before_total other.symm h

theorem pairwise_nodes (d : Direction) (g : Graph) :
    (d.nodes g).Pairwise fun a b => d.before a b := by
  cases d with
  | forward => exact g.pairwise_nodes
  | backward => exact List.pairwise_reverse.2 g.pairwise_nodes

end Direction

/-! ## Pending nodes and visits -/

namespace Machine

variable {V : Type} [Domain V] {a : Analysis V} {p : Procedure} {m m' : Machine V}

/-- What holds of the pending nodes and the visits at every moment of a run. -/
structure Ordered (a : Analysis V) (p : Procedure) (m : Machine V) : Prop where
  /-- The pending nodes ascend in the direction of the analysis. -/
  ascending : m.pending.Pairwise fun k n => a.direction.before k n
  /-- Every node but the start is pending or has been visited. -/
  kept : ∀ n ∈ p.graph.nodes, n ≠ a.direction.start →
    n ∈ m.pending ∨ ∃ v ∈ m.visits, v.node = n
  /-- What was visited is a node of the graph, but not the start, and it has the
  statement that was carried out. -/
  visited : ∀ v ∈ m.visits, (v.node ∈ p.graph.nodes ∧ v.node ≠ a.direction.start) ∧
    p.stmt? v.node = some v.stmt
  /-- What was visited comes before every node without a statement. -/
  earlier : ∀ v ∈ m.visits, ∀ n ∈ p.graph.nodes, n ≠ a.direction.start →
    p.stmt? n = none → a.direction.before v.node n

/-- At the start of a run every node but the first waits, in the order of the
direction. -/
theorem ordered_initial (a : Analysis V) (p : Procedure) : Ordered a p (initial a p) where
  ascending := (a.direction.pairwise_nodes p.graph).filter _
  kept n member other := .inl (by simpa [initial] using ⟨member, other⟩)
  visited v made := absurd made List.not_mem_nil
  earlier v made := absurd made List.not_mem_nil

/-- A node without a statement is pending. -/
theorem Ordered.mem_pending (ordered : Ordered a p m) {n : Node} (member : n ∈ p.graph.nodes)
    (other : n ≠ a.direction.start) (missing : p.stmt? n = none) : n ∈ m.pending := by
  rcases ordered.kept n member other with pending | ⟨v, made, rfl⟩
  · exact pending
  · exact absurd (missing.symm.trans (ordered.visited v made).2) (by simp)

/-- A visit keeps the pending nodes in order.  It takes the first of them that has a
statement, so a node that lacks one has not been passed over and is still pending. -/
theorem Ordered.moves (valid : Valid a p m) (ordered : Ordered a p m) (h : Moves a p m m') :
    Ordered a p m' := by
  obtain ⟨n, rest, stmt, pending, found, rfl⟩ := h.visit
  have head := valid.pending n (pending ▸ List.mem_cons_self)
  obtain ⟨first, ascending⟩ := List.pairwise_cons.1 (pending ▸ ordered.ascending)
  refine ⟨?_, fun k member other => ?_, fun v made => ?_, fun v made k member other missing => ?_⟩
  · rw [visit_pending]
    split
    · refine Ascending.pairwise_insertAll ?_ ?_ ascending
      · exact fun _ _ _ => Direction.before_trans
      · exact fun _ _ => Direction.before_total
    · exact ascending
  · rw [mem_visit_pending, visit_visits]
    rcases ordered.kept k member other with waiting | ⟨v, made, same⟩
    · rcases List.mem_cons.1 (pending ▸ waiting) with rfl | later
      · exact .inr ⟨_, List.mem_cons_self, rfl⟩
      · exact .inl (.inr later)
    · exact .inr ⟨v, List.mem_cons_of_mem _ made, same⟩
  · rcases List.mem_cons.1 (visit_visits a p m n stmt rest ▸ made) with rfl | old
    · exact ⟨head, found⟩
    · exact ordered.visited v old
  · rcases List.mem_cons.1 (visit_visits a p m n stmt rest ▸ made) with rfl | old
    · rcases List.mem_cons.1 (pending ▸ ordered.mem_pending member other missing) with rfl | later
      · exact absurd (missing.symm.trans found) (by simp)
      · exact first k later
    · exact ordered.earlier v old k member other missing

/-- What comes before the node to visit has been visited. -/
theorem Ordered.visited_of_before (ordered : Ordered a p m) {n k : Node}
    (head : m.pending.head? = some n) (member : k ∈ p.graph.nodes) (other : k ≠ a.direction.start)
    (before : a.direction.before k n) : ∃ v ∈ m.visits, v.node = k := by
  obtain ⟨rest, pending⟩ := List.head?_eq_some_iff.1 head
  rcases ordered.kept k member other with waiting | visited
  · have after : a.direction.before n k := by
      rcases List.mem_cons.1 (pending ▸ waiting) with rfl | later
      · exact before
      · exact (List.pairwise_cons.1 (pending ▸ ordered.ascending)).1 k later
    exact absurd after (Direction.before_asymm before)
  · exact visited

theorem Ordered.of_reaches (closed : p.graph.Closed) (h : Reaches a p (initial a p) m) :
    Ordered a p m := by
  induction h with
  | refl => exact ordered_initial a p
  | tail earlier move ih => exact ih.moves (.of_reaches closed earlier) move

end Machine

/-! ## The end of a run -/

/-- A run of a steady analysis ends at the first node without a statement, if there
is one.  Nothing that comes after this node has been visited, and everything that
comes before it has. -/
theorem Analysis.Steady.sticks {V : Type} [Domain V] [Domain.Lawful V] [DecidableEq V]
    {a : Analysis V} {effect : Stmt Var → Fact V → Fact V} {p : Procedure}
    (steady : a.Steady effect) (confined : a.Confined effect p (p.occurrences.map Var.id))
    (closed : p.graph.Closed) {n : Node} (member : n ∈ p.graph.nodes)
    (other : n ≠ a.direction.start) (missing : p.stmt? n = none)
    (first : ∀ k ∈ p.graph.nodes, a.direction.before k n → (p.stmt? k).isSome) :
    ∃ m, Machine.Ordered a p m ∧ m.pending.head? = some n ∧
      a.run p = ⟨m.visits.reverse, m.solution a, .failed (.noStatement n)⟩ := by
  have reached := Machine.run_reaches (a := a) (p := p) p.visitBound (.initial a p)
  have ordered := Machine.Ordered.of_reaches closed reached
  have waiting := ordered.mem_pending member other missing
  refine ⟨_, ordered, ?_⟩
  have enough : p.graph.size + 1 + 2 * (p.occurrences.map Var.id).length * p.graph.edgeCount ≤
      (Machine.initial a p).visits.length + p.visitBound := by
    simp only [Machine.initial, Procedure.visitBound, Graph.length_nodes, List.length_map,
      List.length_nil]
    omega
  rcases Machine.run_ends closed (Machine.valid_initial a p)
      (fun m h => Machine.visits_le steady confined closed h) enough with
    settled | ⟨k, rest, pending, missing', failed⟩
  · rw [Machine.pending_of_run_settled settled] at waiting
    exact absurd waiting List.not_mem_nil
  · have same : k = n := by
      rcases List.mem_cons.1 (pending ▸ waiting) with same | later
      · exact same.symm
      · have before := (List.pairwise_cons.1 (pending ▸ ordered.ascending)).1 n later
        have inside := ((Machine.Valid.of_reaches closed reached).pending k
          (pending ▸ List.mem_cons_self)).1
        exact absurd (first k inside before) (by simp [missing'])
    subst same
    rw [Analysis.run_eq, failed, pending]
    exact ⟨rfl, rfl⟩

end ConstantFlow
