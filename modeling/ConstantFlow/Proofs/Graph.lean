import ConstantFlow.Proofs.Domain
import ConstantFlow.Proofs.Graph.Insertion
import Mathlib.Algebra.BigOperators.Group.List.Basic
import Mathlib.Algebra.GroupWithZero.Nat
import Mathlib.Data.List.Nodup

/-!
# What the graph of a body is

The successors of a node in the graph of a body are exactly the places where
control may go from there (`Graph.mem_successors_stmt`), and those of the entry
are the first position alone.  Nothing leads to the entry and nothing leaves the exit, so the start of
an analysis is fed by no node in either direction.

Every arrow leaves one node and reaches one, so the numbers of successors of
all nodes add up to the number of arrows, and so do those of predecessors.
-/

namespace ConstantFlow

variable {ν : Type}

namespace Graph

/-! ## Nodes and arrows of a graph -/

theorem mem_nodes {g : Graph} {n : Node} :
    n ∈ g.nodes ↔ n = .entry ∨ Reachable g.size n := by
  simp only [nodes, Reachable, List.mem_cons, List.mem_append, List.mem_map, List.mem_range,
    List.not_mem_nil, or_false]
  constructor
  · rintro (h | ⟨i, inside, rfl⟩ | h)
    · exact .inl h
    · exact .inr (.inr ⟨i, inside, rfl⟩)
    · exact .inr (.inl h)
  · rintro (h | h | ⟨i, inside, rfl⟩)
    · exact .inl h
    · exact .inr (.inr h)
    · exact .inr (.inl ⟨i, inside, rfl⟩)

theorem nodes_nodup (g : Graph) : g.nodes.Nodup := by
  have stmts : ((List.range g.size).map Node.stmt).Nodup :=
    List.nodup_range.map fun i j h => Node.stmt.inj h
  simp [nodes, List.nodup_append, stmts]

@[simp] theorem length_nodes (g : Graph) : g.nodes.length = g.size + 2 := by
  simp [nodes]

theorem mem_successors {g : Graph} {m n : Node} :
    n ∈ g.successors m ↔ ∃ arrow ∈ g.arrows, arrow.source = m ∧ arrow.target = n := by
  simp [successors, and_assoc]

theorem mem_predecessors {g : Graph} {m n : Node} :
    m ∈ g.predecessors n ↔ ∃ arrow ∈ g.arrows, arrow.source = m ∧ arrow.target = n := by
  simp only [predecessors, List.mem_map, List.mem_filter, beq_iff_eq]
  constructor
  · rintro ⟨arrow, ⟨member, target⟩, source⟩
    exact ⟨arrow, member, source, target⟩
  · rintro ⟨arrow, member, source, target⟩
    exact ⟨arrow, ⟨member, target⟩, source⟩

/-- Two nodes are joined by the same arrow, seen from either end. -/
theorem mem_predecessors_iff {g : Graph} {m n : Node} :
    m ∈ g.predecessors n ↔ n ∈ g.successors m := by
  rw [mem_predecessors, mem_successors]

/-- A graph is closed when its arrows join nodes of the graph, none leads to
the entry and none leaves the exit. -/
structure Closed (g : Graph) : Prop where
  /-- Every arrow leaves a node. -/
  source_mem : ∀ arrow ∈ g.arrows, arrow.source ∈ g.nodes
  /-- Every arrow reaches a node. -/
  target_mem : ∀ arrow ∈ g.arrows, arrow.target ∈ g.nodes
  /-- Nothing leads to the entry. -/
  target_ne : ∀ arrow ∈ g.arrows, arrow.target ≠ .entry
  /-- Nothing leaves the exit. -/
  source_ne : ∀ arrow ∈ g.arrows, arrow.source ≠ .exit

/-- An element is counted by adding up a one for each place at which it is. -/
theorem sum_indicator {β : Type} [DecidableEq β] (b : β) (ys : List β) :
    (ys.map fun y => if y = b then 1 else 0).sum = ys.count b := by
  induction ys with
  | nil => rfl
  | cons y ys ih => simp [List.count_cons, ih, Nat.add_comm]

/-- Things sorted by a key into a list without repetitions are all there. -/
theorem sum_length_filter {α β : Type} [DecidableEq β] {key : α → β} {xs : List α}
    {ys : List β} (distinct : ys.Nodup) (keys : ∀ x ∈ xs, key x ∈ ys) :
    (ys.map fun y => (xs.filter fun x => key x == y).length).sum = xs.length := by
  induction xs with
  | nil => simp
  | cons x xs ih =>
    have one : (ys.map fun y => if y = key x then 1 else 0).sum = 1 := by
      rw [sum_indicator, List.count_eq_one_of_mem distinct (keys x List.mem_cons_self)]
    have split (y : β) : ((x :: xs).filter fun x => key x == y).length =
        (xs.filter fun x => key x == y).length + if y = key x then 1 else 0 := by
      by_cases h : y = key x <;> simp [h, Ne.symm]
    simp only [split, List.sum_map_add, one, List.length_cons]
    rw [ih fun z member => keys z (List.mem_cons_of_mem _ member)]

namespace Closed

variable {g : Graph}

/-- There are as many successors as edges in a closed graph. -/
theorem sum_successors (closed : g.Closed) :
    (g.nodes.map fun n => (g.successors n).length).sum = g.edgeCount := by
  simp only [successors, List.length_map]
  exact sum_length_filter g.nodes_nodup closed.source_mem

theorem sum_predecessors (closed : g.Closed) :
    (g.nodes.map fun n => (g.predecessors n).length).sum = g.edgeCount := by
  simp only [predecessors, List.length_map]
  exact sum_length_filter g.nodes_nodup closed.target_mem

end Closed

/-! ## The graph of a body -/

section Build

variable {body : List (Stmt ν)} {g : Graph}

theorem size_of_build (h : build body = .ok g) : g.size = body.length := by
  rw [build_eq] at h
  obtain ⟨_, -, h⟩ := bind_eq_ok.1 h
  rw [← pure_eq_ok.1 h]

/-- The arrows of the graph of a body: one from the entry, and those of the
statements. -/
theorem arrows_of_build (h : build body = .ok g) (arrow : Arrow) :
    arrow ∈ g.arrows ↔ arrow = ⟨.entry, .at body.length 0, .entry⟩ ∨
      ∃ i stmt own, body[i]? = some stmt ∧ arrowsFrom body.length i stmt = .ok own ∧
        arrow ∈ own := by
  rw [build_eq] at h
  obtain ⟨arrows, found, h⟩ := bind_eq_ok.1 h
  rw [← pure_eq_ok.1 h]
  have members := (mem_arrowsAfter found).2 arrow
  simp only [Nat.zero_add] at members
  rw [List.mem_cons, members, first_eq]

theorem arrowsFrom_of_build (h : build body = .ok g) {i : Nat} {stmt : Stmt ν}
    (at_i : body[i]? = some stmt) : ∃ own, arrowsFrom body.length i stmt = .ok own := by
  rw [build_eq] at h
  obtain ⟨arrows, found, -⟩ := bind_eq_ok.1 h
  have each := (mem_arrowsAfter found).1 i stmt at_i
  rwa [Nat.zero_add] at each

/-- Control enters a body at its first position. -/
theorem mem_successors_entry (h : build body = .ok g) {n : Node} :
    n ∈ g.successors .entry ↔ n = .at body.length 0 := by
  rw [mem_successors]
  constructor
  · rintro ⟨arrow, member, source, rfl⟩
    rcases (arrows_of_build h arrow).1 member with rfl | ⟨i, stmt, own, -, found, among⟩
    · rfl
    · rw [(mem_arrowsFrom found).2.2 arrow among] at source
      exact absurd source (by simp)
  · rintro rfl
    exact ⟨_, (arrows_of_build h _).2 (.inl rfl), rfl, rfl⟩

/-- The successors of a statement are the places where control may go. -/
theorem mem_successors_stmt (h : build body = .ok g) {i : Nat} {n : Node} :
    n ∈ g.successors (.stmt i) ↔
      ∃ stmt, body[i]? = some stmt ∧ n ∈ stmt.exits body.length i := by
  rw [mem_successors]
  constructor
  · rintro ⟨arrow, member, source, rfl⟩
    rcases (arrows_of_build h arrow).1 member with rfl | ⟨j, stmt, own, at_j, found, among⟩
    · exact absurd source (by simp)
    · rw [(mem_arrowsFrom found).2.2 arrow among] at source
      cases source
      exact ⟨stmt, at_j, ((mem_arrowsFrom found).1 _).1 (List.mem_map_of_mem among)⟩
  · rintro ⟨stmt, at_i, member⟩
    obtain ⟨own, found⟩ := arrowsFrom_of_build h at_i
    obtain ⟨arrow, among, rfl⟩ := List.mem_map.1 (((mem_arrowsFrom found).1 n).2 member)
    exact ⟨arrow, (arrows_of_build h arrow).2 (.inr ⟨i, stmt, own, at_i, found, among⟩),
      (mem_arrowsFrom found).2.2 arrow among, rfl⟩

/-- The graph of a body is closed: its arrows stay between its nodes. -/
theorem closed_of_build (h : build body = .ok g) : g.Closed := by
  have ends : ∀ arrow ∈ g.arrows,
      (arrow.source = .entry ∨ ∃ i < g.size, arrow.source = .stmt i) ∧
        Reachable g.size arrow.target := by
    intro arrow member
    rw [size_of_build h]
    rcases (arrows_of_build h arrow).1 member with rfl | ⟨i, stmt, own, at_i, found, among⟩
    · exact ⟨.inl rfl, reachable_at _ _⟩
    · obtain ⟨targets, places, sources⟩ := mem_arrowsFrom found
      refine ⟨.inr ⟨i, ?_, sources arrow among⟩, ?_⟩
      · exact (List.getElem?_eq_some_iff.1 at_i).1
      · exact places _ ((targets _).1 (List.mem_map_of_mem among))
  constructor
  · intro arrow member
    rcases (ends arrow member).1 with h | ⟨i, inside, h⟩
    · exact mem_nodes.2 (.inl h)
    · exact mem_nodes.2 (.inr (.inr ⟨i, inside, h⟩))
  · exact fun arrow member => mem_nodes.2 (.inr (ends arrow member).2)
  · intro arrow member target
    rcases (ends arrow member).2 with h | ⟨i, -, h⟩ <;> exact absurd (target.symm.trans h) (by simp)
  · intro arrow member source
    rcases (ends arrow member).1 with h | ⟨i, -, h⟩ <;> exact absurd (source.symm.trans h) (by simp)

end Build

end Graph

end ConstantFlow
