import ConstantFlow.Proofs.Dataflow.Steady

/-!
# What the visits of a node leave behind it

A run has one course: a moment has one next moment, so the run passes every
moment that it reaches before it is idle (`Machine.Reaches.of_idle`).

The fact behind a node remembers its visits.  A value there is undefined or was
made by the statement in some visit (`Machine.behind_made`), and it is no less
than what the statement made in any visit (`Machine.Visited.effect_le`).
-/

namespace ConstantFlow.Machine

variable {V : Type} [Domain V] {a : Analysis V} {p : Procedure} {m m' : Machine V}

/-! ## The course of a run -/

theorem Moves.unique {m₁ m₂ : Machine V} (h₁ : Moves a p m m₁) (h₂ : Moves a p m m₂) :
    m₁ = m₂ :=
  Step.moved.inj (h₁.symm.trans h₂)

/-- An idle moment of a run is its last one. -/
theorem Reaches.of_idle {first : Machine V} (idle : m.pending = []) (h : Reaches a p first m)
    (h' : Reaches a p first m') : Reaches a p m' m := by
  rcases Relation.ReflTransGen.total_of_right_unique (fun _ _ _ => Moves.unique) h h' with
    later | earlier
  · rcases Relation.ReflTransGen.cases_head later with rfl | ⟨next, move, -⟩
    · exact .refl
    · obtain ⟨n, rest, -, pending, -⟩ := move.visit
      exact absurd (idle.symm.trans pending) (by simp)
  · exact earlier

/-- A run has one idle moment. -/
theorem Reaches.eq_of_idle {first : Machine V} (idle : m.pending = []) (idle' : m'.pending = [])
    (h : Reaches a p first m) (h' : Reaches a p first m') : m = m' := by
  rcases Relation.ReflTransGen.cases_head (Reaches.of_idle idle h h') with same | ⟨_, move, -⟩
  · exact same.symm
  · obtain ⟨n, rest, -, pending, -⟩ := move.visit
    exact absurd (idle'.symm.trans pending) (by simp)

/-! ## The visits of a node -/

/-- Whether a node is visited in the run with a fact in front of it. -/
def Visited (a : Analysis V) (p : Procedure) (n : Node) (f : Fact V) : Prop :=
  ∃ m m', Reaches a p (initial a p) m ∧ m.pending.head? = some n ∧ Moves a p m m' ∧
    (m'.cells.get n).front = f

variable [Domain.Lawful V] [DecidableEq V] {effect : Stmt Var → Fact V → Fact V} {n : Node}
  {stmt : Stmt Var}

/-- A value behind a node is undefined, or the statement made it in a visit. -/
theorem behind_made (steady : a.Steady effect) (closed : p.graph.Closed)
    (h : Reaches a p (initial a p) m) (other : n ≠ a.direction.start)
    (found : p.stmt? n = some stmt) (id : VarId) :
    (m.cells.get n).behind.get id = ⊥ ∨
      ∃ f, Visited a p n f ∧ (m.cells.get n).behind.get id = (effect stmt f).get id := by
  induction h with
  | refl =>
    rw [initial, Cells.get_initial, if_neg other, Fact.get_empty, Domain.Lawful.bottom_eq_bot]
    exact .inl rfl
  | @tail before after earlier move ih =>
    have valid : Valid a p before := .of_reaches closed earlier
    obtain ⟨k, rest, stmt', pending, found', rfl⟩ := move.visit
    rw [valid.get_visit pending]
    split
    · next same =>
      subst same
      cases found.symm.trans found'
      have visited : Visited a p n (gather a p before.cells n) := by
        refine ⟨before, _, earlier, by rw [pending, List.head?_cons], move, ?_⟩
        rw [valid.get_visit pending, if_pos rfl]
      simp only [carried_fst steady, Fact.get_copyFrom, Domain.Lawful.bottom_eq_bot]
      split
      · exact ih
      · exact .inr ⟨_, visited, rfl⟩
    · exact ih

namespace Visited

variable {f : Fact V}

/-- In front of a node there is in the end no less than in any visit. -/
theorem le_front (steady : a.Steady effect) (closed : p.graph.Closed) (visited : Visited a p n f)
    (reached : Reaches a p (initial a p) m) (idle : m.pending = []) :
    f ≤ (m.cells.get n).front := by
  obtain ⟨before, after, earlier, -, move, rfl⟩ := visited
  have passed : Reaches a p (initial a p) after := earlier.tail move
  exact (passed.le steady closed (.of_idle idle reached passed) n).1

/-- Behind a node there is in the end no less than its statement made in any
visit. -/
theorem effect_le (steady : a.Steady effect) (closed : p.graph.Closed) (visited : Visited a p n f)
    (found : p.stmt? n = some stmt) (reached : Reaches a p (initial a p) m)
    (idle : m.pending = []) : effect stmt f ≤ (m.cells.get n).behind := by
  obtain ⟨before, after, earlier, head, move, rfl⟩ := visited
  have passed : Reaches a p (initial a p) after := earlier.tail move
  have climbs := (passed.le steady closed (.of_idle idle reached passed) n).2
  have valid : Valid a p before := .of_reaches closed earlier
  obtain ⟨k, rest, stmt', pending, found', rfl⟩ := move.visit
  rw [pending, List.head?_cons, Option.some.injEq] at head
  subst head
  cases found.symm.trans found'
  intro id
  refine le_trans ?_ (climbs id)
  rw [valid.get_visit pending, if_pos rfl, carried_fst steady, Fact.get_copyFrom,
    Domain.Lawful.bottom_eq_bot]
  split
  · next nothing => exact nothing ▸ bot_le
  · exact le_rfl

end Visited

end ConstantFlow.Machine
