import ConstantFlow.Proofs.Dataflow.Runs

/-!
# Steady analyses

An analysis is *steady* when it joins facts variable by variable, copies the
*effect* of a statement into the fact behind it, and the effect of a statement
does not fall when the fact in front climbs, unless it falls to nothing.

An effect that falls to nothing is not copied, so the fact behind keeps what
was there.  This is why facts only climb in a run (`Machine.Reaches.le`):
each value behind a statement is undefined, or it is what the statement made at
an earlier moment of a lower fact in front (`Cell.Grown`).

What a run settles on is shown by an invariant of the pending nodes
(`Machine.Consistent`).  A fact in front is never above what the feeders say.
If its node is not pending it is not below that either, and the statement does
not change the fact behind.

A bound on all facts that every visit keeps holds of the whole run
(`Machine.Reaches.le_bound`), so a run settles on facts below any such bound.
-/

namespace ConstantFlow

variable {V : Type} [Domain V] [Domain.Lawful V] [DecidableEq V]

/-! ## Cells -/

namespace Cell

omit [DecidableEq V] in
/-- A cell is below another if both of its facts are. -/
instance : Preorder (Cell V) where
  le c d := c.front ≤ d.front ∧ c.behind ≤ d.behind
  le_refl _ := ⟨le_rfl, le_rfl⟩
  le_trans _ _ _ h h' := ⟨h.1.trans h'.1, h.2.trans h'.2⟩

/-- Every value behind the statement is undefined, or the statement made it of
a fact below the one in front. -/
def Grown (effect : Stmt Var → Fact V → Fact V) (stmt : Stmt Var) (cell : Cell V) : Prop :=
  ∀ id, cell.behind.get id = ⊥ ∨
    ∃ f ≤ cell.front, cell.behind.get id = (effect stmt f).get id

end Cell

/-! ## Steady analyses -/

/-- An analysis that joins variable by variable and copies effects that do not
fall but to nothing. -/
structure Analysis.Steady (a : Analysis V) (effect : Stmt Var → Fact V → Fact V) : Prop where
  /-- Facts join variable by variable. -/
  get_join : ∀ f g id, (a.join f g).get id = f.get id ⊔ g.get id
  /-- The effect of a statement is copied into the fact behind. -/
  transfer_eq : ∀ stmt front behind,
    a.transfer stmt front behind = behind.copyFrom (effect stmt front)
  /-- Under a higher fact the effect is higher or nothing. -/
  effect_climbs : ∀ stmt {f g : Fact V}, f ≤ g → ∀ id,
    (effect stmt g).get id = ⊥ ∨ (effect stmt f).get id ≤ (effect stmt g).get id

namespace Cell.Grown

variable {a : Analysis V} {effect : Stmt Var → Fact V → Fact V} {stmt : Stmt Var}
  {cell : Cell V} {front : Fact V}

/-- The fact behind a statement climbs when the fact in front does. -/
theorem le_copyFrom (steady : a.Steady effect) (grown : cell.Grown effect stmt)
    (climbs : cell.front ≤ front) :
    cell.behind ≤ (cell.behind.copyFrom (effect stmt front)).1 := by
  intro id
  rw [Fact.get_copyFrom, Domain.Lawful.bottom_eq_bot]
  split
  · exact le_rfl
  · next made =>
    rcases grown id with nothing | ⟨f, below, same⟩
    · rw [nothing]
      exact bot_le
    · rw [same]
      exact (steady.effect_climbs stmt (below.trans climbs) id).resolve_left made

/-- A cell stays grown when its statement is carried out on a higher fact. -/
theorem copyFrom (grown : cell.Grown effect stmt) (climbs : cell.front ≤ front) :
    Cell.Grown effect stmt ⟨front, (cell.behind.copyFrom (effect stmt front)).1⟩ := by
  intro id
  simp only [Fact.get_copyFrom, Domain.Lawful.bottom_eq_bot]
  split
  · exact (grown id).imp_right fun ⟨f, below, same⟩ => ⟨f, below.trans climbs, same⟩
  · exact .inr ⟨front, le_rfl, rfl⟩

end Cell.Grown

namespace Machine

variable {a : Analysis V} {effect : Stmt Var → Fact V → Fact V} {p : Procedure}
  {m m' : Machine V}

/-! ## Gathering -/

section Gather

/-- A join of several facts is below a bound if each of them is. -/
theorem foldl_join_le (steady : a.Steady effect) {ι : Type} {feeders : List ι} {behind : ι → Fact V}
    {start bound : Fact V} :
    feeders.foldl (fun f k => a.join f (behind k)) start ≤ bound ↔
      start ≤ bound ∧ ∀ k ∈ feeders, behind k ≤ bound := by
  induction feeders generalizing start with
  | nil => simp
  | cons k rest ih =>
    have joined : a.join start (behind k) ≤ bound ↔ start ≤ bound ∧ behind k ≤ bound := by
      simp only [Fact.le_iff, steady.get_join, sup_le_iff, forall_and]
    rw [List.foldl_cons, ih, joined, List.forall_mem_cons, and_assoc]

/-- The joined value of a variable is the join of its values. -/
theorem get_foldl_join (steady : a.Steady effect) (feeders : List Node) (behind : Node → Fact V)
    (start : Fact V) (id : VarId) :
    (feeders.foldl (fun f k => a.join f (behind k)) start).get id =
      (feeders.map fun k => (behind k).get id).foldl (· ⊔ ·) (start.get id) := by
  induction feeders generalizing start with
  | nil => rfl
  | cons k rest ih =>
    rw [List.foldl_cons, ih, steady.get_join, List.map_cons, List.foldl_cons]

/-- A gathered fact is the least one above the fact in front and the facts
behind all feeders. -/
theorem gather_le_iff (steady : a.Steady effect) {cells : Cells V} {n : Node} {bound : Fact V} :
    gather a p cells n ≤ bound ↔ (cells.get n).front ≤ bound ∧
      ∀ k ∈ a.direction.feeders p.graph n, (cells.get k).behind ≤ bound :=
  foldl_join_le steady

/-- What is gathered is no less than what is in front of the node. -/
theorem front_le_gather (steady : a.Steady effect) (cells : Cells V) (n : Node) :
    (cells.get n).front ≤ gather a p cells n :=
  ((gather_le_iff steady).1 le_rfl).1

/-- What is gathered is no less than what is behind a node that feeds it. -/
theorem behind_le_gather (steady : a.Steady effect) (cells : Cells V) {n k : Node}
    (h : k ∈ a.direction.feeders p.graph n) : (cells.get k).behind ≤ gather a p cells n :=
  ((gather_le_iff steady).1 le_rfl).2 k h

/-- What is gathered of one variable is below what bounds its parts.  The gathered fact
with the bound at this variable is above all parts, so it is above their join. -/
theorem get_gather_le (steady : a.Steady effect) {cells : Cells V} {n : Node} {id : VarId} {b : V}
    (front : (cells.get n).front.get id ≤ b)
    (behind : ∀ k ∈ a.direction.feeders p.graph n, (cells.get k).behind.get id ≤ b) :
    (gather a p cells n).get id ≤ b := by
  have above {f : Fact V} (below : f.get id ≤ b) (h : f ≤ gather a p cells n) :
      f ≤ (gather a p cells n).set id b := by
    intro k
    rw [Fact.get_set]
    split
    · next same => exact same ▸ below
    · exact h k
  have bounded := (gather_le_iff steady).2
    ⟨above front (front_le_gather steady _ _),
      fun k feeds => above (behind k feeds) (behind_le_gather steady _ feeds)⟩ id
  rwa [Fact.get_set, if_pos rfl] at bounded

end Gather

/-! ## Facts climb -/

/-- Every cell but that of the start is grown. -/
def Grown (a : Analysis V) (effect : Stmt Var → Fact V → Fact V) (p : Procedure)
    (m : Machine V) : Prop :=
  ∀ n, n ≠ a.direction.start → ∀ stmt, p.stmt? n = some stmt → (m.cells.get n).Grown effect stmt

omit [DecidableEq V] in
/-- At the start, every cell but the first is empty, so it has grown from nothing. -/
theorem grown_initial (a : Analysis V) (effect : Stmt Var → Fact V → Fact V) (p : Procedure) :
    Grown a effect p (initial a p) := by
  intro n other stmt _ id
  simp [initial, Cells.get_initial, other]

theorem carried_fst (steady : a.Steady effect) (n : Node) (stmt : Stmt Var) :
    (m.carried a p n stmt).1 =
      ((m.cells.get n).behind.copyFrom (effect stmt (gather a p m.cells n))).1 := by
  rw [carried, steady.transfer_eq]

/-- The fact behind a visited node changed exactly if the visit says so. -/
theorem carried_snd_iff (steady : a.Steady effect) (n : Node) (stmt : Stmt Var) :
    (m.carried a p n stmt).2 = true ↔ (m.carried a p n stmt).1 ≠ (m.cells.get n).behind := by
  rw [carried, steady.transfer_eq]
  exact Fact.copyFrom_changed_iff _ _

/-- A visit keeps cells grown: what is behind the node now was made of what is in front
of it now. -/
theorem Grown.moves (steady : a.Steady effect) (valid : Valid a p m) (grown : Grown a effect p m)
    (h : Moves a p m m') : Grown a effect p m' := by
  obtain ⟨n, rest, stmt, pending, found, rfl⟩ := h.visit
  intro k other stmt' found'
  rw [valid.get_visit pending]
  split
  · next same =>
    subst same
    rw [found] at found'
    cases found'
    rw [carried_fst steady]
    exact (grown k other stmt found).copyFrom (front_le_gather steady _ _)
  · exact grown k other stmt' found'

/-- In one visit no fact falls. -/
theorem Moves.le (steady : a.Steady effect) (valid : Valid a p m) (grown : Grown a effect p m)
    (h : Moves a p m m') (n : Node) : m.cells.get n ≤ m'.cells.get n := by
  obtain ⟨k, rest, stmt, pending, found, rfl⟩ := h.visit
  rw [valid.get_visit pending]
  split
  · next same =>
    subst same
    have other := (valid.pending n (pending ▸ List.mem_cons_self)).2
    refine ⟨front_le_gather steady _ _, ?_⟩
    rw [carried_fst steady]
    exact (grown n other stmt found).le_copyFrom steady (front_le_gather steady _ _)
  · exact le_rfl

theorem Grown.of_reaches (steady : a.Steady effect) (closed : p.graph.Closed)
    (h : Reaches a p (initial a p) m) : Grown a effect p m := by
  induction h with
  | refl => exact grown_initial a effect p
  | tail earlier move ih => exact ih.moves steady (.of_reaches closed earlier) move

/-- From any moment of a run to a later one no fact falls. -/
theorem Reaches.le (steady : a.Steady effect) (closed : p.graph.Closed)
    (before : Reaches a p (initial a p) m) (h : Reaches a p m m') (n : Node) :
    m.cells.get n ≤ m'.cells.get n := by
  induction h with
  | refl => exact le_rfl
  | tail earlier move ih =>
    have reached := before.trans earlier
    exact ih.trans (move.le steady (.of_reaches closed reached)
      (.of_reaches steady closed reached) n)

/-! ## Nodes that are not pending -/

/-- What holds between the facts of a run. -/
structure Consistent (a : Analysis V) (p : Procedure) (m : Machine V) : Prop where
  /-- A fact in front says no more than the facts behind the feeders. -/
  gathered : ∀ n, n ≠ a.direction.start → ∀ bound : Fact V,
    (∀ k ∈ a.direction.feeders p.graph n, (m.cells.get k).behind ≤ bound) →
      (m.cells.get n).front ≤ bound
  /-- In front of a node that is not pending it says no less. -/
  received : ∀ n ∈ p.graph.nodes, n ≠ a.direction.start → n ∉ m.pending →
    ∀ k ∈ a.direction.feeders p.graph n, (m.cells.get k).behind ≤ (m.cells.get n).front
  /-- The statement of a node that is not pending changes nothing. -/
  stable : ∀ n ∈ p.graph.nodes, n ≠ a.direction.start → n ∉ m.pending →
    ∀ stmt, p.stmt? n = some stmt →
      a.transfer stmt (m.cells.get n).front (m.cells.get n).behind = ((m.cells.get n).behind, false)

omit [DecidableEq V] in
theorem consistent_initial (a : Analysis V) (p : Procedure) : Consistent a p (initial a p) := by
  have all : ∀ n ∈ p.graph.nodes, n ≠ a.direction.start → n ∈ (initial a p).pending := by
    intro n member other
    simp [initial, member, other]
  constructor
  · intro n other bound _
    simpa [initial, Cells.get_initial, other] using Fact.empty_le bound
  · exact fun n member other idle => absurd (all n member other) idle
  · exact fun n member other idle => absurd (all n member other) idle

/-- A visit keeps the moment consistent.  A node fed by the visited one is pending
afterwards, unless the visit changed nothing, and then it receives what it had. -/
theorem Consistent.moves (steady : a.Steady effect) (valid : Valid a p m)
    (grown : Grown a effect p m) (consistent : Consistent a p m) (h : Moves a p m m') :
    Consistent a p m' := by
  have climbs := h.le steady valid grown
  obtain ⟨n, rest, stmt, pending, found, rfl⟩ := h.visit
  have get := valid.get_visit pending stmt
  have fed_idle {k : Node} (feeds : n ∈ a.direction.feeders p.graph k)
      (idle : k ∉ (m.visit a p n stmt rest).pending) :
      (m.carried a p n stmt).1 = (m.cells.get n).behind := by
    by_contra changed
    exact idle ((mem_visit_pending a p m n stmt rest).2
      (.inl ⟨(carried_snd_iff steady n stmt).2 changed, Direction.mem_feeders_iff.1 feeds⟩))
  have old_idle {k : Node} (other : k ≠ n)
      (idle : k ∉ (m.visit a p n stmt rest).pending) : k ∉ m.pending := by
    rw [pending, List.mem_cons, not_or]
    exact ⟨other, fun old => idle ((mem_visit_pending a p m n stmt rest).2 (.inr old))⟩
  constructor
  · intro k other bound above
    have front : (m.cells.get k).front ≤ bound :=
      consistent.gathered k other bound fun j feeds => (climbs j).2.trans (above j feeds)
    rw [get]
    split
    · next same =>
      subst same
      exact (gather_le_iff steady).2
        ⟨front, fun j feeds => (climbs j).2.trans (above j feeds)⟩
    · exact front
  · intro k member other idle j feeds
    have behind : ((m.visit a p n stmt rest).cells.get j).behind = (m.cells.get j).behind := by
      rw [get]
      split
      · next same =>
        subst same
        exact fed_idle feeds idle
      · rfl
    rw [behind, get]
    split
    · next same =>
      subst same
      exact behind_le_gather steady _ feeds
    · next different =>
      exact consistent.received k member other (old_idle different idle) j feeds
  · intro k member other idle stmt' found'
    rw [get]
    split
    · next same =>
      subst same
      rw [found] at found'
      cases found'
      rw [steady.transfer_eq, carried_fst steady]
      exact Fact.copyFrom_copyFrom _ _
    · next different =>
      exact consistent.stable k member other (old_idle different idle) stmt' found'

theorem Consistent.of_reaches (steady : a.Steady effect) (closed : p.graph.Closed)
    (h : Reaches a p (initial a p) m) : Consistent a p m := by
  induction h with
  | refl => exact consistent_initial a p
  | tail earlier move ih =>
    exact ih.moves steady (.of_reaches closed earlier) (.of_reaches steady closed earlier) move

/-- In front of a node that is not pending every variable has the join of its
values behind the feeders. -/
theorem Consistent.get_front (steady : a.Steady effect) (consistent : Consistent a p m) {n : Node}
    (member : n ∈ p.graph.nodes) (other : n ≠ a.direction.start) (idle : n ∉ m.pending)
    (id : VarId) :
    (m.cells.get n).front.get id =
      ((a.direction.feeders p.graph n).map fun k => (m.cells.get k).behind.get id).foldl
        (· ⊔ ·) ⊥ := by
  let joined : Fact V :=
    (a.direction.feeders p.graph n).foldl (fun f k => a.join f (m.cells.get k).behind) .empty
  have below : joined ≤ (m.cells.get n).front :=
    (foldl_join_le steady).2 ⟨Fact.empty_le _, consistent.received n member other idle⟩
  have above : (m.cells.get n).front ≤ joined :=
    consistent.gathered n other joined ((foldl_join_le steady).1 le_rfl).2
  rw [le_antisymm above below, get_foldl_join steady, Fact.get_empty,
    Domain.Lawful.bottom_eq_bot]

/-- Behind a node that is not pending a variable has what the statement makes
of it, unless that is nothing. -/
theorem Consistent.get_behind (steady : a.Steady effect) (consistent : Consistent a p m) {n : Node}
    (member : n ∈ p.graph.nodes) (other : n ≠ a.direction.start) (idle : n ∉ m.pending)
    {stmt : Stmt Var} (found : p.stmt? n = some stmt) {id : VarId}
    (made : (effect stmt (m.cells.get n).front).get id ≠ ⊥) :
    (m.cells.get n).behind.get id = (effect stmt (m.cells.get n).front).get id := by
  have stable := consistent.stable n member other idle stmt found
  rw [steady.transfer_eq] at stable
  have copied := Fact.get_copyFrom (m.cells.get n).behind (effect stmt (m.cells.get n).front) id
  rwa [stable, Domain.Lawful.bottom_eq_bot, if_neg made] at copied

/-! ## Bounds that every visit keeps -/

/-- Cells that are above the boundary, above what the nodes hand on, and above
the effects of all lower facts. -/
structure Bounds (a : Analysis V) (effect : Stmt Var → Fact V → Fact V) (p : Procedure)
    (bound : Node → Cell V) : Prop where
  /-- Behind the start is at least the boundary. -/
  boundary : a.boundary p ≤ (bound a.direction.start).behind
  /-- In front of a node is at least what is behind its feeders. -/
  gathers : ∀ n, ∀ k ∈ a.direction.feeders p.graph n, (bound k).behind ≤ (bound n).front
  /-- Behind another node is at least what its statement makes. -/
  carries : ∀ n ∈ p.graph.nodes, n ≠ a.direction.start → ∀ stmt, p.stmt? n = some stmt →
    ∀ f ≤ (bound n).front, effect stmt f ≤ (bound n).behind

omit [DecidableEq V] in
theorem initial_le {bound : Node → Cell V} (bounds : Bounds a effect p bound) (n : Node) :
    (initial a p).cells.get n ≤ bound n := by
  rw [initial, Cells.get_initial]
  split
  · next same =>
    subst same
    exact ⟨Fact.empty_le _, bounds.boundary⟩
  · exact ⟨Fact.empty_le _, Fact.empty_le _⟩

/-- A visit stays below any bound that it cannot leave.  To see this for one variable,
the gathered fact is compared with itself, changed there to the bound. -/
theorem Moves.le_bound (steady : a.Steady effect) {bound : Node → Cell V}
    (bounds : Bounds a effect p bound) (valid : Valid a p m) (below : ∀ n, m.cells.get n ≤ bound n)
    (h : Moves a p m m') (n : Node) : m'.cells.get n ≤ bound n := by
  obtain ⟨k, rest, stmt, pending, found, rfl⟩ := h.visit
  rw [valid.get_visit pending]
  split
  · next same =>
    subst same
    obtain ⟨member, other⟩ := valid.pending n (pending ▸ List.mem_cons_self)
    have front : gather a p m.cells n ≤ (bound n).front :=
      (gather_le_iff steady).2
        ⟨(below n).1, fun k feeds => (below k).2.trans (bounds.gathers n k feeds)⟩
    refine ⟨front, fun id => ?_⟩
    rw [carried_fst steady, Fact.get_copyFrom]
    split
    · exact (below n).2 id
    · exact bounds.carries n member other stmt found _ front id
  · exact below n

/-- No moment of a run exceeds a bound that every visit keeps. -/
theorem Reaches.le_bound (steady : a.Steady effect) (closed : p.graph.Closed)
    {bound : Node → Cell V} (bounds : Bounds a effect p bound)
    (h : Reaches a p (initial a p) m) (n : Node) : m.cells.get n ≤ bound n := by
  induction h generalizing n with
  | refl => exact initial_le bounds n
  | tail earlier move ih =>
    exact move.le_bound steady bounds (.of_reaches closed earlier) ih n

end Machine

end ConstantFlow
