import ConstantFlow.Proofs.Constants.Equations

/-!
# Constant propagation is sound

A fact *covers* a store if every int in the store is the constant that the fact
says or the fact says nothing of its variable.  Folding respects this
(`Exp.value_allows`), and also where it is not monotone: a divisor that the
fact knows to be zero is zero in the store, and then the run does not go on.

So facts that satisfy the equations cover all runs (`Equations.covers_runs`).
The step of a run carries the cover over the statement by the equations behind
it, and over the arrow by the equation in front of the next node.
-/

namespace ConstantFlow

/-! ## Facts and stores -/

/-- Whether an abstract value allows an int. -/
def Value.Allows (value : Value) (k : Int32) : Prop := value = .constant k ∨ value = .unknown

/-- Whether a fact allows all that a store holds. -/
def Fact.Covers (fact : Fact Value) (store : Store) : Prop :=
  ∀ id k, store id = some k → (fact.get id).Allows k

namespace Value

theorem allows_unknown (k : Int32) : Allows .unknown k := .inr rfl

theorem not_allows_undefined (k : Int32) : ¬ Allows .undefined k := by simp [Allows]

/-- A higher value allows more. -/
theorem Allows.mono {a b : Value} {k : Int32} (h : a.Allows k) (le : a ≤ b) : b.Allows k := by
  rcases h with rfl | rfl
  · exact constant_le le
  · exact .inr (unknown_le le)

/-- Every value is below the meet that it is part of. -/
theorem le_foldl_meet {v start : Value} {vs : List Value} (h : v ≤ start ∨ v ∈ vs) :
    v ≤ vs.foldl meet start := by
  induction vs generalizing start with
  | nil => exact h.resolve_right List.not_mem_nil
  | cons w ws ih =>
    rw [List.foldl_cons]
    rcases h with below | member
    · exact ih (.inl (below.trans (le_sup_left : start ≤ meet start w)))
    · rcases List.mem_cons.1 member with rfl | later
      · exact ih (.inl (le_sup_right : v ≤ meet start v))
      · exact ih (.inr later)

end Value

/-- A fact above one that covers a store covers it too. -/
theorem Fact.Covers.mono {f g : Fact Value} {store : Store} (h : f.Covers store) (le : f ≤ g) :
    g.Covers store := fun id k holds => (h id k holds).mono (le id)

/-! ## Folding -/

/-- An operator that does not trap allows its result where the operands are
allowed. -/
theorem BinaryOp.apply_allows (op : BinaryOp) {a b : Value} {j k : Int32} (left : a.Allows j)
    (right : b.Allows k) (safe : ¬ (op.isDivision ∧ k = 0)) :
    (op.apply a b).Allows (op.fold j k) := by
  rcases right with rfl | rfl
  · rcases left with rfl | rfl
    · exact .inl (op.apply_constants safe)
    · exact .inr (op.apply_unknown_left (by simpa using safe))
  · exact .inr (op.apply_unknown_right a)

/-- The value of an expression allows what it comes to, if all variables that
it is computed from can hold an int. -/
theorem Exp.value_allows {e : Exp Var} {fact : Fact Value} {store : Store} {k : Int32}
    (covers : fact.Covers store) (ints : ∀ y ∈ e.operands, y.holdsInt)
    (h : e.Evaluates store k) : (e.value fact).Allows k := by
  induction h with
  | int k => exact .inl rfl
  | var holds assigned => exact covers _ _ assigned
  | foreign holds k => exact absurd (ints _ List.mem_cons_self) holds
  | binary _ _ safe left right =>
    refine BinaryOp.apply_allows _ (left fun y member => ?_) (right fun y member => ?_) safe
    · exact ints y (List.mem_append_left _ member)
    · exact ints y (List.mem_append_right _ member)
  | @other e form k =>
    cases e with
    | var _ | int _ | binary _ _ _ => exact absurd rfl form
    | _ => exact Value.allows_unknown k

namespace Constants

/-! ## Statements -/

/-- Whether every definition of an int is computed from variables that can
hold one. -/
def ReadsInts (p : Procedure) : Prop :=
  ∀ stmt ∈ p.body, ∀ x value, stmt.Defines x value → ∀ y ∈ value.operands, y.holdsInt

variable {p : Procedure}

/-- At the start the boundary covers the store. -/
theorem boundary_covers {c : Config} (starts : p.Starts c) : (boundary p).Covers c.store := by
  intro id k holds
  have param := (starts.assigned id).1 (by simp [holds])
  rw [get_boundary, if_pos param]
  exact Value.allows_unknown k

namespace Equations

variable {cells : Node → Cell Value}

/-- What is behind a node is below what is in front of the nodes after it. -/
theorem behind_le_front (equations : Equations analysis p cells) (closed : p.graph.Closed)
    {m n : Node} (arrow : n ∈ p.graph.successors m) : (cells m).behind ≤ (cells n).front := by
  have feeds : m ∈ analysis.direction.feeders p.graph n := Direction.mem_feeders_iff.2 arrow
  obtain ⟨member, other⟩ := Direction.mem_nodes_of_fed (d := analysis.direction) closed arrow
  intro id
  rw [equations.gathers n member other id]
  exact Value.le_foldl_meet (.inr (List.mem_map_of_mem feeds))

/-- To carry out a statement keeps the cover. -/
theorem covers_executes (equations : Equations analysis p cells) (reads : ReadsInts p) {n : Node}
    (member : n ∈ p.graph.nodes) (other : n ≠ .entry) {stmt : Stmt Var}
    (found : p.stmt? n = some stmt) {store store' : Store} (covers : (cells n).front.Covers store)
    (executes : stmt.Executes store store') : (cells n).behind.Covers store' := by
  intro id k holds
  cases executes with
  | @assign x value k' defines comes =>
    by_cases same : id = x.id
    · subst same
      rw [Function.update_self, Option.some.injEq] at holds
      subst holds
      have allows := Exp.value_allows covers
        (reads stmt (defines.mem_body found) x value defines) comes
      have made : value.value (cells n).front ≠ .undefined := fun trapped =>
        Value.not_allows_undefined _ (trapped ▸ allows)
      rw [equations.defines n member other stmt found x value defines made]
      exact allows
    · rw [Function.update_of_ne same] at holds
      rw [equations.keeps n member other stmt found id fun y other' defines' => ?_]
      · exact covers id k holds
      · rw [← defines.eq defines']
        exact Ne.symm same
  | skip idle =>
    rw [equations.keeps n member other stmt found id fun y value defines =>
      absurd defines (idle y value)]
    exact covers id k holds

/-- Wherever a run is, the fact in front covers the store. -/
theorem covers_runs (equations : Equations analysis p cells) (checked : p.Checked)
    (reads : ReadsInts p) {c₀ c : Config} (starts : p.Starts c₀) (runs : p.Runs c₀ c) :
    (c.node ∈ p.graph.nodes ∧ c.node ≠ .entry) ∧ (cells c.node).front.Covers c.store := by
  have along {m n : Node} (arrow : n ∈ p.graph.successors m) : n ∈ p.graph.nodes ∧ n ≠ .entry :=
    Direction.mem_nodes_of_fed (d := .forward) checked.closed arrow
  induction runs with
  | refl =>
    have arrow := starts.mem_successors checked
    have entry : (cells .entry).behind = boundary p := congrArg Cell.behind equations.start
    refine ⟨along arrow, ?_⟩
    exact (entry ▸ boundary_covers starts).mono (equations.behind_le_front checked.closed arrow)
  | tail _ step ih =>
    obtain ⟨⟨member, other⟩, covers⟩ := ih
    obtain ⟨stmt, found, executes⟩ := step.executes
    have arrow := step.mem_successors checked
    have behind := equations.covers_executes reads member other found covers executes
    exact ⟨along arrow, behind.mono (equations.behind_le_front checked.closed arrow)⟩

end Equations

/-! ## Soundness -/

/-- Constant propagation on a checked procedure finds facts that cover every
run.  When a run comes to a node, the fact before the node is constant or
unknown in each variable that is assigned, and a constant is what the variable
holds.  So it is after the statement of the node with the fact after it. -/
theorem solve_covers_runs {source : Source.Procedure} (accepted : source.check = .ok p)
    (reads : ReadsInts p) :
    ∃ s, analysis.solve p = .ok s ∧ ∀ c₀ c, p.Starts c₀ → p.Runs c₀ c →
      ∃ around, s.get? c.node = some around ∧ around.incoming.Covers c.store ∧
        ∀ stmt store', p.stmt? c.node = some stmt → stmt.Executes c.store store' →
          around.outgoing.Covers store' := by
  have checked := source.checked accepted
  have either : analysis ∈ [analysis, backward] := List.mem_cons_self
  obtain ⟨m, reached, idle, -, solved, facts⟩ := solve_eq either checked
  have equations := equations_of_idle either checked reached idle
  refine ⟨m.solution analysis, solved, fun c₀ c starts runs => ?_⟩
  obtain ⟨⟨member, other⟩, covers⟩ := equations.covers_runs checked reads starts runs
  refine ⟨_, facts c.node member, covers, fun stmt store' found executes => ?_⟩
  exact equations.covers_executes reads member other found covers executes

/-- Counting to five once around the loop. -/
theorem solve_covers_runs_counting :
    let five : Store := fun id => if id = 0 then some 5 else none
    let before : Store := Function.update five 1 (some 0)
    let after : Store := Function.update before 1 (some 1)
    Source.Procedure.counting.check = .ok .counting ∧ ReadsInts .counting ∧
    Procedure.counting.Starts ⟨.stmt 0, five⟩ ∧
    Procedure.counting.Runs ⟨.stmt 0, five⟩ ⟨.stmt 2, before⟩ ∧
    Procedure.counting.Step ⟨.stmt 2, before⟩ ⟨.stmt 3, after⟩ ∧
    ∃ s, analysis.solve .counting = .ok s ∧ ∃ around, s.get? (.stmt 2) = some around ∧
      around.incoming.Covers before ∧ around.outgoing.Covers after := by
  intro five before after
  have reads : ReadsInts .counting := by
    rintro stmt member x value ⟨rfl, -⟩
    simp only [Procedure.counting, List.mem_cons, Stmt.define.injEq, Location.var.injEq,
      List.not_mem_nil, or_false, reduceCtorEq, false_or] at member
    rcases member with ⟨-, rfl⟩ | ⟨-, rfl⟩ | ⟨-, rfl⟩ <;> decide
  have starts : Procedure.counting.Starts ⟨.stmt 0, five⟩ := by
    refine ⟨rfl, fun id => ⟨fun assigned => ?_, ?_⟩⟩
    · by_cases zero : id = 0
      · exact ⟨_, List.mem_cons_self, rfl, zero.symm⟩
      · simp [five, zero] at assigned
    · rintro ⟨x, member, -, rfl⟩
      rw [List.mem_singleton.1 member]
      rfl
  have enters : Procedure.counting.Step ⟨.stmt 0, five⟩ ⟨.stmt 1, before⟩ :=
    .intro rfl (.assign ⟨rfl, rfl⟩ (.int 0)) (by decide)
  have tests : Procedure.counting.Step ⟨.stmt 1, before⟩ ⟨.stmt 2, before⟩ :=
    .intro rfl (.skip fun x value defines => by cases defines.1) (by decide)
  have counts : (Procedure.counting.body.get ⟨2, by decide⟩).Executes before after := by
    have sum : Exp.Evaluates before
        (.binary (.arithmetic .add) (.var ⟨1, "i", .primitive .int⟩) (.int 1))
        (BinaryOp.fold (.arithmetic .add) 0 1) :=
      .binary (.var rfl rfl) (.int 1) (by decide)
    exact .assign ⟨rfl, rfl⟩ sum
  have runs : Procedure.counting.Runs ⟨.stmt 0, five⟩ ⟨.stmt 2, before⟩ :=
    .tail (.single enters) tests
  obtain ⟨s, solved, sound⟩ := solve_covers_runs check_counting reads
  obtain ⟨around, found, incoming, outgoing⟩ := sound _ _ starts runs
  exact ⟨check_counting, reads, starts, runs, .intro rfl counts (by decide), s, solved, around,
    found, incoming, outgoing _ _ rfl counts⟩

end Constants

end ConstantFlow
