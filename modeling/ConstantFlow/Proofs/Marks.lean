import ConstantFlow.Dataflow.Marks
import ConstantFlow.Proofs.Checking
import ConstantFlow.Proofs.Dataflow.Termination

/-!
# Marks follow paths

An analysis of marks starts with none, joins what it gathers, and each statement
adds marks of its own and takes none away.  So a variable is marked in front of
a node exactly if a path of one arrow or more, along the flow of facts, comes
from a node that marks it, and behind a node exactly if one of any length does
(`Marks.Marking.solve_iff`).

That no mark is invented holds at every moment of a run (`Marking.path`).  That
none is lost is read off the moment at which no node is pending: there a mark
goes along each arrow, and through each statement (`Marking.behind_of_path`).

The theorems at the end say this of *assigned* and of *read later* in the order
of control.  Nothing in them asks for a node that the entry reaches, or for one
that reaches the exit.
-/

namespace ConstantFlow

/-! ## Paths -/

/-- Whether control may go from a node to another at once. -/
def Graph.Leads (g : Graph) (m n : Node) : Prop := n ∈ g.successors m

instance (g : Graph) (m n : Node) : Decidable (g.Leads m n) :=
  inferInstanceAs (Decidable (n ∈ g.successors m))

/-- Whether the fact of a node goes to another at once. -/
def Direction.Feeds (d : Direction) (g : Graph) (m n : Node) : Prop := n ∈ d.fed g m

theorem Direction.feeds_backward (g : Graph) :
    Direction.backward.Feeds g = Function.swap g.Leads := by
  funext m n
  exact propext Graph.mem_predecessors_iff

namespace Marks

/-- The fact that a statement makes of the one in front of it. -/
def effect (marked : Stmt Var → List Var) (stmt : Stmt Var) (front : Fact Mark) : Fact Mark :=
  (marked stmt).foldl (fun fact x => fact.set x.id .yes) front

/-- Whether the statement of a node marks the variable of a position. -/
def At (p : Procedure) (marked : Stmt Var → List Var) (id : VarId) (n : Node) : Prop :=
  ∃ stmt x, p.stmt? n = some stmt ∧ x ∈ marked stmt ∧ x.id = id

/-- An analysis that marks some variables of each statement, of those that occur
in it.  It starts with no mark, joins what it gathers and adds to what it has. -/
structure Marking (a : Analysis Mark) (marked : Stmt Var → List Var) : Prop where
  boundary : ∀ p, a.boundary p = .empty
  get_join : ∀ f g id, (a.join f g).get id = f.get id ⊔ g.get id
  transfer_eq : a.transfer = transfer marked
  occurs : ∀ stmt, ∀ x ∈ marked stmt, x ∈ stmt.vars

/-- Behind a statement a variable is marked if the statement marks it or if it was
marked before. -/
theorem get_effect_eq_yes {marked : Stmt Var → List Var} {stmt : Stmt Var} {f : Fact Mark}
    {id : VarId} :
    (effect marked stmt f).get id = .yes ↔
      (∃ x ∈ marked stmt, x.id = id) ∨ f.get id = .yes := by
  rw [effect, Fact.get_foldl_set_const]
  split
  · next own => simp [own]
  · next none => simp [none]

namespace Marking

variable {a : Analysis Mark} {marked : Stmt Var → List Var} {p : Procedure} {m : Machine Mark}
  {id : VarId} {k n : Node}

/-- An analysis of marks is steady: marks are only added. -/
theorem steady (marking : Marking a marked) : a.Steady (effect marked) where
  get_join := marking.get_join
  transfer_eq stmt front behind := by
    rw [marking.transfer_eq]
    rfl
  effect_climbs stmt f g h id := by
    right
    rw [Mark.le_iff, get_effect_eq_yes, get_effect_eq_yes]
    exact Or.imp_right (Mark.le_iff.1 (h id))

/-- An analysis of marks speaks of the variables of the statements alone. -/
theorem confined (marking : Marking a marked) :
    a.Confined (effect marked) p (p.occurrences.map Var.id) where
  boundary := by
    rw [marking.boundary]
    exact Fact.within_empty _
  effect n stmt found f within := by
    intro id present
    rcases get_effect_eq_yes.1 (Mark.ne_bot_iff.1 present) with ⟨x, member, rfl⟩ | before
    · have occurs := marking.occurs stmt x member
      rcases Procedure.stmt?_cases found with rfl | among
      · exact absurd occurs List.not_mem_nil
      · exact List.mem_map_of_mem
          (List.mem_append_right _ (List.mem_flatMap.2 ⟨stmt, among, occurs⟩))
    · exact within id (Mark.ne_bot_iff.2 before)

theorem ne_start (marking : Marking a marked) (here : At p marked id n) :
    n ≠ a.direction.start := by
  rintro rfl
  obtain ⟨stmt, x, found, member, -⟩ := here
  rw [p.stmt?_start a.direction] at found
  cases found
  exact absurd (marking.occurs .nop x member) List.not_mem_nil

/-! ## No mark is invented -/

/-- A mark is gathered where it is in front already, or behind a feeder. -/
theorem of_gather (marking : Marking a marked)
    (gathered : (Machine.gather a p m.cells n).get id = .yes) :
    (m.cells.get n).front.get id = .yes ∨
      ∃ k ∈ a.direction.feeders p.graph n, (m.cells.get k).behind.get id = .yes := by
  by_contra! none
  have below := Machine.get_gather_le marking.steady (b := .no)
    (Mark.le_iff.2 fun front => absurd front none.1)
    (fun k feeds => Mark.le_iff.2 fun behind => absurd behind (none.2 k feeds))
  exact absurd (Mark.le_iff.1 below gathered) (by simp)

/-- At every moment of a run, a mark has come along a path.  A visit writes at its own
node only, and the path of a feeder is prolonged by the last arrow. -/
theorem path (marking : Marking a marked) (closed : p.graph.Closed)
    (reached : Machine.Reaches a p (.initial a p) m) (id : VarId) (n : Node) :
    ((m.cells.get n).front.get id = .yes →
      ∃ k, At p marked id k ∧ Relation.TransGen (a.direction.Feeds p.graph) k n) ∧
    ((m.cells.get n).behind.get id = .yes →
      ∃ k, At p marked id k ∧ Relation.ReflTransGen (a.direction.Feeds p.graph) k n) := by
  induction reached generalizing n with
  | refl =>
    have empty : (Machine.initial a p).cells.get n = ⟨.empty, .empty⟩ := by
      rw [Machine.initial, Cells.get_initial, marking.boundary, ite_self]
    rw [empty]
    constructor <;> intro marked <;> cases marked
  | @tail before after earlier move ih =>
    have valid : Machine.Valid a p before := .of_reaches closed earlier
    obtain ⟨k, rest, stmt, pending, found, rfl⟩ := move.visit
    rw [valid.get_visit pending]
    split
    · next same =>
      subst same
      have front (gathered : (Machine.gather a p before.cells n).get id = .yes) :
          ∃ k, At p marked id k ∧ Relation.TransGen (a.direction.Feeds p.graph) k n := by
        rcases marking.of_gather gathered with old | ⟨j, feeds, behind⟩
        · exact (ih n).1 old
        · obtain ⟨k, here, along⟩ := (ih j).2 behind
          exact ⟨k, here, .tail' along (Direction.mem_feeders_iff.1 feeds)⟩
      refine ⟨front, ?_⟩
      rw [Machine.carried_fst marking.steady, Fact.get_copyFrom]
      split
      · exact (ih n).2
      · intro made
        rcases get_effect_eq_yes.1 made with ⟨x, member, same⟩ | gathered
        · exact ⟨n, ⟨stmt, x, found, member, same⟩, .refl⟩
        · obtain ⟨k, here, along⟩ := front gathered
          exact ⟨k, here, along.to_reflTransGen⟩
    · exact ih n

/-! ## No mark is lost -/

section Idle

variable (marking : Marking a marked) (checked : p.Checked)
  (reached : Machine.Reaches a p (.initial a p) m) (idle : m.pending = [])

include marking checked reached idle

/-- When a run is idle, what a statement makes of the fact in front is behind
it. -/
theorem behind_of_effect {stmt : Stmt Var} (other : n ≠ a.direction.start)
    (found : p.stmt? n = some stmt)
    (made : (effect marked stmt (m.cells.get n).front).get id = .yes) :
    (m.cells.get n).behind.get id = .yes := by
  have consistent : m.Consistent a p := .of_reaches marking.steady checked.closed reached
  rw [consistent.get_behind marking.steady (checked.mem_nodes_of_stmt? found) other
    (idle ▸ List.not_mem_nil) found (Mark.ne_bot_iff.2 made), made]

/-- When a run is idle, a mark behind a node is in front of each node that it feeds. -/
theorem front_of_feeds (feeds : a.direction.Feeds p.graph k n)
    (behind : (m.cells.get k).behind.get id = .yes) :
    (m.cells.get n).front.get id = .yes := by
  have consistent : m.Consistent a p := .of_reaches marking.steady checked.closed reached
  obtain ⟨member, other⟩ := Direction.mem_nodes_of_fed checked.closed feeds
  have received := consistent.received n member other (idle ▸ List.not_mem_nil) k
    (Direction.mem_feeders_iff.2 feeds)
  exact Mark.le_iff.1 (received id) behind

/-- When a run is idle, a mark made at a node is behind every node at the end of a path. -/
theorem behind_of_path (here : At p marked id k)
    (along : Relation.ReflTransGen (a.direction.Feeds p.graph) k n) :
    (m.cells.get n).behind.get id = .yes := by
  induction along with
  | refl =>
    obtain ⟨stmt, x, found, member, same⟩ := here
    have other := marking.ne_start ⟨stmt, x, found, member, same⟩
    exact marking.behind_of_effect checked reached idle other found
      (get_effect_eq_yes.2 (.inl ⟨x, member, same⟩))
  | @tail j n _ feeds ih =>
    have front := marking.front_of_feeds checked reached idle feeds ih
    obtain ⟨member, other⟩ := Direction.mem_nodes_of_fed checked.closed feeds
    obtain ⟨stmt, found⟩ := Option.isSome_iff_exists.1
      (Procedure.stmt?_isSome (Nat.le_of_eq checked.size_eq) member)
    exact marking.behind_of_effect checked reached idle other found
      (get_effect_eq_yes.2 (.inr front))

end Idle

/-! ## What a run settles on -/

/-- A marking analysis settles.  A variable is marked in front of a node exactly
if a path of one arrow or more comes from a node that marks it, and behind a node
exactly if one of any length does. -/
theorem solve_iff (marking : Marking a marked) (checked : p.Checked) :
    ∃ s, a.solve p = .ok s ∧ ∀ n ∈ p.graph.nodes, ∃ cell,
      s.get? n = some (a.direction.around cell) ∧ ∀ id,
        (cell.front.get id = .yes ↔
          ∃ k, At p marked id k ∧ Relation.TransGen (a.direction.Feeds p.graph) k n) ∧
        (cell.behind.get id = .yes ↔
          ∃ k, At p marked id k ∧ Relation.ReflTransGen (a.direction.Feeds p.graph) k n) := by
  obtain ⟨m, reached, idle, -, solved, facts⟩ := marking.steady.solve_eq marking.confined
    checked.closed (Nat.le_of_eq checked.size_eq)
  refine ⟨m.solution a, solved, fun n member => ⟨_, facts n member, fun id => ?_⟩⟩
  have path := marking.path checked.closed reached id n
  refine ⟨⟨path.1, ?_⟩, ⟨path.2, ?_⟩⟩
  · rintro ⟨k, here, along⟩
    obtain ⟨j, before, feeds⟩ := Relation.TransGen.tail'_iff.1 along
    exact marking.front_of_feeds checked reached idle feeds
      (marking.behind_of_path checked reached idle here before)
  · rintro ⟨k, here, along⟩
    exact marking.behind_of_path checked reached idle here along

end Marking

end Marks

/-! ## Assignments -/

/-- Whether the statement of a node defines the variable of a position. -/
def Procedure.Assigns (p : Procedure) (id : VarId) (n : Node) : Prop :=
  ∃ stmt x, p.stmt? n = some stmt ∧ stmt.defined? = some x ∧ x.id = id

namespace Marks

theorem mem_defines {stmt : Stmt Var} {x : Var} : x ∈ defines stmt ↔ stmt.defined? = some x := by
  rw [defines, Option.mem_toList]

/-- A node marks a variable forward if it assigns to it. -/
theorem at_defines_iff {p : Procedure} {id : VarId} {n : Node} :
    At p defines id n ↔ p.Assigns id n := by
  simp only [At, Procedure.Assigns, mem_defines]

/-- The analysis of assigned variables is one of marks. -/
theorem marking_assigned : Marking assigned defines where
  boundary _ := rfl
  get_join f g id := Fact.get_meet f g id
  transfer_eq := rfl
  occurs stmt x member := by
    cases stmt with
    | define location value =>
      cases location with
      | var y =>
        rw [List.mem_singleton.1 member]
        exact List.mem_cons_self
      | field base name => cases member
      | element base index => cases member
    | _ => cases member

variable {source : Source.Procedure} {p : Procedure}

/-- *Assigned* settles on the variables that some path has assigned. -/
theorem assigned_solve_iff (accepted : source.check = .ok p) :
    ∃ s, assigned.solve p = .ok s ∧ ∀ n ∈ p.graph.nodes, ∃ around, s.get? n = some around ∧
      ∀ id,
        (around.incoming.get id = .yes ↔
          ∃ m, p.Assigns id m ∧ Relation.TransGen p.graph.Leads m n) ∧
        (around.outgoing.get id = .yes ↔
          ∃ m, p.Assigns id m ∧ Relation.ReflTransGen p.graph.Leads m n) := by
  obtain ⟨s, solved, facts⟩ := marking_assigned.solve_iff (source.checked accepted)
  refine ⟨s, solved, fun n member => ?_⟩
  obtain ⟨cell, found, marks⟩ := facts n member
  refine ⟨_, found, fun id => ?_⟩
  obtain ⟨front, behind⟩ := marks id
  simp only [at_defines_iff] at front behind
  exact ⟨front, behind⟩

end Marks

/-- A loop without an end, and an assignment to one of its variables that
control does not come to. -/
def Source.Procedure.spinning : Source.Procedure where
  name := "spin"
  vars := [⟨"x", .primitive .int⟩, ⟨"y", .named "Object"⟩]
  params := []
  body := [.goto 2, .define (.var "x") (.var "y"), .define (.var "y") (.var "x"), .goto 2]

/-- The same, checked. -/
def Procedure.spinning : Procedure :=
  let x : Var := ⟨0, "x", .primitive .int⟩
  let y : Var := ⟨1, "y", .named "Object"⟩
  { name := "spin"
    vars := [x, y]
    params := []
    body := [.goto 2, .define (.var x) (.var y), .define (.var y) (.var x), .goto 2]
    graph :=
      ⟨4, [⟨.entry, .stmt 0, .entry⟩, ⟨.stmt 0, .stmt 2, .goto⟩,
        ⟨.stmt 1, .stmt 2, .fallThrough⟩, ⟨.stmt 2, .stmt 3, .fallThrough⟩,
        ⟨.stmt 3, .stmt 2, .goto⟩]⟩ }

theorem check_spinning : Source.Procedure.spinning.check = .ok .spinning := rfl

namespace Marks

/-- The first variable comes to the loop from the assignment outside of it, and
the second one around the loop.  Nothing comes to that assignment. -/
theorem assigned_solve_iff_spinning :
    Source.Procedure.spinning.check = .ok .spinning ∧
    ∃ s loop outside, assigned.solve .spinning = .ok s ∧
      s.get? (.stmt 2) = some loop ∧ loop.incoming.get 0 = .yes ∧ loop.incoming.get 1 = .yes ∧
      s.get? (.stmt 1) = some outside ∧ ∀ id, outside.incoming.get id ≠ .yes := by
  obtain ⟨s, solved, facts⟩ := assigned_solve_iff check_spinning
  obtain ⟨loop, foundLoop, marksLoop⟩ := facts (.stmt 2) (by decide)
  obtain ⟨outside, foundOutside, marksOutside⟩ := facts (.stmt 1) (by decide)
  have enters : Procedure.spinning.graph.Leads (.stmt 1) (.stmt 2) := by decide
  have goes : Procedure.spinning.graph.Leads (.stmt 2) (.stmt 3) := by decide
  have returns : Procedure.spinning.graph.Leads (.stmt 3) (.stmt 2) := by decide
  have first := (marksLoop 0).1.2 ⟨.stmt 1, ⟨_, _, rfl, rfl, rfl⟩, .single enters⟩
  have second := (marksLoop 1).1.2 ⟨.stmt 2, ⟨_, _, rfl, rfl, rfl⟩, .tail (.single goes) returns⟩
  refine ⟨check_spinning, s, loop, outside, solved, foundLoop, first, second, foundOutside, ?_⟩
  intro id marked
  obtain ⟨m, -, along⟩ := (marksOutside id).1.1 marked
  obtain ⟨j, -, leads⟩ := Relation.TransGen.tail'_iff.1 along
  have feeders : Procedure.spinning.graph.predecessors (.stmt 1) = [] := by decide
  exact absurd (feeders ▸ Graph.mem_predecessors_iff.2 leads) List.not_mem_nil

end Marks

/-! ## Reads -/

/-- Whether a variable is a leaf of the binary operations at the root. -/
inductive Exp.Operand (x : Var) : Exp Var → Prop
  | var : Operand x (.var x)
  | lhs {op : BinaryOp} {lhs rhs : Exp Var} (left : Operand x lhs) : Operand x (.binary op lhs rhs)
  | rhs {op : BinaryOp} {lhs rhs : Exp Var} (right : Operand x rhs) : Operand x (.binary op lhs rhs)

/-- Whether a statement reads a variable: in the right side of the definition of
a variable, in a test, or as the value of a return. -/
inductive Stmt.Reads (x : Var) : Stmt Var → Prop
  | value {y : Var} {value : Exp Var} (operand : value.Operand x) : Reads x (.define (.var y) value)
  | test {test : Exp Var} {target : Nat} (operand : test.Operand x) : Reads x (.branch test target)
  | ret : Reads x (.ret (some x))

/-- Whether the statement of a node reads the variable of a position. -/
def Procedure.ReadsAt (p : Procedure) (id : VarId) (n : Node) : Prop :=
  ∃ stmt x, p.stmt? n = some stmt ∧ stmt.Reads x ∧ x.id = id

/-- The operands that are listed are those at the leaves of the operations at the
root. -/
theorem Exp.mem_operands {e : Exp Var} {x : Var} : x ∈ e.operands ↔ e.Operand x := by
  induction e with
  | var y =>
    simp only [operands, List.mem_singleton]
    constructor
    · rintro rfl
      exact .var
    · intro operand
      cases operand
      rfl
  | binary op lhs rhs ihl ihr =>
    simp only [operands, List.mem_append, ihl, ihr]
    constructor
    · rintro (left | right)
      · exact .lhs left
      · exact .rhs right
    · intro operand
      cases operand with
      | lhs left => exact .inl left
      | rhs right => exact .inr right
  | _ =>
    simp only [operands, List.not_mem_nil, false_iff]
    intro operand
    cases operand

theorem Exp.Operand.mem_vars {e : Exp Var} {x : Var} (operand : e.Operand x) : x ∈ e.vars := by
  induction operand with
  | var => exact List.mem_cons_self
  | lhs _ ih => exact List.mem_append_left _ ih
  | rhs _ ih => exact List.mem_append_right _ ih

/-- What a statement reads is among its variables. -/
theorem Stmt.Reads.mem_vars {stmt : Stmt Var} {x : Var} (reads : stmt.Reads x) :
    x ∈ stmt.vars := by
  cases reads with
  | value operand => exact List.mem_cons_of_mem _ operand.mem_vars
  | test operand => exact operand.mem_vars
  | ret => exact List.mem_cons_self

namespace Marks

theorem mem_reads {stmt : Stmt Var} {x : Var} : x ∈ reads stmt ↔ stmt.Reads x := by
  constructor
  · intro member
    unfold reads at member
    split at member
    · exact .value (Exp.mem_operands.1 member)
    · exact .test (Exp.mem_operands.1 member)
    · rw [List.mem_singleton.1 member]
      exact .ret
    · cases member
  · intro read
    cases read with
    | value operand => exact Exp.mem_operands.2 operand
    | test operand => exact Exp.mem_operands.2 operand
    | ret => exact List.mem_cons_self

theorem at_reads_iff {p : Procedure} {id : VarId} {n : Node} :
    At p reads id n ↔ p.ReadsAt id n := by
  simp only [At, Procedure.ReadsAt, mem_reads]

/-- To copy marks is to join them. -/
theorem marking_readLater : Marking readLater reads where
  boundary _ := rfl
  get_join f g id := by
    show (f.copyFrom g).1.get id = _
    rw [Fact.get_copyFrom]
    cases f.get id <;> cases g.get id <;> rfl
  transfer_eq := rfl
  occurs _ _ member := (mem_reads.1 member).mem_vars

variable {source : Source.Procedure} {p : Procedure}

/-- *Read later* settles on the variables that some path is going to read. -/
theorem readLater_solve_iff (accepted : source.check = .ok p) :
    ∃ s, readLater.solve p = .ok s ∧ ∀ n ∈ p.graph.nodes, ∃ around, s.get? n = some around ∧
      ∀ id,
        (around.incoming.get id = .yes ↔
          ∃ m, p.ReadsAt id m ∧ Relation.ReflTransGen p.graph.Leads n m) ∧
        (around.outgoing.get id = .yes ↔
          ∃ m, p.ReadsAt id m ∧ Relation.TransGen p.graph.Leads n m) := by
  obtain ⟨s, solved, facts⟩ := marking_readLater.solve_iff (source.checked accepted)
  refine ⟨s, solved, fun n member => ?_⟩
  obtain ⟨cell, found, marks⟩ := facts n member
  refine ⟨_, found, fun id => ?_⟩
  obtain ⟨front, behind⟩ := marks id
  have against : readLater.direction.Feeds p.graph = Function.swap p.graph.Leads :=
    Direction.feeds_backward p.graph
  simp only [at_reads_iff, against, Relation.transGen_swap, Relation.reflTransGen_swap]
    at front behind
  exact ⟨behind, front⟩

/-- The first variable is read again around the loop, though control never comes
to the exit, and the second one nowhere in it. -/
theorem readLater_solve_iff_spinning :
    Source.Procedure.spinning.check = .ok .spinning ∧
    ∃ s last exit, readLater.solve .spinning = .ok s ∧
      s.get? (.stmt 3) = some last ∧ last.outgoing.get 0 = .yes ∧
      s.get? .exit = some exit ∧ ∀ id, exit.outgoing.get id ≠ .yes := by
  obtain ⟨s, solved, facts⟩ := readLater_solve_iff check_spinning
  obtain ⟨last, foundLast, marksLast⟩ := facts (.stmt 3) (by decide)
  obtain ⟨exit, foundExit, marksExit⟩ := facts .exit (by decide)
  have returns : Procedure.spinning.graph.Leads (.stmt 3) (.stmt 2) := by decide
  have first := (marksLast 0).2.2 ⟨.stmt 2, ⟨_, _, rfl, .value .var, rfl⟩, .single returns⟩
  refine ⟨check_spinning, s, last, exit, solved, foundLast, first, foundExit, ?_⟩
  intro id marked
  obtain ⟨m, -, along⟩ := (marksExit id).2.1 marked
  obtain ⟨j, leads, -⟩ := Relation.TransGen.head'_iff.1 along
  have fed : Procedure.spinning.graph.successors .exit = [] := by decide
  rw [Graph.Leads, fed] at leads
  exact absurd leads List.not_mem_nil

end Marks

end ConstantFlow
