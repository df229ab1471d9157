import ConstantFlow.Proofs.Constants.Traps
import Mathlib.Order.Bounds.Basic

/-!
# What reaches a node

The value of a variable in front of a node is the join of what its definitions
leave behind them, over those definitions from which control may come to the
node without passing another one (`Carries`).  The entry counts as a definition:
it leaves the boundary.  That nothing else is in the join is an invariant of the
run, in which each visit hands on what was there before.

A variable that cannot hold an int is undefined in every fact.  So a comparison
with such a variable is undefined, unless the other operand is unknown, and it
is never a constant.  An undefined value is neutral in a join, so a definition
by such a comparison does not count: where another path brings a constant, the
constant stays.
-/

namespace ConstantFlow

/-! ## Paths without a definition -/

namespace Procedure

/-- Whether a node gives a variable a value: the entry gives all of them one. -/
def Gives (p : Procedure) (id : VarId) (n : Node) : Prop :=
  n = .entry ∨ ∃ stmt x value, p.stmt? n = some stmt ∧ stmt.Defines x value ∧ x.id = id

/-- Whether control may come from a node to another without passing a node in
between that gives the variable a value. -/
inductive Carries (p : Procedure) (id : VarId) (d : Node) : Node → Prop
  /-- Control goes there at once. -/
  | step {n : Node} (arrow : n ∈ p.graph.successors d) : Carries p id d n
  /-- Control passes a node that gives the variable no value. -/
  | pass {k n : Node} (before : Carries p id d k) (keeps : ¬ p.Gives id k)
      (arrow : n ∈ p.graph.successors k) : Carries p id d n

/-- A definition is carried between nodes of the graph. -/
theorem Carries.mem_nodes {p : Procedure} (closed : p.graph.Closed) {id : VarId} {d n : Node}
    (carries : p.Carries id d n) : d ∈ p.graph.nodes ∧ n ∈ p.graph.nodes := by
  induction carries with
  | step arrow =>
    obtain ⟨edge, among, rfl, rfl⟩ := Graph.mem_successors.1 arrow
    exact ⟨closed.source_mem edge among, closed.target_mem edge among⟩
  | pass _ _ arrow ih =>
    exact ⟨ih.1, (Direction.mem_nodes_of_fed (d := .forward) closed arrow).1⟩

/-- Whether a definition from which control may so come to a node leaves the
variable a value. -/
def Brings (p : Procedure) (s : Solution Value) (id : VarId) (n : Node) (v : Value) : Prop :=
  ∃ d left, p.Gives id d ∧ p.Carries id d n ∧ s.get? d = some left ∧ left.outgoing.get id = v

end Procedure

/-! ## Least upper bounds -/

/-- A least upper bound of values is `unknown` exactly if one of them is or two
of them are different constants. -/
theorem Value.eq_unknown_iff_of_isLUB {values : Set Value} {v : Value} (least : IsLUB values v) :
    v = .unknown ↔
      .unknown ∈ values ∨ ∃ j k, j ≠ k ∧ .constant j ∈ values ∧ .constant k ∈ values := by
  constructor
  · intro unknown
    by_contra! none
    obtain ⟨known, agree⟩ := none
    by_cases some : ∃ k, .constant k ∈ values
    · obtain ⟨k, among⟩ := some
      have bounded : v ≤ .constant k := by
        refine least.2 fun a member => ?_
        cases a with
        | undefined => exact undefined_le _
        | constant j =>
          by_cases same : j = k
          · rw [same]
          · exact absurd among (agree j k same member)
        | unknown => exact absurd member known
      exact absurd (unknown_le (unknown ▸ bounded)) (by simp)
    · have bounded : v ≤ .undefined := by
        refine least.2 fun a member => ?_
        cases a with
        | undefined => exact undefined_le _
        | constant k => exact absurd ⟨k, member⟩ some
        | unknown => exact absurd member known
      exact absurd (unknown_le (unknown ▸ bounded)) (by simp)
  · rintro (member | ⟨j, k, different, first, second⟩)
    · exact unknown_le (least.1 member)
    · rcases constant_le (least.1 first) with same | same
      · rcases constant_le (least.1 second) with same' | same'
        · exact absurd (Value.constant.inj (same.symm.trans same')) different
        · exact same'
      · exact same

namespace Constants

variable {p : Procedure} {m last : Machine Value}

/-- A statement leaves a variable alone that it gives no value. -/
theorem get_effect_of_not_gives {n : Node} {stmt : Stmt Var} {id : VarId}
    (keeps : ¬ p.Gives id n) (found : p.stmt? n = some stmt) (f : Fact Value) :
    (effect stmt f).get id = f.get id :=
  get_effect_of_ne (fun x value defines same =>
    keeps (.inr ⟨stmt, x, value, found, defines, same⟩)) f

/-- At no moment of a run does a variable have more in front of a node than what the
definitions that reach the node leave in the end.  A feeder that gives the variable a
value leaves no more now than in the end, and another one hands on what was in front of
it. -/
theorem get_front_le_of_carries (checked : p.Checked)
    (final : Machine.Reaches analysis p (.initial analysis p) last) (idle : last.pending = [])
    (reached : Machine.Reaches analysis p (.initial analysis p) m) {n : Node} (other : n ≠ .entry)
    {id : VarId} {b : Value}
    (bound : ∀ d, p.Gives id d → p.Carries id d n → (last.cells.get d).behind.get id ≤ b) :
    (m.cells.get n).front.get id ≤ b ∧
      (¬ p.Gives id n → (m.cells.get n).behind.get id ≤ b) := by
  induction reached generalizing n b with
  | refl =>
    have empty : ((Machine.initial analysis p).cells.get n) = ⟨.empty, .empty⟩ := by
      rw [Machine.initial, Cells.get_initial]
      exact if_neg other
    rw [empty]
    exact ⟨Value.undefined_le b, fun _ => Value.undefined_le b⟩
  | @tail before after earlier move ih =>
    have valid : Machine.Valid analysis p before := .of_reaches checked.closed earlier
    obtain ⟨k, rest, stmt, pending, found, rfl⟩ := move.visit
    rw [valid.get_visit pending]
    split
    · next same =>
      subst same
      have gathered : (Machine.gather analysis p before.cells n).get id ≤ b := by
        refine Machine.get_gather_le (steady analysis_mem) (ih other bound).1 fun j feeds => ?_
        have arrow : n ∈ p.graph.successors j := Direction.mem_feeders_iff.1 feeds
        by_cases gives : p.Gives id j
        · have later : Machine.Reaches analysis p before last := .of_idle idle final earlier
          have climbs := Machine.Reaches.le (steady analysis_mem) checked.closed earlier later j
          exact (climbs.2 id).trans (bound j gives (.step arrow))
        · have inner : j ≠ .entry := fun entry => gives (.inl entry)
          exact (ih inner fun d gives' carries =>
            bound d gives' (carries.pass gives arrow)).2 gives
      refine ⟨gathered, fun keeps => ?_⟩
      rw [Machine.carried_fst (steady analysis_mem), Fact.get_copyFrom,
        get_effect_of_not_gives keeps found]
      split
      · exact (ih other bound).2 keeps
      · exact gathered
    · exact ih other bound

/-- When a run is idle, what a definition leaves is below what is in front of each node
that it reaches.  A trap leaves a stale value only in the variable that its own node
defines. -/
theorem le_front_of_carries (checked : p.Checked)
    (final : Machine.Reaches analysis p (.initial analysis p) last) (idle : last.pending = [])
    {d n : Node} {id : VarId} (carries : p.Carries id d n) :
    (last.cells.get d).behind.get id ≤ (last.cells.get n).front.get id := by
  have consistent : last.Consistent analysis p :=
    .of_reaches (steady analysis_mem) checked.closed final
  have along {k n : Node} (arrow : n ∈ p.graph.successors k) :
      (last.cells.get k).behind ≤ (last.cells.get n).front := by
    obtain ⟨member, other⟩ := Direction.mem_nodes_of_fed (d := .forward) checked.closed arrow
    exact consistent.received n member other (idle ▸ List.not_mem_nil) k
      (Direction.mem_feeders_iff.2 arrow)
  induction carries with
  | step arrow => exact along arrow id
  | @pass k n before keeps arrow ih =>
    have member := (before.mem_nodes checked.closed).2
    obtain ⟨stmt, found⟩ := Option.isSome_iff_exists.1
      (Procedure.stmt?_isSome (Nat.le_of_eq checked.size_eq) member)
    have kept : (last.cells.get k).behind.get id = (last.cells.get k).front.get id := by
      rcases get_behind_cases checked final idle (fun entry => keeps (.inl entry)) found id with
        same | ⟨x, value, -, defines, named, -⟩
      · rw [same, get_effect_of_not_gives keeps found]
      · exact absurd (.inr ⟨stmt, x, value, found, defines, named⟩) keeps
    exact ih.trans (kept ▸ along arrow id)

/-! ## Variables that are not followed -/

/-- A variable that cannot hold an int is undefined in every fact of a run. -/
theorem get_of_not_holdsInt (checked : p.Checked)
    (reached : Machine.Reaches analysis p (.initial analysis p) m) {y : Var} (declared : y ∈ p.vars)
    (other : ¬ y.holdsInt) (n : Node) : (m.cells.get n).front.get y.id = .undefined := by
  have within : m.Within ((followed p).map Var.id) :=
    .of_reaches (steady analysis_mem) (confined_followed analysis_mem checked) checked.closed
      reached
  by_contra known
  obtain ⟨x, among, same⟩ := List.mem_map.1 ((within n).1 y.id known)
  obtain ⟨declared', holds⟩ := List.mem_filter.1 among
  exact other (checked.eq_of_id declared' declared same ▸ holds)

end Constants

/-! ## Comparisons -/

/-- A comparison of which an operand is undefined is not constant: it is unknown
if the other operand is, and otherwise undefined. -/
theorem RelationalOp.apply_undefined (op : RelationalOp) {a b : Value}
    (h : a = .undefined ∨ b = .undefined) :
    (BinaryOp.relational op).apply a b =
      if a = .unknown ∨ b = .unknown then .unknown else .undefined := by
  rcases h with rfl | rfl
  · cases b <;> simp [BinaryOp.apply, BinaryOp.isDivision]
  · cases a <;> simp [BinaryOp.apply, BinaryOp.isDivision]

/-- Whether an expression is a variable that cannot hold an int. -/
def Exp.IsForeign : Exp Var → Prop
  | .var y => ¬ y.holdsInt
  | _ => False

namespace Constants

/-- In a visit of a definition by a comparison with such a variable, the right
side is unknown if an operand is, and otherwise undefined. -/
theorem value_comparison (checked : p.Checked) {n : Node} {stmt : Stmt Var} {x : Var}
    {op : RelationalOp} {lhs rhs : Exp Var} (found : p.stmt? n = some stmt)
    (defines : stmt.Defines x (.binary (.relational op) lhs rhs))
    (foreign : lhs.IsForeign ∨ rhs.IsForeign) {f : Fact Value}
    (visited : Machine.Visited analysis p n f) :
    (Exp.binary (.relational op) lhs rhs).value f =
      if lhs.value f = .unknown ∨ rhs.value f = .unknown then .unknown else .undefined := by
  obtain ⟨before, after, earlier, -, move, rfl⟩ := visited
  have absent {y : Var} (occurs : y ∈ lhs.vars ++ rhs.vars) (other : ¬ y.holdsInt) :
      (after.cells.get n).front.get y.id = .undefined := by
    have declared : y ∈ p.vars := by
      refine checked.mem_vars_of_stmt (defines.mem_body found) ?_
      rw [defines.1]
      exact List.mem_cons_of_mem _ occurs
    exact get_of_not_holdsInt checked (earlier.tail move) declared other n
  refine op.apply_undefined (foreign.imp (fun left => ?_) fun right => ?_)
  · cases lhs with
    | var y => exact absent (List.mem_append_left _ List.mem_cons_self) left
    | _ => exact absurd left id
  · cases rhs with
    | var y => exact absent (List.mem_append_right _ List.mem_cons_self) right
    | _ => exact absurd right id

/-- A definition by a comparison with a variable that cannot hold an int leaves
`unknown` if an operand was unknown in a visit, and otherwise nothing. -/
structure LeavesComparison (p : Procedure) (d : Node) (x : Var) (lhs rhs : Exp Var)
    (left : Around Value) : Prop where
  /-- The variable is unknown if an operand was. -/
  unknown : ∀ f, Machine.Visited analysis p d f → lhs.value f = .unknown ∨ rhs.value f = .unknown →
    left.outgoing.get x.id = .unknown
  /-- It is undefined if no operand was. -/
  undefined : (∀ f, Machine.Visited analysis p d f →
    ¬ (lhs.value f = .unknown ∨ rhs.value f = .unknown)) → left.outgoing.get x.id = .undefined

/-- When a run is idle, a comparison with an operand that is never a constant has left
what it makes of its operands. -/
theorem leavesComparison_of_idle (checked : p.Checked)
    (reached : Machine.Reaches analysis p (.initial analysis p) m) (idle : m.pending = [])
    {d : Node} {stmt : Stmt Var} {x : Var} {op : RelationalOp} {lhs rhs : Exp Var}
    (found : p.stmt? d = some stmt) (defines : stmt.Defines x (.binary (.relational op) lhs rhs))
    (foreign : lhs.IsForeign ∨ rhs.IsForeign) :
    LeavesComparison p d x lhs rhs (Direction.forward.around (m.cells.get d)) := by
  have made {f : Fact Value} (visited : Machine.Visited analysis p d f) :
      (effect stmt f).get x.id =
        if lhs.value f = .unknown ∨ rhs.value f = .unknown then .unknown else .undefined :=
    (get_effect_of_defines defines f).trans
      (value_comparison checked found defines foreign visited)
  constructor
  · intro f visited operand
    have above := visited.effect_le (steady analysis_mem) checked.closed found reached idle x.id
    rw [made visited, if_pos operand] at above
    exact Value.unknown_le above
  · intro never
    rcases Machine.behind_made (steady analysis_mem) checked.closed reached
        (defines.ne_entry found) found x.id with nothing | ⟨f, visited, same⟩
    · exact nothing
    · exact same.trans ((made visited).trans (if_neg (never f visited)))

/-- What is before a node is the join of what the definitions that reach it
leave, so a variable is unknown there if one of them leaves `unknown` or two of
them leave different constants.  A definition by a comparison with a variable
that cannot hold an int leaves nothing, unless the other operand was unknown. -/
theorem solve_joins_definitions {source : Source.Procedure} (accepted : source.check = .ok p) :
    ∃ s, analysis.solve p = .ok s ∧
      (∀ n ∈ p.graph.nodes, n ≠ .entry → ∀ id, ∃ around, s.get? n = some around ∧
        IsLUB {v | p.Brings s id n v} (around.incoming.get id) ∧
        (around.incoming.get id = .unknown ↔ p.Brings s id n .unknown ∨
          ∃ j k, j ≠ k ∧ p.Brings s id n (.constant j) ∧ p.Brings s id n (.constant k))) ∧
      ∀ d stmt x op lhs rhs, p.stmt? d = some stmt →
        stmt.Defines x (.binary (.relational op) lhs rhs) → lhs.IsForeign ∨ rhs.IsForeign →
          ∃ left, s.get? d = some left ∧ LeavesComparison p d x lhs rhs left := by
  have checked := source.checked accepted
  obtain ⟨m, reached, idle, -, solved, facts⟩ :=
    solve_eq analysis_mem checked
  refine ⟨m.solution analysis, solved, fun n member other id => ?_,
    fun d stmt x op lhs rhs found defines foreign => ?_⟩
  · have least : IsLUB {v | p.Brings (m.solution analysis) id n v}
        ((m.cells.get n).front.get id) := by
      constructor
      · rintro v ⟨d, left, -, carries, at_d, rfl⟩
        cases at_d.symm.trans (facts d (carries.mem_nodes checked.closed).1)
        exact le_front_of_carries checked reached idle carries
      · intro b bound
        refine (get_front_le_of_carries checked reached idle reached other
          fun d gives carries => ?_).1
        exact bound ⟨d, _, gives, carries, facts d (carries.mem_nodes checked.closed).1, rfl⟩
    exact ⟨_, facts n member, least, Value.eq_unknown_iff_of_isLUB least⟩
  · exact ⟨_, facts d (checked.mem_nodes_of_stmt? found),
      leavesComparison_of_idle checked reached idle found defines foreign⟩

/-- Of the two definitions that reach the end of the procedure, the comparison
leaves nothing. -/
theorem solve_joins_definitions_comparing :
    let a : Var := ⟨0, "a", .primitive .long⟩
    let b : Var := ⟨1, "b", .primitive .long⟩
    let v : Var := ⟨3, "v", .primitive .int⟩
    Source.Procedure.comparing.check = .ok .comparing ∧
    ∃ s around left, analysis.solve .comparing = .ok s ∧
      s.get? (.stmt 3) = some around ∧ s.get? (.stmt 2) = some left ∧
      Procedure.comparing.Carries v.id (.stmt 2) (.stmt 3) ∧
      IsLUB {w | Procedure.comparing.Brings s v.id (.stmt 3) w} (around.incoming.get v.id) ∧
      LeavesComparison .comparing (.stmt 2) v (.var a) (.var b) left ∧
      left.outgoing.get v.id = .undefined := by
  intro a b v
  obtain ⟨s, solved, joins, leaves⟩ := solve_joins_definitions check_comparing
  obtain ⟨around, found, least, -⟩ := joins (.stmt 3) (by decide) (by decide) v.id
  have foreign : ¬ a.holdsInt := by decide
  obtain ⟨left, found', leaves⟩ := leaves (.stmt 2) _ v .eq (.var a) (.var b) rfl ⟨rfl, rfl⟩
    (.inl foreign)
  have nothing : left.outgoing.get v.id = .undefined := by
    cases solved
    cases found'
    rfl
  exact ⟨check_comparing, s, around, left, solved, found, found', .step (by decide), least,
    leaves, nothing⟩

/-- A run of the procedure may take the way of the comparison and come to its end
with a zero. -/
theorem comparing_runs_to_zero :
    ∃ c₀ c, Procedure.comparing.Starts c₀ ∧ Procedure.comparing.Runs c₀ c ∧ c.node = .stmt 3 ∧
      c.store 3 = some 0 := by
  let start : Store := fun id => if id = 2 then some 0 else none
  let one : Store := Function.update start 3 (some 1)
  let zero : Store := Function.update one 3 (some 0)
  have starts : Procedure.comparing.Starts ⟨.stmt 0, start⟩ := by
    refine ⟨rfl, fun id => ⟨fun assigned => ?_, ?_⟩⟩
    · by_cases two : id = 2
      · exact ⟨⟨2, "c", .primitive .int⟩, by decide, rfl, two.symm⟩
      · simp [start, two] at assigned
    · rintro ⟨x, member, holds, rfl⟩
      simp only [Procedure.comparing, List.mem_cons, List.not_mem_nil, or_false] at member
      rcases member with rfl | rfl | rfl
      · cases holds
      · cases holds
      · rfl
  have enters : Procedure.comparing.Step ⟨.stmt 0, start⟩ ⟨.stmt 1, one⟩ :=
    .intro rfl (.assign ⟨rfl, rfl⟩ (.int 1)) (by decide)
  have tests : Procedure.comparing.Step ⟨.stmt 1, one⟩ ⟨.stmt 2, one⟩ :=
    .intro rfl (.skip fun x value defines => by cases defines.1) (by decide)
  have differ : Exp.Evaluates one
      (.binary (.relational .eq) (.var ⟨0, "a", .primitive .long⟩)
        (.var ⟨1, "b", .primitive .long⟩))
      (BinaryOp.fold (.relational .eq) 0 1) :=
    .binary (.foreign (by decide) 0) (.foreign (by decide) 1) (by decide)
  have compares : Procedure.comparing.Step ⟨.stmt 2, one⟩ ⟨.stmt 3, zero⟩ :=
    .intro rfl (.assign ⟨rfl, rfl⟩ differ) (by decide)
  exact ⟨_, _, starts, .tail (.tail (.single enters) tests) compares, rfl, rfl⟩

/-- A variable that a comparison of two variables of type `long` defines last on
one path to a node need not be unknown there: it is the constant of another
path, and a run may come there with another int in it. -/
theorem comparing_keeps_constant :
    Source.Procedure.comparing.check = .ok .comparing ∧
    ∃ s around stmt x y z, analysis.solve .comparing = .ok s ∧
      Node.stmt 0 ∈ Procedure.comparing.graph.successors .entry ∧
      Node.stmt 1 ∈ Procedure.comparing.graph.successors (.stmt 0) ∧
      Node.stmt 2 ∈ Procedure.comparing.graph.successors (.stmt 1) ∧
      Procedure.comparing.stmt? (.stmt 2) = some stmt ∧
      stmt.Defines x (.binary (.relational .eq) (.var y) (.var z)) ∧
      ¬ y.holdsInt ∧ ¬ z.holdsInt ∧
      Procedure.comparing.Carries x.id (.stmt 2) (.stmt 3) ∧
      s.get? (.stmt 3) = some around ∧ around.incoming.get x.id = .constant 1 ∧
      ∃ c₀ c, Procedure.comparing.Starts c₀ ∧ Procedure.comparing.Runs c₀ c ∧
        c.node = .stmt 3 ∧ c.store x.id = some 0 :=
  ⟨rfl, _, _, _, _, _, _, rfl, by decide, by decide, by decide, rfl, ⟨rfl, rfl⟩, by decide,
    by decide, .step (by decide), rfl, rfl, comparing_runs_to_zero⟩

end Constants

end ConstantFlow
