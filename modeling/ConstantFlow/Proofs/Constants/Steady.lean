import ConstantFlow.Dataflow.Constants
import ConstantFlow.Proofs.Dataflow.Termination
import ConstantFlow.Proofs.Evaluation
import ConstantFlow.Proofs.Execution

/-!
# Constant propagation is steady

The effect of a statement differs from the fact in front at one variable at
most: the one that it defines, if that can hold an int.  There it is the value
of the right side, which follows the one under a lower fact, so the effect
climbs or falls to `undefined`.

Both directions of constant propagation share their effects, and what they say
is of declared variables that can hold an int.  So both settle on a solution,
which is that of the last moment of the run (`Constants.solve_eq`).
-/

namespace ConstantFlow.Constants

/-! ## Effects -/

/-- A definition gives its variable the value of its right side. -/
theorem get_effect_of_defines {stmt : Stmt Var} {x : Var} {value : Exp Var}
    (h : stmt.Defines x value) (f : Fact Value) :
    (effect stmt f).get x.id = value.value f := by
  obtain ⟨rfl, holds⟩ := h
  simp [effect, holds]

theorem get_effect_of_ne {stmt : Stmt Var} {id : VarId}
    (h : ∀ x value, stmt.Defines x value → x.id ≠ id) (f : Fact Value) :
    (effect stmt f).get id = f.get id := by
  unfold effect
  split
  · next x value =>
    split
    · next holds => rw [Fact.get_set, if_neg (h x value ⟨rfl, holds⟩).symm]
    · rfl
  · rfl

/-- A statement either defines the variable of a position or leaves it. -/
theorem get_effect_cases (stmt : Stmt Var) (id : VarId) :
    (∃ x value, stmt.Defines x value ∧ x.id = id ∧
      ∀ f, (effect stmt f).get id = value.value f) ∨
      ∀ f, (effect stmt f).get id = f.get id := by
  by_cases defined : ∃ x value, stmt.Defines x value ∧ x.id = id
  · obtain ⟨x, value, h, rfl⟩ := defined
    exact .inl ⟨x, value, h, rfl, get_effect_of_defines h⟩
  · refine .inr (get_effect_of_ne fun x value h same => ?_)
    exact defined ⟨x, value, h, same⟩

/-- What a statement makes of a fact is what carrying it out leaves behind,
when nothing was there before. -/
theorem transfer_empty (stmt : Stmt Var) (f : Fact Value) :
    (transfer stmt f .empty).1 = effect stmt f := by
  refine Fact.ext_get fun id => ?_
  rw [transfer, Fact.get_copyFrom]
  split
  · next nothing => rw [nothing, Fact.get_empty]
  · rfl

/-- At the start the parameters that can hold an int are unknown, and nothing
else is defined. -/
theorem get_boundary (p : Procedure) (id : VarId) : (boundary p).get id =
    if ∃ x ∈ p.params, x.holdsInt ∧ x.id = id then .unknown else .undefined := by
  have params :=
    Fact.get_foldl_set_const Value.unknown (p.params.filter Var.holdsInt) .empty id
  simp only [List.mem_filter, and_assoc] at params
  rw [boundary, Fact.ofList, List.foldl_map]
  exact params

/-! ## Steadiness -/

section Both

variable {a : Analysis Value}

theorem analysis_mem : analysis ∈ [analysis, backward] := List.mem_cons_self

theorem direction_cases (either : a ∈ [analysis, backward]) : a = analysis ∨ a = backward := by
  simpa using either

theorem boundary_eq (either : a ∈ [analysis, backward]) : a.boundary = boundary := by
  rcases direction_cases either with rfl | rfl <;> rfl

theorem transfer_eq (either : a ∈ [analysis, backward]) : a.transfer = transfer := by
  rcases direction_cases either with rfl | rfl <;> rfl

theorem join_eq (either : a ∈ [analysis, backward]) : a.join = Fact.meet := by
  rcases direction_cases either with rfl | rfl <;> rfl

/-- Constant propagation is steady in either direction: joins are pointwise, and a
transfer copies what its statement makes of a fact. -/
theorem steady (either : a ∈ [analysis, backward]) : a.Steady effect where
  get_join f g id := by
    rw [join_eq either]
    exact Fact.get_meet f g id
  transfer_eq stmt front behind := by
    rw [transfer_eq either]
    rfl
  effect_climbs stmt f g h id := by
    rcases get_effect_cases stmt id with ⟨x, value, -, -, made⟩ | kept
    · rw [made, made]
      rcases (value.value_follows h).le_or_trapped with climbs | ⟨-, nothing⟩
      · exact .inr climbs
      · exact .inl nothing
    · rw [kept, kept]
      exact .inr (h id)

/-! ## The variables that are followed -/

theorem confined (either : a ∈ [analysis, backward]) {p : Procedure} {ids : List VarId}
    (followed : ∀ x ∈ p.occurrences, x.holdsInt → x.id ∈ ids) : a.Confined effect p ids where
  boundary := by
    intro id present
    rw [boundary_eq either, get_boundary] at present
    split at present
    · next param =>
      obtain ⟨x, member, holds, rfl⟩ := param
      exact followed x (List.mem_append_left _ member) holds
    · exact absurd rfl present
  effect n stmt found f within := by
    intro id present
    rcases get_effect_cases stmt id with ⟨x, value, defines, rfl, -⟩ | kept
    · refine followed x (List.mem_append_right _ ?_) defines.2
      exact List.mem_flatMap.2 ⟨stmt, defines.mem_body found, defines.mem_vars⟩
    · exact within id (kept f ▸ present)

/-- The declared variables that can hold an int. -/
def followed (p : Procedure) : List Var := p.vars.filter Var.holdsInt

theorem confined_followed (either : a ∈ [analysis, backward]) {p : Procedure}
    (checked : p.Checked) : a.Confined effect p ((followed p).map Var.id) := by
  refine confined either fun x member holds => ?_
  exact List.mem_map_of_mem (List.mem_filter.2 ⟨checked.declared x member, holds⟩)

/-! ## Solutions -/

/-- A run of constant propagation settles, and its solution is what the last
moment says of each node. -/
theorem solve_eq (either : a ∈ [analysis, backward]) {p : Procedure} (checked : p.Checked) :
    ∃ m, Machine.Reaches a p (.initial a p) m ∧ m.pending = [] ∧
      a.run p = ⟨m.visits.reverse, m.solution a, .settled⟩ ∧
      a.solve p = .ok (m.solution a) ∧
      ∀ n ∈ p.graph.nodes,
        (m.solution a).get? n = some (a.direction.around (m.cells.get n)) := by
  exact (steady either).solve_eq (confined either fun x member _ => List.mem_map_of_mem member)
    checked.closed (Nat.le_of_eq checked.size_eq)

end Both

end ConstantFlow.Constants
