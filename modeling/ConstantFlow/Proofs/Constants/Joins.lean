import ConstantFlow.Proofs.Constants.Steady
import Mathlib.Order.Bounds.Basic
import Mathlib.Order.Defs.Unbundled

/-!
# Joins are least upper bounds

The comparison of values is that of a partial order, in which the meet of two
values is their least upper bound.  So a value is below another if it meets it
in that other one.

Facts are compared variable by variable.  Joined into one fact, one after the
other, some facts make the least fact above it and all of them
(`Constants.isLUB_foldl_join`).  A least upper bound depends only on what it
bounds, so neither the order of the facts nor how often one of them is joined
shows in the result.  The empty fact is below all others and does not show at
all.
-/

namespace ConstantFlow

/-! ## Values -/

namespace Value

/-- The comparison says of two values how they lie in the order. -/
theorem order_eq_some_iff (a b : Value) :
    (a.order b = some .eq ↔ a = b) ∧ (a.order b = some .lt ↔ a < b) ∧
      (a.order b = some .gt ↔ b < a) := by
  simp only [lt_iff_le_and_ne, le_iff]
  cases a with
  | undefined => cases b <;> simp [order]
  | unknown => cases b <;> simp [order]
  | constant j =>
    cases b with
    | undefined => simp [order]
    | unknown => simp [order]
    | constant k => by_cases same : j = k <;> simp [order, same]

/-- A value is below another if they meet in the other. -/
theorem le_iff_meet_eq {a b : Value} : a ≤ b ↔ a.meet b = b :=
  sup_eq_right.symm

end Value

/-! ## Facts -/

namespace Constants

/-- Facts joined into one make the least fact above it and all of them. -/
theorem isLUB_foldl_join (t : Fact Value) (fs : List (Fact Value)) :
    IsLUB (insert t {f | f ∈ fs}) (fs.foldl analysis.join t) := by
  refine isLUB_iff_le_iff.2 fun bound => ?_
  have below : fs.foldl analysis.join t ≤ bound ↔ t ≤ bound ∧ ∀ f ∈ fs, f ≤ bound :=
    Machine.foldl_join_le (steady analysis_mem)
  rw [below]
  simp only [upperBounds_insert, Set.mem_inter_iff, Set.mem_Ici, mem_upperBounds,
    Set.mem_ofPred_eq]

/-- Of the facts that are joined only the set of them matters. -/
theorem foldl_join_congr (t : Fact Value) {fs gs : List (Fact Value)}
    (same : ∀ f, f ∈ gs ↔ f ∈ fs) :
    gs.foldl analysis.join t = fs.foldl analysis.join t := by
  have members : {f | f ∈ gs} = {f | f ∈ fs} := Set.ext same
  have bounds := isLUB_foldl_join t gs
  rw [members] at bounds
  exact bounds.unique (isLUB_foldl_join t fs)

theorem join_empty (t : Fact Value) : analysis.join t .empty = t := by
  have bounds := isLUB_foldl_join t [.empty]
  refine le_antisymm (bounds.2 ?_) (bounds.1 (Set.mem_insert _ _))
  rintro f (rfl | member)
  · exact le_rfl
  · rw [List.mem_singleton.1 member]
    exact Fact.empty_le t

/-- The comparison of values is a partial order, in which a value is below
another if it meets it in that other one.  Facts are ordered by their values,
and facts joined into one make the least fact above it and all of them, whatever
their order and however often one is joined; the empty fact adds nothing. -/
theorem joins_least :
    (IsPartialOrder Value fun a b => a.order b = some .lt ∨ a.order b = some .eq) ∧
    (∀ a b : Value, (a.order b = some .eq ↔ a = b) ∧ (a.order b = some .lt ↔ a < b) ∧
      (a.order b = some .gt ↔ b < a) ∧ (a ≤ b ↔ a.meet b = b)) ∧
    (∀ f g : Fact Value, f ≤ g ↔ ∀ id, f.get id ≤ g.get id) ∧
    ∀ (t : Fact Value) (fs : List (Fact Value)),
      IsLUB (insert t {f | f ∈ fs}) (fs.foldl analysis.join t) ∧
      (∀ gs : List (Fact Value), (∀ f, f ∈ gs ↔ f ∈ fs) →
        gs.foldl analysis.join t = fs.foldl analysis.join t) ∧
      analysis.join t .empty = t := by
  refine ⟨inferInstanceAs (IsPartialOrder Value (· ≤ ·)), fun a b => ?_, fun _ _ => Fact.le_iff,
    fun t fs => ⟨isLUB_foldl_join t fs, fun gs same => foldl_join_congr t same, join_empty t⟩⟩
  obtain ⟨eq, lt, gt⟩ := a.order_eq_some_iff b
  exact ⟨eq, lt, gt, Value.le_iff_meet_eq⟩

/-- Two facts that disagree on a variable, joined in either order and one of
them twice. -/
theorem joins_least_repeating :
    let t : Fact Value := .ofList [(0, .constant 1)]
    let f : Fact Value := .ofList [(0, .constant 2), (1, .constant 3)]
    let g : Fact Value := .ofList [(2, .unknown)]
    let all : Fact Value := .ofList [(0, .unknown), (1, .constant 3), (2, .unknown)]
    (∀ h, h ∈ [g, f, g] ↔ h ∈ [f, g]) ∧ [f, g].foldl analysis.join t = all ∧
      [g, f, g].foldl analysis.join t = all ∧ IsLUB (insert t {h | h ∈ [f, g]}) all := by
  intro t f g all
  obtain ⟨-, -, -, joins⟩ := joins_least
  obtain ⟨least, repeated, -⟩ := joins t [f, g]
  have same : ∀ h, h ∈ [g, f, g] ↔ h ∈ [f, g] := by
    intro h
    simp only [List.mem_cons, List.not_mem_nil, or_false]
    tauto
  have both : [f, g].foldl analysis.join t = all := by decide
  exact ⟨same, both, (repeated _ same).trans both, both ▸ least⟩

end Constants

end ConstantFlow
