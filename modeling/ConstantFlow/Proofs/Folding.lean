import ConstantFlow.Proofs.Evaluation

/-!
# When a value is constant

An expression is *foldable* if it is made of variables, int literals and binary
operations alone.  When its variables are given, it is computed operator by
operator, and that fails where one divides by zero (`Exp.compute`).

Under a fact that knows the variables of a foldable expression, its value is the
constant that is computed, or undefined if the computation fails
(`Exp.value_eq_ofComputed`).  A constant comes about in no other way, because an
operator makes it of constants only.  So a value is constant exactly if the
expression is foldable, its variables are known, and the computation succeeds.

How two constants are folded may be left to a function that need not answer
(`Exp.valueBy`).  It is never asked to divide by zero: whatever it does there,
the value comes out the same (`Exp.valueBy_eq`).
-/

namespace ConstantFlow

/-! ## Operators -/

/-- The value of a computation: a failure leaves nothing. -/
def Value.ofComputed : Option Int32 → Value
  | some k => .constant k
  | none => .undefined

namespace BinaryOp

variable (op : BinaryOp)

/-- The value of an operator on two ints, unless it divides by zero. -/
def fold? (a b : Int32) : Option Int32 :=
  if op.isDivision ∧ b = 0 then none else some (op.fold a b)

/-- An operator on the values of two computations has the value of the whole
computation. -/
theorem apply_ofComputed (a b : Option Int32) :
    op.apply (.ofComputed a) (.ofComputed b) = .ofComputed (do
      let j ← a
      let k ← b
      op.fold? j k) := by
  cases b with
  | none => cases a <;> simp [apply, Value.ofComputed]
  | some k =>
    by_cases trap : op.isDivision ∧ k = 0
    · cases a <;> simp [apply, Value.ofComputed, fold?, trap]
    · cases a <;> simp [apply, Value.ofComputed, fold?, trap]

/-- The value of an operator on two abstract values, when two constants are
folded by a function that need not answer. -/
def applyBy (fold : BinaryOp → Int32 → Int32 → Option Int32) (a b : Value) : Option Value :=
  if op.isDivision ∧ b = .constant 0 then some .undefined
  else
    match a, b with
    | .unknown, _ | _, .unknown => some .unknown
    | .constant a, .constant b => (fold op a b).map .constant
    | _, _ => some .undefined

/-- A way to fold two ints is right if it fails or errs in divisions by zero
only. -/
def Folds (fold : BinaryOp → Int32 → Int32 → Option Int32) : Prop :=
  ∀ op a b, ¬ (isDivision op ∧ b = 0) → fold op a b = some (op.fold a b)

/-- Whatever is folded right where there is no trap, operators never ask for more. -/
theorem applyBy_eq {fold : BinaryOp → Int32 → Int32 → Option Int32} (right : Folds fold)
    (a b : Value) : op.applyBy fold a b = some (op.apply a b) := by
  unfold applyBy apply
  by_cases trap : op.isDivision ∧ b = .constant 0
  · rw [if_pos trap, if_pos trap]
  · rw [if_neg trap, if_neg trap]
    cases a with
    | undefined => cases b <;> rfl
    | unknown => rfl
    | constant j =>
      cases b with
      | undefined | unknown => rfl
      | constant k =>
        have safe : ¬ (op.isDivision ∧ k = 0) := by simpa using trap
        simp only [right op j k safe, Option.map_some]

end BinaryOp

/-! ## Expressions -/

namespace Exp

/-- Whether an expression is made of variables, int literals and binary
operations alone. -/
def Foldable {ν : Type} : Exp ν → Prop
  | .var _ | .int _ => True
  | .binary _ lhs rhs => lhs.Foldable ∧ rhs.Foldable
  | _ => False

/-- What a foldable expression comes to when its variables are given, unless an
operator divides by zero. -/
def compute (given : VarId → Int32) : Exp Var → Option Int32
  | .var x => some (given x.id)
  | .int value => some value
  | .binary op lhs rhs => do
      let j ← lhs.compute given
      let k ← rhs.compute given
      op.fold? j k
  | _ => none

/-- The value of an expression under a fact, when two constants are folded by a
function that need not answer. -/
def valueBy (fold : BinaryOp → Int32 → Int32 → Option Int32) (fact : Fact Value) :
    Exp Var → Option Value
  | .var x => some (fact.get x.id)
  | .int value => some (.constant value)
  | .binary op lhs rhs => do
      let a ← lhs.valueBy fold fact
      let b ← rhs.valueBy fold fact
      op.applyBy fold a b
  | _ => some .unknown

variable {e : Exp Var} {fact : Fact Value}

/-- The value of a foldable expression whose variables are known is what it
comes to. -/
theorem value_eq_ofComputed {given : VarId → Int32} (foldable : e.Foldable)
    (known : ∀ x ∈ e.vars, fact.get x.id = .constant (given x.id)) :
    e.value fact = .ofComputed (e.compute given) := by
  induction e with
  | var x => exact known x List.mem_cons_self
  | int value => rfl
  | binary op lhs rhs ihl ihr =>
    have left := ihl foldable.1 fun x member => known x (List.mem_append_left _ member)
    have right := ihr foldable.2 fun x member => known x (List.mem_append_right _ member)
    rw [value, left, right, op.apply_ofComputed]
    rfl
  | _ => exact foldable.elim

/-- An expression whose value is constant is foldable. -/
theorem foldable_of_value {k : Int32} (h : e.value fact = .constant k) : e.Foldable := by
  induction e generalizing k with
  | var x => trivial
  | int value => trivial
  | binary op lhs rhs ihl ihr =>
    obtain ⟨i, j, left, right, -, -⟩ := op.apply_eq_constant_iff.1 h
    exact ⟨ihl left, ihr right⟩
  | _ => exact absurd h (by simp [value])

/-- The variables of an expression whose value is constant are known. -/
theorem known_of_value {k : Int32} (h : e.value fact = .constant k) {x : Var}
    (member : x ∈ e.vars) : ∃ j, fact.get x.id = .constant j := by
  induction e generalizing k with
  | var y =>
    rw [List.mem_singleton.1 member]
    exact ⟨k, h⟩
  | int value => exact absurd member List.not_mem_nil
  | binary op lhs rhs ihl ihr =>
    obtain ⟨i, j, left, right, -, -⟩ := op.apply_eq_constant_iff.1 h
    rcases List.mem_append.1 member with among | among
    · exact ihl left among
    · exact ihr right among
  | _ => exact absurd h (by simp [value])

/-- The value does not depend on what is answered to divisions by zero. -/
theorem valueBy_eq {fold : BinaryOp → Int32 → Int32 → Option Int32} (right : BinaryOp.Folds fold)
    (e : Exp Var) (fact : Fact Value) : e.valueBy fold fact = some (e.value fact) := by
  induction e with
  | binary op lhs rhs ihl ihr =>
    rw [valueBy, ihl, ihr]
    exact op.applyBy_eq right _ _
  | _ => rfl

/-- The value of an expression is constant if it is foldable, each of its
variables is known, and what it comes to is that constant.  To find the value, no
two constants are folded by a division by zero. -/
theorem value_exact (e : Exp Var) (fact : Fact Value) :
    (∀ k, e.value fact = .constant k ↔
      e.Foldable ∧ ∃ given : VarId → Int32,
        (∀ x ∈ e.vars, fact.get x.id = .constant (given x.id)) ∧ e.compute given = some k) ∧
    e.valueBy BinaryOp.fold? fact = some (e.value fact) ∧
    ∀ fold, BinaryOp.Folds fold → e.valueBy fold fact = some (e.value fact) := by
  refine ⟨fun k => ⟨fun constant => ?_, ?_⟩, ?_, fun fold right => valueBy_eq right e fact⟩
  · let given : VarId → Int32 := fun id => (fact.get id).constant?.getD 0
    have known : ∀ x ∈ e.vars, fact.get x.id = .constant (given x.id) := by
      intro x member
      obtain ⟨j, found⟩ := known_of_value constant member
      simp only [given, found, Value.constant?, Option.getD_some]
    have foldable := foldable_of_value constant
    have computed := value_eq_ofComputed foldable known
    rw [constant] at computed
    refine ⟨foldable, given, known, ?_⟩
    cases comes : e.compute given with
    | none => exact absurd (comes ▸ computed) (by simp [Value.ofComputed])
    | some j =>
      rw [comes] at computed
      rw [Value.constant.inj computed]
  · rintro ⟨foldable, given, known, comes⟩
    rw [value_eq_ofComputed foldable known, comes]
    rfl
  · exact valueBy_eq (fun op a b safe => if_neg safe) e fact

/-- A trap inside an expression is no value further up. -/
example : Exp.value .empty (.binary (.arithmetic .mul) (.int 0)
    (.binary (.arithmetic .div) (.int 1) (.int 0))) = .undefined := by decide

end Exp

end ConstantFlow
