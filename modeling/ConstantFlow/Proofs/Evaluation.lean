import ConstantFlow.Evaluate
import ConstantFlow.Proofs.Facts

/-!
# How values of expressions change

When a fact climbs, the value of an expression climbs with it, but for one
case: a divisor that is known to be zero traps, also under an unknown dividend.
So `unknown` may give way to `undefined`, once a divisor that was still
undefined turns out to be zero.  `Value.Follows` is the order with this one
step added, and every operator respects it (`BinaryOp.apply_follows`).

A constant stays or becomes `unknown`, and an unknown value never becomes a
constant again.  This is what lets a fact behind a statement climb although
folding is not monotone.  The exception needs a division that is reached through
binary operations and whose divisor turns out to be zero (`Exp.TurnsZero`), so
without one the value climbs (`Exp.value_climbs_or_traps`).

An expression is *guarded* when each of its divisors is a literal other than
zero.  The value of a guarded expression does climb (`Exp.value_mono`).
-/

namespace ConstantFlow

/-! ## Values that follow others -/

/-- What the value of an expression may be after the fact has climbed. -/
inductive Value.Follows : Value → Value → Prop
  /-- Anything may become known of an undefined value. -/
  | undefined (b : Value) : Follows .undefined b
  /-- A value may stay. -/
  | same (a : Value) : Follows a a
  /-- A constant may be lost. -/
  | lost (k : Int32) : Follows (.constant k) .unknown
  /-- A divisor may turn out to be zero. -/
  | trapped : Follows .unknown .undefined

namespace Value.Follows

theorem of_le {a b : Value} (h : a ≤ b) : Follows a b := by
  rcases le_iff.1 h with same | same | same
  · rw [same]
    exact .undefined b
  · rw [same]
    cases a with
    | undefined => exact .undefined _
    | constant k => exact .lost k
    | unknown => exact .same _
  · rw [same]
    exact .same b

/-- A value climbs or is trapped. -/
theorem le_or_trapped {a b : Value} (h : Follows a b) :
    a ≤ b ∨ (a = .unknown ∧ b = .undefined) := by
  cases h with
  | undefined => exact .inl (undefined_le b)
  | same => exact .inl le_rfl
  | lost => exact .inl (le_unknown _)
  | trapped => exact .inr ⟨rfl, rfl⟩

/-- What follows a constant is the constant or unknown. -/
theorem of_constant {k : Int32} {b : Value} (h : Follows (.constant k) b) :
    b = .constant k ∨ b = .unknown := by
  cases h with
  | same => exact .inl rfl
  | lost => exact .inr rfl

/-- A constant follows itself and what is undefined. -/
theorem to_constant {a : Value} {k : Int32} (h : Follows a (.constant k)) :
    a = .undefined ∨ a = .constant k := by
  cases h with
  | undefined => exact .inl rfl
  | same => exact .inr rfl

end Value.Follows

/-! ## Operators on abstract values -/

namespace BinaryOp

variable (op : BinaryOp)

/-- A division by zero is undefined, whatever is divided. -/
theorem apply_trap {a b : Value} (h : op.isDivision ∧ b = .constant 0) :
    op.apply a b = .undefined := by
  unfold apply
  exact if_pos h

/-- An unknown left operand makes the result unknown, unless there is a trap. -/
theorem apply_unknown_left {b : Value} (h : ¬ (op.isDivision ∧ b = .constant 0)) :
    op.apply .unknown b = .unknown := by
  unfold apply
  rw [if_neg h]

theorem apply_unknown_right (a : Value) : op.apply a .unknown = .unknown := by
  unfold apply
  rw [if_neg (by simp)]
  cases a <;> rfl

/-- Constants are folded, unless there is a trap. -/
theorem apply_constants {j k : Int32} (h : ¬ (op.isDivision ∧ k = 0)) :
    op.apply (.constant j) (.constant k) = .constant (op.fold j k) := by
  unfold apply
  rw [if_neg (by simpa using h)]

/-- A result is a constant when both operands are and the operator does not
trap on them. -/
theorem apply_eq_constant_iff {a b : Value} {m : Int32} :
    op.apply a b = .constant m ↔
      ∃ j k, a = .constant j ∧ b = .constant k ∧ ¬ (op.isDivision ∧ k = 0) ∧ m = op.fold j k := by
  constructor
  · intro h
    by_cases trap : op.isDivision ∧ b = .constant 0
    · rw [apply_trap op trap] at h
      exact absurd h (by simp)
    · unfold apply at h
      rw [if_neg trap] at h
      cases a with
      | undefined => cases b <;> simp at h
      | unknown => simp at h
      | constant j =>
        cases b with
        | undefined => simp at h
        | unknown => simp at h
        | constant k => exact ⟨j, k, rfl, rfl, by simpa using trap, by simpa using h.symm⟩
  · rintro ⟨j, k, rfl, rfl, safe, rfl⟩
    exact apply_constants op safe

/-- A result is unknown when an operand is and the divisor is not a known
zero. -/
theorem apply_eq_unknown_iff {a b : Value} :
    op.apply a b = .unknown ↔
      (a = .unknown ∨ b = .unknown) ∧ ¬ (op.isDivision ∧ b = .constant 0) := by
  constructor
  · intro h
    by_cases trap : op.isDivision ∧ b = .constant 0
    · rw [apply_trap op trap] at h
      exact absurd h (by simp)
    · refine ⟨?_, trap⟩
      unfold apply at h
      rw [if_neg trap] at h
      cases a with
      | undefined => cases b <;> simp at h ⊢
      | unknown => exact .inl rfl
      | constant j => cases b <;> simp at h ⊢
  · rintro ⟨rfl | rfl, safe⟩
    · exact apply_unknown_left op safe
    · exact apply_unknown_right op a

/-- Operators respect how values follow each other. -/
theorem apply_follows {a a' b b' : Value} (left : Value.Follows a a')
    (right : Value.Follows b b') : Value.Follows (op.apply a b) (op.apply a' b') := by
  cases before : op.apply a b with
  | undefined => exact .undefined _
  | constant m =>
    obtain ⟨j, k, rfl, rfl, safe, rfl⟩ := (apply_eq_constant_iff op).1 before
    rcases right.of_constant with rfl | rfl
    · rcases left.of_constant with rfl | rfl
      · rw [before]
        exact .same _
      · rw [apply_unknown_left op (by simpa using safe)]
        exact .lost _
    · rw [apply_unknown_right]
      exact .lost _
  | unknown =>
    cases after : op.apply a' b' with
    | undefined => exact .trapped
    | unknown => exact .same _
    | constant m =>
      obtain ⟨j, k, rfl, rfl, -, -⟩ := (apply_eq_constant_iff op).1 after
      rcases ((apply_eq_unknown_iff op).1 before).1 with rfl | rfl
      · rcases left.to_constant with same | same <;> exact absurd same (by simp)
      · rcases right.to_constant with same | same <;> exact absurd same (by simp)

/-- An operator is monotone as long as its divisor does not become zero. -/
theorem apply_mono {a a' b b' : Value} (left : a ≤ a') (right : b ≤ b')
    (guard : op.isDivision → b' = .constant 0 → b = .constant 0) :
    op.apply a b ≤ op.apply a' b' := by
  rcases (apply_follows op (.of_le left) (.of_le right)).le_or_trapped with h | ⟨before, after⟩
  · exact h
  · obtain ⟨operand, safe⟩ := (apply_eq_unknown_iff op).1 before
    have safe' : ¬ (op.isDivision ∧ b' = .constant 0) :=
      fun trap => safe ⟨trap.1, guard trap.1 trap.2⟩
    rcases operand with rfl | rfl
    · rw [Value.unknown_le left, apply_unknown_left op safe'] at after
      exact absurd after (by simp)
    · rw [Value.unknown_le right, apply_unknown_right] at after
      exact absurd after (by simp)

end BinaryOp

/-! ## Expressions -/

namespace Exp

/-- The value of an expression under a higher fact follows the one before. -/
theorem value_follows (e : Exp Var) {f g : Fact Value} (h : f ≤ g) :
    Value.Follows (e.value f) (e.value g) := by
  induction e with
  | var x => exact .of_le (h x.id)
  | binary op lhs rhs ihl ihr => exact op.apply_follows ihl ihr
  | _ => exact .same _

/-- Whether one of the divisions that are reached through binary operations has
a divisor that is zero under the second fact, but not under the first. -/
def TurnsZero (f g : Fact Value) : Exp Var → Prop
  | .binary op lhs rhs =>
      (op.isDivision ∧ rhs.value f ≠ .constant 0 ∧ rhs.value g = .constant 0) ∨
        lhs.TurnsZero f g ∨ rhs.TurnsZero f g
  | _ => False

/-- An unknown value becomes undefined only by a divisor that turns out to be zero: if
no operand is unknown any more, then the one that was has been trapped. -/
theorem turnsZero_of_trapped {e : Exp Var} {f g : Fact Value} (h : f ≤ g)
    (before : e.value f = .unknown) (after : e.value g = .undefined) : e.TurnsZero f g := by
  induction e with
  | var x =>
    rw [value] at before after
    have below := h x.id
    rw [before, after] at below
    exact absurd (Value.unknown_le below) (by simp)
  | binary op lhs rhs ihl ihr =>
    obtain ⟨operand, safe⟩ := (op.apply_eq_unknown_iff).1 before
    by_cases trap : op.isDivision ∧ rhs.value g = .constant 0
    · exact .inl ⟨trap.1, fun zero => safe ⟨trap.1, zero⟩, trap.2⟩
    · have lost : ¬ (lhs.value g = .unknown ∨ rhs.value g = .unknown) := fun unknown =>
        absurd (after.symm.trans ((op.apply_eq_unknown_iff).2 ⟨unknown, trap⟩)) (by simp)
      rcases operand with left | right
      · rcases (lhs.value_follows h).le_or_trapped with climbs | ⟨-, nothing⟩
        · exact absurd (.inl (Value.unknown_le (left ▸ climbs))) lost
        · exact .inr (.inl (ihl left nothing))
      · rcases (rhs.value_follows h).le_or_trapped with climbs | ⟨-, nothing⟩
        · exact absurd (.inr (Value.unknown_le (right ▸ climbs))) lost
        · exact .inr (.inr (ihr right nothing))
  | _ => exact absurd (before.symm.trans after) (by simp)

variable {ν : Type}

/-- The operators of the binary operations at the root. -/
def operators : Exp ν → List BinaryOp
  | .binary op lhs rhs => op :: (lhs.operators ++ rhs.operators)
  | _ => []

/-- Only a division can turn out to have a zero divisor. -/
theorem TurnsZero.exists_division {e : Exp Var} {f g : Fact Value} (h : e.TurnsZero f g) :
    ∃ op ∈ e.operators, op.isDivision := by
  induction e with
  | binary op lhs rhs ihl ihr =>
    rcases h with ⟨division, -, -⟩ | left | right
    · exact ⟨op, List.mem_cons_self, division⟩
    · obtain ⟨other, member, division⟩ := ihl left
      exact ⟨other, List.mem_cons_of_mem _ (List.mem_append_left _ member), division⟩
    · obtain ⟨other, member, division⟩ := ihr right
      exact ⟨other, List.mem_cons_of_mem _ (List.mem_append_right _ member), division⟩
  | _ => exact h.elim

/-- When a fact climbs, the value of an expression climbs too, unless it is
unknown before and undefined afterwards.  That needs a divisor that turns out to
be zero, so without divisions the value climbs.  A constant stays or becomes
unknown, and an unknown value never becomes a constant. -/
theorem value_climbs_or_traps (e : Exp Var) {f g : Fact Value} (h : f ≤ g) :
    (e.value f ≤ e.value g ∨
      (e.value f = .unknown ∧ e.value g = .undefined ∧ e.TurnsZero f g)) ∧
    ((∀ op ∈ e.operators, ¬ op.isDivision) → e.value f ≤ e.value g) ∧
    (∀ k, e.value f = .constant k → e.value g = .constant k ∨ e.value g = .unknown) ∧
    (e.value f = .unknown → ∀ k, e.value g ≠ .constant k) := by
  have follows := e.value_follows h
  have climbs : e.value f ≤ e.value g ∨
      (e.value f = .unknown ∧ e.value g = .undefined ∧ e.TurnsZero f g) := by
    rcases follows.le_or_trapped with below | ⟨before, after⟩
    · exact .inl below
    · exact .inr ⟨before, after, turnsZero_of_trapped h before after⟩
  refine ⟨climbs, fun undivided => ?_, fun k before => ?_, fun before k after => ?_⟩
  · refine climbs.resolve_right fun ⟨_, _, turns⟩ => ?_
    obtain ⟨op, member, division⟩ := turns.exists_division
    exact undivided op member division
  · rw [before] at follows
    exact follows.of_constant
  · rw [before, after] at follows
    rcases follows.to_constant with same | same <;> exact absurd same (by simp)

/-- The divisor of an unknown dividend turns out to be zero. -/
theorem value_climbs_or_traps_dividing :
    let x : Var := ⟨0, "x", .primitive .int⟩
    let y : Var := ⟨1, "y", .primitive .int⟩
    let quotient : Exp Var := .binary (.arithmetic .div) (.var x) (.var y)
    let f : Fact Value := .ofList [(0, .unknown)]
    let g : Fact Value := .ofList [(0, .unknown), (1, .constant 0)]
    f ≤ g ∧ ¬ quotient.value f ≤ quotient.value g ∧
    quotient.value f = .unknown ∧ quotient.value g = .undefined ∧ quotient.TurnsZero f g := by
  intro x y quotient f g
  have below : f ≤ g := by
    intro id
    have set : g = f.set 1 (.constant 0) := rfl
    rw [set, Fact.get_set]
    split
    · next same =>
      subst same
      exact Value.undefined_le _
    · exact le_rfl
  have falls : ¬ quotient.value f ≤ quotient.value g := fun climbs =>
    absurd (Value.unknown_le climbs) (by decide)
  exact ⟨below, falls, (quotient.value_climbs_or_traps below).1.resolve_left falls⟩

/-- Whether every divisor, at any depth, is a literal other than zero. -/
def Guarded : Exp ν → Prop
  | .binary op lhs rhs =>
      (op.isDivision → ∃ k, rhs = .int k ∧ k ≠ 0) ∧ lhs.Guarded ∧ rhs.Guarded
  | .neg operand | .cast _ operand | .instanceOf operand _ => operand.Guarded
  | .element _ index => index.Guarded
  | .var _ | .int _ | .literal _ | .call _ _ | .new _ | .field _ _ | .length _ => True

/-- The value of a guarded expression climbs with the fact. -/
theorem value_mono {e : Exp Var} (guarded : e.Guarded) {f g : Fact Value} (h : f ≤ g) :
    e.value f ≤ e.value g := by
  induction e with
  | var x => exact h x.id
  | binary op lhs rhs ihl ihr =>
    obtain ⟨divisor, left, right⟩ := guarded
    refine op.apply_mono (ihl left) (ihr right) fun division zero => ?_
    obtain ⟨k, rfl, nonzero⟩ := divisor division
    exact absurd (Value.constant.inj zero) nonzero
  | _ => exact le_rfl

end Exp

end ConstantFlow
