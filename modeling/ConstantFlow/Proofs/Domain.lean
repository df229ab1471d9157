import ConstantFlow.Value
import Mathlib.Order.Lattice
import Mathlib.Order.BoundedOrder.Basic

/-!
# The order of a domain

A domain compares its values by `Domain.order`.  It is *lawful* when this is a
partial order in which `Domain.meet` is the least upper bound and
`Domain.bottom` the least value, and when a value climbs at most twice.  The
number of climbs below a value is its `rank`.

Constants and marks are lawful.  Of constants, `undefined` is below every
value, `unknown` is above every value, and different constants do not compare
(`Value.le_iff`).
-/

namespace ConstantFlow

/-! ## Lawful domains -/

/-- A domain whose order, meet and bottom belong together, and in which a value
climbs at most twice. -/
class Domain.Lawful (V : Type) [Domain V] extends SemilatticeSup V, OrderBot V where
  /-- The order is the comparison of the domain. -/
  le_iff_order : ∀ a b : V,
    a ≤ b ↔ Domain.order a b = some .lt ∨ Domain.order a b = some .eq
  /-- The meet is the least upper bound. -/
  meet_eq_sup : ∀ a b : V, Domain.meet a b = a ⊔ b
  /-- The value of an absent entry is the least one. -/
  bottom_eq_bot : (Domain.bottom : V) = ⊥
  /-- How often a value has climbed. -/
  rank : V → Nat
  /-- A climb raises the rank. -/
  rank_lt : ∀ {a b : V}, a < b → rank a < rank b
  /-- There are three layers. -/
  rank_le_two : ∀ a : V, rank a ≤ 2

attribute [simp] Domain.Lawful.meet_eq_sup Domain.Lawful.bottom_eq_bot

/-- What is greater has a greater rank or the same. -/
theorem Domain.rank_mono {V : Type} [Domain V] [Domain.Lawful V] {a b : V} (h : a ≤ b) :
    Domain.Lawful.rank a ≤ Domain.Lawful.rank b := by
  rcases eq_or_lt_of_le h with same | less
  · rw [same]
  · exact Nat.le_of_lt (Domain.Lawful.rank_lt less)

/-! ## Constants -/

namespace Value

/-- The comparison of constants in words. -/
theorem order_iff {a b : Value} :
    (a.order b = some .lt ∨ a.order b = some .eq) ↔ a = .undefined ∨ b = .unknown ∨ a = b := by
  cases a with
  | undefined => cases b <;> simp [order]
  | unknown => cases b <;> simp [order]
  | constant k =>
    cases b with
    | undefined => simp [order]
    | unknown => simp [order]
    | constant l => by_cases h : k = l <;> simp [order, h]

/-- How often a value has climbed. -/
def rank : Value → Nat
  | .undefined => 0
  | .constant _ => 1
  | .unknown => 2

theorem meet_self (a : Value) : meet a a = a := by
  cases a <;> simp [meet]

/-- What meets the unknown is lost. -/
theorem unknown_meet (a : Value) : meet .unknown a = .unknown := by
  cases a <;> rfl

theorem undefined_meet (a : Value) : meet .undefined a = a := by
  cases a <;> rfl

theorem meet_undefined (a : Value) : meet a .undefined = a := by
  cases a <;> rfl

/-- Two values meet in one of them or in `unknown`, and in the second if the
first is below it. -/
theorem meet_cases (a b : Value) :
    (meet a b = b ∧ (a = .undefined ∨ a = b)) ∨ (meet a b = a ∧ b = .undefined) ∨
      meet a b = .unknown := by
  cases a with
  | undefined => exact .inl ⟨undefined_meet b, .inl rfl⟩
  | unknown => exact .inr (.inr (unknown_meet b))
  | constant k =>
    cases b with
    | undefined => exact .inr (.inl ⟨rfl, rfl⟩)
    | unknown => exact .inr (.inr rfl)
    | constant l =>
      by_cases h : k = l
      · exact .inl ⟨by simp [meet, h], .inr (by rw [h])⟩
      · exact .inr (.inr (by simp [meet, h]))

instance : Domain.Lawful Value where
  le a b := a.order b = some .lt ∨ a.order b = some .eq
  le_refl a := order_iff.2 (.inr (.inr rfl))
  le_trans a b c hab hbc := by
    rw [order_iff] at hab hbc ⊢
    rcases hab with h | h | h
    · exact .inl h
    · subst h
      rcases hbc with h | h | h
      · exact absurd h (by simp)
      · exact .inr (.inl h)
      · exact .inr (.inl h.symm)
    · exact h ▸ hbc
  le_antisymm a b hab hba := by
    rw [order_iff] at hab hba
    rcases hab with h | h | h
    · rcases hba with h' | h' | h'
      · rw [h, h']
      · exact absurd (h.symm.trans h') (by simp)
      · exact h'.symm
    · rcases hba with h' | h' | h'
      · exact absurd (h'.symm.trans h) (by simp)
      · rw [h, h']
      · exact h'.symm
    · exact h
  sup := meet
  le_sup_left a b := by
    rw [order_iff]
    rcases meet_cases a b with ⟨same, h | h⟩ | ⟨same, -⟩ | same
    · exact .inl h
    · exact .inr (.inr (h.trans same.symm))
    · exact .inr (.inr same.symm)
    · exact .inr (.inl same)
  le_sup_right a b := by
    rw [order_iff]
    rcases meet_cases a b with ⟨same, -⟩ | ⟨-, h⟩ | same
    · exact .inr (.inr same.symm)
    · exact .inl h
    · exact .inr (.inl same)
  sup_le a b c hac hbc := by
    rw [order_iff] at hac hbc ⊢
    rcases hac with h | h | h
    · rw [h, undefined_meet]
      exact hbc
    · exact .inr (.inl h)
    · rcases hbc with h' | h' | h'
      · rw [h', meet_undefined]
        exact .inr (.inr h)
      · exact .inr (.inl h')
      · rw [h, h', meet_self]
        exact .inr (.inr rfl)
  bot := .undefined
  bot_le a := order_iff.2 (.inl rfl)
  le_iff_order _ _ := .rfl
  meet_eq_sup _ _ := rfl
  bottom_eq_bot := rfl
  rank := rank
  rank_lt {a b} less := by
    have notAbove : ¬ (b = .undefined ∨ a = .unknown ∨ b = a) :=
      fun h => less.2 (order_iff.2 h)
    rcases order_iff.1 less.1 with h | h | h
    · subst h
      cases b with
      | undefined => exact absurd (.inl rfl) notAbove
      | constant _ => exact Nat.zero_lt_one
      | unknown => exact Nat.zero_lt_two
    · subst h
      cases a with
      | undefined => exact Nat.zero_lt_two
      | constant _ => exact Nat.one_lt_two
      | unknown => exact absurd (.inr (.inl rfl)) notAbove
    · exact absurd (.inr (.inr h.symm)) notAbove
  rank_le_two a := by cases a <;> simp [rank]

/-- The order of constants in words. -/
theorem le_iff {a b : Value} : a ≤ b ↔ a = .undefined ∨ b = .unknown ∨ a = b :=
  order_iff

theorem undefined_le (a : Value) : .undefined ≤ a := le_iff.2 (.inl rfl)

theorem le_unknown (a : Value) : a ≤ .unknown := le_iff.2 (.inr (.inl rfl))

theorem unknown_le {a : Value} (h : .unknown ≤ a) : a = .unknown := by
  rcases le_iff.1 h with same | same | same
  · exact absurd same (by simp)
  · exact same
  · exact same.symm

/-- Above a constant there is only the constant itself and `unknown`. -/
theorem constant_le {k : Int32} {a : Value} (h : .constant k ≤ a) :
    a = .constant k ∨ a = .unknown := by
  rcases le_iff.1 h with same | same | same
  · exact absurd same (by simp)
  · exact .inr same
  · exact .inl same.symm

end Value

/-! ## Marks -/

namespace Mark

instance : Domain.Lawful Mark where
  le a b := a.order b = some .lt ∨ a.order b = some .eq
  le_refl a := by cases a <;> simp [order]
  le_trans a b c := by cases a <;> cases b <;> cases c <;> simp [order]
  le_antisymm a b := by cases a <;> cases b <;> simp [order]
  sup := meet
  le_sup_left a b := by cases a <;> cases b <;> simp [order, meet]
  le_sup_right a b := by cases a <;> cases b <;> simp [order, meet]
  sup_le a b c := by cases a <;> cases b <;> cases c <;> simp [order, meet]
  bot := .no
  bot_le a := by cases a <;> simp [order]
  le_iff_order _ _ := .rfl
  meet_eq_sup _ _ := rfl
  bottom_eq_bot := rfl
  rank a := if a = .yes then 1 else 0
  rank_lt {a b} := by
    rintro ⟨below, notAbove⟩
    cases a <;> cases b <;> simp_all [order]
  rank_le_two a := by cases a <;> simp

/-- A mark is below another if it carries over. -/
theorem le_iff {a b : Mark} : a ≤ b ↔ (a = .yes → b = .yes) := by
  rw [Domain.Lawful.le_iff_order]
  cases a <;> cases b <;> simp [Domain.order, order]

theorem ne_bot_iff {a : Mark} : a ≠ ⊥ ↔ a = .yes := by
  rw [← Domain.Lawful.bottom_eq_bot]
  cases a <;> simp [Domain.bottom]

end Mark

end ConstantFlow
