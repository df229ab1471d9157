import ConstantFlow.Fact
import ConstantFlow.Proofs.Domain
import Mathlib.Algebra.Order.BigOperators.Group.List
import Mathlib.Algebra.Order.Ring.Nat

/-!
# Facts, variable by variable

Copying and meeting go through the entries of one fact and set another.  As no
variable has two entries, the order of the entries does not show: what happens
to a variable depends on its own two values alone (`get_copyFrom`, `get_meet`).
The flag of a copy is right as well: it is raised exactly when the fact is
another one afterwards (`copyFrom_changed_iff`).

Over a lawful domain facts are ordered by the values that they give.  Copying
may lower a value, and meeting never does.

The *height* of a fact is the sum of the ranks of its values.  A fact whose
variables are among `n` given ones climbs at most `2 * n` times.
-/

namespace ConstantFlow.Fact

variable {V : Type} [Domain V]

/-! ## Going through the entries -/

/-- A lookup finds the value of a variable unless that is `bottom`. -/
theorem lookup_entries [DecidableEq V] (fact : Fact V) (id : VarId) :
    Ascending.lookup id fact.entries =
      if fact.get id = Domain.bottom then none else some (fact.get id) := by
  split
  · next absent =>
    cases found : Ascending.lookup id fact.entries with
    | none => rfl
    | some v =>
      have member := (lookup_eq_some_iff_mem fact.ascending).1 found
      obtain ⟨same, notBottom⟩ := mem_entries.1 member
      exact absurd (same.symm.trans absent) notBottom
  · next present =>
    exact (lookup_eq_some_iff_mem fact.ascending).2 (mem_entries.2 ⟨rfl, present⟩)

/-- Setting the entries of a list one after the other, each to a value made of
the one that is there and the one of the entry. -/
theorem get_foldl_set [DecidableEq V] (combine : V → V → V) {entries : List (VarId × V)}
    (ascending : entries.Pairwise fun a b => a.1 < b.1) (fact : Fact V) (id : VarId) :
    (entries.foldl (fun acc e => acc.set e.1 (combine (acc.get e.1) e.2)) fact).get id =
      match Ascending.lookup id entries with
      | none => fact.get id
      | some v => combine (fact.get id) v := by
  induction entries generalizing fact with
  | nil => rfl
  | cons entry rest ih =>
    obtain ⟨k, v⟩ := entry
    obtain ⟨first, tail⟩ := List.pairwise_cons.1 ascending
    rw [List.foldl_cons, ih tail, get_set]
    by_cases same : id = k
    · subst same
      have later : Ascending.lookup id rest = none :=
        Ascending.lookup_eq_none fun e member => Nat.ne_of_lt (first e member)
      simp [Ascending.lookup, later]
    · simp [Ascending.lookup, same]

/-- Setting several variables to one value. -/
theorem get_foldl_set_const [DecidableEq V] (value : V) (xs : List Var) (fact : Fact V)
    (id : VarId) : (xs.foldl (fun f x => f.set x.id value) fact).get id =
      if ∃ x ∈ xs, x.id = id then value else fact.get id := by
  induction xs generalizing fact with
  | nil => simp
  | cons x xs ih =>
    rw [List.foldl_cons, ih, get_set]
    by_cases later : ∃ y ∈ xs, y.id = id
    · obtain ⟨y, member, same⟩ := later
      rw [if_pos ⟨y, member, same⟩, if_pos ⟨y, List.mem_cons_of_mem _ member, same⟩]
    · rw [if_neg later]
      by_cases first : id = x.id
      · rw [if_pos first, if_pos ⟨x, List.mem_cons_self, first.symm⟩]
      · rw [if_neg first, if_neg]
        rintro ⟨y, member, same⟩
        rcases List.mem_cons.1 member with rfl | among
        · exact first same.symm
        · exact later ⟨y, among, same⟩

/-! ## Copying -/

section Copying

variable [DecidableEq V]

@[simp] theorem update_fst (fact : Fact V) (id : VarId) (value : V) :
    (fact.update id value).1 = fact.set id value := rfl

/-- The flag of an update compares the value of the variable with the new one. -/
@[simp] theorem update_snd (fact : Fact V) (id : VarId) (value : V) :
    (fact.update id value).2 = decide (fact.get id ≠ value) := by
  simp only [update, lookup_entries]
  split
  · next nothing =>
    subst nothing
    by_cases absent : fact.get id = Domain.bottom <;> simp [absent]
  · next something =>
    by_cases absent : fact.get id = Domain.bottom
    · simp [absent, Ne.symm something]
    · simp [absent]

/-- One entry copied into a fact, with the flag raised if that changed it. -/
def copyEntry (acc : Fact V × Bool) (entry : VarId × V) : Fact V × Bool :=
  ((acc.1.update entry.1 entry.2).1, acc.2 || (acc.1.update entry.1 entry.2).2)

/-- To copy a fact is to copy its entries one by one. -/
theorem copyFrom_eq_foldl (fact other : Fact V) :
    fact.copyFrom other = other.entries.foldl copyEntry (fact, false) := rfl

/-- To copy some entries sets each of them, the last one of a variable included. -/
theorem foldl_copyEntry_fst (entries : List (VarId × V)) (acc : Fact V × Bool) :
    (entries.foldl copyEntry acc).1 = entries.foldl (fun f e => f.set e.1 e.2) acc.1 := by
  induction entries generalizing acc with
  | nil => rfl
  | cons entry rest ih => exact ih (copyEntry acc entry)

/-- The flag is raised when some entry differs from the value that the fact had
before: an entry is not looked at again after it has been set. -/
theorem foldl_copyEntry_snd {entries : List (VarId × V)}
    (ascending : entries.Pairwise fun a b => a.1 < b.1) (acc : Fact V × Bool) :
    (entries.foldl copyEntry acc).2 = true ↔
      acc.2 = true ∨ ∃ e ∈ entries, acc.1.get e.1 ≠ e.2 := by
  induction entries generalizing acc with
  | nil => simp
  | cons entry rest ih =>
    obtain ⟨first, tail⟩ := List.pairwise_cons.1 ascending
    have untouched : ∀ e ∈ rest, (acc.1.set entry.1 entry.2).get e.1 = acc.1.get e.1 := by
      intro e member
      rw [get_set, if_neg (Nat.ne_of_gt (first e member))]
    have later : (∃ e ∈ rest, (acc.1.set entry.1 entry.2).get e.1 ≠ e.2) ↔
        ∃ e ∈ rest, acc.1.get e.1 ≠ e.2 := by
      constructor
      · rintro ⟨e, member, differs⟩
        exact ⟨e, member, untouched e member ▸ differs⟩
      · rintro ⟨e, member, differs⟩
        exact ⟨e, member, (untouched e member).symm ▸ differs⟩
    rw [List.foldl_cons, ih tail]
    simp only [copyEntry, update_fst, update_snd, later, Bool.or_eq_true, decide_eq_true_eq, List.mem_cons,
      exists_eq_or_imp, or_assoc]

/-- A copy gives a variable the value that the other fact has for it, unless
that is `bottom`. -/
theorem get_copyFrom (fact other : Fact V) (id : VarId) :
    (fact.copyFrom other).1.get id =
      if other.get id = Domain.bottom then fact.get id else other.get id := by
  rw [copyFrom_eq_foldl, foldl_copyEntry_fst,
    get_foldl_set (fun _ v => v) other.ascending fact id, lookup_entries]
  by_cases absent : other.get id = Domain.bottom <;> simp [absent]

/-- The flag of a copy says whether the fact changed. -/
theorem copyFrom_changed_iff (fact other : Fact V) :
    (fact.copyFrom other).2 = true ↔ (fact.copyFrom other).1 ≠ fact := by
  rw [copyFrom_eq_foldl, foldl_copyEntry_snd other.ascending, ← copyFrom_eq_foldl]
  constructor
  · rintro (raised | ⟨⟨id, v⟩, member, differs⟩) same
    · exact absurd raised (by simp)
    · obtain ⟨value, present⟩ := mem_entries.1 member
      have copied := get_copyFrom fact other id
      rw [same, value, if_neg present] at copied
      exact differs copied
  · intro changed
    by_contra unraised
    refine changed (ext_get fun id => ?_)
    rw [get_copyFrom]
    split
    · rfl
    · next present =>
      by_contra differs
      exact unraised (.inr ⟨(id, other.get id), mem_entries.2 ⟨rfl, present⟩,
        fun same => differs same.symm⟩)

/-- A second copy changes nothing. -/
theorem copyFrom_copyFrom (fact other : Fact V) :
    (fact.copyFrom other).1.copyFrom other = ((fact.copyFrom other).1, false) := by
  have same : ((fact.copyFrom other).1.copyFrom other).1 = (fact.copyFrom other).1 := by
    refine ext_get fun id => ?_
    simp only [get_copyFrom]
    split <;> rfl
  have unraised : ((fact.copyFrom other).1.copyFrom other).2 = false := by
    by_contra raised
    exact (copyFrom_changed_iff _ _).1 (by simpa using raised) same
  exact Prod.ext same unraised

end Copying

/-! ## The order of facts -/

section Order

variable [Domain.Lawful V]

/-- A fact is below another if each of its values is. -/
instance : PartialOrder (Fact V) where
  le a b := ∀ id, a.get id ≤ b.get id
  le_refl _ _ := le_rfl
  le_trans _ _ _ hab hbc id := (hab id).trans (hbc id)
  le_antisymm _ _ hab hba := ext_get fun id => le_antisymm (hab id) (hba id)

theorem le_iff {a b : Fact V} : a ≤ b ↔ ∀ id, a.get id ≤ b.get id := .rfl

theorem empty_le (a : Fact V) : empty ≤ a := fun id => by
  rw [get_empty, Domain.Lawful.bottom_eq_bot]
  exact bot_le

variable [DecidableEq V]

/-- Facts meet variable by variable. -/
theorem get_meet (a b : Fact V) (id : VarId) : (a.meet b).get id = a.get id ⊔ b.get id := by
  unfold meet
  rw [get_foldl_set Domain.meet b.ascending a id, lookup_entries]
  by_cases absent : b.get id = Domain.bottom
  · rw [if_pos absent, absent]
    simp
  · rw [if_neg absent]
    simp

end Order

/-! ## Heights -/

section Height

variable [Domain.Lawful V]

/-- Every variable with an entry is one of the given ones. -/
def Within (ids : List VarId) (fact : Fact V) : Prop := ∀ id, fact.get id ≠ ⊥ → id ∈ ids

theorem within_empty (ids : List VarId) : Within ids (empty : Fact V) := by
  intro id present
  exact absurd (by simp) present

/-- How often the values of some variables have climbed. -/
def height (ids : List VarId) (fact : Fact V) : Nat :=
  (ids.map fun id => Domain.Lawful.rank (fact.get id)).sum

/-- A fact about some variables has a height of twice their number at most. -/
theorem height_le (ids : List VarId) (fact : Fact V) : height ids fact ≤ 2 * ids.length := by
  have bound := List.sum_le_card_nsmul (ids.map fun id => Domain.Lawful.rank (fact.get id)) 2
    (by simp [Domain.Lawful.rank_le_two])
  simpa [height, Nat.mul_comm] using bound

theorem height_mono (ids : List VarId) {a b : Fact V} (h : a ≤ b) :
    height ids a ≤ height ids b :=
  List.sum_le_sum fun id _ => Domain.rank_mono (h id)

/-- A climb is seen in the height if the climbing variable is one of those
counted. -/
theorem height_lt {ids : List VarId} {a b : Fact V} (within : Within ids b) (h : a < b) :
    height ids a < height ids b := by
  obtain ⟨id, climbs⟩ : ∃ id, a.get id ≠ b.get id := by
    by_contra none
    exact h.ne (ext_get fun id => by_contra fun differs => none ⟨id, differs⟩)
  have less : a.get id < b.get id := lt_of_le_of_ne (h.le id) climbs
  have member : id ∈ ids := within id (ne_bot_of_gt less)
  exact List.sum_lt_sum _ _ (fun k _ => Domain.rank_mono (h.le k))
    ⟨id, member, Domain.Lawful.rank_lt less⟩

end Height

end ConstantFlow.Fact
