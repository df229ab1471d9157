import ConstantFlow.Value
import ConstantFlow.Program.Var
import ConstantFlow.Ascending

/-!
# Facts

A fact says what is known of the variables of a procedure at one point: a
finite map from variables to the values of a domain.  It is sparse.  A variable
without an entry has the value `bottom`, `bottom` itself is never stored, and
the entries ascend by variable.  So two facts are equal exactly when they give
every variable the same value (`Fact.ext_get`).

Three operations change a fact, and two say whether they did.

* `update` sets one variable, and setting it to `bottom` drops the entry.
* `copyFrom` sets every variable that has an entry in another fact, and leaves
  the others as they are.
* `meet` meets every entry of another fact into this one.
-/

namespace ConstantFlow

/-- A sparse map from variables to values. -/
structure Fact (V : Type) [Domain V] where
  /-- The entries, by variable. -/
  entries : List (VarId × V)
  /-- The variables ascend. -/
  ascending : entries.Pairwise (fun a b => a.1 < b.1)
  /-- No entry is the value of a variable without one. -/
  present : ∀ entry ∈ entries, entry.2 ≠ Domain.bottom

namespace Fact

variable {V : Type} [Domain V]

/-- The fact that knows nothing. -/
def empty : Fact V := ⟨[], .nil, by simp⟩

instance : Inhabited (Fact V) := ⟨empty⟩

instance [DecidableEq V] : DecidableEq (Fact V) := fun a b =>
  decidable_of_iff (a.entries = b.entries) (by cases a; cases b; simp)

/-- The value of a variable. -/
def get (fact : Fact V) (id : VarId) : V :=
  (Ascending.lookup id fact.entries).getD Domain.bottom

/-- The variables with an entry, ascending. -/
def keys (fact : Fact V) : List VarId := fact.entries.map Prod.fst

/-- How many variables have an entry. -/
def size (fact : Fact V) : Nat := fact.entries.length

/-- Whether no variable has an entry. -/
def isEmpty (fact : Fact V) : Bool := fact.entries.isEmpty

/-! ## One variable -/

omit [Domain V] in
/-- Putting an entry at its place keeps the order. -/
theorem ascending_put {id : VarId} {value : V} {entries : List (VarId × V)}
    (h : entries.Pairwise (fun a b => a.1 < b.1)) :
    (Ascending.put id value entries).Pairwise (fun a b => a.1 < b.1) :=
  Ascending.pairwise_put (fun _ _ _ => Nat.lt_trans)
    (fun _ _ other notLess => Nat.lt_of_le_of_ne (Nat.le_of_not_lt notLess) other.symm) h

/-- The fact without an entry for a variable. -/
def erase (fact : Fact V) (id : VarId) : Fact V where
  entries := fact.entries.filter fun entry => entry.1 ≠ id
  ascending := fact.ascending.filter _
  present := fun entry member => fact.present entry ((List.mem_filter.1 member).1)

/-- The fact with a variable set to a value. -/
def set [DecidableEq V] (fact : Fact V) (id : VarId) (value : V) : Fact V :=
  if h : value = Domain.bottom then fact.erase id
  else
    { entries := Ascending.put id value fact.entries
      ascending := ascending_put fact.ascending
      present := by
        rintro ⟨j, w⟩ member
        rcases Ascending.mem_keys_put member with ⟨-, same⟩ | old
        · exact same ▸ h
        · exact fact.present _ old }

/-- The fact with a variable set to a value, and whether that changed it: an
entry was dropped, or there was none with this value. -/
def update [DecidableEq V] (fact : Fact V) (id : VarId) (value : V) : Fact V × Bool :=
  let found := Ascending.lookup id fact.entries
  (fact.set id value,
    if value = Domain.bottom then found.isSome else decide (found ≠ some value))

/-- The fact without an entry for a variable, and the value that was dropped. -/
def remove (fact : Fact V) (id : VarId) : Fact V × Option V :=
  (fact.erase id, Ascending.lookup id fact.entries)

/-- The fact of some pairs, set one after the other. -/
def ofList [DecidableEq V] (pairs : List (VarId × V)) : Fact V :=
  pairs.foldl (fun fact pair => fact.set pair.1 pair.2) empty

/-! ## Two facts -/

/-- The fact with every entry of another set in it, and whether one of them
changed it. -/
def copyFrom [DecidableEq V] (fact other : Fact V) : Fact V × Bool :=
  other.entries.foldl
    (fun acc entry =>
      let next := acc.1.update entry.1 entry.2
      (next.1, acc.2 || next.2))
    (fact, false)

/-- The fact with every entry of another met into it. -/
def meet [DecidableEq V] (fact other : Fact V) : Fact V :=
  other.entries.foldl
    (fun acc entry => acc.set entry.1 (Domain.meet (acc.get entry.1) entry.2)) fact

/-! ## Text -/

/-- The text of a fact in a log. -/
def debug (fact : Fact V) : String :=
  let entry (e : VarId × V) : String :=
    "VarId(" ++ toString (e.1 : Nat) ++ "): " ++ Domain.debug e.2
  "MapFact \x7b map: \x7b" ++ ", ".intercalate (fact.entries.map entry) ++ "\x7d \x7d"

/-! ## What the operations do to values -/

@[simp] theorem get_empty (id : VarId) : (empty : Fact V).get id = Domain.bottom := rfl

omit [Domain V] in
theorem lookup_filter {id k : VarId} {entries : List (VarId × V)} :
    Ascending.lookup k (entries.filter fun entry => decide (entry.1 ≠ id)) =
      if k = id then none else Ascending.lookup k entries := by
  induction entries with
  | nil => simp [Ascending.lookup]
  | cons entry rest ih =>
    obtain ⟨j, v⟩ := entry
    by_cases h : j = id
    · subst h
      by_cases hk : k = j <;> simp_all [Ascending.lookup]
    · by_cases hk : k = j
      · subst hk
        simp [Ascending.lookup, h]
      · simp_all [Ascending.lookup]

@[simp] theorem get_erase (fact : Fact V) (id k : VarId) :
    (fact.erase id).get k = if k = id then Domain.bottom else fact.get k := by
  simp only [get, erase, lookup_filter]
  split <;> rfl

@[simp] theorem get_set [DecidableEq V] (fact : Fact V) (id k : VarId) (value : V) :
    (fact.set id value).get k = if k = id then value else fact.get k := by
  unfold set
  split
  · next h => simp [h]
  · simp only [get, Ascending.lookup_put]
    split <;> rfl

omit [Domain V] in
theorem lookup_eq_some_iff_mem {entries : List (VarId × V)}
    (ascending : entries.Pairwise (fun a b => a.1 < b.1)) {id : VarId} {value : V} :
    Ascending.lookup id entries = some value ↔ (id, value) ∈ entries :=
  Ascending.lookup_eq_some_iff (Ascending.nodup_keys Nat.lt_irrefl ascending)

/-- An entry is a variable with its value, when that is not `bottom`. -/
theorem mem_entries {fact : Fact V} {id : VarId} {value : V} :
    (id, value) ∈ fact.entries ↔ fact.get id = value ∧ value ≠ Domain.bottom := by
  rw [← lookup_eq_some_iff_mem fact.ascending]
  constructor
  · intro h
    refine ⟨by simp [get, h], ?_⟩
    exact fact.present _ ((lookup_eq_some_iff_mem fact.ascending).1 h)
  · rintro ⟨h, notBottom⟩
    cases found : Ascending.lookup id fact.entries with
    | none =>
      simp only [get, found, Option.getD_none] at h
      exact absurd h.symm notBottom
    | some w =>
      simp only [get, found, Option.getD_some] at h
      rw [h]

/-- Facts that give every variable the same value are equal. -/
theorem ext_get {a b : Fact V} (h : ∀ id, a.get id = b.get id) : a = b := by
  have entries : a.entries = b.entries := by
    refine Ascending.ext (fun _ _ => Nat.lt_asymm) a.ascending b.ascending fun e => ?_
    obtain ⟨id, value⟩ := e
    rw [mem_entries, mem_entries, h]
  cases a
  cases b
  simpa using entries

end Fact

end ConstantFlow
