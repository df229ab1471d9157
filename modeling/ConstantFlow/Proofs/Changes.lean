import ConstantFlow.Proofs.Constants.Steady

/-!
# Changes are flagged

The solver goes on as long as it is told that a fact changed, so a flag that is
wrong once loses an update or keeps the run going for ever.  An operation *flags
its changes* if it says that the fact changed exactly when the fact is another
one afterwards, and if done again at once it changes nothing and says so
(`Fact.Flags`).

To update a variable, to copy a fact into another one and to carry a fact across
a statement all flag their changes, and what each of them leaves is said variable
by variable (`Fact.changes_exact`).  Copying raises its flag over many entries,
through `Fact.copyFrom_changed_iff`.  Carrying a fact across is a copy of the
effect of the statement, so its flag is that of the copy.
-/

namespace ConstantFlow

namespace Fact

variable {V : Type} [Domain V]

/-! ## Flags -/

/-- An operation flags its changes. -/
structure Flags (op : Fact V → Fact V × Bool) : Prop where
  /-- The flag says whether the fact is another one afterwards. -/
  changed : ∀ fact, (op fact).2 = true ↔ (op fact).1 ≠ fact
  /-- Done again at once it changes nothing. -/
  again : ∀ fact, op (op fact).1 = ((op fact).1, false)

variable [DecidableEq V]

/-- To update an entry says whether the fact has changed. -/
theorem flags_update (id : VarId) (value : V) : Flags fun fact => fact.update id value := by
  have changed (fact : Fact V) :
      (fact.update id value).2 = true ↔ (fact.update id value).1 ≠ fact := by
    rw [update_snd, update_fst, decide_eq_true_iff]
    refine not_congr ⟨fun same => ?_, fun same => ?_⟩
    · refine ext_get fun k => ?_
      rw [get_set]
      split
      · next here => rw [here, same]
      · rfl
    · rw [← same, get_set, if_pos rfl]
  refine ⟨changed, fun fact => Prod.ext ?_ ?_⟩
  · refine ext_get fun k => ?_
    simp only [update_fst, get_set]
    split <;> rfl
  · simp

theorem flags_copyFrom (other : Fact V) : Flags fun fact => fact.copyFrom other where
  changed fact := copyFrom_changed_iff fact other
  again fact := copyFrom_copyFrom fact other

end Fact

/-! ## Statements -/

namespace Constants

/-- The value of a variable that a statement hands on to the fact behind it: that
of the right side for the variable that it defines, if that can hold an int, and
the one in front for every other. -/
def handedOn (stmt : Stmt Var) (front : Fact Value) (id : VarId) : Value :=
  match stmt with
  | .define (.var x) value => if x.holdsInt ∧ x.id = id then value.value front else front.get id
  | _ => front.get id

theorem get_effect_eq_handedOn (stmt : Stmt Var) (front : Fact Value) (id : VarId) :
    (effect stmt front).get id = handedOn stmt front id := by
  unfold handedOn
  split
  · next x value =>
    split
    · next here =>
      obtain ⟨holds, rfl⟩ := here
      exact get_effect_of_defines ⟨rfl, holds⟩ front
    · next elsewhere =>
      refine get_effect_of_ne (fun y value' defines same => elsewhere ?_) front
      obtain ⟨written, holds⟩ := defines
      cases written
      exact ⟨holds, same⟩
  · next other =>
    exact get_effect_of_ne (fun x value defines => absurd defines.1 (other x value)) front

end Constants

/-! ## What the operations leave -/

/-- Updates, copies and statements flag their changes.  An update sets its
variable and leaves the others; a copy and a statement give each variable the
value that is copied or handed on, unless there is none. -/
theorem Fact.changes_exact :
    (∀ {V : Type} [Domain V] [DecidableEq V] (id : VarId) (value : V),
      Flags (fun fact => fact.update id value) ∧ ∀ (fact : Fact V) k,
        (fact.update id value).1.get k = if k = id then value else fact.get k) ∧
    (∀ {V : Type} [Domain V] [DecidableEq V] (other : Fact V),
      Flags (fun fact => fact.copyFrom other) ∧ ∀ (fact : Fact V) k,
        (fact.copyFrom other).1.get k =
          if other.get k = Domain.bottom then fact.get k else other.get k) ∧
    ∀ (stmt : Stmt Var) (front : Fact Value),
      Flags (fun behind => Constants.transfer stmt front behind) ∧ ∀ behind id,
        (Constants.transfer stmt front behind).1.get id =
          if Constants.handedOn stmt front id = .undefined then behind.get id
          else Constants.handedOn stmt front id := by
  refine ⟨fun id value => ⟨flags_update id value, fun fact k => get_set fact id k value⟩,
    fun other => ⟨flags_copyFrom other, fun fact => get_copyFrom fact other⟩,
    fun stmt front => ⟨flags_copyFrom (Constants.effect stmt front), fun behind id => ?_⟩⟩
  rw [← Constants.get_effect_eq_handedOn]
  exact get_copyFrom behind (Constants.effect stmt front) id

end ConstantFlow
