import ConstantFlow.Proofs.Constants.Steady
import ConstantFlow.Proofs.Marks
import Mathlib.Data.Set.Card

/-!
# Facts and what is read from them

A *reading* gives every variable a value.  A fact *holds* a reading if it gives
each variable that value and has an entry for each variable that is not
`bottom`, and for no other (`Fact.Holds`).  So what a fact is depends on what is
read from it alone.

Each operation on facts has its counterpart on readings.  Whatever operations
are carried out on however many facts, one after the other, the facts hold what
the counterparts make of the readings (`Fact.run_holds`).  This is so for
constant propagation and for both analyses that mark variables.
-/

namespace ConstantFlow

/-! ## Readings -/

/-- A value for every variable. -/
abbrev Reading (V : Type) : Type := VarId → V

namespace Reading

variable {V : Type} [Domain V]

/-- No variable has a value. -/
def empty : Reading V := fun _ => Domain.bottom

/-- The value of a variable is that of the last pair with it, if there is one. -/
def ofPairs (pairs : List (VarId × V)) : Reading V := fun id =>
  ((pairs.reverse.find? fun pair => pair.1 == id).map Prod.snd).getD Domain.bottom

/-- The values of another reading go over those that are there, except where
the other one has none. -/
def copyFrom [DecidableEq V] (reading other : Reading V) : Reading V := fun id =>
  if other id = Domain.bottom then reading id else other id

/-- The values of two readings meet. -/
def meet (reading other : Reading V) : Reading V := fun id => Domain.meet (reading id) (other id)

end Reading

/-! ## What a fact holds -/

/-- A fact holds a reading: it reads the same, and its entries are the variables
with a value, ascending, with these values. -/
structure Fact.Holds {V : Type} [Domain V] (fact : Fact V) (reading : Reading V) : Prop where
  /-- Every variable has the value of the reading. -/
  get : ∀ id, fact.get id = reading id
  /-- No entry is `bottom`. -/
  present : ∀ entry ∈ fact.entries, entry.2 ≠ Domain.bottom
  /-- The keys ascend, so each is there once. -/
  ascending : fact.keys.Pairwise (· < ·)
  /-- They are the variables with a value. -/
  mem_keys : ∀ id, id ∈ fact.keys ↔ reading id ≠ Domain.bottom
  /-- The entries are the keys with their values. -/
  entries : fact.entries = fact.keys.map fun id => (id, reading id)
  /-- The size is the number of the variables with a value. -/
  size : {id | reading id ≠ Domain.bottom}.encard = fact.size
  /-- A fact is empty if no variable has a value. -/
  isEmpty : fact.isEmpty ↔ ∀ id, reading id = Domain.bottom

namespace Fact

variable {V : Type} [Domain V] {fact : Fact V}

theorem mem_keys_iff {id : VarId} : id ∈ fact.keys ↔ fact.get id ≠ Domain.bottom := by
  constructor
  · intro member
    obtain ⟨⟨_, value⟩, among, rfl⟩ := List.mem_map.1 member
    obtain ⟨same, present⟩ := mem_entries.1 among
    exact same ▸ present
  · intro present
    exact List.mem_map.2 ⟨(id, fact.get id), mem_entries.2 ⟨rfl, present⟩, rfl⟩

theorem pairwise_keys (fact : Fact V) : fact.keys.Pairwise (· < ·) :=
  List.pairwise_map.2 fact.ascending

theorem entries_eq (fact : Fact V) : fact.entries = fact.keys.map fun id => (id, fact.get id) := by
  rw [keys, List.map_map]
  refine (List.map_id _).symm.trans (List.map_congr_left fun entry member => ?_)
  exact Prod.ext rfl (mem_entries.1 member).1.symm

/-- The size of a fact is the number of its entries. -/
theorem encard_eq_size (fact : Fact V) :
    {id | fact.get id ≠ Domain.bottom}.encard = fact.size := by
  have distinct : fact.keys.Nodup := fact.pairwise_keys.imp Nat.ne_of_lt
  have same : {id | fact.get id ≠ Domain.bottom} = fact.keys.toFinset := by
    ext id
    rw [Set.mem_ofPred_eq, ← mem_keys_iff, Finset.mem_coe, List.mem_toFinset]
  rw [same, Set.encard_coe_eq_coe_finsetCard, List.toFinset_card_of_nodup distinct, keys,
    List.length_map, size]

theorem isEmpty_iff : fact.isEmpty ↔ ∀ id, fact.get id = Domain.bottom := by
  rw [isEmpty, List.isEmpty_iff]
  constructor
  · intro none id
    rw [get, none, Ascending.lookup, Option.getD_none]
  · intro nothing
    refine List.eq_nil_iff_forall_not_mem.2 fun entry member => ?_
    obtain ⟨same, present⟩ := mem_entries.1 member
    exact present (same.symm.trans (nothing entry.1))

/-- A fact holds what is read from it. -/
theorem holds_of_get {reading : Reading V} (get : ∀ id, fact.get id = reading id) :
    fact.Holds reading := by
  obtain rfl : fact.get = reading := funext get
  exact ⟨get, fact.present, fact.pairwise_keys, fun _ => mem_keys_iff, fact.entries_eq,
    fact.encard_eq_size, isEmpty_iff⟩

/-- Setting pairs one after the other leaves the value of the last pair with a
variable, or the one that was there. -/
theorem get_foldl_set_last [DecidableEq V] (pairs : List (VarId × V)) (fact : Fact V) (id : VarId) :
    (pairs.foldl (fun f pair => f.set pair.1 pair.2) fact).get id =
      ((pairs.reverse.find? fun pair => pair.1 == id).map Prod.snd).getD (fact.get id) := by
  induction pairs generalizing fact with
  | nil => rfl
  | cons pair rest ih =>
    rw [List.foldl_cons, ih, get_set, List.reverse_cons, List.find?_append]
    cases rest.reverse.find? fun pair => pair.1 == id with
    | some later => rfl
    | none =>
      by_cases same : pair.1 = id
      · simp [same]
      · simp [same, Ne.symm same]

/-! ## Operations -/

/-- An operation on facts that are kept under numbers. -/
inductive Op (V : Type)
  /-- A new fact. -/
  | new (target : Nat)
  /-- The fact of some pairs. -/
  | collect (pairs : List (VarId × V)) (target : Nat)
  /-- A variable is set to a value. -/
  | update (id : VarId) (value : V) (target : Nat)
  /-- The entry of a variable is dropped. -/
  | remove (id : VarId) (target : Nat)
  /-- A fact takes the place of another one. -/
  | copy (source target : Nat)
  /-- The entries of a fact are copied into another one. -/
  | copyFrom (source target : Nat)
  /-- A fact is joined into another one. -/
  | meet (source target : Nat)
  /-- A statement carries a fact across to the one behind it. -/
  | transfer (stmt : Stmt Var) (front behind : Nat)

namespace Op

variable [DecidableEq V]

/-- The facts after an operation. -/
def apply (a : Analysis V) (facts : Nat → Fact V) : Op V → Nat → Fact V
  | .new target => Function.update facts target .empty
  | .collect pairs target => Function.update facts target (.ofList pairs)
  | .update id value target => Function.update facts target ((facts target).update id value).1
  | .remove id target => Function.update facts target ((facts target).remove id).1
  | .copy source target => Function.update facts target (facts source)
  | .copyFrom source target =>
      Function.update facts target ((facts target).copyFrom (facts source)).1
  | .meet source target => Function.update facts target (a.join (facts target) (facts source))
  | .transfer stmt front behind =>
      Function.update facts behind (a.transfer stmt (facts front) (facts behind)).1

/-- The readings after an operation, for an analysis whose statements have some
effect on readings. -/
def read (effect : Stmt Var → Reading V → Reading V) (readings : Nat → Reading V) :
    Op V → Nat → Reading V
  | .new target => Function.update readings target .empty
  | .collect pairs target => Function.update readings target (.ofPairs pairs)
  | .update id value target =>
      Function.update readings target (Function.update (readings target) id value)
  | .remove id target =>
      Function.update readings target (Function.update (readings target) id Domain.bottom)
  | .copy source target => Function.update readings target (readings source)
  | .copyFrom source target =>
      Function.update readings target ((readings target).copyFrom (readings source))
  | .meet source target =>
      Function.update readings target ((readings target).meet (readings source))
  | .transfer stmt front behind =>
      Function.update readings behind ((readings behind).copyFrom (effect stmt (readings front)))

/-- The facts after some operations, of which none is there at first. -/
def run (a : Analysis V) (ops : List (Op V)) : Nat → Fact V :=
  ops.foldl (apply a) fun _ => .empty

/-- The readings after some operations. -/
def runRead (effect : Stmt Var → Reading V → Reading V) (ops : List (Op V)) : Nat → Reading V :=
  ops.foldl (read effect) fun _ => .empty

end Op

end Fact

/-! ## Analyses on readings -/

/-- An analysis joins readings by the meet of the domain, and its statements
have an effect on readings. -/
structure Analysis.Reads {V : Type} [Domain V] [DecidableEq V] (a : Analysis V)
    (effect : Stmt Var → Reading V → Reading V) : Prop where
  /-- Values meet. -/
  get_join : ∀ f g id, (a.join f g).get id = Domain.meet (f.get id) (g.get id)
  /-- The effect of a statement is copied into the fact behind. -/
  get_transfer : ∀ stmt front behind id, (a.transfer stmt front behind).1.get id =
    Reading.copyFrom behind.get (effect stmt front.get) id

theorem Analysis.Steady.reads {V : Type} [Domain V] [Domain.Lawful V] [DecidableEq V]
    {a : Analysis V} {effect : Stmt Var → Fact V → Fact V}
    {onReadings : Stmt Var → Reading V → Reading V} (steady : a.Steady effect)
    (same : ∀ stmt f id, (effect stmt f).get id = onReadings stmt f.get id) :
    a.Reads onReadings where
  get_join f g id := by rw [steady.get_join, Domain.Lawful.meet_eq_sup]
  get_transfer stmt front behind id := by
    rw [steady.transfer_eq, Fact.get_copyFrom, same]
    rfl

/-- The value of an expression under a reading. -/
def Exp.valueOf (reading : Reading Value) : Exp Var → Value
  | .var x => reading x.id
  | .int value => .constant value
  | .binary op lhs rhs => op.apply (lhs.valueOf reading) (rhs.valueOf reading)
  | .literal _ | .neg _ | .cast _ _ | .instanceOf _ _ | .call _ _ | .new _ | .field _ _
  | .element _ _ | .length _ => .unknown

/-- The value of an expression depends on the values of its variables alone. -/
theorem Exp.value_eq_valueOf (fact : Fact Value) (e : Exp Var) :
    e.value fact = e.valueOf fact.get := by
  induction e with
  | binary op lhs rhs ihl ihr => rw [value, valueOf, ihl, ihr]
  | _ => rfl

/-- What a statement does to a reading in constant propagation: a variable that
it defines, if that can hold an int, has the value of the right side. -/
def Constants.onReading (stmt : Stmt Var) (reading : Reading Value) : Reading Value :=
  match stmt with
  | .define (.var x) value =>
      if x.holdsInt then Function.update reading x.id (value.valueOf reading) else reading
  | _ => reading

/-- What a statement makes of a fact can be told from the values in it. -/
theorem Constants.get_effect (stmt : Stmt Var) (f : Fact Value) (id : VarId) :
    (effect stmt f).get id = onReading stmt f.get id := by
  cases stmt with
  | define location value =>
    cases location with
    | var x =>
      simp only [effect, onReading]
      split
      · rw [Fact.get_set, Function.update_apply, Exp.value_eq_valueOf]
      · rfl
    | field base name => rfl
    | element base index => rfl
  | _ => rfl

/-- What a statement does to a reading of marks: the variables that it marks are
marked. -/
def Marks.onReading (marked : Stmt Var → List Var) (stmt : Stmt Var) (reading : Reading Mark) :
    Reading Mark := fun id =>
  if ∃ x ∈ marked stmt, x.id = id then .yes else reading id

theorem Marks.get_effect (marked : Stmt Var → List Var) (stmt : Stmt Var) (f : Fact Mark)
    (id : VarId) : (effect marked stmt f).get id = onReading marked stmt f.get id :=
  Fact.get_foldl_set_const _ _ _ _

/-! ## Sequences of operations -/

namespace Fact

variable {V : Type} [Domain V] [DecidableEq V]

/-- Facts that are kept under numbers hold readings, and they are equal where
the readings are. -/
structure AllHold (facts : Nat → Fact V) (readings : Nat → Reading V) : Prop where
  /-- Each fact holds its reading. -/
  holds : ∀ r, (facts r).Holds (readings r)
  /-- Facts are equal if they give every variable the same value. -/
  eq_iff : ∀ r s, facts r = facts s ↔ ∀ id, (facts r).get id = (facts s).get id

omit [DecidableEq V] in
theorem allHold_of_get {facts : Nat → Fact V} {readings : Nat → Reading V}
    (get : ∀ r id, (facts r).get id = readings r id) : AllHold facts readings where
  holds r := holds_of_get (get r)
  eq_iff r s := ⟨fun same _ => by rw [same], ext_get⟩

namespace Op

variable {a : Analysis V} {effect : Stmt Var → Reading V → Reading V} {facts : Nat → Fact V}
  {readings : Nat → Reading V}

omit [DecidableEq V] in
theorem get_update (same : ∀ r id, (facts r).get id = readings r id) (target : Nat) {fact : Fact V}
    {reading : Reading V} (get : ∀ id, fact.get id = reading id) (r : Nat) (id : VarId) :
    (Function.update facts target fact r).get id =
      Function.update readings target reading r id := by
  rw [Function.update_apply, Function.update_apply]
  split
  · exact get id
  · exact same r id

/-- What is read after an operation is what the operation makes of what was
read before. -/
theorem get_apply (reads : a.Reads effect) (same : ∀ r id, (facts r).get id = readings r id)
    (op : Op V) : ∀ r id, (op.apply a facts r).get id = op.read effect readings r id := by
  have whole (r : Nat) : (facts r).get = readings r := funext (same r)
  cases op with
  | new target => exact get_update same target fun _ => rfl
  | collect pairs target =>
    exact get_update same target fun id => get_foldl_set_last pairs .empty id
  | update id value target =>
    refine get_update same target fun k => ?_
    rw [Fact.update, get_set, Function.update_apply, same]
  | remove id target =>
    refine get_update same target fun k => ?_
    rw [Fact.remove, get_erase, Function.update_apply, same]
  | copy source target => exact get_update same target (same source)
  | copyFrom source target =>
    refine get_update same target fun k => ?_
    rw [get_copyFrom, same, same]
    rfl
  | meet source target =>
    refine get_update same target fun k => ?_
    rw [reads.get_join, same, same]
    rfl
  | transfer stmt front behind =>
    refine get_update same behind fun k => ?_
    rw [reads.get_transfer, whole, whole]

/-- After any operations, every fact reads as the operations on readings say. -/
theorem get_run (reads : a.Reads effect) (ops : List (Op V)) (r : Nat) (id : VarId) :
    (run a ops r).get id = runRead effect ops r id := by
  have after (facts : Nat → Fact V) (readings : Nat → Reading V)
      (same : ∀ r id, (facts r).get id = readings r id) :
      ∀ r id, (ops.foldl (apply a) facts r).get id = ops.foldl (read effect) readings r id := by
    induction ops generalizing facts readings with
    | nil => exact same
    | cons op rest ih => exact ih _ _ (get_apply reads same op)
  exact after _ _ (fun _ _ => rfl) r id

end Op

/-- After any operations the facts hold what the operations make of readings:
of constants, with the statements of constant propagation, and of marks, with
those of either analysis that marks variables. -/
theorem run_holds :
    (∀ ops, AllHold (Op.run Constants.analysis ops) (Op.runRead Constants.onReading ops)) ∧
    (∀ ops, AllHold (Op.run Marks.assigned ops) (Op.runRead (Marks.onReading Marks.defines) ops)) ∧
    ∀ ops, AllHold (Op.run Marks.readLater ops) (Op.runRead (Marks.onReading Marks.reads) ops) := by
  have constants := (Constants.steady Constants.analysis_mem).reads Constants.get_effect
  have assigned := Marks.marking_assigned.steady.reads (Marks.get_effect Marks.defines)
  have readLater := Marks.marking_readLater.steady.reads (Marks.get_effect Marks.reads)
  exact ⟨fun ops => allHold_of_get (Op.get_run constants ops),
    fun ops => allHold_of_get (Op.get_run assigned ops),
    fun ops => allHold_of_get (Op.get_run readLater ops)⟩

end Fact

end ConstantFlow
