import ConstantFlow.Proofs.Declarations
import Mathlib.Data.String.Basic

/-!
# Facts by name

No two variables of a checked procedure have one name, so nothing is lost when a
fact is named.  The result has one entry for each variable whose value is not
undefined: its name with the text of its value (`Procedure.Named.mem_nameFact`).
The names ascend, so the result depends on these pairs alone and not on the
positions by which the fact is kept (`Procedure.Named.nameFact_eq`).
-/

namespace ConstantFlow

/-! ## Lists of computations -/

section Lists

variable {ε α β : Type} {f : α → Except ε β} {xs : List α} {ys : List β}

/-- Every member of a list of computations has a result among the others. -/
theorem exists_of_mapM (h : xs.mapM f = .ok ys) {x : α} (member : x ∈ xs) :
    ∃ y ∈ ys, f x = .ok y := by
  obtain ⟨i, inside, rfl⟩ := List.getElem_of_mem member
  obtain ⟨length, each⟩ := List.forall₂_iff_get.1 (mapM_eq_ok.1 h)
  exact ⟨_, List.get_mem _ _, each i inside (length ▸ inside)⟩

/-- The results of a list of computations are those of its members. -/
theorem mem_mapM_iff (h : xs.mapM f = .ok ys) {y : β} : y ∈ ys ↔ ∃ x ∈ xs, f x = .ok y := by
  refine ⟨of_mem_mapM h, ?_⟩
  rintro ⟨x, member, found⟩
  obtain ⟨y', among, here⟩ := exists_of_mapM h member
  rwa [Except.ok.inj (found.symm.trans here)]

/-- What holds between members in order holds between their results, if the
computation carries it over. -/
theorem pairwise_mapM {S : α → α → Prop} {T : β → β → Prop}
    (carries : ∀ x x' y y', f x = .ok y → f x' = .ok y' → S x x' → T y y')
    (h : xs.mapM f = .ok ys) (ordered : xs.Pairwise S) : ys.Pairwise T := by
  induction xs generalizing ys with
  | nil =>
    cases h
    exact .nil
  | cons x xs ih =>
    obtain ⟨before, tail⟩ := List.pairwise_cons.1 ordered
    rw [List.mapM_cons] at h
    obtain ⟨y, first, h⟩ := bind_eq_ok.1 h
    obtain ⟨rest, later, h⟩ := bind_eq_ok.1 h
    rw [← pure_eq_ok.1 h]
    refine List.pairwise_cons.2 ⟨fun y' member => ?_, ih later tail⟩
    obtain ⟨x', among, second⟩ := of_mem_mapM later member
    exact carries x x' y y' first second (before x' among)

/-- Functions that agree on some elements map them alike. -/
theorem mapM_congr {g : α → Except ε β} (same : ∀ x ∈ xs, f x = g x) :
    xs.mapM f = xs.mapM g := by
  induction xs with
  | nil => rfl
  | cons x xs ih =>
    rw [List.mapM_cons, List.mapM_cons, same x List.mem_cons_self,
      ih fun y member => same y (List.mem_cons_of_mem _ member)]

end Lists

namespace Procedure

variable {p : Procedure} {fact : Fact Value} {known : Known}

/-- A checked procedure in which a name says which variable is meant. -/
structure Named (p : Procedure) : Prop extends Checked p where
  /-- No two variables have one name. -/
  distinct : (p.vars.map Var.name).Nodup

/-- Checking gives the variables of a procedure distinct names. -/
theorem Named.of_check {source : Source.Procedure} (accepted : source.check = .ok p) : p.Named where
  toChecked := source.checked accepted
  distinct :=
    (source.keeps_of_check accepted).distinct (Source.Procedure.exists_check_iff.1 ⟨p, accepted⟩)

theorem Named.eq_of_name (named : p.Named) {x y : Var} (hx : x ∈ p.vars) (hy : y ∈ p.vars)
    (same : x.name = y.name) : x = y :=
  List.inj_on_of_nodup_map named.distinct hx hy same

/-! ## Entries -/

/-- A position finds the variable that has it as its id. -/
theorem Checked.var?_eq_some_iff (checked : p.Checked) {id : VarId} {x : Var} :
    p.var? id = some x ↔ x ∈ p.vars ∧ x.id = id := by
  constructor
  · intro found
    exact ⟨List.mem_of_getElem? found, checked.ids id x found⟩
  · rintro ⟨declared, rfl⟩
    exact checked.var?_eq declared

/-- An entry is named by the variable at its position. -/
theorem Checked.nameEntry_eq_ok (checked : p.Checked) {entry : VarId × Value}
    {row : String × String} : p.nameEntry entry = .ok row ↔
      ∃ x ∈ p.vars, x.id = entry.1 ∧ row = (x.name, entry.2.text) := by
  simp only [← and_assoc, ← checked.var?_eq_some_iff]
  unfold nameEntry
  split
  · next x found => simp [found, eq_comm]
  · next absent => simp [absent]

/-! ## Whole facts -/

/-- The rows of a fact, before they are put in order. -/
theorem nameFact_eq_ok : p.nameFact fact = .ok known ↔
    ∃ rows, fact.entries.mapM p.nameEntry = .ok rows ∧ Ascending.ofPairs rows = known := by
  unfold nameFact
  rw [bind_eq_ok]
  simp only [pure_eq_ok]

/-- No name is in two rows. -/
theorem Named.nodup_rows (named : p.Named) {rows : Known}
    (found : fact.entries.mapM p.nameEntry = .ok rows) : (rows.map Prod.fst).Nodup := by
  refine List.pairwise_map.2 (pairwise_mapM ?_ found fact.ascending)
  intro entry entry' row row' first second less same
  obtain ⟨x, hx, here, rfl⟩ := named.nameEntry_eq_ok.1 first
  obtain ⟨y, hy, there, rfl⟩ := named.nameEntry_eq_ok.1 second
  rw [← here, ← there, named.eq_of_name hx hy same] at less
  exact Nat.lt_irrefl _ less

/-- What is known ascends by name. -/
theorem pairwise_nameFact (found : p.nameFact fact = .ok known) :
    known.Pairwise fun a b => a.1 < b.1 := by
  obtain ⟨rows, -, rfl⟩ := nameFact_eq_ok.1 found
  exact Ascending.pairwise_ofPairs (fun _ _ _ => lt_trans)
    (fun _ _ other notLess => lt_of_le_of_ne (not_lt.1 notLess) other.symm) rows

theorem nodup_nameFact (found : p.nameFact fact = .ok known) : (known.map Prod.fst).Nodup :=
  Ascending.nodup_keys lt_irrefl (pairwise_nameFact found)

/-- Putting the rows in order loses none of them. -/
theorem Named.perm_ofPairs (named : p.Named) {rows : Known}
    (found : fact.entries.mapM p.nameEntry = .ok rows) : (Ascending.ofPairs rows).Perm rows := by
  have ordered := nodup_nameFact (nameFact_eq_ok.2 ⟨rows, found, rfl⟩)
  have distinct := named.nodup_rows found
  have reversed : (rows.reverse.map Prod.fst).Nodup := by
    rw [List.map_reverse, List.nodup_reverse]
    exact distinct
  refine (List.perm_ext_iff_of_nodup ordered.of_map distinct.of_map).2 fun row => ?_
  rw [← Ascending.lookup_eq_some_iff ordered, Ascending.lookup_ofPairs,
    Ascending.lookup_eq_some_iff reversed, List.mem_reverse]

/-- A named fact has the name and the text of the value of each variable that
is not undefined, and nothing else. -/
theorem Named.mem_nameFact (named : p.Named) (found : p.nameFact fact = .ok known)
    {name text : String} : (name, text) ∈ known ↔ ∃ x ∈ p.vars, x.name = name ∧
      fact.get x.id ≠ .undefined ∧ (fact.get x.id).text = text := by
  obtain ⟨rows, all, rfl⟩ := nameFact_eq_ok.1 found
  rw [(named.perm_ofPairs all).mem_iff, mem_mapM_iff all]
  constructor
  · rintro ⟨⟨id, value⟩, member, row⟩
    obtain ⟨x, declared, rfl, same⟩ := named.nameEntry_eq_ok.1 row
    obtain ⟨rfl, rfl⟩ := Prod.mk.inj same
    obtain ⟨rfl, present⟩ := Fact.mem_entries.1 member
    exact ⟨x, declared, rfl, present, rfl⟩
  · rintro ⟨x, declared, rfl, present, rfl⟩
    exact ⟨(x.id, fact.get x.id), Fact.mem_entries.2 ⟨rfl, present⟩,
      named.nameEntry_eq_ok.2 ⟨x, declared, rfl, rfl⟩⟩

/-- Facts of two procedures that say the same of every name are named alike. -/
theorem Named.nameFact_eq {q : Procedure} (named : p.Named) (named' : q.Named)
    {fact' : Fact Value} {known' : Known}
    (same : ∀ name value, (∃ x ∈ p.vars, x.name = name ∧ fact.get x.id = value) ↔
      ∃ x ∈ q.vars, x.name = name ∧ fact'.get x.id = value)
    (found : p.nameFact fact = .ok known) (found' : q.nameFact fact' = .ok known') :
    known = known' := by
  refine Ascending.ext (fun _ _ => lt_asymm) (pairwise_nameFact found) (pairwise_nameFact found') ?_
  rintro ⟨name, text⟩
  rw [named.mem_nameFact found, named'.mem_nameFact found']
  constructor
  · rintro ⟨x, declared, here, present, shown⟩
    obtain ⟨y, declared', there, value⟩ := (same name _).1 ⟨x, declared, here, rfl⟩
    exact ⟨y, declared', there, value ▸ present, value ▸ shown⟩
  · rintro ⟨x, declared, here, present, shown⟩
    obtain ⟨y, declared', there, value⟩ := (same name _).2 ⟨x, declared, here, rfl⟩
    exact ⟨y, declared', there, value ▸ present, value ▸ shown⟩

end Procedure

end ConstantFlow
