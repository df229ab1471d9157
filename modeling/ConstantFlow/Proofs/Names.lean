import ConstantFlow.Proofs.Checking

/-!
# Checking keeps names

Checking puts a declared variable where the source has its name, and leaves
everything else as it is.  So the source of a statement is the checked statement
with variables replaced by their names (`Stmt.map_name_of_check`), and the
declarations of a procedure are those of its variables
(`declaration_of_declare`).
-/

namespace ConstantFlow

/-! ## Renaming back -/

section Traverse

variable {ν μ ε : Type} {f : ν → Except ε μ} {g : μ → ν}

/-- What is looked up for each member is taken back member by member. -/
theorem map_of_mapM {xs : List ν} {ys : List μ}
    (back : ∀ x y, f x = .ok y → g y = x) (h : xs.mapM f = .ok ys) : ys.map g = xs := by
  induction mapM_eq_ok.1 h with
  | nil => rfl
  | cons first _ ih => rw [List.map_cons, back _ _ first, ih (mapM_eq_ok.2 ‹_›)]

theorem map_of_optionMapM {x : Option ν} {y : Option μ}
    (back : ∀ x y, f x = .ok y → g y = x) (h : x.mapM f = .ok y) : y.map g = x := by
  cases x with
  | none =>
    cases h
    rfl
  | some a =>
    obtain ⟨b, found, h⟩ := bind_eq_ok.1 h
    rw [← pure_eq_ok.1 h, Option.map_some, back _ _ found]

/-- An expression comes back if each variable does. -/
theorem Exp.map_of_traverse (back : ∀ x y, f x = .ok y → g y = x) {e : Exp ν} {e' : Exp μ}
    (h : e.traverse f = .ok e') : e'.map g = e := by
  induction e generalizing e' with
  | var x =>
    obtain ⟨y, found, h⟩ := bind_eq_ok.1 h
    rw [← pure_eq_ok.1 h, map, back _ _ found]
  | int value =>
    rw [← pure_eq_ok.1 h, map]
  | literal value =>
    rw [← pure_eq_ok.1 h, map]
  | binary op lhs rhs ihl ihr =>
    obtain ⟨lhs', left, h⟩ := bind_eq_ok.1 h
    obtain ⟨rhs', right, h⟩ := bind_eq_ok.1 h
    rw [← pure_eq_ok.1 h, map, ihl left, ihr right]
  | neg operand ih =>
    obtain ⟨operand', found, h⟩ := bind_eq_ok.1 h
    rw [← pure_eq_ok.1 h, map, ih found]
  | cast type operand ih =>
    obtain ⟨operand', found, h⟩ := bind_eq_ok.1 h
    rw [← pure_eq_ok.1 h, map, ih found]
  | instanceOf operand type ih =>
    obtain ⟨operand', found, h⟩ := bind_eq_ok.1 h
    rw [← pure_eq_ok.1 h, map, ih found]
  | call callee args =>
    obtain ⟨args', found, h⟩ := bind_eq_ok.1 h
    rw [← pure_eq_ok.1 h, map, map_of_mapM back found]
  | new type =>
    rw [← pure_eq_ok.1 h, map]
  | field base name =>
    obtain ⟨base', found, h⟩ := bind_eq_ok.1 h
    rw [← pure_eq_ok.1 h, map, map_of_optionMapM back found]
  | element base index ih =>
    obtain ⟨base', found, h⟩ := bind_eq_ok.1 h
    obtain ⟨index', later, h⟩ := bind_eq_ok.1 h
    rw [← pure_eq_ok.1 h, map, back _ _ found, ih later]
  | length base =>
    obtain ⟨base', found, h⟩ := bind_eq_ok.1 h
    rw [← pure_eq_ok.1 h, map, back _ _ found]

/-- A location whose variables are looked up is taken back by taking them back. -/
theorem Location.map_of_traverse (back : ∀ x y, f x = .ok y → g y = x) {l : Location ν}
    {l' : Location μ} (h : l.traverse f = .ok l') : l'.map g = l := by
  cases l with
  | var x =>
    obtain ⟨y, found, h⟩ := bind_eq_ok.1 h
    rw [← pure_eq_ok.1 h, map, back _ _ found]
  | field base name =>
    obtain ⟨base', found, h⟩ := bind_eq_ok.1 h
    rw [← pure_eq_ok.1 h, map, map_of_optionMapM back found]
  | element base index =>
    obtain ⟨base', found, h⟩ := bind_eq_ok.1 h
    obtain ⟨index', later, h⟩ := bind_eq_ok.1 h
    rw [← pure_eq_ok.1 h, map, back _ _ found, Exp.map_of_traverse back later]

end Traverse

/-! ## Names -/

variable {scope : List Var}

/-- A name is resolved to a variable of that name. -/
theorem name_of_resolve (name : String) (x : Var) (h : resolve scope name = .ok x) :
    x.name = name := by
  unfold resolve at h
  split at h
  · next found =>
    cases h
    simpa using List.find?_some found
  · cases h

/-- A checked expression has the names of its source. -/
theorem Exp.map_name_of_check {e : Exp String} {e' : Exp Var} (h : e.check scope = .ok e') :
    e'.map Var.name = e :=
  Exp.map_of_traverse name_of_resolve h

theorem checkTarget_eq_ok {size target target' : Nat} :
    checkTarget size target = .ok target' ↔ target < size ∧ target' = target := by
  unfold checkTarget
  split
  · next inside => simp [inside, eq_comm]
  · next outside => simp [outside]

/-- A case that is accepted stays what it is. -/
theorem item_of_checkCase {size : Nat} (item item' : Int32 × Nat)
    (h : checkCase size item = .ok item') : item' = item := by
  obtain ⟨target, found, h⟩ := bind_eq_ok.1 h
  rw [← pure_eq_ok.1 h, (checkTarget_eq_ok.1 found).2]

/-- A checked statement is its source, with variables for names. -/
theorem Stmt.map_name_of_check {size : Nat} {stmt : Stmt String} {stmt' : Stmt Var}
    (h : stmt.check scope size = .ok stmt') : stmt'.map Var.name = stmt := by
  cases stmt with
  | define location value =>
    obtain ⟨location', left, h⟩ := bind_eq_ok.1 h
    obtain ⟨value', right, h⟩ := bind_eq_ok.1 h
    rw [← pure_eq_ok.1 h, map, Location.map_of_traverse name_of_resolve left,
      Exp.map_name_of_check right]
  | invoke call =>
    obtain ⟨call', found, h⟩ := bind_eq_ok.1 h
    split at h
    · rw [← pure_eq_ok.1 h, map, Exp.map_name_of_check found]
    · exact absurd h throw_ne_ok
  | goto target =>
    obtain ⟨target', found, h⟩ := bind_eq_ok.1 h
    rw [← pure_eq_ok.1 h, map, (checkTarget_eq_ok.1 found).2]
  | branch test target =>
    obtain ⟨test', found, h⟩ := bind_eq_ok.1 h
    split at h
    · obtain ⟨target', inside, h⟩ := bind_eq_ok.1 h
      rw [← pure_eq_ok.1 h, map, Exp.map_name_of_check found, (checkTarget_eq_ok.1 inside).2]
    · exact absurd h throw_ne_ok
  | switch subject cases otherwise =>
    obtain ⟨subject', found, h⟩ := bind_eq_ok.1 h
    split at h
    · obtain ⟨cases', inside, h⟩ := bind_eq_ok.1 h
      obtain ⟨otherwise', last, h⟩ := bind_eq_ok.1 h
      have same : cases'.map id = cases := map_of_mapM item_of_checkCase inside
      rw [List.map_id] at same
      rw [← pure_eq_ok.1 h, map, name_of_resolve _ _ found, same, (checkTarget_eq_ok.1 last).2]
    · exact absurd h throw_ne_ok
  | ret value =>
    obtain ⟨value', found, h⟩ := bind_eq_ok.1 h
    rw [← pure_eq_ok.1 h, map, map_of_optionMapM name_of_resolve found]
  | raise exception =>
    obtain ⟨exception', found, h⟩ := bind_eq_ok.1 h
    rw [← pure_eq_ok.1 h, map, name_of_resolve _ _ found]
  | nop =>
    rw [← pure_eq_ok.1 h, map]

/-! ## Declarations -/

/-- The declaration of a variable. -/
def Var.declaration (x : Var) : Source.Declaration := ⟨x.name, x.type⟩

/-- The declaration of a variable has its name. -/
@[simp] theorem Var.name_declaration (x : Var) : x.declaration.name = x.name := rfl

/-- Declaring keeps every declaration, in order. -/
theorem declaration_of_declare {procedure : String} {vars : List Var}
    {declarations : List Source.Declaration}
    (h : declare procedure scope declarations = .ok vars) :
    vars.map Var.declaration = scope.map Var.declaration ++ declarations := by
  induction declarations generalizing scope with
  | nil =>
    cases h
    rw [List.append_nil]
  | cons d rest ih =>
    simp only [declare] at h
    split at h
    · cases h
    · split at h
      · cases h
      · rw [ih h, List.map_append, List.append_assoc]
        rfl

end ConstantFlow
