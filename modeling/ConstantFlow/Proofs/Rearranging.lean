import ConstantFlow.Proofs.Renumbering
import Mathlib.Data.List.Perm.Basic
import Mathlib.Logic.Equiv.Basic

/-!
# Rearranging declarations

The order in which a procedure declares its variables and lists its parameters
does not matter.  A procedure that differs from an accepted one in these orders
alone is accepted too, and it has the same report
(`Source.Procedure.build_eq_of_reorders`).

Accepting asks of the two lists what members they have and whether these differ.
When the declarations change places, the positions of the variables are permuted
(`exists_getElem?_eq_of_perm`), so the one checked procedure is the other with its
variables renumbered.
-/

namespace ConstantFlow

/-! ## Positions in a rearranged list -/

/-- The permutation that keeps zero and moves the positions after it. -/
def later (σ : Equiv.Perm Nat) : Equiv.Perm Nat where
  toFun
    | 0 => 0
    | i + 1 => σ i + 1
  invFun
    | 0 => 0
    | i + 1 => σ.symm i + 1
  left_inv i := by cases i <;> simp
  right_inv i := by cases i <;> simp

/-- A list that is rearranged has each of its entries at another position. -/
theorem exists_getElem?_eq_of_perm {α : Type} {xs ys : List α} (perm : xs.Perm ys) :
    ∃ σ : Equiv.Perm Nat, ∀ i, ys[σ i]? = xs[i]? := by
  induction perm with
  | nil => exact ⟨Equiv.refl Nat, fun _ => rfl⟩
  | cons x _ ih =>
    obtain ⟨σ, same⟩ := ih
    refine ⟨later σ, fun i => ?_⟩
    cases i with
    | zero => rfl
    | succ i => exact same i
  | swap x y zs =>
    refine ⟨Equiv.swap 0 1, fun i => ?_⟩
    match i with
    | 0 => rw [Equiv.swap_apply_left]; rfl
    | 1 => rw [Equiv.swap_apply_right]; rfl
    | i + 2 => rw [Equiv.swap_apply_of_ne_of_ne (by omega) (by omega)]; rfl
  | trans _ _ first second =>
    obtain ⟨σ, same⟩ := first
    obtain ⟨τ, same'⟩ := second
    exact ⟨σ.trans τ, fun i => (same' (σ i)).trans (same i)⟩

/-! ## Procedures in another order -/

/-- A form that fits some declarations fits more of them. -/
theorem Stmt.Fits.mono {vars vars' : List Source.Declaration} {stmt : Stmt String}
    (fits : stmt.Fits vars) (among : ∀ d ∈ vars, d ∈ vars') : stmt.Fits vars' := by
  cases fits with
  | switch declared holds => exact .switch (among _ declared) holds
  | invoke => exact .invoke
  | branch => exact .branch
  | define => exact .define
  | goto => exact .goto
  | ret => exact .ret
  | raise => exact .raise
  | nop => exact .nop

namespace Source.Procedure

/-- A procedure differs from another one in the order of its declarations and of
its parameters alone. -/
structure Reorders (other source : Source.Procedure) : Prop where
  /-- They have one name. -/
  name : other.name = source.name
  /-- The declarations are rearranged. -/
  vars : other.vars.Perm source.vars
  /-- The parameters are rearranged. -/
  params : other.params.Perm source.params
  /-- The statements are the same. -/
  body : other.body = source.body

variable {source other : Source.Procedure}

/-- A source that is reordered stays valid. -/
theorem Reorders.valid (reorders : other.Reorders source) (valid : source.Valid) : other.Valid where
  typed d member := valid.typed d (reorders.vars.mem_iff.1 member)
  vars_distinct := (reorders.vars.map Declaration.name).nodup_iff.2 valid.vars_distinct
  params_distinct := reorders.params.nodup_iff.2 valid.params_distinct
  params_declared name member := by
    obtain ⟨d, declared, same⟩ := valid.params_declared name (reorders.params.mem_iff.1 member)
    exact ⟨d, reorders.vars.mem_iff.2 declared, same⟩
  stmts stmt member := by
    rw [reorders.body] at member ⊢
    obtain ⟨declared, fits, inside, labels⟩ := valid.stmts stmt member
    refine ⟨fun name occurs => ?_, ?_, inside, labels⟩
    · obtain ⟨d, among, same⟩ := declared name occurs
      exact ⟨d, reorders.vars.mem_iff.2 among, same⟩
    · exact fits.mono fun d among => reorders.vars.mem_iff.2 among

end Source.Procedure

/-! ## Checked procedures -/

namespace Procedure

variable {p q : Procedure} {source other : Source.Procedure}

/-- A variable is known by its position and its declaration. -/
theorem Keeps.mem_vars_iff (keeps : p.Keeps source) (checked : p.Checked) {x : Var} :
    x ∈ p.vars ↔ source.vars[x.id]? = some x.declaration := by
  rw [← keeps.vars, List.getElem?_map]
  constructor
  · intro declared
    have found : p.vars[x.id]? = some x := checked.var?_eq declared
    rw [found, Option.map_some]
  · intro found
    obtain ⟨y, here, same⟩ := Option.map_eq_some_iff.1 found
    have position : y.id = x.id := checked.ids _ y here
    have equal : y = x := by
      cases x
      cases y
      simp_all [Var.declaration]
    exact equal ▸ List.mem_of_getElem? here

theorem Keeps.mem_params_iff (keeps : p.Keeps source) (named : p.Named) {x : Var} :
    x ∈ p.params ↔ x ∈ p.vars ∧ x.name ∈ source.params := by
  rw [← keeps.params]
  constructor
  · intro param
    exact ⟨named.mem_vars_of_param param, List.mem_map_of_mem param⟩
  · rintro ⟨declared, param⟩
    obtain ⟨y, param, same⟩ := List.mem_map.1 param
    exact named.eq_of_name (named.mem_vars_of_param param) declared same ▸ param

/-- A declared variable is found again by its name. -/
theorem Named.exists_back (named : p.Named) :
    ∃ back : String → Var, ∀ x ∈ p.vars, back x.name = x := by
  have : Nonempty Var := ⟨⟨0, "", .void⟩⟩
  have injective : Set.InjOn Var.name {x | x ∈ p.vars} := fun _ hx _ hy => named.eq_of_name hx hy
  exact ⟨_, injective.leftInvOn_invFunOn⟩

/-- A body is found again from the names of its variables. -/
theorem Named.body_eq (named : p.Named) {back : String → Var}
    (inverse : ∀ x ∈ p.vars, back x.name = x) :
    p.body = (p.body.map (Stmt.map Var.name)).map (Stmt.map back) := by
  rw [List.map_map]
  refine (List.map_id p.body).symm.trans (List.map_congr_left fun stmt among => ?_)
  rw [id, Function.comp_apply, Stmt.map_map]
  refine (Stmt.map_id stmt).symm.trans (Stmt.map_congr fun x occurs => ?_)
  exact (inverse x (named.mem_vars_of_stmt among occurs)).symm

/-- Procedures that differ in the order of declarations and parameters are
checked to procedures that differ in the positions of variables. -/
theorem renumbers_of_reorders (reorders : other.Reorders source)
    (accepted : source.check = .ok p) (accepted' : other.check = .ok q) :
    ∃ σ, p.Renumbers σ q := by
  have named := Named.of_check accepted
  have named' := Named.of_check accepted'
  have keeps := source.keeps_of_check accepted
  have keeps' := other.keeps_of_check accepted'
  obtain ⟨σ, moved⟩ := exists_getElem?_eq_of_perm reorders.vars.symm
  have vars (x : Var) : x.renumber σ ∈ q.vars ↔ x ∈ p.vars := by
    rw [keeps.mem_vars_iff named.toChecked, keeps'.mem_vars_iff named'.toChecked, Var.id_renumber,
      moved]
    rfl
  have body : q.body = p.body.map (Stmt.map (Var.renumber σ)) := by
    obtain ⟨back, inverse⟩ := named'.exists_back
    rw [named'.body_eq inverse, keeps'.body, reorders.body, ← keeps.body, List.map_map]
    refine List.map_congr_left fun stmt among => ?_
    rw [Function.comp_apply, Stmt.map_map]
    refine Stmt.map_congr fun x occurs => ?_
    exact inverse (x.renumber σ) ((vars x).2 (named.mem_vars_of_stmt among occurs))
  refine ⟨σ, ?_, vars, fun x => ?_, body, ?_⟩
  · rw [keeps'.name, reorders.name, keeps.name]
  · rw [keeps.mem_params_iff named, keeps'.mem_params_iff named', vars, Var.name_renumber,
      reorders.params.mem_iff]
  · have built := named'.graph
    rw [body, Graph.build_map, named.graph] at built
    exact (Except.ok.inj built).symm

end Procedure

/-! ## Reports -/

/-- A procedure with its declarations and parameters in another order is
accepted if the first one is, and it has the same report. -/
theorem Source.Procedure.build_eq_of_reorders {source other : Source.Procedure}
    {p : ConstantFlow.Procedure} (accepted : source.check = .ok p)
    (reorders : other.Reorders source) :
    ∃ q report, other.check = .ok q ∧ Report.build p = .ok report ∧
      Report.build q = .ok report := by
  obtain ⟨q, accepted'⟩ := exists_check_iff.2 (reorders.valid (exists_check_iff.1 ⟨p, accepted⟩))
  obtain ⟨σ, renumbers⟩ := Procedure.renumbers_of_reorders reorders accepted accepted'
  have named := Procedure.Named.of_check accepted
  obtain ⟨report, built⟩ := Report.build_eq_ok named.toChecked
  refine ⟨q, report, accepted', built, ?_⟩
  rw [renumbers.build_eq named (.of_check accepted'), built]

/-- The variables in reverse order and the parameters turned around, so that no
parameter keeps its place. -/
theorem Source.Procedure.build_eq_of_reorders_comparing :
    let other : Source.Procedure :=
      { Source.Procedure.comparing with
        vars := [⟨"v", .primitive .int⟩, ⟨"c", .primitive .int⟩, ⟨"b", .primitive .long⟩,
          ⟨"a", .primitive .long⟩]
        params := ["b", "c", "a"] }
    Source.Procedure.comparing.check = .ok .comparing ∧ other.Reorders .comparing ∧
      ∃ q report, other.check = .ok q ∧ Report.build .comparing = .ok report ∧
        Report.build q = .ok report := by
  intro other
  have reorders : other.Reorders .comparing := ⟨rfl, by decide, by decide, rfl⟩
  exact ⟨check_comparing, reorders, build_eq_of_reorders check_comparing reorders⟩

end ConstantFlow
