import ConstantFlow.Proofs.Reporting
import ConstantFlow.Proofs.Validity.Decision

/-!
# Checked procedures speak of their declarations

A checked procedure is its source with a declared variable in the place of each
name (`Source.Procedure.resolved_of_check`).  The variables are the declarations
in their order, each at its position, no two of one name and none of type `void`.
Whatever occurs anywhere in the parameters or in the body is the variable that is
found at its own position, and it has the name that the source has there.

Facts are kept by position and reported by name, so this is why an entry of a
fact is reported for the variable that it is about.
-/

namespace ConstantFlow

/-! ## Checking a procedure, part by part -/

/-- Checking accepts the valid procedures and no others. -/
theorem Source.Procedure.exists_check_iff {source : Source.Procedure} :
    (∃ p, source.check = .ok p) ↔ source.Valid :=
  source.reports_check.ok_iff.trans faults_eq_nil

/-- Parameters have the names that they are bound to, in order. -/
theorem map_name_of_bindParams {procedure : String} {scope : List Var} {seen names : List String}
    {params : List Var} (h : bindParams procedure scope seen names = .ok params) :
    params.map Var.name = names := by
  induction names generalizing seen params with
  | nil =>
    cases h
    rfl
  | cons name rest ih =>
    simp only [bindParams] at h
    split at h
    · obtain ⟨_, thrown, -⟩ := bind_eq_ok.1 h
      exact absurd thrown throw_ne_ok
    · obtain ⟨x, found, h⟩ := bind_eq_ok.1 h
      obtain ⟨others, later, h⟩ := bind_eq_ok.1 h
      rw [← pure_eq_ok.1 h, List.map_cons, name_of_resolve name x found, ih later]

/-- What a checked procedure keeps of its source. -/
structure Procedure.Keeps (p : Procedure) (source : Source.Procedure) : Prop where
  /-- Its name. -/
  name : p.name = source.name
  /-- The declarations, in order. -/
  vars : p.vars.map Var.declaration = source.vars
  /-- The names of the parameters, in order. -/
  params : p.params.map Var.name = source.params
  /-- The statements, up to variables for names. -/
  body : p.body.map (Stmt.map Var.name) = source.body

/-- A checked procedure keeps the name, the declarations, the parameters and the
statements of its source. -/
theorem Source.Procedure.keeps_of_check {source : Source.Procedure} {p : ConstantFlow.Procedure}
    (accepted : source.check = .ok p) : p.Keeps source := by
  obtain ⟨vars, declared, h⟩ := bind_eq_ok.1 accepted
  obtain ⟨params, bound, h⟩ := bind_eq_ok.1 h
  obtain ⟨body, statements, h⟩ := bind_eq_ok.1 h
  obtain ⟨graph, -, h⟩ := bind_eq_ok.1 h
  rw [← pure_eq_ok.1 h]
  exact ⟨rfl, (Declares.of_declare declared).same, map_name_of_bindParams bound,
    map_name_of_checkBody statements⟩

namespace Procedure

variable {p : Procedure} {source : Source.Procedure}

/-! ## Variables and names -/

theorem Keeps.length_vars (keeps : p.Keeps source) : p.vars.length = source.vars.length := by
  rw [← keeps.vars, List.length_map]

theorem Keeps.length_body (keeps : p.Keeps source) : p.body.length = source.body.length := by
  rw [← keeps.body, List.length_map]

theorem Keeps.map_name (keeps : p.Keeps source) :
    p.vars.map Var.name = source.vars.map Source.Declaration.name := by
  rw [← keeps.vars, List.map_map]
  rfl

theorem Keeps.distinct (keeps : p.Keeps source) (valid : source.Valid) :
    (p.vars.map Var.name).Nodup :=
  keeps.map_name ▸ valid.vars_distinct

theorem Keeps.typed (keeps : p.Keeps source) (valid : source.Valid) {x : Var} (h : x ∈ p.vars) :
    x.type ≠ .void := by
  refine valid.typed x.declaration ?_
  rw [← keeps.vars]
  exact List.mem_map_of_mem h

/-- The targets of a body are in it, checked or not. -/
theorem Keeps.target_lt (keeps : p.Keeps source) (valid : source.Valid) {stmt : Stmt Var}
    (among : stmt ∈ p.body) {target : Nat} (named : target ∈ stmt.targets) :
    target < p.body.length := by
  rw [keeps.length_body]
  have written : stmt.map Var.name ∈ source.body := keeps.body ▸ List.mem_map_of_mem among
  refine (valid.stmts _ written).inside target ?_
  rwa [Stmt.targets_map]

/-! ## Resolved procedures -/

/-- A procedure is resolved if it is the source with a declared variable in the
place of each name. -/
structure Resolved (p : Procedure) (source : Source.Procedure) : Prop extends Keeps p source where
  /-- The variable at a position has that position. -/
  ids : ∀ (i : Nat) (x : Var), p.vars[i]? = some x → x.id = i
  /-- No two variables have one name. -/
  distinct : (p.vars.map Var.name).Nodup
  /-- No variable is `void`. -/
  typed : ∀ x ∈ p.vars, x.type ≠ .void
  /-- A variable is found at the positions of the declarations and nowhere else. -/
  found : ∀ id, (∃ x, p.var? id = some x) ↔ id < source.vars.length
  /-- What occurs is the variable at its own position. -/
  occurs : ∀ x ∈ p.occurrences, p.var? x.id = some x
  /-- Every target is a statement of the body. -/
  targets : ∀ stmt ∈ p.body, ∀ target ∈ stmt.targets, target < p.body.length
  /-- The graph has the entry, a node for each statement and the exit, each once. -/
  nodes : p.graph.nodes = .entry :: ((List.range p.body.length).map .stmt ++ [.exit])
  /-- The graph has no other node. -/
  contains : ∀ n, p.graph.contains n ↔ n ∈ p.graph.nodes

/-- The positions that find a variable are those below the number of variables. -/
theorem exists_var?_iff {id : VarId} : (∃ x, p.var? id = some x) ↔ id < p.vars.length := by
  rw [var?, ← Option.isSome_iff_exists, isSome_getElem?]

end Procedure

theorem Graph.contains_iff {g : Graph} {n : Node} : g.contains n ↔ n ∈ g.nodes := by
  cases n <;> simp [contains, mem_nodes, Reachable]

/-- A checked procedure is resolved. -/
theorem Source.Procedure.resolved_of_check {source : Source.Procedure}
    {p : ConstantFlow.Procedure} (accepted : source.check = .ok p) : p.Resolved source := by
  have checked := source.checked accepted
  have keeps := source.keeps_of_check accepted
  have valid := exists_check_iff.1 ⟨p, accepted⟩
  refine ⟨keeps, checked.ids, keeps.distinct valid, fun x => keeps.typed valid, fun id => ?_,
    fun x member => checked.var?_eq (checked.declared x member),
    fun stmt among target => keeps.target_lt valid among, ?_, fun n => Graph.contains_iff⟩
  · rw [Procedure.exists_var?_iff, keeps.length_vars]
  · rw [Graph.nodes, checked.size_eq]

/-- A procedure that stores to an element and to a field, and then throws or
returns. -/
def Source.Procedure.storing : Source.Procedure where
  name := "store"
  vars := [⟨"a", .array (.primitive .int)⟩, ⟨"i", .primitive .int⟩, ⟨"o", .named "Node"⟩]
  params := ["o", "i"]
  body :=
    [.define (.element "a" (.binary (.arithmetic .add) (.var "i") (.neg (.length "a"))))
        (.call "next" ["o", "i"]),
      .define (.field (some "o") "size") (.cast (.primitive .long) (.element "a" (.var "i"))),
      .switch "i" [(0, 4)] 3,
      .raise "o",
      .ret (some "i")]

/-- The same, checked. -/
def Procedure.storing : Procedure :=
  let a : Var := ⟨0, "a", .array (.primitive .int)⟩
  let i : Var := ⟨1, "i", .primitive .int⟩
  let o : Var := ⟨2, "o", .named "Node"⟩
  { name := "store"
    vars := [a, i, o]
    params := [o, i]
    body :=
      [.define (.element a (.binary (.arithmetic .add) (.var i) (.neg (.length a))))
          (.call "next" [o, i]),
        .define (.field (some o) "size") (.cast (.primitive .long) (.element a (.var i))),
        .switch i [(0, 4)] 3,
        .raise o,
        .ret (some i)]
    graph :=
      ⟨5, [⟨.entry, .stmt 0, .entry⟩, ⟨.stmt 0, .stmt 1, .fallThrough⟩,
        ⟨.stmt 1, .stmt 2, .fallThrough⟩, ⟨.stmt 2, .stmt 3, .switch [none]⟩,
        ⟨.stmt 2, .stmt 4, .switch [some 0]⟩, ⟨.stmt 3, .exit, .leave⟩,
        ⟨.stmt 4, .exit, .leave⟩]⟩ }

/-- The element, the field and the cast, each below another form, have the
variables that the source names there. -/
theorem Source.Procedure.resolved_of_check_storing :
    Source.Procedure.storing.check = .ok .storing ∧
      Procedure.Resolved .storing Source.Procedure.storing := by
  have accepted : Source.Procedure.storing.check = .ok .storing := by decide
  exact ⟨accepted, resolved_of_check accepted⟩

end ConstantFlow
