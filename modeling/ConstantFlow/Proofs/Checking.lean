import ConstantFlow.Dataflow.Solver
import ConstantFlow.Program.Check
import ConstantFlow.Proofs.Graph
import Mathlib.Data.List.Forall2

/-!
# What a checked procedure is

Every variable that occurs in a checked procedure is one of its declarations,
the declaration at a position has that position, and the graph is that of the
body (`Procedure.Checked`).  The analyses keep facts by position, so this is
what ties an entry of a fact to a variable of the procedure.
-/

namespace ConstantFlow

/-! ## Lists of computations -/

/-- A list of computations succeeds when each of them does. -/
theorem mapM_eq_ok {ε α β : Type} {f : α → Except ε β} {xs : List α} {ys : List β} :
    xs.mapM f = .ok ys ↔ List.Forall₂ (fun x y => f x = .ok y) xs ys := by
  induction xs generalizing ys with
  | nil => simp [pure, Except.pure, eq_comm]
  | cons x xs ih =>
    rw [List.mapM_cons, bind_eq_ok, List.forall₂_cons_left_iff]
    constructor
    · rintro ⟨y, first, h⟩
      obtain ⟨rest, others, h⟩ := bind_eq_ok.1 h
      exact ⟨y, rest, first, ih.1 others, (pure_eq_ok.1 h).symm⟩
    · rintro ⟨y, rest, first, others, rfl⟩
      exact ⟨y, first, bind_eq_ok.2 ⟨rest, ih.2 others, rfl⟩⟩

/-- Each result of a list of computations is the result of one of them. -/
theorem of_mem_mapM {ε α β : Type} {f : α → Except ε β} {xs : List α} {ys : List β}
    (h : xs.mapM f = .ok ys) {y : β} (member : y ∈ ys) : ∃ x ∈ xs, f x = .ok y := by
  obtain ⟨i, inside, rfl⟩ := List.getElem_of_mem member
  obtain ⟨length, each⟩ := List.forall₂_iff_get.1 (mapM_eq_ok.1 h)
  exact ⟨xs[i], List.getElem_mem _, each i (length ▸ inside) inside⟩

theorem of_mem_optionMapM {ε α β : Type} {f : α → Except ε β} {x : Option α} {y : Option β}
    (h : x.mapM f = .ok y) {b : β} (member : b ∈ y.toList) : ∃ a, f a = .ok b := by
  cases x with
  | none =>
    cases h
    exact absurd member List.not_mem_nil
  | some a =>
    obtain ⟨b', found, h⟩ := bind_eq_ok.1 h
    rw [← pure_eq_ok.1 h] at member
    exact ⟨a, List.mem_singleton.1 member ▸ found⟩

/-! ## Looking up variables -/

section Traverse

variable {ν μ ε : Type} {f : ν → Except ε μ}

/-- Every variable of a traversed expression was looked up. -/
theorem Exp.of_mem_traverse {e : Exp ν} {e' : Exp μ} (h : e.traverse f = .ok e') {x : μ}
    (member : x ∈ e'.vars) : ∃ y, f y = .ok x := by
  induction e generalizing e' with
  | var y =>
    obtain ⟨x', found, h⟩ := bind_eq_ok.1 h
    rw [← pure_eq_ok.1 h] at member
    exact ⟨y, List.mem_singleton.1 member ▸ found⟩
  | int value =>
    rw [← pure_eq_ok.1 h] at member
    exact absurd member List.not_mem_nil
  | literal value =>
    rw [← pure_eq_ok.1 h] at member
    exact absurd member List.not_mem_nil
  | binary op lhs rhs ihl ihr =>
    obtain ⟨lhs', left, h⟩ := bind_eq_ok.1 h
    obtain ⟨rhs', right, h⟩ := bind_eq_ok.1 h
    rw [← pure_eq_ok.1 h] at member
    rcases List.mem_append.1 member with among | among
    · exact ihl left among
    · exact ihr right among
  | neg operand ih =>
    obtain ⟨operand', found, h⟩ := bind_eq_ok.1 h
    rw [← pure_eq_ok.1 h] at member
    exact ih found member
  | cast type operand ih =>
    obtain ⟨operand', found, h⟩ := bind_eq_ok.1 h
    rw [← pure_eq_ok.1 h] at member
    exact ih found member
  | instanceOf operand type ih =>
    obtain ⟨operand', found, h⟩ := bind_eq_ok.1 h
    rw [← pure_eq_ok.1 h] at member
    exact ih found member
  | call callee args =>
    obtain ⟨args', found, h⟩ := bind_eq_ok.1 h
    rw [← pure_eq_ok.1 h] at member
    obtain ⟨y, -, looked⟩ := of_mem_mapM found member
    exact ⟨y, looked⟩
  | new type =>
    rw [← pure_eq_ok.1 h] at member
    exact absurd member List.not_mem_nil
  | field base name =>
    obtain ⟨base', found, h⟩ := bind_eq_ok.1 h
    rw [← pure_eq_ok.1 h] at member
    exact of_mem_optionMapM found member
  | element base index ih =>
    obtain ⟨base', found, h⟩ := bind_eq_ok.1 h
    obtain ⟨index', later, h⟩ := bind_eq_ok.1 h
    rw [← pure_eq_ok.1 h] at member
    rcases List.mem_cons.1 member with same | among
    · exact ⟨base, same ▸ found⟩
    · exact ih later among
  | length base =>
    obtain ⟨base', found, h⟩ := bind_eq_ok.1 h
    rw [← pure_eq_ok.1 h] at member
    exact ⟨base, List.mem_singleton.1 member ▸ found⟩

theorem Location.of_mem_traverse {l : Location ν} {l' : Location μ} (h : l.traverse f = .ok l')
    {x : μ} (member : x ∈ l'.vars) : ∃ y, f y = .ok x := by
  cases l with
  | var y =>
    obtain ⟨x', found, h⟩ := bind_eq_ok.1 h
    rw [← pure_eq_ok.1 h] at member
    exact ⟨y, List.mem_singleton.1 member ▸ found⟩
  | field base name =>
    obtain ⟨base', found, h⟩ := bind_eq_ok.1 h
    rw [← pure_eq_ok.1 h] at member
    exact of_mem_optionMapM found member
  | element base index =>
    obtain ⟨base', found, h⟩ := bind_eq_ok.1 h
    obtain ⟨index', later, h⟩ := bind_eq_ok.1 h
    rw [← pure_eq_ok.1 h] at member
    rcases List.mem_cons.1 member with same | among
    · exact ⟨base, same ▸ found⟩
    · exact Exp.of_mem_traverse later among

end Traverse

/-! ## Names and declarations -/

/-- A name that is resolved is that of a variable in scope. -/
theorem mem_of_resolve {scope : List Var} {name : String} {x : Var}
    (h : resolve scope name = .ok x) : x ∈ scope := by
  unfold resolve at h
  split at h
  · next found =>
    cases h
    exact List.mem_of_find?_eq_some found
  · exact absurd h (by simp)

/-- Declarations get their positions. -/
theorem id_of_declare {procedure : String} {scope vars : List Var}
    {declarations : List Source.Declaration}
    (h : declare procedure scope declarations = .ok vars)
    (ids : ∀ (i : Nat) (x : Var), scope[i]? = some x → x.id = i) :
    ∀ (i : Nat) (x : Var), vars[i]? = some x → x.id = i := by
  induction declarations generalizing scope with
  | nil =>
    cases h
    exact ids
  | cons d rest ih =>
    simp only [declare] at h
    split at h
    · exact absurd h (by simp)
    · split at h
      · exact absurd h (by simp)
      · refine ih h fun i x found => ?_
        rcases Nat.lt_trichotomy i scope.length with less | same | more
        · rw [List.getElem?_append_left less] at found
          exact ids i x found
        · subst same
          simp only [List.getElem?_concat_length, Option.some.injEq] at found
          rw [← found]
        · rw [List.getElem?_eq_none (by simp; omega)] at found
          exact absurd found (by simp)

theorem mem_of_bindParams {procedure : String} {scope : List Var} {seen names : List String}
    {params : List Var} (h : bindParams procedure scope seen names = .ok params) :
    ∀ x ∈ params, x ∈ scope := by
  induction names generalizing seen params with
  | nil =>
    cases h
    exact fun x member => absurd member List.not_mem_nil
  | cons name rest ih =>
    simp only [bindParams] at h
    split at h
    · obtain ⟨_, thrown, -⟩ := bind_eq_ok.1 h
      exact absurd thrown throw_ne_ok
    · obtain ⟨y, found, h⟩ := bind_eq_ok.1 h
      obtain ⟨others, later, h⟩ := bind_eq_ok.1 h
      rw [← pure_eq_ok.1 h]
      intro x member
      rcases List.mem_cons.1 member with same | among
      · exact same ▸ mem_of_resolve found
      · exact ih later x among

/-! ## Statements -/

/-- Every variable of a checked statement is in scope. -/
theorem Stmt.mem_of_check {scope : List Var} {size : Nat} {stmt : Stmt String} {stmt' : Stmt Var}
    (h : stmt.check scope size = .ok stmt') : ∀ x ∈ stmt'.vars, x ∈ scope := by
  have looked {x : Var} : (∃ name, resolve scope name = .ok x) → x ∈ scope :=
    fun ⟨_, found⟩ => mem_of_resolve found
  intro x member
  cases stmt with
  | define location value =>
    obtain ⟨location', left, h⟩ := bind_eq_ok.1 h
    obtain ⟨value', right, h⟩ := bind_eq_ok.1 h
    rw [← pure_eq_ok.1 h] at member
    rcases List.mem_append.1 member with among | among
    · exact looked (Location.of_mem_traverse left among)
    · exact looked (Exp.of_mem_traverse right among)
  | invoke call =>
    obtain ⟨call', found, h⟩ := bind_eq_ok.1 h
    split at h
    · rw [← pure_eq_ok.1 h] at member
      exact looked (Exp.of_mem_traverse found member)
    · exact absurd h throw_ne_ok
  | goto target =>
    obtain ⟨target', -, h⟩ := bind_eq_ok.1 h
    rw [← pure_eq_ok.1 h] at member
    exact absurd member List.not_mem_nil
  | branch test target =>
    obtain ⟨test', found, h⟩ := bind_eq_ok.1 h
    split at h
    · obtain ⟨target', -, h⟩ := bind_eq_ok.1 h
      rw [← pure_eq_ok.1 h] at member
      exact looked (Exp.of_mem_traverse found member)
    · exact absurd h throw_ne_ok
  | switch subject cases otherwise =>
    obtain ⟨subject', found, h⟩ := bind_eq_ok.1 h
    split at h
    · obtain ⟨cases', -, h⟩ := bind_eq_ok.1 h
      obtain ⟨otherwise', -, h⟩ := bind_eq_ok.1 h
      rw [← pure_eq_ok.1 h] at member
      exact looked ⟨subject, List.mem_singleton.1 member ▸ found⟩
    · exact absurd h throw_ne_ok
  | ret value =>
    obtain ⟨value', found, h⟩ := bind_eq_ok.1 h
    rw [← pure_eq_ok.1 h] at member
    exact looked (of_mem_optionMapM found member)
  | raise exception =>
    obtain ⟨exception', found, h⟩ := bind_eq_ok.1 h
    rw [← pure_eq_ok.1 h] at member
    exact looked ⟨exception, List.mem_singleton.1 member ▸ found⟩
  | nop =>
    rw [← pure_eq_ok.1 h] at member
    exact absurd member List.not_mem_nil

/-! ## Procedures -/

/-- What checking establishes of a procedure. -/
structure Procedure.Checked (p : Procedure) : Prop where
  /-- The graph is that of the body. -/
  graph : Graph.build p.body = .ok p.graph
  /-- The declaration at a position has that position. -/
  ids : ∀ (i : Nat) (x : Var), p.vars[i]? = some x → x.id = i
  /-- Every variable that occurs is declared. -/
  declared : ∀ x ∈ p.occurrences, x ∈ p.vars

/-- Whatever checking accepts is checked: the graph is that of the body, the ids of the
variables are their positions, and every variable that occurs is declared. -/
theorem Source.Procedure.checked {source : Source.Procedure} {p : ConstantFlow.Procedure}
    (h : source.check = .ok p) : p.Checked := by
  obtain ⟨vars, declared, h⟩ := bind_eq_ok.1 h
  obtain ⟨params, bound, h⟩ := bind_eq_ok.1 h
  obtain ⟨body, statements, h⟩ := bind_eq_ok.1 h
  obtain ⟨graph, built, h⟩ := bind_eq_ok.1 h
  rw [← pure_eq_ok.1 h]
  refine ⟨built, id_of_declare declared (by simp), ?_⟩
  intro x member
  rcases List.mem_append.1 member with param | used
  · exact mem_of_bindParams bound x param
  · obtain ⟨stmt, among, occurs⟩ := List.mem_flatMap.1 used
    obtain ⟨s, -, found⟩ := of_mem_mapM statements among
    exact Stmt.mem_of_check found x occurs

/-- A procedure that counts up to its parameter, and then divides two literals. -/
def Source.Procedure.counting : Source.Procedure where
  name := "count"
  vars := [⟨"n", .primitive .int⟩, ⟨"i", .primitive .int⟩, ⟨"k", .primitive .int⟩]
  params := ["n"]
  body :=
    [.define (.var "i") (.int 0),
      .branch (.binary (.relational .ge) (.var "i") (.var "n")) 4,
      .define (.var "i") (.binary (.arithmetic .add) (.var "i") (.int 1)),
      .goto 1,
      .define (.var "k") (.binary (.arithmetic .div) (.int 10) (.int 2))]

/-- The same, checked. -/
def Procedure.counting : Procedure :=
  let n : Var := ⟨0, "n", .primitive .int⟩
  let i : Var := ⟨1, "i", .primitive .int⟩
  let k : Var := ⟨2, "k", .primitive .int⟩
  { name := "count"
    vars := [n, i, k]
    params := [n]
    body :=
      [.define (.var i) (.int 0),
        .branch (.binary (.relational .ge) (.var i) (.var n)) 4,
        .define (.var i) (.binary (.arithmetic .add) (.var i) (.int 1)),
        .goto 1,
        .define (.var k) (.binary (.arithmetic .div) (.int 10) (.int 2))]
    graph :=
      ⟨5, [⟨.entry, .stmt 0, .entry⟩, ⟨.stmt 0, .stmt 1, .fallThrough⟩,
        ⟨.stmt 1, .stmt 2, .branch false⟩, ⟨.stmt 1, .stmt 4, .branch true⟩,
        ⟨.stmt 2, .stmt 3, .fallThrough⟩, ⟨.stmt 3, .stmt 1, .goto⟩,
        ⟨.stmt 4, .exit, .fallThrough⟩]⟩ }

theorem check_counting : Source.Procedure.counting.check = .ok .counting := rfl

/-- A loop that divides by a variable, which it sets to zero after the
division. -/
def Source.Procedure.dividing : Source.Procedure where
  name := "divide"
  vars := [⟨"p", .primitive .int⟩, ⟨"z", .primitive .int⟩, ⟨"x", .primitive .int⟩]
  params := ["p"]
  body :=
    [.define (.var "x") (.binary (.arithmetic .div) (.var "p") (.var "z")),
      .define (.var "z") (.int 0),
      .branch (.binary (.relational .gt) (.var "p") (.int 0)) 0,
      .ret (some "x")]

/-- The same, checked. -/
def Procedure.dividing : Procedure :=
  let p : Var := ⟨0, "p", .primitive .int⟩
  let z : Var := ⟨1, "z", .primitive .int⟩
  let x : Var := ⟨2, "x", .primitive .int⟩
  { name := "divide"
    vars := [p, z, x]
    params := [p]
    body :=
      [.define (.var x) (.binary (.arithmetic .div) (.var p) (.var z)),
        .define (.var z) (.int 0),
        .branch (.binary (.relational .gt) (.var p) (.int 0)) 0,
        .ret (some x)]
    graph :=
      ⟨4, [⟨.entry, .stmt 0, .entry⟩, ⟨.stmt 0, .stmt 1, .fallThrough⟩,
        ⟨.stmt 1, .stmt 2, .fallThrough⟩, ⟨.stmt 2, .stmt 0, .branch true⟩,
        ⟨.stmt 2, .stmt 3, .branch false⟩, ⟨.stmt 3, .exit, .leave⟩]⟩ }

theorem check_dividing : Source.Procedure.dividing.check = .ok .dividing := rfl

/-- A procedure that returns one, or whether two variables of type `long` are
equal. -/
def Source.Procedure.comparing : Source.Procedure where
  name := "compare"
  vars := [⟨"a", .primitive .long⟩, ⟨"b", .primitive .long⟩, ⟨"c", .primitive .int⟩,
    ⟨"v", .primitive .int⟩]
  params := ["a", "b", "c"]
  body :=
    [.define (.var "v") (.int 1),
      .branch (.binary (.relational .gt) (.var "c") (.int 0)) 3,
      .define (.var "v") (.binary (.relational .eq) (.var "a") (.var "b")),
      .ret (some "v")]

/-- The same, checked. -/
def Procedure.comparing : Procedure :=
  let a : Var := ⟨0, "a", .primitive .long⟩
  let b : Var := ⟨1, "b", .primitive .long⟩
  let c : Var := ⟨2, "c", .primitive .int⟩
  let v : Var := ⟨3, "v", .primitive .int⟩
  { name := "compare"
    vars := [a, b, c, v]
    params := [a, b, c]
    body :=
      [.define (.var v) (.int 1),
        .branch (.binary (.relational .gt) (.var c) (.int 0)) 3,
        .define (.var v) (.binary (.relational .eq) (.var a) (.var b)),
        .ret (some v)]
    graph :=
      ⟨4, [⟨.entry, .stmt 0, .entry⟩, ⟨.stmt 0, .stmt 1, .fallThrough⟩,
        ⟨.stmt 1, .stmt 2, .branch false⟩, ⟨.stmt 1, .stmt 3, .branch true⟩,
        ⟨.stmt 2, .stmt 3, .fallThrough⟩, ⟨.stmt 3, .exit, .leave⟩]⟩ }

theorem check_comparing : Source.Procedure.comparing.check = .ok .comparing := rfl

/-- The statement of a node is one of the body or does nothing. -/
theorem Procedure.stmt?_cases {p : Procedure} {n : Node} {stmt : Stmt Var}
    (h : p.stmt? n = some stmt) : stmt = .nop ∨ stmt ∈ p.body := by
  cases n with
  | entry =>
    cases h
    exact .inl rfl
  | exit =>
    cases h
    exact .inl rfl
  | stmt i => exact .inr (List.mem_of_getElem? h)

/-- The statement of the node that facts start from does nothing. -/
theorem Procedure.stmt?_start (p : Procedure) (d : Direction) : p.stmt? d.start = some .nop := by
  cases d <;> rfl

namespace Procedure.Checked

variable {p : Procedure}

theorem closed (checked : p.Checked) : p.graph.Closed := Graph.closed_of_build checked.graph

theorem size_eq (checked : p.Checked) : p.graph.size = p.body.length :=
  Graph.size_of_build checked.graph

/-- The statement at a position has a node. -/
theorem mem_nodes (checked : p.Checked) {i : Nat} (inside : i < p.body.length) :
    Node.stmt i ∈ p.graph.nodes :=
  Graph.mem_nodes.2 (.inr (.inr ⟨i, checked.size_eq ▸ inside, rfl⟩))

/-- What has a statement is a node of the graph. -/
theorem mem_nodes_of_stmt? (checked : p.Checked) {n : Node} {stmt : Stmt Var}
    (found : p.stmt? n = some stmt) : n ∈ p.graph.nodes := by
  cases n with
  | entry => exact Graph.mem_nodes.2 (.inl rfl)
  | exit => exact Graph.mem_nodes.2 (.inr (.inl rfl))
  | stmt i => exact checked.mem_nodes (List.getElem?_eq_some_iff.1 found).1

theorem mem_vars_of_param (checked : p.Checked) {x : Var} (h : x ∈ p.params) : x ∈ p.vars :=
  checked.declared x (List.mem_append_left _ h)

theorem mem_vars_of_stmt (checked : p.Checked) {stmt : Stmt Var} (among : stmt ∈ p.body)
    {x : Var} (h : x ∈ stmt.vars) : x ∈ p.vars :=
  checked.declared x (List.mem_append_right _ (List.mem_flatMap.2 ⟨stmt, among, h⟩))

/-- A declared variable is known by its position. -/
theorem eq_of_id (checked : p.Checked) {x y : Var} (hx : x ∈ p.vars) (hy : y ∈ p.vars)
    (same : x.id = y.id) : x = y := by
  obtain ⟨i, at_i⟩ := List.mem_iff_getElem?.1 hx
  obtain ⟨j, at_j⟩ := List.mem_iff_getElem?.1 hy
  have positions : i = j := by
    rw [← checked.ids i x at_i, ← checked.ids j y at_j, same]
  rw [positions, at_j] at at_i
  exact (Option.some.inj at_i).symm

end Procedure.Checked

end ConstantFlow
