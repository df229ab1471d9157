import ConstantFlow.Proofs.Graph
import Mathlib.Data.Set.Card

/-!
# The edges of a graph are those of the statements

`Stmt.Means` says which edge a statement means to which node, by the form of the
statement, and `Graph.Means` adds the edge from the entry.  The graph of a body
has these edges and no others (`Graph.edges_of_build`).

The graph keeps its edges as one list of arrows.  Three facts tie the list to
the questions that are asked of it.

* The arrows of a statement are the edges that it means (`Graph.mem_arrowsFrom_iff`).
* They ascend by target, so all arrows ascend by source and then by target
  (`Graph.ordered_of_build`).
* Between two nodes there is therefore at most one arrow, which a search finds
  (`Graph.Ordered.edge?_eq_some_iff`), and what is left of the list for one
  source or one target ascends.
-/

namespace ConstantFlow

variable {ν : Type}

/-! ## What statements mean -/

namespace Edge

/-- The order of the labels of a switch: the default comes first. -/
def LabelBefore : Option Int32 → Option Int32 → Prop
  | none, some _ => True
  | some a, some b => a < b
  | _, none => False

/-- The labels of a switch that lead to a target: the set of them, as its one
ascending list, with the default among them if it leads there too. -/
structure Collects (cases : List (Int32 × Nat)) (otherwise target : Nat)
    (labels : List (Option Int32)) : Prop where
  ascending : labels.Pairwise LabelBefore
  default : none ∈ labels ↔ otherwise = target
  case : ∀ label, some label ∈ labels ↔ (label, target) ∈ cases

end Edge

/-- The edges that the statement at `index` means. -/
inductive Stmt.Means (size index : Nat) : Stmt ν → Node → Edge → Prop
  | goto {target : Nat} : Means size index (.goto target) (.stmt target) .goto
  /-- A branch to the node that follows is no branch. -/
  | collapses {test : Exp ν} {target : Nat} (same : .stmt target = Node.at size (index + 1)) :
      Means size index (.branch test target) (.stmt target) .fallThrough
  | holds {test : Exp ν} {target : Nat} (other : .stmt target ≠ Node.at size (index + 1)) :
      Means size index (.branch test target) (.stmt target) (.branch true)
  | fails {test : Exp ν} {target : Nat} (other : .stmt target ≠ Node.at size (index + 1)) :
      Means size index (.branch test target) (.at size (index + 1)) (.branch false)
  /-- A switch leads to the targets that have a label. -/
  | switch {subject : ν} {cases : List (Int32 × Nat)} {otherwise target : Nat}
      {labels : List (Option Int32)} (collects : Edge.Collects cases otherwise target labels)
      (nonempty : labels ≠ []) :
      Means size index (.switch subject cases otherwise) (.stmt target) (.switch labels)
  | ret {value : Option ν} : Means size index (.ret value) .exit .leave
  | raise {exception : ν} : Means size index (.raise exception) .exit .leave
  | define {location : Location ν} {value : Exp ν} :
      Means size index (.define location value) (.at size (index + 1)) .fallThrough
  | invoke {call : Exp ν} : Means size index (.invoke call) (.at size (index + 1)) .fallThrough
  | nop : Means size index .nop (.at size (index + 1)) .fallThrough

/-- The edges that a body means. -/
inductive Graph.Means (body : List (Stmt ν)) : Node → Node → Edge → Prop
  /-- Control enters at the first position. -/
  | entry : Means body .entry (.at body.length 0) .entry
  /-- Each statement means its own. -/
  | stmt {i : Nat} {stmt : Stmt ν} {n : Node} {e : Edge} (found : body[i]? = some stmt)
      (means : stmt.Means body.length i n e) : Means body (.stmt i) n e

/-- The order of arrows: by source, and then by target. -/
def Arrow.Before (a b : Arrow) : Prop :=
  a.source.before b.source ∨ a.source = b.source ∧ a.target.before b.target

/-! ## Labels -/

/-- The order of labels that is computed is the one that is specified. -/
theorem Edge.labelBefore_of {a b : Option Int32} (h : labelBefore a b) : LabelBefore a b := by
  cases a <;> cases b <;> simp_all [labelBefore, LabelBefore]

namespace Edge.Collects

variable {cases : List (Int32 × Nat)} {otherwise target : Nat} {labels labels' : List (Option Int32)}

theorem eq (h : Collects cases otherwise target labels)
    (h' : Collects cases otherwise target labels') : labels = labels' := by
  refine Ascending.ext ?_ h.ascending h'.ascending ?_
  · intro a b before after
    cases a with
    | none => cases b <;> exact after
    | some a =>
      cases b with
      | none => exact before
      | some b => exact Int32.lt_asymm before after
  · intro label
    cases label with
    | none => rw [h.default, h'.default]
    | some label => rw [h.case, h'.case]

/-- The labels that the builder collects for a target are those of its arrow. -/
theorem labelsTo (cases : List (Int32 × Nat)) (otherwise target : Nat) :
    Collects cases otherwise target
      (Graph.labelsTo (Graph.ofCases cases ++ [(none, otherwise)]) target) where
  ascending := by
    refine (Ascending.pairwise_ofList ?_ ?_ _).imp fun {_ _} => labelBefore_of
    · exact fun _ _ _ => labelBefore_trans
    · exact fun _ _ => labelBefore_total
  default := by
    rw [Graph.mem_labelsTo]
    simp [Graph.ofCases, eq_comm]
  case label := by
    rw [Graph.mem_labelsTo]
    simp [Graph.ofCases]

/-- A target has a label exactly if the switch names it. -/
theorem ne_nil_iff (h : Collects cases otherwise target labels) :
    labels ≠ [] ↔ target ∈ cases.map Prod.snd ++ [otherwise] := by
  constructor
  · intro nonempty
    obtain ⟨_ | label, member⟩ := List.exists_mem_of_ne_nil labels nonempty
    · simp [h.default.1 member]
    · exact List.mem_append_left _ (List.mem_map_of_mem ((h.case label).1 member))
  · intro named
    rcases List.mem_append.1 named with case | last
    · obtain ⟨⟨label, _⟩, member, rfl⟩ := List.mem_map.1 case
      exact List.ne_nil_of_mem ((h.case label).2 member)
    · exact List.ne_nil_of_mem (h.default.2 (List.mem_singleton.1 last).symm)

end Edge.Collects

namespace Graph

/-! ## Arrows of one statement -/

theorem mem_inOrder_iff {a b arrow : Arrow} : arrow ∈ inOrder a b ↔ arrow = a ∨ arrow = b := by
  unfold inOrder
  split
  · exact List.mem_pair
  · exact List.mem_pair.trans or_comm

/-- The arrows of a switch are one for each target that has labels, with all of them. -/
theorem mem_switchArrows_iff {index : Nat} {cases : List (Int32 × Nat)} {otherwise : Nat}
    {arrow : Arrow} :
    arrow ∈ switchArrows index (ofCases cases ++ [(none, otherwise)]) ↔
      arrow.source = .stmt index ∧ ∃ target labels, arrow.target = .stmt target ∧
        arrow.edge = .switch labels ∧ Edge.Collects cases otherwise target labels ∧ labels ≠ [] := by
  simp only [switchArrows, List.mem_map, mem_targetsOf_cases]
  constructor
  · rintro ⟨target, named, rfl⟩
    have collects := Edge.Collects.labelsTo cases otherwise target
    exact ⟨rfl, target, _, rfl, rfl, collects, collects.ne_nil_iff.2 named⟩
  · rintro ⟨source, target, labels, goes, edge, collects, nonempty⟩
    refine ⟨target, collects.ne_nil_iff.1 nonempty, ?_⟩
    rw [collects.eq (.labelsTo cases otherwise target)] at edge
    cases arrow
    simp_all

/-- A statement with one arrow has it for the one edge that it means. -/
theorem mem_singleton_iff {size index : Nat} {stmt : Stmt ν} {n : Node} {e : Edge}
    (means : stmt.Means size index n e)
    (only : ∀ n' e', stmt.Means size index n' e' → n' = n ∧ e' = e) (arrow : Arrow) :
    arrow ∈ [⟨.stmt index, n, e⟩] ↔
      arrow.source = .stmt index ∧ stmt.Means size index arrow.target arrow.edge := by
  obtain ⟨source, target, edge⟩ := arrow
  constructor
  · intro member
    cases List.mem_singleton.1 member
    exact ⟨rfl, means⟩
  · rintro ⟨rfl, means'⟩
    obtain ⟨rfl, rfl⟩ := only _ _ means'
    exact List.mem_singleton_self _

/-- The arrows of a statement are the edges that it means. -/
theorem mem_arrowsFrom_iff {size index : Nat} {stmt : Stmt ν} {arrows : List Arrow}
    (h : arrowsFrom size index stmt = .ok arrows) (arrow : Arrow) :
    arrow ∈ arrows ↔
      arrow.source = .stmt index ∧ stmt.Means size index arrow.target arrow.edge := by
  cases stmt with
  | goto target =>
    obtain ⟨n, located, h⟩ := bind_eq_ok.1 h
    obtain ⟨-, rfl⟩ := locate_eq_ok.1 located
    rw [← pure_eq_ok.1 h]
    refine mem_singleton_iff .goto (fun _ _ means => ?_) arrow
    cases means
    exact ⟨rfl, rfl⟩
  | branch test target =>
    obtain ⟨n, located, h⟩ := bind_eq_ok.1 h
    obtain ⟨-, rfl⟩ := locate_eq_ok.1 located
    dsimp only at h
    rw [next_eq] at h
    split at h
    · next same =>
      rw [← pure_eq_ok.1 h, ← same]
      refine mem_singleton_iff (.collapses same) (fun _ _ means => ?_) arrow
      cases means with
      | collapses => exact ⟨rfl, rfl⟩
      | holds other => exact absurd same other
      | fails other => exact absurd same other
    · next other =>
      rw [← pure_eq_ok.1 h, mem_inOrder_iff]
      obtain ⟨source, target', edge⟩ := arrow
      constructor
      · rintro (same | same)
        · cases same
          exact ⟨rfl, .holds other⟩
        · cases same
          exact ⟨rfl, .fails other⟩
      · rintro ⟨rfl, means⟩
        cases means with
        | collapses same => exact absurd same other
        | holds => exact .inl rfl
        | fails => exact .inr rfl
  | switch subject cases otherwise =>
    obtain ⟨_, -, h⟩ := bind_eq_ok.1 h
    obtain ⟨_, -, h⟩ := bind_eq_ok.1 h
    rw [← pure_eq_ok.1 h, mem_switchArrows_iff]
    refine and_congr_right fun _ => ?_
    constructor
    · rintro ⟨target, labels, goes, edge, collects, nonempty⟩
      rw [goes, edge]
      exact .switch collects nonempty
    · generalize arrow.target = n, arrow.edge = e
      intro means
      cases means with
      | switch collects nonempty => exact ⟨_, _, rfl, rfl, collects, nonempty⟩
  | ret value =>
    rw [← pure_eq_ok.1 h]
    refine mem_singleton_iff .ret (fun _ _ means => ?_) arrow
    cases means
    exact ⟨rfl, rfl⟩
  | raise exception =>
    rw [← pure_eq_ok.1 h]
    refine mem_singleton_iff .raise (fun _ _ means => ?_) arrow
    cases means
    exact ⟨rfl, rfl⟩
  | define location value =>
    rw [← pure_eq_ok.1 h, next_eq]
    refine mem_singleton_iff .define (fun _ _ means => ?_) arrow
    cases means
    exact ⟨rfl, rfl⟩
  | invoke call =>
    rw [← pure_eq_ok.1 h, next_eq]
    refine mem_singleton_iff .invoke (fun _ _ means => ?_) arrow
    cases means
    exact ⟨rfl, rfl⟩
  | nop =>
    rw [← pure_eq_ok.1 h, next_eq]
    refine mem_singleton_iff .nop (fun _ _ means => ?_) arrow
    cases means
    exact ⟨rfl, rfl⟩

/-- They ascend by target. -/
theorem pairwise_arrowsFrom {size index : Nat} {stmt : Stmt ν} {arrows : List Arrow}
    (h : arrowsFrom size index stmt = .ok arrows) :
    arrows.Pairwise fun a b => a.target.before b.target := by
  cases stmt with
  | goto target =>
    obtain ⟨n, -, h⟩ := bind_eq_ok.1 h
    rw [← pure_eq_ok.1 h]
    exact List.pairwise_singleton _ _
  | branch test target =>
    obtain ⟨n, -, h⟩ := bind_eq_ok.1 h
    dsimp only at h
    split at h
    · rw [← pure_eq_ok.1 h]
      exact List.pairwise_singleton _ _
    · next other =>
      rw [← pure_eq_ok.1 h]
      unfold inOrder
      split
      · next less => exact List.pairwise_pair.2 less
      · next notLess => exact List.pairwise_pair.2 (Node.before_total other notLess)
  | switch subject cases otherwise =>
    obtain ⟨_, -, h⟩ := bind_eq_ok.1 h
    obtain ⟨_, -, h⟩ := bind_eq_ok.1 h
    rw [← pure_eq_ok.1 h]
    refine List.Pairwise.map _ (fun i j less => ?_) (pairwise_targetsOf _)
    simpa [Node.before] using less
  | _ =>
    rw [← pure_eq_ok.1 h]
    exact List.pairwise_singleton _ _

/-! ## The order of arrows -/

/-- The arrows of a graph ascend. -/
def Ordered (g : Graph) : Prop := g.arrows.Pairwise Arrow.Before

/-- The arrows of statements ascend: within a statement the target decides, and between
two statements the source does. -/
theorem pairwise_arrowsAfter {size index : Nat} {stmts : List (Stmt ν)} {arrows : List Arrow}
    (h : arrowsAfter size index stmts = .ok arrows) : arrows.Pairwise Arrow.Before := by
  induction stmts generalizing index arrows with
  | nil =>
    cases h
    exact .nil
  | cons stmt rest ih =>
    obtain ⟨own, found, h⟩ := bind_eq_ok.1 h
    obtain ⟨others, later, h⟩ := bind_eq_ok.1 h
    rw [← pure_eq_ok.1 h]
    have here : ∀ a ∈ own, a.source = .stmt index := fun a member =>
      ((mem_arrowsFrom_iff found a).1 member).1
    refine List.pairwise_append.2 ⟨?_, ih later, ?_⟩
    · refine (pairwise_arrowsFrom found).imp_of_mem fun {a b} first second less => ?_
      exact .inr ⟨(here a first).trans (here b second).symm, less⟩
    · intro a first b second
      obtain ⟨i, s, l, -, of_s, among⟩ := ((mem_arrowsAfter later).2 b).1 second
      left
      rw [here a first, ((mem_arrowsFrom_iff of_s b).1 among).1]
      simp only [Node.before, decide_eq_true_eq]
      omega

/-- The arrows of a graph that was built ascend. -/
theorem ordered_of_build {body : List (Stmt ν)} {g : Graph} (h : build body = .ok g) :
    g.Ordered := by
  rw [build_eq] at h
  obtain ⟨arrows, found, h⟩ := bind_eq_ok.1 h
  rw [← pure_eq_ok.1 h]
  refine List.pairwise_cons.2 ⟨fun a member => ?_, pairwise_arrowsAfter found⟩
  obtain ⟨i, stmt, own, -, of_stmt, among⟩ := ((mem_arrowsAfter found).2 a).1 member
  left
  rw [((mem_arrowsFrom_iff of_stmt a).1 among).1]
  rfl

namespace Ordered

variable {g : Graph} (ordered : g.Ordered)

include ordered

/-- Between two nodes there is one arrow at most. -/
theorem nodup_ends : (g.arrows.map fun a => (a.source, a.target)).Nodup := by
  refine List.Pairwise.map _ (fun a b less same => ?_) ordered
  obtain ⟨source, target⟩ := Prod.mk.inj same
  rcases less with before | ⟨-, before⟩
  · rw [source] at before
    exact Node.before_asymm before before
  · rw [target] at before
    exact Node.before_asymm before before

/-- Two nodes have the edge of the arrow between them. -/
theorem edge?_eq_some_iff {a b : Node} {e : Edge} :
    g.edge? a b = some e ↔ ⟨a, b, e⟩ ∈ g.arrows := by
  constructor
  · intro h
    obtain ⟨arrow, found, rfl⟩ := Option.map_eq_some_iff.1 h
    have ends := List.find?_some found
    simp only [Bool.and_eq_true, beq_iff_eq] at ends
    obtain ⟨rfl, rfl⟩ := ends
    exact List.mem_of_find?_eq_some found
  · intro member
    obtain ⟨arrow, found⟩ : ∃ arrow, (g.arrows.find? fun arrow =>
        arrow.source == a && arrow.target == b) = some arrow := by
      refine Option.isSome_iff_exists.1 (List.find?_isSome.2 ⟨_, member, ?_⟩)
      simp
    have ends := List.find?_some found
    simp only [Bool.and_eq_true, beq_iff_eq] at ends
    have same : arrow = ⟨a, b, e⟩ :=
      List.inj_on_of_nodup_map ordered.nodup_ends (List.mem_of_find?_eq_some found) member
        (Prod.ext ends.1 ends.2)
    rw [edge?, found, same]
    rfl

theorem edge?_isSome_iff {a b : Node} :
    (g.edge? a b).isSome ↔ ∃ arrow ∈ g.arrows, arrow.source = a ∧ arrow.target = b := by
  rw [Option.isSome_iff_exists]
  constructor
  · rintro ⟨e, found⟩
    exact ⟨_, ordered.edge?_eq_some_iff.1 found, rfl, rfl⟩
  · rintro ⟨arrow, member, rfl, rfl⟩
    exact ⟨arrow.edge, ordered.edge?_eq_some_iff.2 member⟩

theorem pairwise_successors (a : Node) : (g.successors a).Pairwise fun m n => m.before n := by
  refine List.pairwise_map.2 ((List.Pairwise.filter _ ordered).imp_of_mem ?_)
  intro x y first second less
  have source : x.source = y.source := by
    simp only [List.mem_filter, beq_iff_eq] at first second
    rw [first.2, second.2]
  rcases less with before | ⟨-, before⟩
  · rw [source] at before
    exact absurd before (Node.before_asymm before)
  · exact before

theorem pairwise_predecessors (b : Node) : (g.predecessors b).Pairwise fun m n => m.before n := by
  refine List.pairwise_map.2 ((List.Pairwise.filter _ ordered).imp_of_mem ?_)
  intro x y first second less
  have target : x.target = y.target := by
    simp only [List.mem_filter, beq_iff_eq] at first second
    rw [first.2, second.2]
  rcases less with before | ⟨-, before⟩
  · exact before
  · rw [target] at before
    exact absurd before (Node.before_asymm before)

theorem edgeCount_eq :
    g.edgeCount = {ends : Node × Node | (g.edge? ends.1 ends.2).isSome}.ncard := by
  have arrows : {ends : Node × Node | (g.edge? ends.1 ends.2).isSome} =
      ((g.arrows.map fun a => (a.source, a.target)).toFinset : Set (Node × Node)) := by
    ext ⟨a, b⟩
    simp [ordered.edge?_isSome_iff]
  rw [arrows, Set.ncard_coe_finset, List.toFinset_card_of_nodup ordered.nodup_ends,
    List.length_map]
  rfl

end Ordered

/-! ## The edges of a graph -/

/-- The arrows of a graph that was built are those that its statements mean. -/
theorem mem_arrows_iff {body : List (Stmt ν)} {g : Graph} (h : build body = .ok g) {a b : Node}
    {e : Edge} : ⟨a, b, e⟩ ∈ g.arrows ↔ Means body a b e := by
  rw [arrows_of_build h]
  constructor
  · rintro (entry | ⟨i, stmt, own, found, of_stmt, among⟩)
    · cases entry
      exact .entry
    · obtain ⟨rfl, means⟩ := (mem_arrowsFrom_iff of_stmt _).1 among
      exact .stmt found means
  · intro means
    cases means with
    | entry => exact .inl rfl
    | stmt found means =>
      obtain ⟨own, of_stmt⟩ := arrowsFrom_of_build h found
      exact .inr ⟨_, _, own, found, of_stmt, (mem_arrowsFrom_iff of_stmt _).2 ⟨rfl, means⟩⟩

/-- The graph of a body has the edges that the body means and no others.  The
successors and the predecessors of a node are listed in order, every arrow is
counted once, nothing leads to the entry and nothing leaves the exit. -/
theorem edges_of_build {body : List (Stmt ν)} {g : Graph} (built : build body = .ok g) :
    (∀ a b e, g.edge? a b = some e ↔ Means body a b e) ∧
    (∀ a, (g.successors a).Pairwise (fun m n => m.before n) ∧
      ∀ b, b ∈ g.successors a ↔ (g.edge? a b).isSome) ∧
    (∀ b, (g.predecessors b).Pairwise (fun m n => m.before n) ∧
      ∀ a, a ∈ g.predecessors b ↔ (g.edge? a b).isSome) ∧
    g.edgeCount = {ends : Node × Node | (g.edge? ends.1 ends.2).isSome}.ncard ∧
    g.predecessors .entry = [] ∧ g.successors .exit = [] := by
  have ordered := ordered_of_build built
  have closed := closed_of_build built
  refine ⟨?_, ?_, ?_, ordered.edgeCount_eq, ?_, ?_⟩
  · intro a b e
    rw [ordered.edge?_eq_some_iff, mem_arrows_iff built]
  · intro a
    refine ⟨ordered.pairwise_successors a, fun b => ?_⟩
    rw [mem_successors, ordered.edge?_isSome_iff]
  · intro b
    refine ⟨ordered.pairwise_predecessors b, fun a => ?_⟩
    rw [mem_predecessors, ordered.edge?_isSome_iff]
  · refine List.eq_nil_iff_forall_not_mem.2 fun a member => ?_
    obtain ⟨arrow, among, -, target⟩ := mem_predecessors.1 member
    exact closed.target_ne arrow among target
  · refine List.eq_nil_iff_forall_not_mem.2 fun b member => ?_
    obtain ⟨arrow, among, source, -⟩ := mem_successors.1 member
    exact closed.source_ne arrow among source

/-- A switch with two labels for one target, a branch that collapses, and one
that does not. -/
theorem edges_of_build_dispatching :
    let test : Exp String := .binary (.relational .gt) (.var "x") (.int 0)
    let body : List (Stmt String) :=
      [.switch "x" [(2, 2), (1, 2), (3, 4)] 4, .nop, .branch test 3, .branch test 1, .ret none]
    let g : Graph :=
      ⟨5, [⟨.entry, .stmt 0, .entry⟩, ⟨.stmt 0, .stmt 2, .switch [some 1, some 2]⟩,
        ⟨.stmt 0, .stmt 4, .switch [none, some 3]⟩, ⟨.stmt 1, .stmt 2, .fallThrough⟩,
        ⟨.stmt 2, .stmt 3, .fallThrough⟩, ⟨.stmt 3, .stmt 1, .branch true⟩,
        ⟨.stmt 3, .stmt 4, .branch false⟩, ⟨.stmt 4, .exit, .leave⟩]⟩
    build body = .ok g ∧ Means body (.stmt 0) (.stmt 4) (.switch [none, some 3]) ∧
      (∀ e, ¬ Means body (.stmt 0) (.stmt 3) e) ∧ g.predecessors (.stmt 4) = [.stmt 0, .stmt 3] ∧
      {ends : Node × Node | (g.edge? ends.1 ends.2).isSome}.ncard = 8 := by
  intro test body g
  have built : build body = .ok g := by decide
  obtain ⟨edges, -, -, count, -, -⟩ := edges_of_build built
  refine ⟨built, (edges _ _ _).1 (by decide), ?_, by decide, count.symm⟩
  intro e means
  have found := (edges _ _ _).2 means
  rw [show g.edge? (.stmt 0) (.stmt 3) = none by decide] at found
  cases found

end Graph

end ConstantFlow
