import ConstantFlow.Proofs.Graph.Arrows

/-!
# What the table of a body holds

While the statement at `index` is added, what the table holds already leaves
nodes before it (`Graph.Earlier`).  The edges of the statement are therefore put
at the end, and whether they are new depends on them alone.

They are always new.  The two edges of a branch differ in their targets, unless
the branch collapses.  The labels of a switch differ because a label that was
seen is refused before its edge is added, and the default is no label.  So the
table of the labels that were added is that of `Graph.switchArrows`
(`Graph.insertLabel_rows`), and the graph of a body has the arrows of
`Graph.arrowsAfter` in their order (`Graph.build_eq`).
-/

namespace ConstantFlow

variable {ν : Type}

namespace Graph

/-! ## Rows -/

/-- The rows of arrows. -/
def rows (arrows : List Arrow) : Table :=
  arrows.map fun arrow => (⟨arrow.source, arrow.target⟩, arrow.edge)

@[simp] theorem rows_append (arrows others : List Arrow) :
    rows (arrows ++ others) = rows arrows ++ rows others := List.map_append

@[simp] theorem arrows_rows (arrows : List Arrow) : (rows arrows).arrows = arrows := by
  rw [rows, Table.arrows, List.map_map]
  exact List.map_id arrows

/-! ## Edges put after earlier ones -/

/-- The edges of a table leave nodes before the statement at `index`. -/
def Earlier (index : Nat) (table : Table) : Prop :=
  ∀ row ∈ table, row.1.source.before (.stmt index)

namespace Earlier

variable {size index : Nat} {table : Table} (earlier : Earlier index table)

include earlier

theorem lookup_append (n : Node) (others : Table) :
    Ascending.lookup ⟨.stmt index, n⟩ (table ++ others) =
      Ascending.lookup ⟨.stmt index, n⟩ others := by
  rw [Ascending.lookup_append, Ascending.lookup_eq_none, Option.none_or]
  rintro row member same
  have before := earlier row member
  rw [← same] at before
  exact Node.before_asymm before before

/-- To put a row of this statement leaves earlier rows alone. -/
theorem put_append (n : Node) (edge : Edge) (others : Table) :
    Ascending.put ⟨.stmt index, n⟩ edge (table ++ others) =
      table ++ Ascending.put ⟨.stmt index, n⟩ edge others := by
  refine Ascending.put_append fun row member => ?_
  have before := earlier row member
  constructor
  · rintro same
    rw [← same] at before
    exact Node.before_asymm before before
  · rintro (less | ⟨same, -⟩)
    · exact Node.before_asymm before less
    · rw [← same] at before
      exact Node.before_asymm before before

theorem insertEdge_append (n : Node) (edge : Edge) (others : Table) :
    insertEdge ⟨.stmt index, n⟩ edge (table ++ others) =
      (table ++ ·) <$> insertEdge ⟨.stmt index, n⟩ edge others := by
  rw [insertEdge, insertEdge, earlier.lookup_append, earlier.put_append]
  split <;> rfl

theorem insertLabel_append (n : Node) (label : Option Int32) (others : Table) :
    insertLabel ⟨.stmt index, n⟩ label (table ++ others) =
      (table ++ ·) <$> insertLabel ⟨.stmt index, n⟩ label others := by
  simp only [insertLabel, earlier.lookup_append, earlier.put_append]
  split
  · rfl
  · split <;> rfl
  · rfl

theorem insertCases_append (seen : List Int32) (cases : List (Int32 × Nat)) (others : Table) :
    insertCases size index seen cases (table ++ others) =
      (table ++ ·) <$> insertCases size index seen cases others := by
  induction cases generalizing seen others with
  | nil => rfl
  | cons item rest ih =>
    obtain ⟨label, target⟩ := item
    simp only [insertCases]
    split
    · rfl
    · simp only [earlier.insertLabel_append, map_bind, bind_map_left, ih]

/-- To insert a statement leaves the rows of earlier ones alone. -/
theorem insertStmt_append (stmt : Stmt ν) (others : Table) :
    insertStmt size index stmt (table ++ others) =
      (table ++ ·) <$> insertStmt size index stmt others := by
  cases stmt with
  | branch test target =>
    simp only [insertStmt, map_bind]
    congr 1
    funext n
    split
    · exact earlier.insertEdge_append _ _ _
    · simp only [earlier.insertEdge_append, map_bind, bind_map_left]
  | _ =>
    simp only [insertStmt, earlier.insertEdge_append, earlier.insertLabel_append,
      earlier.insertCases_append, map_bind, bind_map_left]

end Earlier

/-! ## Labels of a switch -/

theorem pairwise_targetsOf (labels : List (Option Int32 × Nat)) :
    (targetsOf labels).Pairwise fun a b => decide (a < b) := by
  refine Ascending.pairwise_ofList ?_ ?_ _
  · simp only [decide_eq_true_eq]
    omega
  · simp only [decide_eq_true_eq]
    omega

/-- One more label inserts its target. -/
theorem targetsOf_concat (labels : List (Option Int32 × Nat)) (label : Option Int32)
    (target : Nat) : targetsOf (labels ++ [(label, target)]) =
      Ascending.insert (fun a b => decide (a < b)) target (targetsOf labels) := by
  rw [targetsOf, List.map_append]
  exact Ascending.ofList_concat

/-- One more label is inserted among those of its target. -/
theorem labelsTo_concat_self (labels : List (Option Int32 × Nat)) (label : Option Int32)
    (target : Nat) : labelsTo (labels ++ [(label, target)]) target =
      Ascending.insert Edge.labelBefore label (labelsTo labels target) := by
  rw [labelsTo, List.filter_append, List.map_append]
  simp [labelsTo, Ascending.ofList_concat]

theorem labelsTo_concat_of_ne (labels : List (Option Int32 × Nat)) (label : Option Int32)
    {target other : Nat} (differ : other ≠ target) :
    labelsTo (labels ++ [(label, target)]) other = labelsTo labels other := by
  simp [labelsTo, List.filter_append, differ.symm]

/-- The rows of a switch have all labels of a target each. -/
theorem rows_switchArrows (index : Nat) (labels : List (Option Int32 × Nat)) :
    rows (switchArrows index labels) = (targetsOf labels).map fun target =>
      (⟨.stmt index, .stmt target⟩, .switch (labelsTo labels target)) := by
  rw [rows, switchArrows, List.map_map]
  rfl

theorem lookup_rows (index target : Nat) (labels : List (Option Int32 × Nat)) :
    Ascending.lookup ⟨.stmt index, .stmt target⟩ (rows (switchArrows index labels)) =
      if target ∈ targetsOf labels then some (.switch (labelsTo labels target)) else none := by
  rw [rows_switchArrows]
  exact Ascending.lookup_map (fun target => (⟨.stmt index, .stmt target⟩ : Ends)) (by simp)

/-- To put a row with one more label gives the rows of a switch with that label at the
end. -/
theorem put_rows (index target : Nat) (label : Option Int32)
    (labels : List (Option Int32 × Nat)) :
    Ascending.put ⟨.stmt index, .stmt target⟩
        (.switch (Ascending.insert Edge.labelBefore label (labelsTo labels target)))
        (rows (switchArrows index labels)) =
      rows (switchArrows index (labels ++ [(label, target)])) := by
  rw [rows_switchArrows, rows_switchArrows, targetsOf_concat]
  refine Ascending.put_map (fun target => (⟨.stmt index, .stmt target⟩ : Ends)) ?_ ?_ ?_
    (pairwise_targetsOf labels) (by rw [labelsTo_concat_self]) ?_
  · simp only [decide_eq_true_eq]
    omega
  · simp
  · simp [Node.before]
  · exact fun other differ => by rw [labelsTo_concat_of_ne _ _ differ]

/-- A new label joins those that were added. -/
theorem insertLabel_rows {index target : Nat} {label : Option Int32}
    {labels : List (Option Int32 × Nat)} (new : (label, target) ∉ labels) :
    insertLabel ⟨.stmt index, .stmt target⟩ label (rows (switchArrows index labels)) =
      .ok (rows (switchArrows index (labels ++ [(label, target)]))) := by
  rw [insertLabel, lookup_rows, ← put_rows]
  by_cases named : target ∈ targetsOf labels
  · simp only [if_pos named, mem_labelsTo, if_neg new]
  · have none : labelsTo labels target = [] :=
      List.eq_nil_iff_forall_not_mem.2 fun other member =>
        named (mem_targetsOf.2 ⟨other, mem_labelsTo.1 member⟩)
    simp only [if_neg named, none, Ascending.insert]

/-- The cases of a switch are added to those before, unless one is at fault. -/
theorem insertCases_rows {size index : Nat} {seen : List Int32} {cases : List (Int32 × Nat)}
    {labels : List (Option Int32 × Nat)}
    (known : ∀ label target, (some label, target) ∈ labels → label ∈ seen) :
    insertCases size index seen cases (rows (switchArrows index labels)) =
      (fun _ => rows (switchArrows index (labels ++ ofCases cases))) <$>
        checkCases size index seen cases := by
  induction cases generalizing seen labels with
  | nil =>
    rw [ofCases, List.map_nil, List.append_nil]
    rfl
  | cons item rest ih =>
    obtain ⟨label, target⟩ := item
    simp only [insertCases, checkCases]
    by_cases repeated : label ∈ seen
    · simp only [if_pos repeated]
      rfl
    · by_cases inside : target < size
      · simp only [if_neg repeated, locate, if_pos inside]
        change insertLabel ⟨.stmt index, .stmt target⟩ (some label) _ >>=
          insertCases size index (label :: seen) rest = _
        rw [insertLabel_rows (mt (known label target) repeated)]
        refine (ih ?_).trans ?_
        · intro other place member
          rcases List.mem_append.1 member with old | last
          · exact List.mem_cons_of_mem _ (known other place old)
          · cases List.mem_singleton.1 last
            exact List.mem_cons_self
        · rw [List.append_assoc]
          rfl
      · simp only [if_neg repeated, locate, if_neg inside]
        rfl

/-! ## Edges of one statement -/

/-- Two edges that leave a statement for different nodes are both new. -/
theorem insertEdge_inOrder {index : Nat} {a b : Node} (other : a ≠ b) (e e' : Edge) :
    insertEdge ⟨.stmt index, b⟩ e' (rows [⟨.stmt index, a, e⟩]) =
      .ok (rows (inOrder ⟨.stmt index, a, e⟩ ⟨.stmt index, b, e'⟩)) := by
  have differ : (⟨.stmt index, b⟩ : Ends) ≠ ⟨.stmt index, a⟩ := by simpa using other.symm
  simp only [insertEdge, rows, List.map_cons, List.map_nil, Ascending.lookup, Ascending.put,
    if_neg differ, inOrder, Ends.lt_same]
  by_cases less : a.before b
  · rw [if_neg (Node.before_asymm less), if_pos less]
    rfl
  · rw [if_pos (Node.before_total other less), if_neg less]
    rfl

/-- The default of a switch is added to its cases. -/
theorem insertLabel_default {index otherwise : Nat} (cases : List (Int32 × Nat)) :
    insertLabel ⟨.stmt index, .stmt otherwise⟩ none (rows (switchArrows index (ofCases cases))) =
      .ok (rows (switchArrows index (ofCases cases ++ [(none, otherwise)]))) :=
  insertLabel_rows (by simp [ofCases])

/-- In an empty table the edges of a statement are its arrows. -/
theorem insertStmt_nil (size index : Nat) (stmt : Stmt ν) :
    insertStmt size index stmt [] = rows <$> arrowsFrom size index stmt := by
  cases stmt with
  | goto target =>
    simp only [insertStmt, arrowsFrom, map_bind]
    rfl
  | branch test target =>
    simp only [insertStmt, arrowsFrom, map_bind]
    congr 1
    funext n
    by_cases collapsed : n = next size index
    · simp only [if_pos collapsed]
      rfl
    · simp only [if_neg collapsed]
      exact insertEdge_inOrder collapsed _ _
  | switch subject cases otherwise =>
    have added : insertCases size index [] cases [] =
        (fun _ => rows (switchArrows index (ofCases cases))) <$> checkCases size index [] cases :=
      insertCases_rows fun _ _ member => absurd member List.not_mem_nil
    simp only [insertStmt, arrowsFrom]
    rw [added, bind_map_left, map_bind]
    congr 1
    funext _
    by_cases inside : otherwise < size
    · simp only [locate, if_pos inside]
      exact insertLabel_default cases
    · simp only [locate, if_neg inside]
      rfl
  | _ => rfl

/-- The edges of a statement are put after earlier ones. -/
theorem Earlier.insertStmt_eq {size index : Nat} {table : Table} (earlier : Earlier index table)
    (stmt : Stmt ν) : insertStmt size index stmt table =
      (fun own => table ++ rows own) <$> arrowsFrom size index stmt := by
  have appended : insertStmt size index stmt (table ++ []) = _ :=
    earlier.insertStmt_append stmt []
  rw [List.append_nil, insertStmt_nil, ← comp_map] at appended
  exact appended

/-! ## The whole body -/

/-- The rows of a statement are earlier for those after it. -/
theorem Earlier.append_rows {size index : Nat} {table : Table} {stmt : Stmt ν} {own : List Arrow}
    (earlier : Earlier index table) (found : arrowsFrom size index stmt = .ok own) :
    Earlier (index + 1) (table ++ rows own) := by
  intro row member
  rcases List.mem_append.1 member with old | new
  · have before := earlier row old
    revert before
    cases row.1.source <;> simp [Node.before]
    omega
  · obtain ⟨arrow, among, rfl⟩ := List.mem_map.1 new
    rw [(mem_arrowsFrom found).2.2 arrow among]
    simp [Node.before]

/-- The edges of the statements are put after earlier ones, in their order.  What one
statement adds is earlier for those after it. -/
theorem Earlier.insertStmts_eq {size index : Nat} {table : Table} (earlier : Earlier index table)
    (stmts : List (Stmt ν)) : insertStmts size index stmts table =
      (fun arrows => table ++ rows arrows) <$> arrowsAfter size index stmts := by
  induction stmts generalizing index table with
  | nil =>
    rw [insertStmts, arrowsAfter]
    exact congrArg Except.ok (List.append_nil table).symm
  | cons stmt rest ih =>
    rw [insertStmts, arrowsAfter, earlier.insertStmt_eq, bind_map_left, map_bind]
    cases found : arrowsFrom size index stmt with
    | error e => rfl
    | ok own =>
      refine (ih (earlier.append_rows found)).trans ?_
      change _ = _ <$> (arrowsAfter size (index + 1) rest >>= fun others => pure (own ++ others))
      simp only [bind_pure_comp, Functor.map_map, rows_append, List.append_assoc]

/-- The graph of a body has the arrows of its statements, in their order. -/
theorem build_eq (body : List (Stmt ν)) : build body = (do
    let arrows ← arrowsAfter body.length 0 body
    return ⟨body.length, ⟨.entry, first body.length, .entry⟩ :: arrows⟩) := by
  have earlier : Earlier 0 (rows [⟨.entry, first body.length, .entry⟩]) := by
    simp [Earlier, rows, Node.before]
  calc build body
    _ = insertStmts body.length 0 body (rows [⟨.entry, first body.length, .entry⟩]) >>=
          fun table => pure (Graph.mk body.length table.arrows) := rfl
    _ = _ := by
      simp only [earlier.insertStmts_eq, bind_map_left, ← rows_append, arrows_rows,
        List.singleton_append]

end Graph

end ConstantFlow
