import ConstantFlow.Graph.Build
import Mathlib.Data.List.Basic

/-!
# The arrows of a body

`Stmt.exits` says in words of the body where control may go from a statement:
to its targets, to the next position, or to the exit.  Here a position past the
last statement is the exit (`Node.at`).

The arrows of a body can be listed without a table: those of a statement by
target (`Graph.arrowsFrom`), and those of all statements one after the other
(`Graph.arrowsAfter`).  The arrows of a statement reach exactly the places where
control may go (`Graph.mem_arrowsFrom`).
-/

namespace ConstantFlow

variable {ν : Type}

/-- A computation of two parts succeeds when both do. -/
theorem bind_eq_ok {ε α β : Type} {x : Except ε α} {f : α → Except ε β} {b : β} :
    (x >>= f) = .ok b ↔ ∃ a, x = .ok a ∧ f a = .ok b := by
  cases x with
  | error e => simp [bind, Except.bind]
  | ok a => simp [bind, Except.bind]

theorem pure_eq_ok {ε α : Type} {a b : α} : (pure a : Except ε α) = .ok b ↔ a = b := by
  simp [pure, Except.pure]

theorem throw_ne_ok {ε α : Type} {e : ε} {a : α} : (throw e : Except ε α) ≠ .ok a := by
  simp [throw, throwThe, MonadExceptOf.throw]

/-! ## Where control may go -/

/-- The node of a position in a body of `size` statements. -/
def Node.at (size index : Nat) : Node := if index < size then .stmt index else .exit

/-- The nodes that control may go to from the statement at `index`. -/
def Stmt.exits (size index : Nat) : Stmt ν → List Node
  | .goto target => [.stmt target]
  | .branch _ target => [.stmt target, .at size (index + 1)]
  | .switch _ cases otherwise => (cases.map Prod.snd ++ [otherwise]).map .stmt
  | .ret _ | .raise _ => [.exit]
  | .define _ _ | .invoke _ | .nop => [.at size (index + 1)]

namespace Graph

theorem first_eq (size : Nat) : first size = .at size 0 := by
  unfold first Node.at
  rcases Nat.eq_zero_or_pos size with h | h
  · simp [h]
  · simp [h, Nat.ne_of_gt h]

theorem next_eq (size index : Nat) : next size index = .at size (index + 1) := rfl

/-- The nodes that an arrow may reach: positions of the body and the exit. -/
def Reachable (size : Nat) (n : Node) : Prop := n = .exit ∨ ∃ i < size, n = .stmt i

theorem reachable_at (size index : Nat) : Reachable size (.at size index) := by
  unfold Node.at
  split
  · next inside => exact .inr ⟨index, inside, rfl⟩
  · exact .inl rfl

theorem locate_eq_ok {size target : Nat} {n : Node} :
    locate size target = .ok n ↔ target < size ∧ n = .stmt target := by
  unfold locate
  split
  · next inside => simp [inside, eq_comm]
  · next outside => simp [outside]

/-! ## Listing arrows -/

/-- Two arrows in the order of their targets. -/
def inOrder (a b : Arrow) : List Arrow :=
  if a.target.before b.target then [a, b] else [b, a]

/-- Nothing, unless a case of the switch at `index` is at fault. -/
def checkCases (size index : Nat) (seen : List Int32) :
    List (Int32 × Nat) → Except Error Unit
  | [] => .ok ()
  | (label, target) :: rest => do
      if label ∈ seen then throw (.repeatedCase label index)
      let _ ← locate size target
      checkCases size index (label :: seen) rest

/-- Labels of cases with their targets. -/
def ofCases (cases : List (Int32 × Nat)) : List (Option Int32 × Nat) :=
  cases.map fun item => (some item.1, item.2)

/-- The labels that lead to a target, ascending. -/
def labelsTo (labels : List (Option Int32 × Nat)) (target : Nat) : List (Option Int32) :=
  Ascending.ofList Edge.labelBefore ((labels.filter fun item => item.2 == target).map Prod.fst)

/-- The targets of labels, ascending. -/
def targetsOf (labels : List (Option Int32 × Nat)) : List Nat :=
  Ascending.ofList (fun a b => decide (a < b)) (labels.map Prod.snd)

/-- The arrows of a switch, one for each target. -/
def switchArrows (index : Nat) (labels : List (Option Int32 × Nat)) : List Arrow :=
  (targetsOf labels).map fun target =>
    ⟨.stmt index, .stmt target, .switch (labelsTo labels target)⟩

/-- The arrows that leave a statement, by target. -/
def arrowsFrom (size index : Nat) : Stmt ν → Except Error (List Arrow)
  | .goto target => do
      return [⟨.stmt index, ← locate size target, .goto⟩]
  | .branch _ target => do
      let target ← locate size target
      let follow := next size index
      if target = follow then return [⟨.stmt index, follow, .fallThrough⟩]
      else
        return inOrder ⟨.stmt index, target, .branch true⟩ ⟨.stmt index, follow, .branch false⟩
  | .switch _ cases otherwise => do
      checkCases size index [] cases
      let _ ← locate size otherwise
      return switchArrows index (ofCases cases ++ [(none, otherwise)])
  | .ret _ | .raise _ => return [⟨.stmt index, .exit, .leave⟩]
  | .define _ _ | .invoke _ | .nop => return [⟨.stmt index, next size index, .fallThrough⟩]

/-- The arrows of the statements from `index` on. -/
def arrowsAfter (size index : Nat) : List (Stmt ν) → Except Error (List Arrow)
  | [] => .ok []
  | stmt :: rest => do
      let arrows ← arrowsFrom size index stmt
      let others ← arrowsAfter size (index + 1) rest
      return arrows ++ others

/-! ## Arrows of one statement -/

/-- The targets of the cases of a switch without a fault are in the body. -/
theorem targets_of_checkCases {size index : Nat} {seen : List Int32}
    {cases : List (Int32 × Nat)} (h : checkCases size index seen cases = .ok ()) :
    ∀ item ∈ cases, item.2 < size := by
  induction cases generalizing seen with
  | nil => simp
  | cons item rest ih =>
    obtain ⟨label, target⟩ := item
    simp only [checkCases] at h
    split at h
    · obtain ⟨_, thrown, -⟩ := bind_eq_ok.1 h
      exact absurd thrown throw_ne_ok
    · obtain ⟨_, located, h⟩ := bind_eq_ok.1 h
      intro item member
      rcases List.mem_cons.1 member with same | later
      · rw [same]
        exact (locate_eq_ok.1 located).1
      · exact ih h item later

/-- The arrows of a switch go to its targets, once each. -/
theorem targets_switchArrows (index : Nat) (labels : List (Option Int32 × Nat)) :
    (switchArrows index labels).map Arrow.target = (targetsOf labels).map Node.stmt := by
  simp only [switchArrows, List.map_map]
  rfl

theorem mem_targetsOf {labels : List (Option Int32 × Nat)} {target : Nat} :
    target ∈ targetsOf labels ↔ ∃ label, (label, target) ∈ labels := by
  simp [targetsOf]

/-- The targets of a switch are those of the cases and that of the default. -/
theorem mem_targetsOf_cases {cases : List (Int32 × Nat)} {otherwise target : Nat} :
    target ∈ targetsOf (ofCases cases ++ [(none, otherwise)]) ↔
      target ∈ cases.map Prod.snd ++ [otherwise] := by
  simp [targetsOf, ofCases]

/-- A target has the labels that are listed with it. -/
theorem mem_labelsTo {labels : List (Option Int32 × Nat)} {label : Option Int32} {target : Nat} :
    label ∈ labelsTo labels target ↔ (label, target) ∈ labels := by
  simp [labelsTo]

/-- The arrows of a statement leave its node for the places where control may
go, which are nodes of the graph. -/
theorem mem_arrowsFrom {size index : Nat} {stmt : Stmt ν} {arrows : List Arrow}
    (h : arrowsFrom size index stmt = .ok arrows) :
    (∀ n, n ∈ arrows.map Arrow.target ↔ n ∈ stmt.exits size index) ∧
      (∀ n ∈ stmt.exits size index, Reachable size n) ∧
      ∀ arrow ∈ arrows, arrow.source = .stmt index := by
  cases stmt with
  | goto target =>
    obtain ⟨n, located, h⟩ := bind_eq_ok.1 h
    obtain ⟨inside, rfl⟩ := locate_eq_ok.1 located
    rw [← pure_eq_ok.1 h]
    refine ⟨by simp [Stmt.exits], ?_, by simp⟩
    simpa [Stmt.exits, Reachable] using inside
  | branch test target =>
    obtain ⟨n, located, h⟩ := bind_eq_ok.1 h
    obtain ⟨inside, rfl⟩ := locate_eq_ok.1 located
    have places : ∀ n ∈ (Stmt.branch test target).exits size index, Reachable size n := by
      intro n member
      rcases List.mem_pair.1 member with rfl | rfl
      · exact .inr ⟨target, inside, rfl⟩
      · exact reachable_at size (index + 1)
    dsimp only at h
    split at h
    · next collapsed =>
      rw [← pure_eq_ok.1 h]
      refine ⟨by simp [Stmt.exits, collapsed, next_eq], places, by simp⟩
    · rw [← pure_eq_ok.1 h]
      unfold inOrder
      split
      · exact ⟨by simp [Stmt.exits, next_eq], places, by simp⟩
      · exact ⟨by simp [Stmt.exits, next_eq, or_comm], places, by simp⟩
  | switch subject cases otherwise =>
    obtain ⟨_, checked, h⟩ := bind_eq_ok.1 h
    obtain ⟨_, located, h⟩ := bind_eq_ok.1 h
    obtain ⟨inside, -⟩ := locate_eq_ok.1 located
    rw [← pure_eq_ok.1 h]
    refine ⟨?_, ?_, ?_⟩
    · intro n
      rw [targets_switchArrows, Stmt.exits, List.mem_map, List.mem_map]
      simp only [mem_targetsOf_cases]
    · intro n member
      obtain ⟨target, named, rfl⟩ := List.mem_map.1 member
      refine .inr ⟨target, ?_, rfl⟩
      rcases List.mem_append.1 named with case | last
      · obtain ⟨item, among, rfl⟩ := List.mem_map.1 case
        exact targets_of_checkCases checked item among
      · exact List.mem_singleton.1 last ▸ inside
    · intro arrow member
      obtain ⟨target, -, rfl⟩ := List.mem_map.1 member
      rfl
  | ret value =>
    rw [← pure_eq_ok.1 h]
    exact ⟨by simp [Stmt.exits], by simp [Stmt.exits, Reachable], by simp⟩
  | raise exception =>
    rw [← pure_eq_ok.1 h]
    exact ⟨by simp [Stmt.exits], by simp [Stmt.exits, Reachable], by simp⟩
  | define location value =>
    rw [← pure_eq_ok.1 h]
    exact ⟨by simp [Stmt.exits, next_eq], by simp [Stmt.exits, reachable_at], by simp⟩
  | invoke call =>
    rw [← pure_eq_ok.1 h]
    exact ⟨by simp [Stmt.exits, next_eq], by simp [Stmt.exits, reachable_at], by simp⟩
  | nop =>
    rw [← pure_eq_ok.1 h]
    exact ⟨by simp [Stmt.exits, next_eq], by simp [Stmt.exits, reachable_at], by simp⟩

/-- The arrows of a list of statements are those of its members. -/
theorem mem_arrowsAfter {size index : Nat} {stmts : List (Stmt ν)} {arrows : List Arrow}
    (h : arrowsAfter size index stmts = .ok arrows) :
    (∀ i stmt, stmts[i]? = some stmt → ∃ own, arrowsFrom size (index + i) stmt = .ok own) ∧
      ∀ arrow, arrow ∈ arrows ↔ ∃ i stmt own, stmts[i]? = some stmt ∧
        arrowsFrom size (index + i) stmt = .ok own ∧ arrow ∈ own := by
  induction stmts generalizing index arrows with
  | nil =>
    cases h
    simp
  | cons stmt rest ih =>
    obtain ⟨own, found, h⟩ := bind_eq_ok.1 h
    obtain ⟨others, later, h⟩ := bind_eq_ok.1 h
    rw [← pure_eq_ok.1 h]
    obtain ⟨each, members⟩ := ih later
    have shift (i : Nat) : index + 1 + i = index + (i + 1) := by omega
    simp only [shift] at each members
    constructor
    · rintro (_ | i) s at_i
      · cases at_i
        exact ⟨own, found⟩
      · exact each i s at_i
    · intro arrow
      rw [List.mem_append, members]
      constructor
      · rintro (first | ⟨i, s, l, at_i, of_s, member⟩)
        · exact ⟨0, stmt, own, rfl, found, first⟩
        · exact ⟨i + 1, s, l, at_i, of_s, member⟩
      · rintro ⟨_ | i, s, l, at_i, of_s, member⟩
        · cases at_i
          rw [Nat.add_zero, found] at of_s
          cases of_s
          exact .inl member
        · exact .inr ⟨i, s, l, at_i, of_s, member⟩

end Graph

end ConstantFlow
