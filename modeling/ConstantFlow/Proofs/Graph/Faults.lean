import ConstantFlow.Proofs.Faults
import ConstantFlow.Proofs.Graph.Insertion

/-!
# Faults of a body

A target must be a statement of the body, and the labels of a switch must
differ.  `Graph.faults` lists what breaks these rules, statement by statement
and in a switch case by case, and the graph of a body reports this list
(`Graph.reports_build`).  It does not depend on the variables of the statements
(`Graph.faults_map`).
-/

namespace ConstantFlow

variable {ν μ : Type}

/-- The labels of the cases of a statement, in order. -/
def Stmt.labels : Stmt ν → List Int32
  | .switch _ cases _ => cases.map Prod.fst
  | _ => []

namespace Graph

/-! ## The list of faults -/

/-- The fault of a target outside a body of `size` statements. -/
def outside (size target : Nat) : List Error := demand (target < size) (.edgeOutOfRange target)

/-- The faults of the cases of the switch at `index`, after the labels seen. -/
def caseFaults (size index : Nat) (seen : List Int32) : List (Int32 × Nat) → List Error :=
  faultsOfEach Prod.fst (fun _ => []) (fun item => .repeatedCase item.1 index)
    (fun item => outside size item.2) seen

/-- The faults of the statement at `index`. -/
def faultsFrom (size index : Nat) : Stmt ν → List Error
  | .goto target | .branch _ target => outside size target
  | .switch _ cases otherwise => caseFaults size index [] cases ++ outside size otherwise
  | .define _ _ | .invoke _ | .ret _ | .raise _ | .nop => []

/-- The faults of a body. -/
def faults (body : List (Stmt ν)) : List Error :=
  body.zipIdx.flatMap fun item => faultsFrom body.length item.2 item.1

/-! ## Reports -/

theorem reports_locate (size target : Nat) : Reports (locate size target) (outside size target) :=
  .ok_or_error _

/-- To check cases reports a repeated label or a target out of range, whichever is
first. -/
theorem reports_checkCases (size index : Nat) (seen : List Int32) (cases : List (Int32 × Nat)) :
    Reports (checkCases size index seen cases) (caseFaults size index seen cases) := by
  induction cases generalizing seen with
  | nil => exact .ok ()
  | cons item rest ih =>
    obtain ⟨label, target⟩ := item
    simp only [checkCases, caseFaults, faultsOfEach, List.nil_append, List.append_assoc]
    exact .of_refusal rfl fun _ => (reports_locate size target).bind fun _ _ => ih (label :: seen)

/-- The arrows of a statement fail with the faults of the statement. -/
theorem reports_arrowsFrom (size index : Nat) (stmt : Stmt ν) :
    Reports (arrowsFrom size index stmt) (faultsFrom size index stmt) := by
  cases stmt with
  | goto target => exact (reports_locate size target).bind_pure
  | branch test target =>
    rw [faultsFrom, ← List.append_nil (outside size target)]
    refine (reports_locate size target).bind fun n _ => ?_
    dsimp only
    split <;> exact .ok _
  | switch subject cases otherwise =>
    exact (reports_checkCases size index [] cases).bind fun _ _ =>
      (reports_locate size otherwise).bind_pure
  | _ => exact .ok _

theorem reports_arrowsAfter (size index : Nat) (stmts : List (Stmt ν)) :
    Reports (arrowsAfter size index stmts)
      ((stmts.zipIdx index).flatMap fun item => faultsFrom size item.2 item.1) := by
  induction stmts generalizing index with
  | nil => exact .ok []
  | cons stmt rest ih =>
    rw [List.zipIdx_cons, List.flatMap_cons]
    exact (reports_arrowsFrom size index stmt).bind fun _ _ => (ih (index + 1)).bind_pure

/-- The graph of a body reports the faults of the body. -/
theorem reports_build (body : List (Stmt ν)) : Reports (build body) (faults body) := by
  rw [build_eq]
  exact (reports_arrowsAfter body.length 0 body).bind_pure

/-! ## Bodies without faults -/

theorem outside_eq_nil {size target : Nat} : outside size target = [] ↔ target < size :=
  demand_eq_nil

theorem caseFaults_eq_nil {size index : Nat} {cases : List (Int32 × Nat)} :
    caseFaults size index [] cases = [] ↔
      (cases.map Prod.fst).Nodup ∧ ∀ item ∈ cases, item.2 < size := by
  simp [caseFaults, faultsOfEach_eq_nil, outside_eq_nil]

theorem faultsFrom_eq_nil {size index : Nat} {stmt : Stmt ν} :
    faultsFrom size index stmt = [] ↔
      stmt.labels.Nodup ∧ ∀ target ∈ stmt.targets, target < size := by
  cases stmt with
  | switch subject cases otherwise =>
    simp only [faultsFrom, List.append_eq_nil_iff, caseFaults_eq_nil, outside_eq_nil, Stmt.labels,
      Stmt.targets, List.forall_mem_append, List.forall_mem_map, List.forall_mem_singleton,
      and_assoc]
  | _ => simp [faultsFrom, Stmt.labels, Stmt.targets, outside_eq_nil]

theorem forall_zipIdx_eq_nil {size index : Nat} {stmts : List (Stmt ν)} :
    (∀ item ∈ stmts.zipIdx index, faultsFrom size item.2 item.1 = []) ↔
      ∀ stmt ∈ stmts, stmt.labels.Nodup ∧ ∀ target ∈ stmt.targets, target < size := by
  simp only [faultsFrom_eq_nil]
  constructor
  · intro each stmt member
    rw [← List.zipIdx_map_fst index stmts] at member
    obtain ⟨item, among, rfl⟩ := List.mem_map.1 member
    exact each item among
  · exact fun each item member => each item.1 (List.fst_mem_of_mem_zipIdx member)

theorem faults_eq_nil {body : List (Stmt ν)} :
    faults body = [] ↔ ∀ stmt ∈ body,
      stmt.labels.Nodup ∧ ∀ target ∈ stmt.targets, target < body.length := by
  rw [faults, List.flatMap_eq_nil_iff, forall_zipIdx_eq_nil]

/-! ## The first fault -/

/-- Where the targets are in the body, the first fault is a repeated label. -/
theorem repeated_of_build {body : List (Stmt ν)} {e : Error}
    (inside : ∀ stmt ∈ body, ∀ target ∈ stmt.targets, target < body.length)
    (failed : build body = .error e) : ∃ label index, e = .repeatedCase label index := by
  have first := (reports_build body e).1 failed
  rw [faults, List.head?_flatMap] at first
  obtain ⟨⟨stmt, index⟩, member, own⟩ := List.exists_of_findSome?_eq_some first
  have targets := inside stmt (List.fst_mem_of_mem_zipIdx member)
  have none (target : Nat) (named : target ∈ stmt.targets) :
      outside body.length target = [] := outside_eq_nil.2 (targets target named)
  cases stmt with
  | goto target =>
    simp [faultsFrom, none target List.mem_cons_self] at own
  | branch test target =>
    simp [faultsFrom, none target List.mem_cons_self] at own
  | switch subject cases otherwise =>
    have last := none otherwise (List.mem_append_right _ List.mem_cons_self)
    simp only [faultsFrom, last, List.append_nil] at own
    obtain ⟨item, among, before | rfl | after⟩ := of_head?_faultsOfEach own
    · cases before
    · exact ⟨item.1, index, rfl⟩
    · rw [none item.2 (List.mem_append_left _ (List.mem_map_of_mem among))] at after
      cases after
  | _ => cases own

/-! ## Renaming -/

/-- The faults of a statement do not depend on its variables. -/
theorem faultsFrom_map (f : ν → μ) (size index : Nat) (stmt : Stmt ν) :
    faultsFrom size index (stmt.map f) = faultsFrom size index stmt := by
  cases stmt <;> rfl

theorem faults_map (f : ν → μ) (body : List (Stmt ν)) :
    faults (body.map (Stmt.map f)) = faults body := by
  simp only [faults, List.length_map, List.zipIdx_map, List.flatMap_map]
  exact List.flatMap_congr fun item _ => faultsFrom_map f body.length item.2 item.1

end Graph

end ConstantFlow
