import ConstantFlow.Proofs.Graph.Faults
import Mathlib.Tactic.MkIffOfInductiveProp

/-!
# When a body is refused

A body has a graph exactly if each of its statements is sound: the targets are
statements of the body and the labels of a switch differ (`Stmt.Sound`).  The
error of any other body is the first fault of its first statement that is not
sound (`Stmt.FirstFault`, `Graph.build_error_iff`).

The table refuses edges for three more reasons, and none of them ever applies.
The messages of a failure are those of a repeated case and of a target out of
range alone (`Graph.build_refuses`).
-/

namespace ConstantFlow

variable {ν : Type}

/-! ## First faults -/

/-- Cases of a switch without a fault, in a body of `size` statements. -/
@[mk_iff]
structure SoundCases (size : Nat) (cases : List (Int32 × Nat)) : Prop where
  /-- The labels differ. -/
  nodup_labels : (cases.map Prod.fst).Nodup
  /-- The targets are in the body. -/
  inside : ∀ item ∈ cases, item.2 < size

namespace Stmt

/-- A statement without a fault, in a body of `size` statements. -/
@[mk_iff]
structure Sound (size : Nat) (stmt : Stmt ν) : Prop where
  /-- The labels differ. -/
  nodup_labels : stmt.labels.Nodup
  /-- The targets are in the body. -/
  inside : ∀ target ∈ stmt.targets, target < size

/-- The first fault of the statement at `index`.  The cases of a switch are looked
at in order, each for its label before its target, and the default last. -/
inductive FirstFault (size index : Nat) : Stmt ν → Error → Prop
  | goto {target : Nat} (outside : size ≤ target) :
      FirstFault size index (.goto target) (.edgeOutOfRange target)
  | branch {test : Exp ν} {target : Nat} (outside : size ≤ target) :
      FirstFault size index (.branch test target) (.edgeOutOfRange target)
  /-- A case has the label of one before it, whatever its target. -/
  | label {subject : ν} {earlier later : List (Int32 × Nat)} {label : Int32}
      {target otherwise : Nat} (sound : SoundCases size earlier)
      (repeated : label ∈ earlier.map Prod.fst) :
      FirstFault size index (.switch subject (earlier ++ (label, target) :: later) otherwise)
        (.repeatedCase label index)
  /-- A case with a new label has a target that is not in the body. -/
  | target {subject : ν} {earlier later : List (Int32 × Nat)} {label : Int32}
      {target otherwise : Nat} (sound : SoundCases size earlier)
      (new : label ∉ earlier.map Prod.fst) (outside : size ≤ target) :
      FirstFault size index (.switch subject (earlier ++ (label, target) :: later) otherwise)
        (.edgeOutOfRange target)
  | default {subject : ν} {cases : List (Int32 × Nat)} {otherwise : Nat}
      (sound : SoundCases size cases) (outside : size ≤ otherwise) :
      FirstFault size index (.switch subject cases otherwise) (.edgeOutOfRange otherwise)

end Stmt

namespace Graph

theorem head?_outside {size target : Nat} {e : Error} :
    (outside size target).head? = some e ↔ size ≤ target ∧ e = .edgeOutOfRange target := by
  rw [outside, head?_demand, Nat.not_lt]

theorem caseFaults_eq_nil_iff_sound {size index : Nat} {cases : List (Int32 × Nat)} :
    caseFaults size index [] cases = [] ↔ SoundCases size cases :=
  caseFaults_eq_nil.trans (soundCases_iff size cases).symm

/-- The first fault of some cases is that of the first case with one. -/
theorem head?_caseFaults_iff {size index : Nat} {cases : List (Int32 × Nat)} {e : Error} :
    (caseFaults size index [] cases).head? = some e ↔
      ∃ earlier label target later, cases = earlier ++ (label, target) :: later ∧
        SoundCases size earlier ∧
        (label ∈ earlier.map Prod.fst ∧ e = .repeatedCase label index ∨
          label ∉ earlier.map Prod.fst ∧ size ≤ target ∧ e = .edgeOutOfRange target) := by
  rw [caseFaults, head?_faultsOfEach_iff]
  constructor
  · rintro ⟨earlier, ⟨label, target⟩, later, rfl, none, first⟩
    refine ⟨earlier, label, target, later, rfl, caseFaults_eq_nil_iff_sound.1 none, ?_⟩
    simpa [List.head?_append, head?_demand, head?_outside, demand_eq_nil] using first
  · rintro ⟨earlier, label, target, later, rfl, sound, first⟩
    refine ⟨earlier, (label, target), later, rfl, caseFaults_eq_nil_iff_sound.2 sound, ?_⟩
    simpa [List.head?_append, head?_demand, head?_outside, demand_eq_nil] using first

/-- The head of the faults of a statement is its first fault. -/
theorem head?_faultsFrom_iff {size index : Nat} {stmt : Stmt ν} {e : Error} :
    (faultsFrom size index stmt).head? = some e ↔ stmt.FirstFault size index e := by
  cases stmt with
  | goto target =>
    rw [faultsFrom, head?_outside]
    constructor
    · rintro ⟨outside, rfl⟩
      exact .goto outside
    · rintro ⟨outside⟩
      exact ⟨outside, rfl⟩
  | branch test target =>
    rw [faultsFrom, head?_outside]
    constructor
    · rintro ⟨outside, rfl⟩
      exact .branch outside
    · intro fault
      cases fault with
      | branch outside => exact ⟨outside, rfl⟩
  | switch subject cases otherwise =>
    rw [faultsFrom, List.head?_append, Option.or_eq_some_iff, List.head?_eq_none_iff,
      caseFaults_eq_nil_iff_sound, head?_outside, head?_caseFaults_iff]
    constructor
    · rintro (⟨earlier, label, target, later, rfl, sound, ⟨repeated, rfl⟩ | ⟨new, outside, rfl⟩⟩ |
        ⟨sound, outside, rfl⟩)
      · exact .label sound repeated
      · exact .target sound new outside
      · exact .default sound outside
    · intro fault
      cases fault with
      | label sound repeated => exact .inl ⟨_, _, _, _, rfl, sound, .inl ⟨repeated, rfl⟩⟩
      | target sound new outside => exact .inl ⟨_, _, _, _, rfl, sound, .inr ⟨new, outside, rfl⟩⟩
      | default sound outside => exact .inr ⟨sound, outside, rfl⟩
  | _ =>
    constructor
    · rintro ⟨⟩
    · rintro ⟨⟩

/-! ## Bodies -/

theorem forall_zipIdx_eq_nil_iff_sound {size index : Nat} {stmts : List (Stmt ν)} :
    (∀ item ∈ stmts.zipIdx index, faultsFrom size item.2 item.1 = []) ↔
      ∀ stmt ∈ stmts, stmt.Sound size := by
  simp only [forall_zipIdx_eq_nil, Stmt.sound_iff]

/-- A graph is built if every statement is sound. -/
theorem build_ok_iff {body : List (Stmt ν)} :
    (∃ g, build body = .ok g) ↔ ∀ stmt ∈ body, stmt.Sound body.length := by
  simp only [(reports_build body).ok_iff, faults_eq_nil, Stmt.sound_iff]

/-- The error of a body is the first fault of its first statement with one. -/
theorem build_error_iff {body : List (Stmt ν)} {e : Error} :
    build body = .error e ↔ ∃ earlier stmt later, body = earlier ++ stmt :: later ∧
      (∀ s ∈ earlier, s.Sound body.length) ∧ stmt.FirstFault body.length earlier.length e := by
  rw [reports_build body e, faults, List.head?_flatMap, List.findSome?_eq_some_iff]
  simp only [head?_faultsFrom_iff, List.head?_eq_none_iff]
  constructor
  · rintro ⟨before, item, after, places, fault, none⟩
    obtain ⟨earlier, rest, split, rfl, places'⟩ := List.zipIdx_eq_append_iff.1 places
    obtain ⟨stmt, later, rfl, rfl, -⟩ := List.zipIdx_eq_cons_iff.1 places'.symm
    rw [Nat.zero_add] at fault
    exact ⟨earlier, stmt, later, split, forall_zipIdx_eq_nil_iff_sound.1 none, fault⟩
  · rintro ⟨earlier, stmt, later, split, sound, fault⟩
    refine ⟨earlier.zipIdx, (stmt, earlier.length), later.zipIdx (earlier.length + 1), ?_, fault,
      forall_zipIdx_eq_nil_iff_sound.2 sound⟩
    rw [split, List.zipIdx_append, List.zipIdx_cons, Nat.zero_add]

/-! ## Messages -/

/-- Texts that start differently differ. -/
theorem append_ne_append {a b : String} (n : Nat) (long : n ≤ a.toList.length)
    (long' : n ≤ b.toList.length) (differ : a.toList.take n ≠ b.toList.take n) (s t : String) :
    a ++ s ≠ b ++ t := by
  intro same
  have starts := congrArg (fun text => text.toList.take n) same
  simp only [String.toList_append, List.take_append_of_le_length long,
    List.take_append_of_le_length long'] at starts
  exact differ starts

/-- A message is not of the table if it starts in another way. -/
theorem ne_refusals {start : String} (n : Nat) (long : n ≤ start.toList.length)
    (short : n ≤ "duplicated edge in CFG".toList.length)
    (other : start.toList.take n ≠ "duplicated edge in CFG".toList.take n)
    (other' : start.toList.take n ≠ "unexpected edge type for switch statement".toList.take n)
    (rest : String) :
    (∀ rest', start ++ rest ≠ "duplicated edge in CFG" ++ rest') ∧
      start ++ rest ≠ "unexpected edge type for switch statement" := by
  constructor
  · exact append_ne_append n long short other rest
  · rw [← String.append_empty (s := "unexpected edge type for switch statement")]
    exact append_ne_append n long (Nat.le_trans short (by decide)) other' rest ""

/-- The table refuses edges with other messages than those of first faults. -/
theorem detail_firstFault {size index : Nat} {stmt : Stmt ν} {e : Error}
    (fault : stmt.FirstFault size index e) :
    (∀ rest, e.detail ≠ "duplicated edge in CFG" ++ rest) ∧
      e.detail ≠ "unexpected edge type for switch statement" := by
  have outside (target : Nat) : (Error.edgeOutOfRange target).detail =
      "jump target " ++ (toString target ++ " out of range") := String.append_assoc
  have repeated (label : Int32) : (Error.repeatedCase label index).detail =
      "duplicated case " ++ (toString label.toInt ++ (" in switch at " ++ (Node.stmt index).text)) :=
    String.append_assoc.trans String.append_assoc
  cases fault with
  | label =>
    rw [repeated]
    exact ne_refusals 12 (by decide) (by decide) (by decide) (by decide) _
  | _ =>
    rw [outside]
    exact ne_refusals 1 (by decide) (by decide) (by decide) (by decide) _

/-- A body has a graph exactly if its statements are sound, and its error is
otherwise the first fault of the first statement that is not.  Such a fault is a
repeated case, against an assumption, or a target out of range, against an
invariant.  No edge is ever refused by the table. -/
theorem build_refuses (body : List (Stmt ν)) :
    ((∃ g, build body = .ok g) ↔ ∀ stmt ∈ body, stmt.Sound body.length) ∧
    (∀ e, build body = .error e ↔ ∃ earlier stmt later, body = earlier ++ stmt :: later ∧
      (∀ s ∈ earlier, s.Sound body.length) ∧ stmt.FirstFault body.length earlier.length e) ∧
    ∀ e, build body = .error e →
      ((∃ label index, e = .repeatedCase label index ∧ e.kind = .assumption ∧
          e.detail = "duplicated case " ++ toString label.toInt ++ " in switch at " ++
            ("#" ++ toString index)) ∨
        ∃ target, e = .edgeOutOfRange target ∧ e.kind = .invariant ∧
          e.detail = "jump target " ++ toString target ++ " out of range") ∧
      (∀ rest, e.detail ≠ "duplicated edge in CFG" ++ rest) ∧
      e.detail ≠ "unexpected edge type for switch statement" := by
  refine ⟨build_ok_iff, fun e => build_error_iff, fun e failed => ?_⟩
  obtain ⟨earlier, stmt, later, -, -, fault⟩ := build_error_iff.1 failed
  refine ⟨?_, detail_firstFault fault⟩
  cases fault with
  | goto => exact .inr ⟨_, rfl, rfl, rfl⟩
  | branch => exact .inr ⟨_, rfl, rfl, rfl⟩
  | label => exact .inl ⟨_, _, rfl, rfl, rfl⟩
  | target => exact .inr ⟨_, rfl, rfl, rfl⟩
  | default => exact .inr ⟨_, rfl, rfl, rfl⟩

/-- A repeated label is found before the target of its case, and before the
default. -/
example : build [Stmt.switch "x" [(1, 0), (1, 9)] 8] = .error (.repeatedCase 1 0) := rfl

end Graph

end ConstantFlow
