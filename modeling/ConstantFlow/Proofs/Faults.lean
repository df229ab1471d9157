import ConstantFlow.Error
import Mathlib.Data.List.Basic

/-!
# Faults

Checking stops at the first fault.  To say which faults there are, the faults of
the input are listed in the order in which checking comes to them, and the
computation *reports* the list if it fails with the head of it and succeeds when
it is empty (`Reports`).

A computation of two parts reports the faults of the first and then those of the
second (`Reports.bind`), where the second is looked at only for the results that
the first can have.  The members of a list are checked one by one
(`Reports.mapM`).  Where they must also differ by a key, as variables do by name
and the cases of a switch by label, the list is that of `faultsOfEach`.
-/

namespace ConstantFlow

variable {α β κ : Type}

/-! ## Reports -/

/-- A computation fails with the first of some faults, and succeeds if there are
none. -/
def Reports (x : Except Error α) (faults : List Error) : Prop :=
  ∀ e, x = .error e ↔ faults.head? = some e

/-- The fault of a condition that does not hold. -/
def demand (c : Prop) [Decidable c] (e : Error) : List Error := if c then [] else [e]

section Demand

variable {c : Prop} [Decidable c] {e e' : Error}

/-- A demand that is met has no fault. -/
theorem demand_eq_nil : demand c e = [] ↔ c := by
  simp [demand]

/-- A demand that is not met has its own fault and no other. -/
theorem head?_demand : (demand c e).head? = some e' ↔ ¬ c ∧ e' = e := by
  unfold demand
  split
  · next holds => simp [holds]
  · next fails => simp [fails, eq_comm]

theorem demand_congr {c' : Prop} [Decidable c'] (same : c ↔ c') : demand c e = demand c' e := by
  simp only [demand, same]

theorem eq_of_mem_demand (member : e' ∈ demand c e) : e' = e := by
  unfold demand at member
  split at member
  · cases member
  · exact List.mem_singleton.1 member

end Demand

namespace Reports

theorem ok (a : α) : Reports (.ok a) [] := by
  intro e
  simp

/-- A check that fails reports the first of its faults. -/
theorem error (e : Error) (rest : List Error) : Reports (.error e : Except Error α) (e :: rest) := by
  intro e'
  simp

/-- A computation succeeds if and only if it has no fault to report. -/
theorem ok_iff {x : Except Error α} {faults : List Error} (reports : Reports x faults) :
    (∃ a, x = .ok a) ↔ faults = [] := by
  cases x with
  | ok a =>
    have none (e : Error) : faults.head? ≠ some e := fun first => by
      cases (reports e).2 first
    simp [← List.head?_eq_none_iff, Option.eq_none_iff_forall_ne_some.2 none]
  | error e =>
    have first := (reports e).1 rfl
    have some : faults ≠ [] := by
      rintro rfl
      cases first
    simp [some]

/-- Two checks in a row have the faults of the first and then those of the second. -/
theorem bind {x : Except Error α} {f : α → Except Error β} {first later : List Error}
    (reports : Reports x first) (next : ∀ a, x = .ok a → Reports (f a) later) :
    Reports (x >>= f) (first ++ later) := by
  cases x with
  | ok a =>
    rw [reports.ok_iff.1 ⟨a, rfl⟩]
    exact next a rfl
  | error e =>
    intro e'
    rw [List.head?_append, (reports e).1 rfl]
    exact Iff.of_eq (by simp [Bind.bind, Except.bind])

/-- What is done with the result has no fault of its own. -/
theorem bind_pure {x : Except Error α} {f : α → β} {faults : List Error}
    (reports : Reports x faults) : Reports (x >>= fun a => pure (f a)) faults := by
  have both := reports.bind fun a _ => ok (f a)
  rwa [List.append_nil] at both

section Conditions

variable {c : Prop} [Decidable c] {x y : Except Error α} {e : Error} {faults : List Error}

/-- A check behind a demand has the fault of the demand, or else its own faults. -/
theorem of_demand (failed : y = .error e) (reports : c → Reports x faults) :
    Reports (if c then x else y) (demand c e ++ faults) := by
  unfold demand
  split
  · next holds => exact reports holds
  · rw [failed]
    exact error e faults

theorem of_refusal (failed : x = .error e) (reports : ¬c → Reports y faults) :
    Reports (if c then x else y) (demand (¬c) e ++ faults) := by
  rw [← ite_not]
  exact of_demand failed reports

theorem ok_or_error (a : α) : Reports (if c then .ok a else .error e) (demand c e) := by
  rw [← List.append_nil (demand c e)]
  exact of_demand rfl fun _ => ok a

end Conditions

theorem mapM {f : α → Except Error β} {faults : α → List Error} {xs : List α}
    (each : ∀ x, Reports (f x) (faults x)) : Reports (xs.mapM f) (xs.flatMap faults) := by
  induction xs with
  | nil => exact ok []
  | cons x xs ih =>
    rw [List.mapM_cons, List.flatMap_cons]
    exact (each x).bind fun _ _ => ih.bind_pure

theorem optionMapM {f : α → Except Error β} {faults : α → List Error} {x : Option α}
    (each : ∀ a, Reports (f a) (faults a)) :
    Reports (x.mapM f) (x.toList.flatMap faults) := by
  cases x with
  | none => exact ok none
  | some a =>
    rw [Option.toList_some, List.flatMap_singleton]
    exact (each a).bind_pure

end Reports

/-! ## Members that differ by a key -/

/-- The faults of a list whose members must differ by a key, and by it from
those that were seen.  A repetition comes after some of the faults of a member
and before the others. -/
def faultsOfEach [DecidableEq κ] (key : α → κ) (before : α → List Error) (repeated : α → Error)
    (after : α → List Error) (seen : List κ) : List α → List Error
  | [] => []
  | x :: rest =>
      before x ++ demand (key x ∉ seen) (repeated x) ++ after x ++
        faultsOfEach key before repeated after (key x :: seen) rest

section Each

variable [DecidableEq κ] {key : α → κ} {before : α → List Error} {repeated : α → Error}
  {after : α → List Error}

/-- Members have no fault if their keys are new and distinct and each of them has
none. -/
theorem faultsOfEach_eq_nil {seen : List κ} {xs : List α} :
    faultsOfEach key before repeated after seen xs = [] ↔
      (∀ x ∈ xs, key x ∉ seen) ∧ (xs.map key).Nodup ∧ ∀ x ∈ xs, before x = [] ∧ after x = [] := by
  induction xs generalizing seen with
  | nil => simp [faultsOfEach]
  | cons x xs ih =>
    rw [List.forall_mem_cons, List.forall_mem_cons]
    simp only [faultsOfEach, List.append_eq_nil_iff, ih, demand_eq_nil, List.map_cons, List.nodup_cons,
      List.mem_cons, not_or, List.mem_map, not_exists, not_and]
    constructor
    · rintro ⟨⟨⟨none, unseen⟩, some⟩, others, distinct, rest⟩
      exact ⟨⟨unseen, fun y member => (others y member).2⟩,
        ⟨fun y member same => (others y member).1 same, distinct⟩, ⟨none, some⟩, rest⟩
    · rintro ⟨⟨unseen, others⟩, ⟨apart, distinct⟩, ⟨none, some⟩, rest⟩
      exact ⟨⟨⟨none, unseen⟩, some⟩, fun y member => ⟨apart y member, others y member⟩,
        distinct, rest⟩

/-- The first fault is the first of a member, if the members before it have
none.  What repeats a key of theirs comes between the other faults of the
member. -/
theorem head?_faultsOfEach_iff {seen : List κ} {xs : List α} {e : Error} :
    (faultsOfEach key before repeated after seen xs).head? = some e ↔
      ∃ earlier x later, xs = earlier ++ x :: later ∧
        faultsOfEach key before repeated after seen earlier = [] ∧
        (before x ++ demand (key x ∉ seen ∧ key x ∉ earlier.map key) (repeated x) ++
          after x).head? = some e := by
  induction xs generalizing seen with
  | nil => simp [faultsOfEach]
  | cons y ys ih =>
    have moved (x : α) (earlier : List α) :
        (key x ∉ key y :: seen ∧ key x ∉ earlier.map key) ↔
          key x ∉ seen ∧ key x ∉ (y :: earlier).map key := by
      simp only [List.map_cons, List.mem_cons, not_or]
      exact and_assoc.trans and_left_comm
    rw [faultsOfEach, List.head?_append, Option.or_eq_some_iff, List.head?_eq_none_iff, ih]
    constructor
    · rintro (own | ⟨none, earlier, x, later, rfl, sound, first⟩)
      · exact ⟨[], y, ys, rfl, rfl, by simpa using own⟩
      · refine ⟨y :: earlier, x, later, rfl, ?_, ?_⟩
        · rw [faultsOfEach, none, sound, List.nil_append]
        · rwa [← demand_congr (moved x earlier)]
    · rintro ⟨_ | ⟨z, earlier⟩, x, later, same, sound, first⟩
      · cases same
        exact .inl (by simpa using first)
      · cases same
        obtain ⟨none, sound⟩ := List.append_eq_nil_iff.1 sound
        refine .inr ⟨none, earlier, x, later, rfl, sound, ?_⟩
        rwa [demand_congr (moved x earlier)]

/-- The first fault is the first of a member, from either side of the
repetition, or it is a repetition. -/
theorem of_head?_faultsOfEach {seen : List κ} {xs : List α} {e : Error}
    (first : (faultsOfEach key before repeated after seen xs).head? = some e) :
    ∃ x ∈ xs, (before x).head? = some e ∨ e = repeated x ∨ (after x).head? = some e := by
  obtain ⟨earlier, x, later, rfl, -, first⟩ := head?_faultsOfEach_iff.1 first
  refine ⟨x, List.mem_append_right _ List.mem_cons_self, ?_⟩
  simp only [List.head?_append, Option.or_eq_some_iff] at first
  rcases first with (own | ⟨-, again⟩) | ⟨-, own⟩
  · exact .inl own
  · exact .inr (.inl (eq_of_mem_demand (List.mem_of_mem_head? again)))
  · exact .inr (.inr own)

end Each

end ConstantFlow
