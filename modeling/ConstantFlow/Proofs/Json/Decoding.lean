import ConstantFlow.Source.Encode
import ConstantFlow.Json.Decode

/-!
# Decoding what was printed

A decoder *reads back* a form if it gives what the form was made of exactly when
the budget lasts for the depth of the form, and refuses it otherwise
(`Decodes`).  Scalars are read back whatever the budget is.  A list, a choice or a
choice whose content is a record is read back if its parts are: it is deeper than
its deepest part by what it opens itself, and so is the budget that it takes.
-/

namespace ConstantFlow.Json

/-! ## Budgets -/

section Within

variable {α β : Type} {d e budget : Nat} {x : α} {y : β}

/-- What a form of some depth was made of, if the budget lasts for it. -/
def within (depth budget : Nat) (x : α) : Option α := if depth ≤ budget then some x else none

/-- What is not deep is found with any budget. -/
theorem within_zero (budget : Nat) (x : α) : within 0 budget x = some x :=
  if_pos (Nat.zero_le budget)

/-- What is opened takes one from the budget. -/
theorem within_succ (d budget : Nat) (x : α) :
    within (d + 1) (budget + 1) x = within d budget x := by
  simp only [within, Nat.add_le_add_iff_right]

theorem within_none (d : Nat) (x : α) : within (d + 1) 0 x = none :=
  if_neg (Nat.not_succ_le_zero d)

theorem map_within (f : α → β) : (within d budget x).map f = within d budget (f x) := by
  unfold within
  split <;> rfl

theorem bind_within_some (f : α → β) :
    (within d budget x).bind (fun x => some (f x)) = within d budget (f x) := by
  unfold within
  split <;> rfl

/-- Two parts are decoded if the budget lasts for the deeper one. -/
theorem bind_within {f : α → Option β} (next : f x = within e budget y) :
    (within d budget x).bind f = within (max d e) budget y := by
  unfold within at next ⊢
  by_cases first : d ≤ budget
  · rw [if_pos first, Option.bind_some, next]
    by_cases second : e ≤ budget
    · rw [if_pos second, if_pos (Nat.max_le.2 ⟨first, second⟩)]
    · rw [if_neg second, if_neg fun both => second (Nat.max_le.1 both).2]
  · rw [if_neg first, Option.bind_none, if_neg fun both => first (Nat.max_le.1 both).1]

end Within

/-! ## Scalars -/

theorem text?_within (budget : Nat) (s : String) :
    (text s).text? = within (text s).depth budget s :=
  (within_zero budget s).symm

theorem optionalText?_within (budget : Nat) (x : Option String) :
    optionalText? (some (ofOption text x)) = within (ofOption text x).depth budget x := by
  cases x <;> exact (within_zero budget _).symm

/-- A whole number is read back. -/
theorem Number.int?_ofInt (value : Int) : (Number.ofInt value).int? = some value := by
  unfold Number.int? Number.ofInt
  by_cases negative : value < 0
  · have nonzero : value.natAbs ≠ 0 := by omega
    have same : -(value.natAbs : Int) = value := by omega
    rw [if_pos ⟨rfl, rfl⟩, if_pos (decide_eq_true negative), if_neg nonzero, same]
  · have same : (value.natAbs : Int) = value := by omega
    rw [if_pos ⟨rfl, rfl⟩, if_neg fun below => negative (of_decide_eq_true below), same]

/-- It is read back within a range that it is in. -/
theorem intIn?_int {low high value : Int} (above : low ≤ value) (below : value ≤ high) :
    (int value).intIn? low high = some value := by
  rw [int, intIn?, Number.int?_ofInt, Option.bind_some, if_pos ⟨above, below⟩]

theorem int32?_within (budget : Nat) (value : Int32) :
    (int value.toInt).int32? = within (int value.toInt).depth budget value := by
  have above : Int32.minValue.toInt ≤ value.toInt := value.le_toInt
  have below : value.toInt ≤ Int32.maxValue.toInt := Int.le_of_lt_add_one value.toInt_lt
  rw [int32?, intIn?_int above below, Option.map_some, Int32.ofInt_toInt]
  exact (within_zero budget value).symm

theorem int64?_within (budget : Nat) (value : Int64) :
    (int value.toInt).int64? = within (int value.toInt).depth budget value := by
  have above : Int64.minValue.toInt ≤ value.toInt := value.le_toInt
  have below : value.toInt ≤ Int64.maxValue.toInt := Int.le_of_lt_add_one value.toInt_lt
  rw [int64?, intIn?_int above below, Option.map_some, Int64.ofInt_toInt]
  exact (within_zero budget value).symm

theorem word?_within (budget : Nat) {value : Nat} (small : value < UInt64.size) :
    (nat value).word? = within (nat value).depth budget value := by
  have below : (value : Int) ≤ (UInt64.size - 1 : Nat) :=
    Int.ofNat_le.2 (Nat.le_sub_one_of_lt small)
  rw [word?, nat, intIn?_int (Int.natCast_nonneg value) below]
  exact (within_zero budget value).symm

/-! ## Depth of choices and records -/

/-- A choice opens one object around its content. -/
theorem depth_choice (name : String) (content : Json) :
    (choice name content).depth = content.depth + 1 := by
  simp [choice, record, depth, depthMembers]

/-- The greatest depth of the fields of a record. -/
def depthFields (fields : List (String × Json)) : Nat :=
  fields.foldr (fun field deepest => max field.2.depth deepest) 0

theorem depth_record (fields : List (String × Json)) :
    (record fields).depth = depthFields fields + 1 := by
  have members : depthMembers (fields.map fun field => (some field.1, field.2)) =
      depthFields fields := by
    induction fields with
    | nil => rfl
    | cons field rest ih => rw [List.map_cons, depthMembers, ih]; rfl
  rw [record, depth, members]

/-! ## Lists, choices and records -/

/-- A decoder takes a form back to what it was made of, if the budget lasts. -/
def Decodes {α : Type} (decode : Nat → Json → Option α) (form : Json) (x : α) : Prop :=
  ∀ budget, decode budget form = within form.depth budget x

namespace Decodes

variable {α : Type} {decode : Nat → Json → Option α} {x : α}

/-- A list is read back if its items are. -/
theorem list {toJson : α → Json} {xs : List α}
    (each : ∀ x ∈ xs, Decodes decode (toJson x) x) :
    Decodes (list? decode) (.array (xs.map toJson)) xs := by
  have items (budget : Nat) : (xs.map toJson).mapM (decode budget) =
      within (depthItems (xs.map toJson)) budget xs := by
    induction xs with
    | nil => exact (within_zero budget _).symm
    | cons x xs ih =>
      have later := ih fun y member => each y (List.mem_cons_of_mem _ member)
      rw [List.map_cons, List.mapM_cons, each x List.mem_cons_self budget, depthItems]
      refine bind_within ?_
      show ((xs.map toJson).mapM (decode budget)).bind (fun xs => some (x :: xs)) = _
      rw [later]
      exact bind_within_some (x :: ·)
  intro budget
  cases budget with
  | zero => exact (within_none _ xs).symm
  | succ budget =>
    rw [depth, within_succ]
    exact items budget

/-- A choice is read back if its content is. -/
theorem choice {name : String} {content : Json} (zero : decode 0 (.choice name content) = none)
    (more : ∀ budget, decode (budget + 1) (.choice name content) =
      within content.depth budget x) :
    Decodes decode (.choice name content) x := by
  intro budget
  rw [depth_choice]
  cases budget with
  | zero => rw [zero, within_none]
  | succ budget => rw [more, within_succ]

/-- A record is read back if its fields are. -/
theorem record {fields : List (String × Json)} (zero : decode 0 (.record fields) = none)
    (more : ∀ budget, decode (budget + 1) (.record fields) =
      within (depthFields fields) budget x) :
    Decodes decode (.record fields) x := by
  intro budget
  rw [depth_record]
  cases budget with
  | zero => rw [zero, within_none]
  | succ budget => rw [more, within_succ]

/-- A choice whose content is a record is read back if the fields are. -/
theorem fields {name : String} {fields : List (String × Json)}
    (zero : decode 0 (.choice name (.record fields)) = none)
    (one : decode 1 (.choice name (.record fields)) = none)
    (more : ∀ budget, decode (budget + 2) (.choice name (.record fields)) =
      within (depthFields fields) budget x) :
    Decodes decode (.choice name (.record fields)) x := by
  refine .choice zero fun budget => ?_
  rw [depth_record]
  cases budget with
  | zero => rw [one, within_none]
  | succ budget => rw [more, within_succ]

end Decodes

end ConstantFlow.Json
