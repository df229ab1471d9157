import ConstantFlow.Proofs.Json.Decoding
import Mathlib.Data.List.Forall2

/-!
# Forms of data

What has been encoded as JSON may have several forms: the fields of a record come in
any order or as an array, a field that is optional may be missing, and an alternative
without content may be written with its content.  The relations here list the forms of
each kind of data, and each is what the decoder of that kind accepts.

A form may open some arrays and objects, its *room*.
-/

namespace ConstantFlow.Json

/-! ## Scalars -/

theorem text?_eq_some_iff {form : Json} {s : String} : form.text? = some s ↔ form = text s := by
  cases form <;> simp [text?, text]

/-- A whole number is written with a minus if it is negative, and with its digits. -/
theorem Number.int?_eq_some_iff {n : Number} {value : Int} :
    n.int? = some value ↔ n = .ofInt value := by
  refine ⟨fun read => ?_, fun same => same ▸ int?_ofInt value⟩
  obtain ⟨negative, whole, fraction, exponent⟩ := n
  unfold int? at read
  split at read
  · next bare =>
    obtain ⟨noFraction, noExponent⟩ := bare
    rw [List.isEmpty_iff] at noFraction
    rw [Option.isNone_iff_eq_none] at noExponent
    dsimp only at noFraction noExponent
    subst noFraction noExponent
    cases negative with
    | false =>
      cases read
      simp [ofInt]
    | true =>
      simp only [if_true] at read
      split at read
      · cases read
      · next nonzero =>
        cases read
        simp [ofInt, Nat.pos_of_ne_zero nonzero]
  · cases read

/-- A whole number has one form, and it must be in range. -/
theorem intIn?_eq_some_iff {low high value : Int} {form : Json} :
    form.intIn? low high = some value ↔ form = int value ∧ low ≤ value ∧ value ≤ high := by
  constructor
  · intro read
    cases form with
    | number n =>
      obtain ⟨found, isInt, bounded⟩ := Option.bind_eq_some_iff.1 read
      split at bounded
      · next range =>
        cases bounded
        exact ⟨congrArg Json.number (Number.int?_eq_some_iff.1 isInt), range⟩
      · cases bounded
    | _ => cases read
  · rintro ⟨rfl, above, below⟩
    exact intIn?_int above below

theorem int32?_eq_some_iff {form : Json} {value : Int32} :
    form.int32? = some value ↔ form = int value.toInt := by
  constructor
  · intro read
    obtain ⟨whole, found, same⟩ := Option.map_eq_some_iff.1 read
    obtain ⟨rfl, above, below⟩ := intIn?_eq_some_iff.1 found
    rw [← same, Int32.toInt_ofInt_of_le above (Int.lt_add_one_of_le below)]
  · rintro rfl
    rw [int32?_within 0, within]
    rfl

theorem int64?_eq_some_iff {form : Json} {value : Int64} :
    form.int64? = some value ↔ form = int value.toInt := by
  constructor
  · intro read
    obtain ⟨whole, found, same⟩ := Option.map_eq_some_iff.1 read
    obtain ⟨rfl, above, below⟩ := intIn?_eq_some_iff.1 found
    rw [← same, Int64.toInt_ofInt_of_le above (Int.lt_add_one_of_le below)]
  · rintro rfl
    rw [int64?_within 0, within]
    rfl

/-- An unsigned number has its form if it fits in 64 bits. -/
theorem word?_eq_some_iff {form : Json} {value : Nat} :
    form.word? = some value ↔ form = nat value ∧ value < UInt64.size := by
  constructor
  · intro read
    obtain ⟨whole, found, rfl⟩ := Option.map_eq_some_iff.1 read
    obtain ⟨rfl, above, below⟩ := intIn?_eq_some_iff.1 found
    have same : ((whole.toNat : Nat) : Int) = whole := Int.toNat_of_nonneg above
    have positive : 0 < UInt64.size := by decide
    refine ⟨by rw [nat, same], ?_⟩
    omega
  · rintro ⟨rfl, small⟩
    rw [word?_within 0 small, within]
    rfl

/-- The forms of an optional text, or nothing if the field is missing. -/
inductive Optional : Option String → Option Json → Prop
  | missing : Optional none none
  | null : Optional none (some .null)
  | given (s : String) : Optional (some s) (some (text s))

/-- An optional text is decoded from its forms. -/
theorem optionalText?_eq_some_iff {part : Option Json} {value : Option String} :
    optionalText? part = some value ↔ Optional value part := by
  constructor
  · intro read
    unfold optionalText? at read
    split at read
    · cases read
      exact .missing
    · cases read
      exact .null
    · obtain ⟨s, found, rfl⟩ := Option.map_eq_some_iff.1 read
      rw [text?_eq_some_iff] at found
      subst found
      exact .given s
  · rintro (_ | _ | s) <;> rfl

/-- Several parts are decoded if each is. -/
theorem mapM_eq_some_iff {α β : Type} {f : α → Option β} {xs : List α} {ys : List β} :
    xs.mapM f = some ys ↔ List.Forall₂ (fun x y => f x = some y) xs ys := by
  induction xs generalizing ys with
  | nil => cases ys <;> simp
  | cons x xs ih =>
    rw [List.mapM_cons]
    constructor
    · intro read
      obtain ⟨y, first, read⟩ := Option.bind_eq_some_iff.1 read
      obtain ⟨rest, later, made⟩ := Option.bind_eq_some_iff.1 read
      cases made
      exact .cons first (ih.1 later)
    · rintro (_ | ⟨first, later⟩)
      rw [first, ih.2 later]
      rfl

/-! ## Records -/

/-- What the members of an object have under a name: nothing, or the value of the only
one of that name. -/
inductive Under (members : List (String × Json)) (name : String) : Option Json → Prop
  | missing (absent : ∀ member ∈ members, member.1 ≠ name) : Under members name none
  | given {before after : List (String × Json)} {value : Json}
      (once : members = before ++ (name, value) :: after)
      (others : ∀ member ∈ before ++ after, member.1 ≠ name) : Under members name (some value)

/-- The forms of a record whose fields have some names, with the parts of the fields: an
array with all of them in order, or an object with each of them once or not at all and
with any other members. -/
inductive Parts (names : List String) : Json → List (Option Json) → Prop
  | listed {items : List Json} (all : items.length = names.length) :
      Parts names (.array items) (items.map some)
  | named {members : List (String × Json)} {parts : List (Option Json)}
      (each : List.Forall₂ (Under members) names parts) : Parts names (.record members) parts

/-- A field is found if its name stands once or not at all. -/
theorem field?_eq_some_iff {members : List (String × Json)} {name : String} {part : Option Json} :
    field? members name = some part ↔ Under members name part := by
  constructor
  · intro read
    unfold field? at read
    split at read
    · next none_left =>
      cases read
      exact .missing fun member inside same =>
        List.filter_eq_nil_iff.1 none_left member inside (beq_iff_eq.2 same)
    · next one =>
      cases read
      obtain ⟨before, after, once, early, same, late⟩ := List.filter_eq_cons_iff.1 one
      rw [beq_iff_eq] at same
      subst same
      refine .given once fun other inside same => ?_
      rcases List.mem_append.1 inside with inside | inside
      · exact early other inside (beq_iff_eq.2 same)
      · exact List.filter_eq_nil_iff.1 late other inside (beq_iff_eq.2 same)
    · cases read
  · intro under
    cases under with
    | missing absent =>
      have none_left : (members.filter fun member => member.1 == name) = [] :=
        List.filter_eq_nil_iff.2 fun member inside same => absent member inside (beq_iff_eq.1 same)
      rw [field?, none_left]
    | @given before after value once others =>
      have none_left {part : List (String × Json)}
          (within : ∀ member ∈ part, member ∈ before ++ after) :
          (part.filter fun member => member.1 == name) = [] :=
        List.filter_eq_nil_iff.2 fun member inside same =>
          others member (within member inside) (beq_iff_eq.1 same)
      have one : (members.filter fun member => member.1 == name) = [(name, value)] := by
        rw [once, List.filter_append, none_left fun _ => List.mem_append_left _,
          List.filter_cons_of_pos (by simp), none_left fun _ => List.mem_append_right _,
          List.nil_append]
      rw [field?, one]

/-- Keys that have texts are these. -/
theorem texts?_eq_some_iff {members : List (Text × Json)} {named : List (String × Json)} :
    texts? members = some named ↔ members = named.map fun member => (some member.1, member.2) := by
  rw [texts?, mapM_eq_some_iff]
  constructor
  · intro each
    induction each with
    | nil => rfl
    | @cons member _ _ _ first _ ih =>
      obtain ⟨key, found, rfl⟩ := Option.map_eq_some_iff.1 first
      rw [List.map_cons, ← ih, ← found]
  · rintro rfl
    induction named with
    | nil => exact .nil
    | cons member rest ih => exact .cons rfl ih

/-- A record is taken apart exactly if it is one of the forms. -/
theorem fields?_eq_some_iff {names : List String} {form : Json} {parts : List (Option Json)} :
    fields? names form = some parts ↔ Parts names form parts := by
  constructor
  · intro read
    unfold fields? at read
    split at read
    · split at read
      · next all =>
        cases read
        exact .listed all
      · cases read
    · obtain ⟨members, named, each⟩ := Option.bind_eq_some_iff.1 read
      rw [texts?_eq_some_iff] at named
      subst named
      exact .named ((mapM_eq_some_iff.1 each).imp fun _ _ => field?_eq_some_iff.1)
    · cases read
  · rintro (all | @⟨members, _, each⟩)
    · exact if_pos all
    · have named : texts? _ = some members := texts?_eq_some_iff.2 rfl
      rw [record, fields?, named, Option.bind_some, mapM_eq_some_iff]
      exact each.imp fun _ _ => field?_eq_some_iff.2

/-! ## Choices -/

/-- The forms of an alternative without content. -/
inductive Bare : Nat → String → Json → Prop
  | name {room : Nat} (name : String) : Bare room name (text name)
  | empty {room : Nat} (name : String) : Bare (room + 1) name (choice name .null)

/-- An alternative without content is decoded from its forms. -/
theorem bare?_eq_some_iff {room : Nat} {form : Json} {name : String} :
    bare? room form = some name ↔ Bare room name form := by
  constructor
  · intro read
    unfold bare? at read
    split at read
    · next found =>
      subst read
      exact .name name
    · subst read
      exact .empty name
    · cases read
  · rintro (_ | _) <;> rfl

/-! ## Lists -/

/-- The forms of a list whose items have some forms. -/
inductive Listed {α : Type} (Form : Nat → Json → α → Prop) : Nat → Json → List α → Prop
  | mk {room : Nat} {items : List Json} {xs : List α} (each : List.Forall₂ (Form room) items xs) :
      Listed Form (room + 1) (.array items) xs

theorem list?_eq_some_iff {α : Type} {decode : Nat → Json → Option α}
    {Form : Nat → Json → α → Prop}
    (item : ∀ room form x, decode room form = some x ↔ Form room form x) {room : Nat} {form : Json}
    {xs : List α} : list? decode room form = some xs ↔ Listed Form room form xs := by
  constructor
  · intro read
    unfold list? at read
    split at read
    · exact .mk ((mapM_eq_some_iff.1 read).imp fun _ _ => (item ..).1)
    · cases read
  · rintro ⟨each⟩
    exact mapM_eq_some_iff.2 (each.imp fun _ _ => (item ..).2)

end ConstantFlow.Json
