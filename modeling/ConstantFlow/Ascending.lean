/-!
# Ascending lists

A finite set is kept as a strictly ascending list and a finite map as a list of
pairs with strictly ascending keys.  `insert` and `put` keep the order, and an
element or a key that is there already is not doubled.

Whether an element belongs to the result does not depend on the order: `mem_insert`
and `lookup_put` hold of every list.  What stays ascending is said apart, of any
order (`pairwise_insert`, `pairwise_put`).
-/

namespace ConstantFlow.Ascending

/-! ## Sets -/

section Sets

variable {α : Type} [DecidableEq α]

/-- The list with an element at its place, which `before` decides. -/
def insert (before : α → α → Bool) (x : α) : List α → List α
  | [] => [x]
  | y :: ys =>
      if x = y then y :: ys
      else if before x y then x :: y :: ys
      else y :: insert before x ys

/-- The list with several elements at their places. -/
def insertAll (before : α → α → Bool) (xs : List α) (ys : List α) : List α :=
  xs.foldl (fun acc x => insert before x acc) ys

/-- The ascending list of some elements. -/
def ofList (before : α → α → Bool) (xs : List α) : List α := insertAll before xs []

/-- To insert an element adds it and drops nothing. -/
@[simp] theorem mem_insert {before : α → α → Bool} {x z : α} {ys : List α} :
    z ∈ insert before x ys ↔ z = x ∨ z ∈ ys := by
  induction ys with
  | nil => simp [insert]
  | cons y ys ih =>
    simp only [insert]
    split
    · next same => subst same; simp
    · split
      · simp
      · simp only [List.mem_cons, ih]
        constructor
        · rintro (h | h | h) <;> simp [h]
        · rintro (h | h | h) <;> simp [h]

@[simp] theorem mem_insertAll {before : α → α → Bool} {xs ys : List α} {z : α} :
    z ∈ insertAll before xs ys ↔ z ∈ xs ∨ z ∈ ys := by
  induction xs generalizing ys with
  | nil => simp [insertAll]
  | cons x xs ih =>
    have step : insertAll before (x :: xs) ys = insertAll before xs (insert before x ys) := rfl
    rw [step, ih, mem_insert, List.mem_cons]
    constructor
    · rintro (h | h | h) <;> simp [h]
    · rintro ((h | h) | h) <;> simp [h]

@[simp] theorem mem_ofList {before : α → α → Bool} {xs : List α} {z : α} :
    z ∈ ofList before xs ↔ z ∈ xs := by
  simp [ofList]

theorem ofList_concat {before : α → α → Bool} {xs : List α} {x : α} :
    ofList before (xs ++ [x]) = insert before x (ofList before xs) := by
  rw [ofList, insertAll, List.foldl_append]
  rfl

section Order

variable {before : α → α → Bool} (trans : ∀ a b c, before a b → before b c → before a c)
  (total : ∀ a b, a ≠ b → ¬ before a b → before b a)

include trans total

/-- To insert an element keeps a list ascending, provided that the order is transitive
and total. -/
theorem pairwise_insert {x : α} {ys : List α} (h : ys.Pairwise fun a b => before a b) :
    (insert before x ys).Pairwise fun a b => before a b := by
  induction ys with
  | nil => simp [insert]
  | cons y ys ih =>
    obtain ⟨first, rest⟩ := List.pairwise_cons.1 h
    simp only [insert]
    split
    · exact h
    · next other =>
      split
      · next less =>
        refine List.pairwise_cons.2 ⟨?_, h⟩
        intro z member
        rcases List.mem_cons.1 member with rfl | later
        · exact less
        · exact trans _ _ _ less (first z later)
      · next notLess =>
        refine List.pairwise_cons.2 ⟨?_, ih rest⟩
        intro z member
        rcases mem_insert.1 member with rfl | later
        · exact total _ _ other notLess
        · exact first z later

theorem pairwise_insertAll {xs ys : List α} (h : ys.Pairwise fun a b => before a b) :
    (insertAll before xs ys).Pairwise fun a b => before a b := by
  induction xs generalizing ys with
  | nil => exact h
  | cons x xs ih => exact ih (pairwise_insert trans total h)

theorem pairwise_ofList (xs : List α) :
    (ofList before xs).Pairwise fun a b => before a b :=
  pairwise_insertAll trans total .nil

end Order

end Sets

/-- Two ascending lists with the same members are equal. -/
theorem ext {α : Type} {r : α → α → Prop} (asymm : ∀ a b, r a b → ¬ r b a) {as bs : List α}
    (ha : as.Pairwise r) (hb : bs.Pairwise r) (same : ∀ e, e ∈ as ↔ e ∈ bs) : as = bs := by
  induction as generalizing bs with
  | nil =>
    cases bs with
    | nil => rfl
    | cons b bs => exact absurd ((same b).2 List.mem_cons_self) List.not_mem_nil
  | cons a as ih =>
    cases bs with
    | nil => exact absurd ((same a).1 List.mem_cons_self) List.not_mem_nil
    | cons b bs =>
      obtain ⟨firstA, tailA⟩ := List.pairwise_cons.1 ha
      obtain ⟨firstB, tailB⟩ := List.pairwise_cons.1 hb
      have heads : a = b := by
        rcases List.mem_cons.1 ((same a).1 List.mem_cons_self) with eq | inB
        · exact eq
        · rcases List.mem_cons.1 ((same b).2 List.mem_cons_self) with eq | inA
          · exact eq.symm
          · exact absurd (firstA _ inA) (asymm _ _ (firstB _ inB))
      subst heads
      congr 1
      refine ih tailA tailB fun e => ?_
      constructor
      · intro h
        rcases List.mem_cons.1 ((same e).1 (List.mem_cons_of_mem _ h)) with eq | inB
        · subst eq
          exact absurd (firstA _ h) (asymm _ _ (firstA _ h))
        · exact inB
      · intro h
        rcases List.mem_cons.1 ((same e).2 (List.mem_cons_of_mem _ h)) with eq | inA
        · subst eq
          exact absurd (firstB _ h) (asymm _ _ (firstB _ h))
        · exact inA

/-! ## Maps -/

section Maps

variable {κ β : Type} [LT κ] [DecidableLT κ] [DecidableEq κ]

/-- The value at a key. -/
def lookup (k : κ) : List (κ × β) → Option β
  | [] => none
  | (k', v) :: rest => if k = k' then some v else lookup k rest

/-- The map with a value at a key, instead of the one that was there. -/
def put (k : κ) (v : β) : List (κ × β) → List (κ × β)
  | [] => [(k, v)]
  | (k', v') :: rest =>
      if k = k' then (k, v) :: rest
      else if k < k' then (k, v) :: (k', v') :: rest
      else (k', v') :: put k v rest

/-- The map of some pairs, of which the last with a key counts. -/
def ofPairs (pairs : List (κ × β)) : List (κ × β) :=
  pairs.foldl (fun acc pair => put pair.1 pair.2 acc) []

end Maps

/-! ### Values at keys -/

/-- The keys of an ascending map differ. -/
theorem nodup_keys {κ β : Type} [LT κ] (irrefl : ∀ a : κ, ¬ a < a) {pairs : List (κ × β)}
    (ascending : pairs.Pairwise fun a b => a.1 < b.1) : (pairs.map Prod.fst).Nodup := by
  refine List.pairwise_map.2 (ascending.imp fun {a b} less (same : a.1 = b.1) => ?_)
  rw [same] at less
  exact irrefl b.1 less

section Lookup

variable {κ β : Type} [DecidableEq κ]

/-- With distinct keys, a key finds what is listed with it. -/
theorem lookup_eq_some_iff {k : κ} {v : β} {pairs : List (κ × β)}
    (distinct : (pairs.map Prod.fst).Nodup) : lookup k pairs = some v ↔ (k, v) ∈ pairs := by
  induction pairs with
  | nil => simp [lookup]
  | cons pair rest ih =>
    obtain ⟨j, w⟩ := pair
    obtain ⟨first, later⟩ := List.nodup_cons.1 distinct
    simp only [lookup, List.mem_cons, Prod.mk.injEq]
    split
    · next same =>
      subst same
      have absent : (k, v) ∉ rest := fun member => first (List.mem_map.2 ⟨_, member, rfl⟩)
      simp [absent, eq_comm]
    · next other => simp [other, ih later]

theorem lookup_eq_none {k : κ} {pairs : List (κ × β)} (absent : ∀ pair ∈ pairs, k ≠ pair.1) :
    lookup k pairs = none := by
  induction pairs with
  | nil => rfl
  | cons pair rest ih =>
    obtain ⟨j, v⟩ := pair
    have other : k ≠ j := absent (j, v) List.mem_cons_self
    simp only [lookup, if_neg other]
    exact ih fun pair member => absent pair (List.mem_cons_of_mem _ member)

theorem lookup_append {k : κ} {pairs others : List (κ × β)} :
    lookup k (pairs ++ others) = (lookup k pairs).or (lookup k others) := by
  induction pairs with
  | nil => rfl
  | cons pair rest ih =>
    obtain ⟨j, v⟩ := pair
    simp only [List.cons_append, lookup, ih]
    split <;> rfl

theorem lookup_map {α : Type} [DecidableEq α] (key : α → κ)
    (injective : ∀ a b, key a = key b → a = b)
    {f : α → β} {x : α} {xs : List α} :
    lookup (key x) (xs.map fun y => (key y, f y)) = if x ∈ xs then some (f x) else none := by
  induction xs with
  | nil => rfl
  | cons y ys ih =>
    rw [List.map_cons, lookup, ih]
    by_cases same : x = y
    · simp [same]
    · simp [same, mt (injective x y) same]

end Lookup

section Order

variable {κ β : Type} [LT κ] [DecidableLT κ] [DecidableEq κ]

/-- After a pair has been put, its key finds it and every other key finds what it
found. -/
theorem lookup_put {k j : κ} {v : β} {pairs : List (κ × β)} :
    lookup j (put k v pairs) = if j = k then some v else lookup j pairs := by
  induction pairs with
  | nil => simp [put, lookup]
  | cons pair rest ih =>
    obtain ⟨k', v'⟩ := pair
    simp only [put]
    split
    · next same =>
      subst same
      simp only [lookup]
      split <;> rfl
    · next other =>
      split
      · simp only [lookup]
      · simp only [lookup, ih]
        by_cases h : j = k'
        · have : j ≠ k := fun same => other (same.symm.trans h)
          simp [h] at this ⊢
          simp [this]
        · simp [h]

/-- A key of the result is the new one or was there before. -/
theorem mem_keys_put {k j : κ} {v w : β} {pairs : List (κ × β)} (h : (j, w) ∈ put k v pairs) :
    (j = k ∧ w = v) ∨ (j, w) ∈ pairs := by
  induction pairs with
  | nil => simpa [put] using h
  | cons pair rest ih =>
    obtain ⟨k', v'⟩ := pair
    simp only [put] at h
    split at h
    · rcases List.mem_cons.1 h with same | old
      · exact .inl (by simpa using same)
      · exact .inr (List.mem_cons_of_mem _ old)
    · split at h
      · rcases List.mem_cons.1 h with same | old
        · exact .inl (by simpa using same)
        · exact .inr old
      · rcases List.mem_cons.1 h with same | old
        · exact .inr (by simp [same])
        · exact (ih old).imp id (List.mem_cons_of_mem _)

/-- A key that is neither among others nor before one of them is put after them. -/
theorem put_append {k : κ} {v : β} {pairs others : List (κ × β)}
    (after : ∀ pair ∈ pairs, k ≠ pair.1 ∧ ¬ k < pair.1) :
    put k v (pairs ++ others) = pairs ++ put k v others := by
  induction pairs with
  | nil => rfl
  | cons pair rest ih =>
    obtain ⟨other, notLess⟩ := after pair List.mem_cons_self
    rw [List.cons_append, put, if_neg other, if_neg notLess,
      ih fun pair member => after pair (List.mem_cons_of_mem _ member), List.cons_append]

/-- To put a pair into a map over the elements of an ascending list is to insert
the element, if the order of the keys is that of the elements. -/
theorem put_map {α : Type} [DecidableEq α] {before : α → α → Bool} (key : α → κ)
    (asymm : ∀ a b, before a b → ¬ before b a) (injective : ∀ a b, key a = key b → a = b)
    (embeds : ∀ a b, key a < key b ↔ before a b) {f g : α → β} {x : α} {v : β} {xs : List α}
    (ascending : xs.Pairwise fun a b => before a b) (value : v = g x)
    (same : ∀ y, y ≠ x → f y = g y) :
    put (key x) v (xs.map fun y => (key y, f y)) =
      (insert before x xs).map fun y => (key y, g y) := by
  subst value
  have kept {ys : List α} (others : ∀ y ∈ ys, y ≠ x) :
      (ys.map fun y => (key y, f y)) = ys.map fun y => (key y, g y) :=
    List.map_congr_left fun y member => by rw [same y (others y member)]
  induction xs with
  | nil => rfl
  | cons y ys ih =>
    obtain ⟨first, rest⟩ := List.pairwise_cons.1 ascending
    rw [List.map_cons, put, insert]
    by_cases here : x = y
    · subst here
      rw [if_pos rfl, if_pos rfl, List.map_cons, kept]
      rintro y member rfl
      exact asymm y y (first y member) (first y member)
    · rw [if_neg (mt (injective x y) here), if_neg here]
      by_cases less : before x y
      · rw [if_pos ((embeds x y).2 less), if_pos less, List.map_cons, List.map_cons, kept,
          same y (Ne.symm here)]
        rintro z member rfl
        exact asymm z y less (first z member)
      · rw [if_neg (mt (embeds x y).1 less), if_neg less, ih rest, List.map_cons,
          same y (Ne.symm here)]

/-- After some pairs have been put, a key finds the last of them that has it. -/
theorem lookup_foldl_put {k : κ} {pairs others : List (κ × β)} :
    lookup k (pairs.foldl (fun acc pair => put pair.1 pair.2 acc) others) =
      (lookup k pairs.reverse).or (lookup k others) := by
  induction pairs generalizing others with
  | nil => rfl
  | cons pair rest ih =>
    obtain ⟨j, v⟩ := pair
    rw [List.foldl_cons, ih, lookup_put, List.reverse_cons, lookup_append, Option.or_assoc]
    congr 1
    simp only [lookup]
    split <;> rfl

/-- Of several pairs with a key the last one counts. -/
theorem lookup_ofPairs {k : κ} {pairs : List (κ × β)} :
    lookup k (ofPairs pairs) = lookup k pairs.reverse := by
  rw [ofPairs, lookup_foldl_put, lookup, Option.or_none]

/-! ### Order of keys -/

variable (trans : ∀ a b c : κ, a < b → b < c → a < c) (total : ∀ a b : κ, a ≠ b → ¬ a < b → b < a)

include trans total

/-- Putting a pair at its place keeps the order. -/
theorem pairwise_put {k : κ} {v : β} {pairs : List (κ × β)}
    (h : pairs.Pairwise fun a b => a.1 < b.1) : (put k v pairs).Pairwise fun a b => a.1 < b.1 := by
  induction pairs with
  | nil => simp [put]
  | cons pair rest ih =>
    obtain ⟨j, w⟩ := pair
    obtain ⟨first, tail⟩ := List.pairwise_cons.1 h
    simp only [put]
    split
    · next same =>
      subst same
      exact List.pairwise_cons.2 ⟨first, tail⟩
    · next other =>
      split
      · next less =>
        refine List.pairwise_cons.2 ⟨?_, h⟩
        intro e member
        rcases List.mem_cons.1 member with rfl | later
        · exact less
        · exact trans _ _ _ less (first e later)
      · next notLess =>
        refine List.pairwise_cons.2 ⟨?_, ih tail⟩
        rintro ⟨i, u⟩ member
        rcases mem_keys_put member with ⟨rfl, -⟩ | old
        · exact total _ _ other notLess
        · exact first _ old

/-- The map of some pairs ascends by its keys. -/
theorem pairwise_ofPairs (pairs : List (κ × β)) :
    (ofPairs pairs).Pairwise fun a b => a.1 < b.1 := by
  have kept (others : List (κ × β)) (h : others.Pairwise fun a b => a.1 < b.1) :
      (pairs.foldl (fun acc pair => put pair.1 pair.2 acc) others).Pairwise
        fun a b => a.1 < b.1 := by
    induction pairs generalizing others with
    | nil => exact h
    | cons pair rest ih => exact ih _ (pairwise_put trans total h)
  exact kept [] .nil

end Order

end ConstantFlow.Ascending
