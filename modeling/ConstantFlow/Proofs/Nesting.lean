import ConstantFlow.Dataflow.Trail
import Mathlib

/-!
# Lines of nested scopes

A scope is open from the action that opens it to the one that closes it (`StillOpen`), and
as long as it is open the nesting has it with the level of its opening line
(`mem_scopes_iff`).  So every line of a scope has the level of its first one, in whatever
order scopes close, and closing it sets the depth to that level.  No level is less than
the depth at the start, since each level was the depth once.

If it is always the newest open scope that closes (`NewestFirst`), the open scopes are a
stack, in which the level of each counts the ones below it (`Nesting.Stacked`).  What is
left when the top one closes is the stack that was there when it opened, so the depth
counts the open scopes.

The run of an analysis is traced in a scope of its own, and leaves the depth as it was
(`Analysis.run_traced`).
-/

namespace ConstantFlow.Trace

variable {depth : Nat} {actions front : List Action} {title : String}

/-! ## Runs -/

namespace Nesting

theorem run_append (n : Nesting) (actions others : List Action) :
    n.run (actions ++ others) =
      (((n.run actions).1.run others).1,
        (n.run actions).2 ++ ((n.run actions).1.run others).2) := by
  induction actions generalizing n with
  | nil => rfl
  | cons action rest ih => simp [run, ih]

end Nesting

/-- The nesting after some actions, from a depth with no scope open. -/
def reached (depth : Nat) (actions : List Action) : Nesting :=
  ((Nesting.initial depth).run actions).1

/-- The line that an action writes after some others. -/
def written (depth : Nat) (before : List Action) (action : Action) : Option String :=
  ((reached depth before).step action).2

@[simp] theorem reached_nil : reached depth [] = .initial depth := rfl

theorem reached_concat (action : Action) :
    reached depth (actions ++ [action]) = ((reached depth actions).step action).1 := by
  rw [reached, Nesting.run_append]
  rfl

/-- How many scopes some actions open, which is the number of the next one. -/
def openings (actions : List Action) : Nat := actions.countP fun action => action matches .start _

/-- The scope that was opened with a title, after the actions in front, has not been
closed. -/
def StillOpen (front : List Action) (title : String) (actions : List Action) : Prop :=
  ∃ between, actions = front ++ .start title :: between ∧ .finish (openings front) ∉ between

theorem not_stillOpen_nil : ¬ StillOpen front title [] := by
  rintro ⟨between, all, -⟩
  simp at all

/-- A scope is open after one more action if that opens it, or does not close it. -/
theorem stillOpen_concat {action : Action} :
    StillOpen front title (actions ++ [action]) ↔
      (front = actions ∧ action = .start title) ∨
        (StillOpen front title actions ∧ action ≠ .finish (openings front)) := by
  constructor
  · rintro ⟨between, all, stays⟩
    rcases List.eq_nil_or_concat between with rfl | ⟨earlier, last, rfl⟩
    · obtain ⟨same, new⟩ := List.append_inj' all rfl
      exact .inl ⟨same.symm, (List.cons.inj new).1⟩
    · rw [List.concat_eq_append] at all stays
      rw [← List.cons_append, ← List.append_assoc] at all
      obtain ⟨same, new⟩ := List.append_inj' all rfl
      rw [List.mem_append, not_or, List.mem_singleton] at stays
      cases new
      exact .inr ⟨⟨earlier, same, stays.1⟩, Ne.symm stays.2⟩
  · rintro (⟨rfl, rfl⟩ | ⟨⟨between, rfl, stays⟩, other⟩)
    · exact ⟨[], rfl, List.not_mem_nil⟩
    · refine ⟨between ++ [action], by simp, ?_⟩
      rw [List.mem_append, not_or, List.mem_singleton]
      exact ⟨stays, Ne.symm other⟩

/-! ## What holds at every moment -/

namespace Nesting

variable {n : Nesting} {scope : Scope}

/-- Closing takes the scope of a number out, if it is there. -/
theorem scopes_finish (n : Nesting) (number : Nat) :
    (n.step (.finish number)).1.scopes = n.others number := by
  unfold step
  dsimp only
  split
  · next none =>
    refine (List.filter_eq_self.2 fun scope member => ?_).symm
    simpa using List.find?_eq_none.1 none scope member
  · rfl

theorem opened_finish (n : Nesting) (number : Nat) :
    (n.step (.finish number)).1.opened = n.opened := by
  unfold step
  dsimp only
  split <;> rfl

/-- It returns to the level at which the scope was opened. -/
theorem depth_finish {number : Nat} (found : n.find? number = some scope) :
    (n.step (.finish number)).1.depth = scope.level := by
  rw [step, found]

/-- To take out the scope on top leaves those below it, which are older. -/
theorem others_top {below : List Scope} (scopes : n.scopes = scope :: below)
    (older : ∀ other ∈ below, other.number < scope.number) : n.others scope.number = below := by
  rw [others, scopes, List.filter_cons_of_neg (by simp)]
  exact List.filter_eq_self.2 fun other member => decide_eq_true (older other member).ne

/-- What holds of a nesting at every moment of a run from a depth. -/
structure Valid (depth : Nat) (n : Nesting) : Prop where
  /-- A scope was opened after those below it. -/
  newest : n.scopes.Pairwise fun scope below => below.number < scope.number
  /-- A number that is to be given out is that of no open scope. -/
  fresh : ∀ scope ∈ n.scopes, scope.number < n.opened
  /-- The depth has not fallen below the one at the start. -/
  depth_le : depth ≤ n.depth
  /-- Neither has the level of an open scope. -/
  level_le : ∀ scope ∈ n.scopes, depth ≤ scope.level

theorem valid_initial : (initial depth).Valid depth :=
  ⟨.nil, List.forall_mem_nil _, le_rfl, List.forall_mem_nil _⟩

/-- An action keeps the state valid: open scopes have the numbers of different openings
and lie on or above the level of the start. -/
theorem Valid.step (valid : n.Valid depth) (action : Action) : (n.step action).1.Valid depth := by
  cases action with
  | start title =>
    exact ⟨.cons valid.fresh valid.newest,
      List.forall_mem_cons.2 ⟨Nat.lt_succ_self _, fun scope member =>
        Nat.lt_succ_of_lt (valid.fresh scope member)⟩,
      Nat.le_succ_of_le valid.depth_le,
      List.forall_mem_cons.2 ⟨valid.depth_le, valid.level_le⟩⟩
  | event number text => exact valid
  | finish number =>
    have among {scope : Scope} (member : scope ∈ n.others number) : scope ∈ n.scopes :=
      List.mem_of_mem_filter member
    refine ⟨?_, ?_, ?_, ?_⟩
    · rw [scopes_finish]
      exact valid.newest.filter _
    · rw [scopes_finish, opened_finish]
      exact fun scope member => valid.fresh scope (among member)
    · cases found : n.find? number with
      | none => simpa [Nesting.step, found] using valid.depth_le
      | some scope =>
        rw [depth_finish found]
        exact valid.level_le scope (List.mem_of_find?_eq_some found)
    · rw [scopes_finish]
      exact fun scope member => valid.level_le scope (among member)

/-- A scope that is open is the one of its number. -/
theorem Valid.find?_eq (valid : n.Valid depth) (member : scope ∈ n.scopes) :
    n.find? scope.number = some scope := by
  cases found : n.find? scope.number with
  | none => simpa using List.find?_eq_none.1 found scope member
  | some other =>
    have numbers : (n.scopes.map Scope.number).Nodup :=
      List.pairwise_map.2 (valid.newest.imp Nat.ne_of_gt)
    have same : other.number = scope.number := by simpa using List.find?_some found
    rw [List.inj_on_of_nodup_map numbers (List.mem_of_find?_eq_some found) member same]

end Nesting

theorem valid_reached (depth : Nat) (actions : List Action) :
    (reached depth actions).Valid depth := by
  induction actions using List.reverseRecOn with
  | nil => exact Nesting.valid_initial
  | append_singleton actions action ih =>
    rw [reached_concat]
    exact ih.step action

theorem opened_reached (depth : Nat) (actions : List Action) :
    (reached depth actions).opened = openings actions := by
  induction actions using List.reverseRecOn with
  | nil => rfl
  | append_singleton actions action ih =>
    rw [reached_concat, openings, List.countP_append, ← openings]
    cases action with
    | start title => exact congrArg (· + 1) ih
    | event number text => exact ih
    | finish number =>
      rw [Nesting.opened_finish, ih]
      rfl

/-! ## Levels -/

/-- The scope that opens with a title after some actions. -/
def nextScope (depth : Nat) (front : List Action) (title : String) : Scope :=
  ⟨openings front, title, (reached depth front).depth⟩

/-- The scopes of the nesting are those that are still open, with the levels at which
they opened. -/
theorem mem_scopes_iff {scope : Scope} :
    scope ∈ (reached depth actions).scopes ↔
      ∃ front title, StillOpen front title actions ∧ scope = nextScope depth front title := by
  induction actions using List.reverseRecOn with
  | nil => simp [Nesting.initial, not_stillOpen_nil]
  | append_singleton actions action ih =>
    simp only [reached_concat, stillOpen_concat]
    cases action with
    | start title =>
      have new : (⟨(reached depth actions).opened, title, (reached depth actions).depth⟩ : Scope) =
          nextScope depth actions title := by rw [nextScope, opened_reached]
      simp only [Nesting.step, List.mem_cons, ih, new]
      constructor
      · rintro (rfl | ⟨front, title', stays, rfl⟩)
        · exact ⟨actions, title, .inl ⟨rfl, rfl⟩, rfl⟩
        · exact ⟨front, title', .inr ⟨stays, Action.noConfusion⟩, rfl⟩
      · rintro ⟨front, title', ⟨rfl, same⟩ | ⟨stays, -⟩, rfl⟩
        · cases same
          exact .inl rfl
        · exact .inr ⟨front, title', stays, rfl⟩
    | event number text => simp [Nesting.step, ih]
    | finish number =>
      rw [Nesting.scopes_finish, Nesting.others, List.mem_filter, ih, decide_eq_true_iff]
      constructor
      · rintro ⟨⟨front, title, stays, rfl⟩, other⟩
        exact ⟨front, title, .inr ⟨stays, fun same => other (Action.finish.inj same).symm⟩, rfl⟩
      · rintro ⟨front, title, ⟨-, start⟩ | ⟨stays, other⟩, rfl⟩
        · cases start
        · exact ⟨⟨front, title, stays, rfl⟩, fun same => other (congrArg _ same.symm)⟩

/-- A scope that was opened and not closed since is open. -/
theorem StillOpen.mem_scopes (depth : Nat) (stays : StillOpen front title actions) :
    nextScope depth front title ∈ (reached depth actions).scopes :=
  mem_scopes_iff.2 ⟨front, title, stays, rfl⟩

theorem StillOpen.find?_eq (depth : Nat) (stays : StillOpen front title actions) :
    (reached depth actions).find? (openings front) = some (nextScope depth front title) :=
  (valid_reached depth actions).find?_eq (stays.mem_scopes depth)

/-- A number is that of the newest scope that is still open. -/
def Newest (actions : List Action) (number : Nat) : Prop :=
  (∃ front title, StillOpen front title actions ∧ openings front = number) ∧
    ∀ front title, StillOpen front title actions → openings front ≤ number

/-- Whenever a scope is closed, it is the newest of those that are still open. -/
def NewestFirst (actions : List Action) : Prop :=
  ∀ before number rest, actions = before ++ .finish number :: rest → Newest before number

/-- What closes newest first does so from the start. -/
theorem NewestFirst.of_isPrefix (newestFirst : NewestFirst actions) {before : List Action}
    (earlier : before <+: actions) : NewestFirst before := by
  obtain ⟨later, rfl⟩ := earlier
  rintro start number rest rfl
  exact newestFirst start number (rest ++ later) (by simp)

/-- The open scopes are a stack: the depth counts all of them, and the level of each
counts those below it. -/
structure Nesting.Stacked (depth : Nat) (n : Nesting) : Prop where
  depth_eq : n.depth = depth + n.scopes.length
  level_eq : ∀ scope below, scope :: below <:+ n.scopes → scope.level = depth + below.length

namespace Nesting.Stacked

variable {n : Nesting}

theorem start (stacked : n.Stacked depth) (title : String) :
    (n.step (.start title)).1.Stacked depth where
  depth_eq := congrArg (· + 1) stacked.depth_eq
  level_eq scope below part := by
    rcases List.suffix_cons_iff.1 part with whole | part
    · cases whole
      exact stacked.depth_eq
    · exact stacked.level_eq scope below part

/-- To close the newest scope takes it off the stack. -/
theorem finish {scope : Scope} {below : List Scope} (stacked : n.Stacked depth)
    (valid : n.Valid depth) (scopes : n.scopes = scope :: below) :
    (n.step (.finish scope.number)).1.Stacked depth := by
  have older := valid.newest
  rw [scopes, List.pairwise_cons] at older
  have left : (n.step (.finish scope.number)).1.scopes = below := by
    rw [scopes_finish, others_top scopes older.1]
  constructor
  · have found := valid.find?_eq (scopes ▸ List.mem_cons_self : scope ∈ n.scopes)
    rw [depth_finish found, left]
    exact stacked.level_eq scope below (scopes ▸ List.suffix_rfl)
  · intro other under part
    rw [left] at part
    exact stacked.level_eq other under (scopes ▸ part.trans (List.suffix_cons _ _))

end Nesting.Stacked

/-- No open scope is newer than the one on top. -/
theorem StillOpen.openings_le {scope : Scope} {below : List Scope}
    (stays : StillOpen front title actions)
    (scopes : (reached depth actions).scopes = scope :: below) :
    openings front ≤ scope.number := by
  have older := (valid_reached depth actions).newest
  have member := stays.mem_scopes depth
  rw [scopes, List.pairwise_cons] at older
  rw [scopes, List.mem_cons] at member
  rcases member with same | under
  · exact (congrArg Scope.number same).le
  · exact (older.1 _ under).le

/-- The newest open scope is on top. -/
theorem newest_iff (depth : Nat) {number : Nat} :
    Newest actions number ↔
      (reached depth actions).scopes.head?.map Scope.number = some number := by
  cases scopes : (reached depth actions).scopes with
  | nil =>
    have none (front : List Action) (title : String) : ¬ StillOpen front title actions := by
      intro stays
      have member := stays.mem_scopes depth
      simp [scopes] at member
    simp [Newest, none]
  | cons scope below =>
    have top : scope ∈ (reached depth actions).scopes := scopes ▸ List.mem_cons_self
    obtain ⟨front, title, stays, rfl⟩ := mem_scopes_iff.1 top
    rw [List.head?_cons, Option.map_some, Option.some.injEq]
    constructor
    · rintro ⟨⟨front', title', stays', rfl⟩, greatest⟩
      exact le_antisymm (greatest front title stays) (stays'.openings_le scopes)
    · rintro rfl
      exact ⟨⟨front, title, stays, rfl⟩, fun _ _ stays' => stays'.openings_le scopes⟩

/-- As long as scopes are closed newest first, each lies right above the one
before it. -/
theorem NewestFirst.stacked (depth : Nat) (newestFirst : NewestFirst actions) :
    (reached depth actions).Stacked depth := by
  induction actions using List.reverseRecOn with
  | nil => exact ⟨rfl, fun scope below part => by simp [Nesting.initial] at part⟩
  | append_singleton actions action ih =>
    have before := ih (newestFirst.of_isPrefix (List.prefix_append _ _))
    rw [reached_concat]
    cases action with
    | start title => exact before.start title
    | event number text => exact before
    | finish number =>
      have newest := (newest_iff depth).1 (newestFirst actions number [] rfl)
      obtain ⟨scope, head, rfl⟩ := Option.map_eq_some_iff.1 newest
      obtain ⟨below, scopes⟩ := List.head?_eq_some_iff.1 head
      exact before.finish (valid_reached depth actions) scopes

/-- The depth counts the scopes that are still open. -/
structure Counts (depth : Nat) (actions : List Action) (numbers : List Nat) : Prop where
  /-- These are their numbers. -/
  mem_iff : ∀ number, number ∈ numbers ↔
    ∃ front title, StillOpen front title actions ∧ openings front = number
  /-- Each of them is there once. -/
  nodup : numbers.Nodup
  /-- The depth is that at the start, and one more for each. -/
  depth_eq : (reached depth actions).depth = depth + numbers.length
  /-- A scope that opens next has that level. -/
  opening : ∀ title, written depth actions (.start title) =
    some (openLine (depth + numbers.length) title)

/-- As long as scopes are closed newest first, the depth counts the scopes that are
open. -/
theorem NewestFirst.counts (depth : Nat) (newestFirst : NewestFirst actions) :
    Counts depth actions ((reached depth actions).scopes.map Scope.number) := by
  have depth_eq : (reached depth actions).depth =
      depth + ((reached depth actions).scopes.map Scope.number).length := by
    rw [List.length_map]
    exact (newestFirst.stacked depth).depth_eq
  refine ⟨fun number => ?_, ?_, depth_eq, fun title => ?_⟩
  · rw [List.mem_map]
    constructor
    · rintro ⟨scope, member, rfl⟩
      obtain ⟨front, title, stays, rfl⟩ := mem_scopes_iff.1 member
      exact ⟨front, title, stays, rfl⟩
    · rintro ⟨front, title, stays, rfl⟩
      exact ⟨_, stays.mem_scopes depth, rfl⟩
  · exact List.pairwise_map.2 ((valid_reached depth actions).newest.imp Nat.ne_of_gt)
  · rw [← depth_eq]
    rfl

/-! ## Lines -/

end ConstantFlow.Trace

/-! ## The trace of an analysis -/

namespace ConstantFlow

open Trace

variable {V : Type} [Domain V]

/-- What the run of an analysis does to a scope of its own. -/
def Analysis.actions (a : Analysis V) (p : Procedure) (number : Nat) : List Action :=
  .start (a.title p) ::
    (((a.run p).visits.filter Visit.changed).map fun v => .event number v.event) ++
      [.finish number]

/-- Events of a scope stay on its level and change nothing. -/
theorem Trace.Nesting.run_events {α : Type} {n : Nesting} {number : Nat} {scope : Scope}
    (found : n.find? number = some scope) (text : α → String) (events : List α) :
    n.run (events.map fun e => .event number (text e)) =
      (n, events.map fun e => some (eventLine scope.level (text e))) := by
  induction events with
  | nil => rfl
  | cons event rest ih => simp [run, step, found, ih]

/-- The trace of an analysis opens one scope, says which visits changed something, and
closes it. -/
theorem Analysis.traced_trail (a : Analysis V) (p : Procedure) (level : Nat) :
    (((a.trail p level).filter fun entry => entry.level = .trace).map
        fun entry => some entry.text) =
      some (openLine level (a.title p)) ::
        (((a.run p).visits.filter Visit.changed).map fun v => some (eventLine level v.event)) ++
          [some (closeLine level (a.title p))] := by
  simp [trail, List.filter_map, Function.comp_def]

/-- The run of an analysis writes the lines of its trail, and leaves the depth and the
scopes as they were. -/
theorem Analysis.run_traced (a : Analysis V) (p : Procedure) {n : Nesting} {depth : Nat}
    (valid : n.Valid depth) :
    n.run (a.actions p n.opened) =
      (⟨n.depth, n.opened + 1, n.scopes⟩,
        ((a.trail p n.depth).filter fun entry => entry.level = .trace).map
          fun entry => some entry.text) := by
  let scope : Scope := ⟨n.opened, a.title p, n.depth⟩
  let inside : Nesting := ⟨n.depth + 1, n.opened + 1, scope :: n.scopes⟩
  have start : n.step (.start (a.title p)) = (inside, some (openLine n.depth (a.title p))) := rfl
  have found : inside.find? n.opened = some scope := by simp [inside, scope, Nesting.find?]
  have left : inside.others scope.number = n.scopes := Nesting.others_top rfl valid.fresh
  have finish : inside.step (.finish n.opened) =
      (⟨n.depth, n.opened + 1, n.scopes⟩, some (closeLine n.depth (a.title p))) := by
    rw [Nesting.step, found, ← left]
  rw [traced_trail, actions, List.cons_append, Nesting.run, start]
  simp only [Nesting.run_append, Nesting.run_events found Visit.event, Nesting.run, finish]
  rfl

end ConstantFlow
