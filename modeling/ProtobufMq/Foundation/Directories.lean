import Mathlib.Data.List.Basic

namespace ProtobufMq
namespace Foundation

/-!
# Trees of directories

A directory is told by the names that lead to it from the root, the innermost
first.  A path is a list of steps from some directory.  Where a path leads does
not depend on the tree; whether it can be followed does, since every directory
that it goes into must be there.
-/

/-- One component of a path. -/
inductive PathStep (α : Type*) where
  /-- Nothing between two separators. -/
  | empty
  /-- The directory itself. -/
  | self
  /-- Its parent; the root is its own parent. -/
  | up
  | down (name : α)
  deriving DecidableEq, Repr

namespace PathStep

variable {α : Type*}

/-- Where a step leads. -/
def next (place : List α) : PathStep α → List α
  | .empty => place
  | .self => place
  | .up => place.tail
  | .down name => name :: place

/-- The directory that a step goes into, if it goes down. -/
def entered (place : List α) : PathStep α → List (List α)
  | .down name => [name :: place]
  | _ => []

end PathStep

open PathStep

/-- The directories that a path goes into, in their order. -/
def way {α : Type*} : List α → List (PathStep α) → List (List α)
  | _, [] => []
  | place, step :: rest => entered place step ++ way (next place step) rest

/-- A set of directories that has the root, and the parent of each of them. -/
structure DirectoryTree (α : Type*) where
  present : List α → Bool
  root : present [] = true
  closed : ∀ name place, present (name :: place) = true → present place = true

/-- What following a path comes to. -/
inductive Found (α : Type*) where
  /-- The path leads to a directory. -/
  | here
  /-- Only the last directory of the path is not there. -/
  | absent (place : List α)
  /-- A directory on the way is not there. -/
  | lost
  deriving DecidableEq, Repr

namespace DirectoryTree

section Steps

variable {α : Type*} {tree : DirectoryTree α} {place : List α} {step : PathStep α}

theorem present_tail (present : tree.present place = true) : tree.present place.tail = true := by
  cases place with
  | nil => exact present
  | cons name parent => exact tree.closed name parent present

/-- From a directory that is there, a step into no missing one leads to another. -/
theorem present_next (present : tree.present place = true)
    (goes : (entered place step).all tree.present = true) :
    tree.present (next place step) = true := by
  cases step with
  | empty => exact present
  | self => exact present
  | up => exact present_tail present
  | down name => exact List.all_eq_true.mp goes _ List.mem_cons_self

/-- A step that cannot be made goes down. -/
theorem entered_of_missing (stops : ¬ (entered place step).all tree.present = true) :
    entered place step = [next place step] ∧ tree.present (next place step) = false ∧
      (next place step).tail = place := by
  cases step with
  | empty => exact absurd rfl stops
  | self => exact absurd rfl stops
  | up => exact absurd rfl stops
  | down name =>
      refine ⟨rfl, ?_, rfl⟩
      rw [entered, List.all_cons, List.all_nil, Bool.and_true, Bool.not_eq_true] at stops
      exact stops

end Steps

variable {α : Type*} [DecidableEq α]

/-- Follow a path.  Separators behind the last name do not count. -/
def follow (tree : DirectoryTree α) : List α → List (PathStep α) → Found α
  | _, [] => .here
  | place, step :: rest =>
      if (entered place step).all tree.present then tree.follow (next place step) rest
      else if rest.all (· = .empty) then .absent (next place step)
      else .lost

/-- The tree with one more directory, if its parent is there. -/
def add (tree : DirectoryTree α) (place : List α) : DirectoryTree α where
  present other := tree.present other || (other = place && tree.present place.tail)
  root := by rw [tree.root, Bool.true_or]
  closed := by
    intro name parent present
    rw [Bool.or_eq_true, Bool.and_eq_true, decide_eq_true_eq] at present
    rcases present with old | ⟨rfl, parentPresent⟩
    · rw [tree.closed name parent old, Bool.true_or]
    · rw [List.tail_cons] at parentPresent
      rw [parentPresent, Bool.true_or]

section Laws

variable {tree : DirectoryTree α} {place target : List α} {steps : List (PathStep α)}

theorem add_present_iff {other : List α} : (tree.add place).present other = true ↔
    tree.present other = true ∨ (other = place ∧ tree.present place.tail = true) := by
  rw [add, Bool.or_eq_true, Bool.and_eq_true, decide_eq_true_eq]

/-- A path leads to a directory when all those on its way are there. -/
theorem follow_eq_here_iff : tree.follow place steps = .here ↔
    ∀ entry ∈ way place steps, tree.present entry = true := by
  induction steps generalizing place with
  | nil => simp [follow, way]
  | cons step rest inductionHypothesis =>
      rw [follow, way, List.forall_mem_append, ← List.all_eq_true]
      by_cases goes : (entered place step).all tree.present = true
      · rw [if_pos goes, inductionHypothesis]
        exact ⟨fun later => ⟨goes, later⟩, And.right⟩
      · rw [if_neg goes]
        constructor
        · intro found
          split at found <;> cases found
        · exact fun all => absurd all.1 goes

/-- The steps behind the last name go into no directory. -/
theorem way_of_empty (closing : steps.all (· = .empty) = true) : way place steps = [] := by
  induction steps generalizing place with
  | nil => rfl
  | cons step rest inductionHypothesis =>
      rw [List.all_cons, Bool.and_eq_true, decide_eq_true_eq] at closing
      rw [closing.1, way, inductionHypothesis closing.2]
      rfl

/-- A directory that a path can create is the only one missing on its way, and
has its parent. -/
theorem follow_absent (present : tree.present place = true)
    (found : tree.follow place steps = .absent target) :
    target ∈ way place steps ∧ tree.present target = false ∧ tree.present target.tail = true ∧
      ∀ entry ∈ way place steps, tree.present entry = true ∨ entry = target := by
  induction steps generalizing place with
  | nil => cases found
  | cons step rest inductionHypothesis =>
      rw [follow] at found
      by_cases goes : (entered place step).all tree.present = true
      · rw [if_pos goes] at found
        rcases inductionHypothesis (present_next present goes) found with
          ⟨member, missing, parent, others⟩
        refine ⟨List.mem_append_right _ member, missing, parent, fun entry inside => ?_⟩
        rcases List.mem_append.mp inside with first | later
        · exact Or.inl (List.all_eq_true.mp goes entry first)
        · exact others entry later
      · rw [if_neg goes] at found
        by_cases closing : rest.all (· = .empty) = true
        · rw [if_pos closing] at found
          cases found
          rcases entered_of_missing goes with ⟨single, missing, parent⟩
          rw [way, single, way_of_empty closing, List.append_nil]
          refine ⟨List.mem_cons_self, missing, ?_, fun entry inside => ?_⟩
          · rw [parent]
            exact present
          · exact Or.inr (List.mem_singleton.mp inside)
        · rw [if_neg closing] at found
          cases found

/-- When a directory that a path can create was created, the path leads to it. -/
theorem follow_add (present : tree.present place = true)
    (found : tree.follow place steps = .absent target) :
    (tree.add target).follow place steps = .here := by
  rcases follow_absent present found with ⟨_, _, parent, others⟩
  rw [follow_eq_here_iff]
  intro entry inside
  rw [add_present_iff]
  rcases others entry inside with old | rfl
  · exact Or.inl old
  · exact Or.inr ⟨rfl, parent⟩

/-- One more step behind a path that leads to a directory does not get lost. -/
theorem follow_concat (step : PathStep α)
    (opens : ∀ entry ∈ way place steps, tree.present entry = true) :
    tree.follow place (steps ++ [step]) ≠ .lost := by
  induction steps generalizing place with
  | nil =>
      rw [List.nil_append, follow]
      split
      · exact fun impossible => nomatch impossible
      · exact fun impossible => nomatch impossible
  | cons first rest inductionHypothesis =>
      rw [way, List.forall_mem_append, ← List.all_eq_true] at opens
      rw [List.cons_append, follow, if_pos opens.1]
      exact inductionHypothesis opens.2

end Laws

end DirectoryTree

/-- A longer path goes into the directories of the shorter one first. -/
theorem way_shorter {α : Type*} (place : List α) (steps more : List (PathStep α)) :
    way place steps <+: way place (steps ++ more) := by
  induction steps generalizing place with
  | nil => exact List.nil_prefix
  | cons step rest inductionHypothesis =>
      rw [List.cons_append, way, way]
      exact (List.prefix_append_right_inj _).mpr (inductionHypothesis _)

/-- A separator at the end goes into no directory. -/
theorem way_concat_empty {α : Type*} (place : List α) (steps : List (PathStep α)) :
    way place (steps ++ [.empty]) = way place steps := by
  induction steps generalizing place with
  | nil => rfl
  | cons step rest inductionHypothesis => rw [List.cons_append, way, way, inductionHypothesis]

end Foundation
end ProtobufMq
