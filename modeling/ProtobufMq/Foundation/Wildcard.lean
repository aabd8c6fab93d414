import Mathlib.Data.List.Basic

namespace ProtobufMq
namespace Foundation

/-!
# Patterns with wildcards

A pattern is a list of pieces, each of which stands for one given item, for one
arbitrary item, or for any number of items.  Matching is defined from the left,
as patterns are read; a program that fills a table works on prefixes, and so
extends both the pattern and the items at the right end.  The rules for the
right end are derived from the one about a pattern in two parts.
-/

variable {α : Type*}

/-- A piece of a pattern. -/
inductive Piece (α : Type*) where
  | exactly (item : α)
  | one
  | many
  deriving DecidableEq, Repr

/-- A list of items matches a pattern. -/
inductive Matches : List (Piece α) → List α → Prop where
  | nil : Matches [] []
  | exactly {item : α} {pattern : List (Piece α)} {items : List α}
      (rest : Matches pattern items) : Matches (.exactly item :: pattern) (item :: items)
  | one {item : α} {pattern : List (Piece α)} {items : List α}
      (rest : Matches pattern items) : Matches (.one :: pattern) (item :: items)
  | done {pattern : List (Piece α)} {items : List α}
      (rest : Matches pattern items) : Matches (.many :: pattern) items
  | more {item : α} {pattern : List (Piece α)} {items : List α}
      (rest : Matches (.many :: pattern) items) : Matches (.many :: pattern) (item :: items)

namespace Matches

variable {pattern first second : List (Piece α)} {piece : Piece α} {items : List α} {item : α}

/-- Many items are a stretch of items before what matches the rest. -/
theorem many_cons_iff : Matches (.many :: pattern) items ↔
    ∃ skipped rest, items = skipped ++ rest ∧ Matches pattern rest := by
  constructor
  · intro matched
    induction items with
    | nil =>
        cases matched with
        | done rest => exact ⟨[], [], rfl, rest⟩
    | cons item items inductionHypothesis =>
        cases matched with
        | done rest => exact ⟨[], item :: items, rfl, rest⟩
        | more rest =>
            rcases inductionHypothesis rest with ⟨skipped, left, split, matched⟩
            exact ⟨item :: skipped, left, congrArg (List.cons item) split, matched⟩
  · rintro ⟨skipped, rest, rfl, matched⟩
    induction skipped with
    | nil => exact .done matched
    | cons item skipped inductionHypothesis => exact .more inductionHypothesis

/-- A pattern in two parts matches items in two parts. -/
theorem append_iff : Matches (first ++ second) items ↔
    ∃ before after, items = before ++ after ∧ Matches first before ∧ Matches second after := by
  constructor
  · intro matched
    induction first generalizing items with
    | nil => exact ⟨[], items, rfl, .nil, matched⟩
    | cons piece first inductionHypothesis =>
        cases piece with
        | exactly given =>
            cases matched with
            | exactly rest =>
                rcases inductionHypothesis rest with ⟨before, after, rfl, left, right⟩
                exact ⟨given :: before, after, rfl, .exactly left, right⟩
        | one =>
            cases matched with
            | @one item _ _ rest =>
                rcases inductionHypothesis rest with ⟨before, after, rfl, left, right⟩
                exact ⟨item :: before, after, rfl, .one left, right⟩
        | many =>
            rcases many_cons_iff.mp matched with ⟨skipped, rest, rfl, later⟩
            rcases inductionHypothesis later with ⟨before, after, rfl, left, right⟩
            exact ⟨skipped ++ before, after, (List.append_assoc _ _ _).symm,
              many_cons_iff.mpr ⟨skipped, before, rfl, left⟩, right⟩
  · rintro ⟨before, after, rfl, left, right⟩
    induction left with
    | nil => exact right
    | exactly _ inductionHypothesis => exact .exactly inductionHypothesis
    | one _ inductionHypothesis => exact .one inductionHypothesis
    | done _ inductionHypothesis => exact .done inductionHypothesis
    | more _ inductionHypothesis => exact .more inductionHypothesis

theorem nil_iff : Matches ([] : List (Piece α)) items ↔ items = [] := by
  constructor
  · intro matched
    cases matched
    rfl
  · rintro rfl
    exact .nil

/-- Many items are any items. -/
theorem many_all (items : List α) : Matches [.many] items :=
  many_cons_iff.mpr ⟨items, [], (List.append_nil items).symm, .nil⟩

/-- Nothing matches nothing but pieces that stand for any number. -/
theorem cons_nil_iff : Matches (piece :: pattern) ([] : List α) ↔
    piece = .many ∧ Matches pattern ([] : List α) := by
  constructor
  · intro matched
    cases matched with
    | done rest => exact ⟨rfl, rest⟩
  · rintro ⟨rfl, rest⟩
    exact .done rest

/-! ## The right end -/

theorem concat_nil_iff : Matches (pattern ++ [piece]) ([] : List α) ↔
    piece = .many ∧ Matches pattern ([] : List α) := by
  rw [append_iff]
  constructor
  · rintro ⟨before, after, split, left, right⟩
    rcases List.append_eq_nil_iff.mp split.symm with ⟨rfl, rfl⟩
    exact ⟨(cons_nil_iff.mp right).1, left⟩
  · rintro ⟨rfl, left⟩
    exact ⟨[], [], rfl, left, .done .nil⟩

theorem concat_exactly_iff {given : α} :
    Matches (pattern ++ [.exactly given]) (items ++ [item]) ↔
      given = item ∧ Matches pattern items := by
  rw [append_iff]
  constructor
  · rintro ⟨before, after, split, left, right⟩
    cases right with
    | exactly rest =>
        cases nil_iff.mp rest
        rcases List.append_inj' split rfl with ⟨rfl, same⟩
        exact ⟨(List.singleton_inj.mp same).symm, left⟩
  · rintro ⟨rfl, left⟩
    exact ⟨items, [given], rfl, left, .exactly .nil⟩

theorem concat_one_iff :
    Matches (pattern ++ [.one]) (items ++ [item]) ↔ Matches pattern items := by
  rw [append_iff]
  constructor
  · rintro ⟨before, after, split, left, right⟩
    cases right with
    | one rest =>
        cases nil_iff.mp rest
        rcases List.append_inj' split rfl with ⟨rfl, _⟩
        exact left
  · intro left
    exact ⟨items, [item], rfl, left, .one .nil⟩

/-- The last of many items, or none of them. -/
theorem concat_many_iff : Matches (pattern ++ [.many]) (items ++ [item]) ↔
    Matches pattern (items ++ [item]) ∨ Matches (pattern ++ [.many]) items := by
  constructor
  · rw [append_iff, append_iff]
    rintro ⟨before, after, split, left, _⟩
    rcases List.eq_nil_or_concat after with rfl | ⟨rest, last, rfl⟩
    · rw [List.append_nil] at split
      exact Or.inl (split ▸ left)
    · rw [List.concat_eq_append, ← List.append_assoc] at split
      rcases List.append_inj' split rfl with ⟨rfl, _⟩
      exact Or.inr ⟨before, rest, rfl, left, many_all rest⟩
  · rintro (left | shorter)
    · exact append_iff.mpr ⟨_, [], (List.append_nil _).symm, left, .done .nil⟩
    · rcases append_iff.mp shorter with ⟨before, after, rfl, left, _⟩
      exact append_iff.mpr ⟨before, after ++ [item], List.append_assoc _ _ _, left, many_all _⟩

end Matches

end Foundation
end ProtobufMq
