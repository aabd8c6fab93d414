import ProtobufMq.Foundation.Dictionary

namespace ProtobufMq
namespace Foundation

/-!
# A table beside a map

Some of the entries of a map are also kept as rows of a table.  The table
mirrors the map when its rows are exactly the rows of the entries to be kept.
An entry that comes or goes together with its row, or that has none, leaves the
two in step, provided that a new entry replaces nothing.
-/

variable {κ ν ρ : Type*} [DecidableEq κ]

/-- The rows are those of the entries that are to be kept. -/
def Mirrors (kept : ν → Prop) (encode : ν → ρ) (entries : Dictionary κ ν)
    (table : Dictionary κ ρ) : Prop :=
  ∀ key row, table.lookup key = some row ↔
    ∃ value, entries.lookup key = some value ∧ kept value ∧ encode value = row

namespace Mirrors

variable {kept : ν → Prop} {encode : ν → ρ} {entries : Dictionary κ ν} {table : Dictionary κ ρ}
  {key : κ} {value : ν}

theorem empty (kept : ν → Prop) (encode : ν → ρ) :
    Mirrors kept encode (∅ : Dictionary κ ν) (∅ : Dictionary κ ρ) := by
  intro key row
  constructor
  · intro stored
    cases stored
  · rintro ⟨value, found, _⟩
    cases found

/-- Only keys of the map have rows. -/
theorem lookup_none (mirrors : Mirrors kept encode entries table)
    (absent : entries.lookup key = none) : table.lookup key = none := by
  cases stored : table.lookup key with
  | none => rfl
  | some row =>
      rcases (mirrors key row).mp stored with ⟨value, found, _⟩
      rw [absent] at found
      cases found

/-- An entry that is not kept has no row. -/
theorem lookup_unkept (mirrors : Mirrors kept encode entries table)
    (found : entries.lookup key = some value) (unkept : ¬ kept value) :
    table.lookup key = none := by
  cases stored : table.lookup key with
  | none => rfl
  | some row =>
      rcases (mirrors key row).mp stored with ⟨other, otherFound, otherKept, _⟩
      cases found.symm.trans otherFound
      exact absurd otherKept unkept

/-- An entry comes with its row. -/
theorem insert (mirrors : Mirrors kept encode entries table) (keeps : kept value) :
    Mirrors kept encode (entries.insert key value) (table.insert key (encode value)) := by
  intro other row
  rw [Dictionary.lookup_insert, Dictionary.lookup_insert]
  by_cases same : other = key
  · simp [same, keeps]
  · simp only [same, if_false]
    exact mirrors other row

/-- An entry that is not kept comes without a row. -/
theorem insert_unkept (mirrors : Mirrors kept encode entries table)
    (absent : entries.lookup key = none) (unkept : ¬ kept value) :
    Mirrors kept encode (entries.insert key value) table := by
  intro other row
  rw [Dictionary.lookup_insert]
  by_cases same : other = key
  · subst same
    simp [unkept, mirrors.lookup_none absent]
  · simp only [same, if_false]
    exact mirrors other row

/-- An entry goes with its row. -/
theorem erase (mirrors : Mirrors kept encode entries table) (key : κ) :
    Mirrors kept encode (entries.erase key) (table.erase key) := by
  intro other row
  rw [Dictionary.lookup_erase, Dictionary.lookup_erase]
  by_cases same : other = key
  · simp [same]
  · simp only [same, if_false]
    exact mirrors other row

/-- An entry that is not kept goes alone. -/
theorem erase_unkept (mirrors : Mirrors kept encode entries table)
    (found : entries.lookup key = some value) (unkept : ¬ kept value) :
    Mirrors kept encode (entries.erase key) table := by
  intro other row
  rw [Dictionary.lookup_erase]
  by_cases same : other = key
  · subst same
    simp [mirrors.lookup_unkept found unkept]
  · simp only [same, if_false]
    exact mirrors other row

end Mirrors

end Foundation
end ProtobufMq
