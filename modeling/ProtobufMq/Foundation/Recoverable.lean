import Mathlib.Logic.Function.Basic
import ProtobufMq.Foundation.Dictionary

namespace ProtobufMq
namespace Foundation

/-!
# What is there, and what a restart brings back

A program keeps some of what it holds in a place that outlives it.  A recoverable
map says of every key what the program has under it, and what the program will
have under it after it was started again.  The two may differ: an entry may be
only in one of them, or come back changed.
-/

/-- A map, and what a restart makes of it. -/
@[ext] structure Recoverable (κ ν : Type*) where
  current : κ → Option ν
  lasting : κ → Option ν

namespace Recoverable

variable {κ ν ρ : Type*}

/-- Nothing is there, and nothing comes back. -/
def empty : Recoverable κ ν :=
  ⟨fun _ => none, fun _ => none⟩

/-- Give a key a value, and say what it will have later if that is open. -/
def enter [DecidableEq κ] (store : Recoverable κ ν) (key : κ) (value : ν) (later : Option ν) :
    Recoverable κ ν :=
  ⟨Function.update store.current key (some value),
    Function.update store.lasting key ((store.lasting key).or later)⟩

/-- Take the selected keys out, for good or until a restart. -/
def remove (store : Recoverable κ ν) (selects : κ → Bool) (lastingly : Bool) : Recoverable κ ν :=
  ⟨fun key => if selects key then none else store.current key,
    fun key => if lastingly && selects key then none else store.lasting key⟩

/-- Start again. -/
def restart (store : Recoverable κ ν) : Recoverable κ ν :=
  ⟨store.lasting, store.lasting⟩

section Laws

variable (store : Recoverable κ ν)

/-- An entry that does not last changes nothing of what comes back. -/
theorem enter_none [DecidableEq κ] (key : κ) (value : ν) :
    store.enter key value none = ⟨Function.update store.current key (some value), store.lasting⟩ := by
  rw [enter, Option.or_none, Function.update_eq_self]

theorem enter_some [DecidableEq κ] {key : κ} (free : store.lasting key = none) (value later : ν) :
    store.enter key value (some later) = ⟨Function.update store.current key (some value),
      Function.update store.lasting key (some later)⟩ := by
  rw [enter, free, Option.none_or]

/-- A removal that is not for good changes nothing of what comes back. -/
theorem remove_briefly (selects : κ → Bool) : store.remove selects false =
    ⟨fun key => if selects key then none else store.current key, store.lasting⟩ := by
  unfold remove
  simp only [Bool.false_and, Bool.false_eq_true, if_false]

end Laws

/-! ## A map beside a table -/

/-- A map in memory, and a table whose rows a restart makes into a map. -/
def ofTable [DecidableEq κ] (decode : κ → ρ → ν) (entries : Dictionary κ ν)
    (table : Dictionary κ ρ) : Recoverable κ ν :=
  ⟨fun key => entries.lookup key, fun key => (table.lookup key).map (decode key)⟩

section Tables

variable [DecidableEq κ] (decode : κ → ρ → ν) (entries : Dictionary κ ν) (table : Dictionary κ ρ)

theorem current_insert (key : κ) (value : ν) :
    (ofTable decode (entries.insert key value) table).current =
      Function.update (ofTable decode entries table).current key (some value) := by
  funext other
  rw [Function.update_apply]
  exact Dictionary.lookup_insert key value entries other

theorem current_erase (key : κ) : (ofTable decode (entries.erase key) table).current =
    fun other => if decide (other = key) = true then none
      else (ofTable decode entries table).current other := by
  funext other
  simp only [decide_eq_true_eq]
  exact Dictionary.lookup_erase key entries other

/-- An entry comes without a row. -/
theorem ofTable_insert (key : κ) (value : ν) : ofTable decode (entries.insert key value) table =
    (ofTable decode entries table).enter key value none := by
  rw [enter_none]
  ext1
  · exact current_insert decode entries table key value
  · rfl

/-- An entry comes with its row. -/
theorem ofTable_insert_row {key : κ} (free : key ∉ table) (value : ν) (row : ρ) :
    ofTable decode (entries.insert key value) (table.insert key row) =
      (ofTable decode entries table).enter key value (some (decode key row)) := by
  have unstored : (ofTable decode entries table).lasting key = none :=
    Option.map_eq_none_iff.mpr (AList.lookup_eq_none.mpr free)
  rw [enter_some _ unstored]
  ext1
  · exact current_insert decode entries table key value
  · funext other
    simp only [ofTable, Dictionary.lookup_insert, Function.update_apply]
    by_cases same : other = key
    · rw [if_pos same, if_pos same, same, Option.map_some]
    · rw [if_neg same, if_neg same]

/-- An entry goes, and its row stays. -/
theorem ofTable_erase (key : κ) : ofTable decode (entries.erase key) table =
    (ofTable decode entries table).remove (· = key) false := by
  rw [remove_briefly]
  ext1
  · exact current_erase decode entries table key
  · rfl

/-- An entry goes with its row. -/
theorem ofTable_erase_row (key : κ) : ofTable decode (entries.erase key) (table.erase key) =
    (ofTable decode entries table).remove (· = key) true := by
  ext1
  · exact current_erase decode entries table key
  · funext other
    simp only [ofTable, remove, Dictionary.lookup_erase, Bool.true_and, decide_eq_true_eq]
    by_cases same : other = key
    · rw [if_pos same, if_pos same, Option.map_none]
    · rw [if_neg same, if_neg same]

/-- An entry goes that has no row. -/
theorem ofTable_erase_unstored {key : κ} (unstored : key ∉ table) :
    ofTable decode (entries.erase key) table =
      (ofTable decode entries table).remove (· = key) true := by
  have same : table.erase key = table :=
    AList.ext (List.kerase_of_notMem_keys (AList.mem_keys.not.mp unstored))
  rw [← ofTable_erase_row, same]

/-- The map that is made of the rows is what lasts. -/
theorem ofTable_restart : ofTable decode (Dictionary.mapValues decode table) table =
    (ofTable decode entries table).restart := by
  ext1
  · funext key
    exact Dictionary.lookup_mapValues decode table key
  · rfl

end Tables

end Recoverable

end Foundation
end ProtobufMq
