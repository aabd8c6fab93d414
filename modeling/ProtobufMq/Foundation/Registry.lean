import ProtobufMq.Foundation.Dictionary

namespace ProtobufMq
namespace Foundation

/-!
# Named objects that outlive their names

A registry gives names to shared objects.  A thread that has looked a name up
keeps a reference to the object, and works on it even after the name was taken
away or given to another object; so the objects are kept in the order of their
creation, and a reference is a position in that list.

Only registered objects have names, and no object has two.
-/

/-- Objects with references, some of which have a name. -/
structure Registry (κ ν : Type*) [DecidableEq κ] where
  names : Dictionary κ Nat
  objects : List ν
  bound : ∀ name reference, names.lookup name = some reference → reference < objects.length
  single : ∀ first second reference, names.lookup first = some reference →
    names.lookup second = some reference → first = second

namespace Registry

variable {κ ν : Type*} [DecidableEq κ]

/-- No objects at all. -/
def empty : Registry κ ν :=
  ⟨∅, [], fun _ _ found => (nomatch found), fun _ _ _ found => (nomatch found)⟩

/-- The reference a name stands for. -/
def find (registry : Registry κ ν) (name : κ) : Option Nat :=
  registry.names.lookup name

/-- The object behind a reference. -/
def object (registry : Registry κ ν) (reference : Nat) : Option ν :=
  registry.objects[reference]?

/-- The object that a name stands for. -/
def select (registry : Registry κ ν) (name : κ) : Option ν :=
  (registry.find name).bind registry.object

/-- The reference that the next object will get. -/
def next (registry : Registry κ ν) : Nat :=
  registry.objects.length

/-- Create an object under a name. -/
def register (registry : Registry κ ν) (name : κ) (value : ν) : Registry κ ν where
  names := registry.names.insert name registry.next
  objects := registry.objects ++ [value]
  bound := by
    intro other reference found
    rw [List.length_append, List.length_singleton]
    rw [Dictionary.lookup_insert] at found
    by_cases same : other = name
    · rw [if_pos same] at found
      cases found
      exact Nat.lt_succ_self _
    · rw [if_neg same] at found
      exact Nat.lt_succ_of_lt (registry.bound other reference found)
  single := by
    intro first second reference firstFound secondFound
    rw [Dictionary.lookup_insert] at firstFound secondFound
    by_cases firstSame : first = name
    · by_cases secondSame : second = name
      · exact firstSame.trans secondSame.symm
      · rw [if_pos firstSame] at firstFound
        rw [if_neg secondSame] at secondFound
        cases firstFound
        exact absurd (registry.bound second _ secondFound) (Nat.lt_irrefl _)
    · by_cases secondSame : second = name
      · rw [if_neg firstSame] at firstFound
        rw [if_pos secondSame] at secondFound
        cases secondFound
        exact absurd (registry.bound first _ firstFound) (Nat.lt_irrefl _)
      · rw [if_neg firstSame] at firstFound
        rw [if_neg secondSame] at secondFound
        exact registry.single first second reference firstFound secondFound

/-- Take a name away.  The object stays for those who hold a reference. -/
def unregister (registry : Registry κ ν) (name : κ) : Registry κ ν where
  names := registry.names.erase name
  objects := registry.objects
  bound := by
    intro other reference found
    rw [Dictionary.lookup_erase] at found
    by_cases same : other = name
    · rw [if_pos same] at found
      cases found
    · rw [if_neg same] at found
      exact registry.bound other reference found
  single := by
    intro first second reference firstFound secondFound
    rw [Dictionary.lookup_erase] at firstFound secondFound
    by_cases firstSame : first = name
    · rw [if_pos firstSame] at firstFound
      cases firstFound
    · by_cases secondSame : second = name
      · rw [if_pos secondSame] at secondFound
        cases secondFound
      · rw [if_neg firstSame] at firstFound
        rw [if_neg secondSame] at secondFound
        exact registry.single first second reference firstFound secondFound

/-- Change the object behind a reference. -/
def update (registry : Registry κ ν) (reference : Nat) (value : ν) : Registry κ ν where
  names := registry.names
  objects := registry.objects.set reference value
  bound := by
    intro name other found
    rw [List.length_set]
    exact registry.bound name other found
  single := registry.single

/-! ## Looking up -/

/-- What a name stands for is there. -/
theorem object_of_find {registry : Registry κ ν} {name : κ} {reference : Nat}
    (found : registry.find name = some reference) :
    ∃ value, registry.object reference = some value :=
  ⟨_, List.getElem?_eq_getElem (registry.bound name reference found)⟩

theorem object_lt {registry : Registry κ ν} {reference : Nat} {value : ν}
    (there : registry.object reference = some value) : reference < registry.next :=
  (List.getElem?_eq_some_iff.mp there).1

theorem select_of_find {registry : Registry κ ν} {name : κ} {reference : Nat}
    (found : registry.find name = some reference) :
    registry.select name = registry.object reference := by
  rw [select, found]
  rfl

theorem select_eq_some {registry : Registry κ ν} {name : κ} {value : ν} :
    registry.select name = some value ↔
      ∃ reference, registry.find name = some reference ∧
        registry.object reference = some value := by
  rw [select, Option.bind_eq_some_iff]

/-- A name without an object has no reference. -/
theorem select_eq_none {registry : Registry κ ν} {name : κ} :
    registry.select name = none ↔ registry.find name = none := by
  constructor
  · intro nothing
    cases found : registry.find name with
    | none => rfl
    | some reference =>
        rcases object_of_find found with ⟨value, there⟩
        rw [select_of_find found, there] at nothing
        cases nothing
  · intro nothing
    rw [select, nothing]
    rfl

/-! ## After a change -/

section Changes

variable {registry : Registry κ ν} {name : κ} {reference : Nat} {value : ν}

theorem find_register (registry : Registry κ ν) (name : κ) (value : ν) (other : κ) :
    (registry.register name value).find other =
      if other = name then some registry.next else registry.find other :=
  Dictionary.lookup_insert ..

/-- The objects that were there are still behind their references. -/
theorem object_register (registry : Registry κ ν) (name : κ) (value : ν) (reference : Nat) :
    (registry.register name value).object reference =
      if reference = registry.next then some value else registry.object reference := by
  change (registry.objects ++ [value])[reference]? = _
  by_cases last : reference = registry.next
  · rw [if_pos last, last, next, List.getElem?_append_right (Nat.le_refl _), Nat.sub_self]
    rfl
  · rw [if_neg last]
    by_cases within : reference < registry.objects.length
    · exact List.getElem?_append_left within
    · have beyond : registry.objects.length + 1 ≤ reference := by
        have distinct : reference ≠ registry.objects.length := last
        omega
      rw [object, List.getElem?_eq_none (by rw [List.length_append]; exact beyond),
        List.getElem?_eq_none (Nat.le_of_succ_le beyond)]

theorem select_register (registry : Registry κ ν) (name : κ) (value : ν) (other : κ) :
    (registry.register name value).select other =
      if other = name then some value else registry.select other := by
  by_cases same : other = name
  · have found : (registry.register name value).find other = some registry.next := by
      rw [find_register, if_pos same]
    rw [if_pos same, select_of_find found, object_register, if_pos rfl]
  · have lookup : (registry.register name value).find other = registry.find other := by
      rw [find_register, if_neg same]
    rw [if_neg same]
    cases found : registry.find other with
    | none =>
        rw [select_eq_none.mpr found]
        exact select_eq_none.mpr (lookup.trans found)
    | some reference =>
        have old : reference ≠ registry.next := Nat.ne_of_lt (registry.bound other reference found)
        rw [select_of_find found, select_of_find (lookup.trans found), object_register,
          if_neg old]

theorem find_unregister (registry : Registry κ ν) (name other : κ) :
    (registry.unregister name).find other =
      if other = name then none else registry.find other :=
  Dictionary.lookup_erase ..

theorem select_unregister (registry : Registry κ ν) (name other : κ) :
    (registry.unregister name).select other =
      if other = name then none else registry.select other := by
  rw [select, find_unregister]
  by_cases same : other = name
  · rw [if_pos same, if_pos same]
    rfl
  · rw [if_neg same, if_neg same]
    rfl

@[simp] theorem find_update (registry : Registry κ ν) (reference : Nat) (value : ν) (name : κ) :
    (registry.update reference value).find name = registry.find name := rfl

theorem object_update (registry : Registry κ ν) (reference : Nat) (value : ν) (other : Nat) :
    (registry.update reference value).object other =
      if other = reference then (registry.object reference).map fun _ => value
      else registry.object other := by
  change (registry.objects.set reference value)[other]? = _
  by_cases same : other = reference
  · subst other
    rw [if_pos rfl, List.getElem?_set_self']
    rfl
  · rw [if_neg same]
    exact List.getElem?_set_ne (Ne.symm same)

/-- Writing an object back changes nothing. -/
theorem update_same {registry : Registry κ ν} {reference : Nat} {value : ν}
    (there : registry.object reference = some value) :
    registry.update reference value = registry := by
  have objects : registry.objects.set reference value = registry.objects := by
    rcases List.getElem?_eq_some_iff.mp there with ⟨within, same⟩
    rw [← same, List.set_getElem_self]
  exact (Registry.mk.injEq ..).mpr ⟨rfl, objects⟩

/-- Changes of two objects may be made in either order. -/
theorem update_comm (registry : Registry κ ν) {first second : Nat} (distinct : first ≠ second)
    (value other : ν) :
    (registry.update first value).update second other =
      (registry.update second other).update first value := by
  simp only [update, List.set_comm _ _ distinct]

/-- Only the name of the changed object stands for something else. -/
theorem select_update (found : registry.find name = some reference) (value : ν) (other : κ) :
    (registry.update reference value).select other =
      if other = name then some value else registry.select other := by
  have lookup := registry.find_update reference value other
  by_cases same : other = name
  · rcases object_of_find found with ⟨stored, there⟩
    rw [if_pos same, same, select_of_find ((registry.find_update reference value name).trans found),
      object_update, if_pos rfl, there]
    rfl
  · rw [if_neg same]
    cases otherFound : registry.find other with
    | none =>
        rw [select_eq_none.mpr otherFound]
        exact select_eq_none.mpr (lookup.trans otherFound)
    | some otherReference =>
        have distinct : otherReference ≠ reference := by
          intro equal
          rw [equal] at otherFound
          exact same (registry.single other name reference otherFound found)
        rw [select_of_find otherFound, select_of_find (lookup.trans otherFound), object_update,
          if_neg distinct]

end Changes

/-! ## Objects over time -/

/-- Every object of the first registry is behind its reference in the second one
and has followed on from what it was; the other objects are fresh. -/
structure Evolves (follows : ν → ν → Prop) (fresh : ν → Prop) (registry later : Registry κ ν) :
    Prop where
  kept : ∀ reference value, registry.object reference = some value →
    ∃ next, later.object reference = some next ∧ follows value next
  new : ∀ reference next, later.object reference = some next →
    (∃ value, registry.object reference = some value) ∨ fresh next

section Evolving

variable {follows : ν → ν → Prop} {fresh : ν → Prop} {registry second third : Registry κ ν}

theorem evolves_refl (still : ∀ value, follows value value) (registry : Registry κ ν) :
    registry.Evolves follows fresh registry :=
  ⟨fun _ value there => ⟨value, there, still value⟩, fun _ next there => Or.inl ⟨next, there⟩⟩

theorem Evolves.trans
    (onward : ∀ value next last, follows value next → follows next last → follows value last)
    (stays : ∀ value next, fresh value → follows value next → fresh next)
    (earlier : registry.Evolves follows fresh second) (later : second.Evolves follows fresh third) :
    registry.Evolves follows fresh third := by
  refine ⟨?_, ?_⟩
  · intro reference value there
    rcases earlier.kept reference value there with ⟨next, nextThere, first⟩
    rcases later.kept reference next nextThere with ⟨last, lastThere, second⟩
    exact ⟨last, lastThere, onward value next last first second⟩
  · intro reference last lastThere
    rcases later.new reference last lastThere with ⟨next, nextThere⟩ | young
    · rcases earlier.new reference next nextThere with old | young
      · exact Or.inl old
      · rcases later.kept reference next nextThere with ⟨other, otherThere, followed⟩
        cases otherThere.symm.trans lastThere
        exact Or.inr (stays next _ young followed)
    · exact Or.inr young

/-- A new object is fresh. -/
theorem evolves_register (still : ∀ value, follows value value) (registry : Registry κ ν)
    (name : κ) {value : ν} (young : fresh value) :
    registry.Evolves follows fresh (registry.register name value) := by
  refine ⟨?_, ?_⟩
  · intro reference stored there
    refine ⟨stored, ?_, still stored⟩
    rw [object_register, if_neg (Nat.ne_of_lt (object_lt there)), there]
  · intro reference next there
    rw [object_register] at there
    by_cases last : reference = registry.next
    · rw [if_pos last] at there
      cases there
      exact Or.inr young
    · rw [if_neg last] at there
      exact Or.inl ⟨next, there⟩

/-- A name may go without its object. -/
theorem evolves_unregister (still : ∀ value, follows value value) (registry : Registry κ ν)
    (name : κ) : registry.Evolves follows fresh (registry.unregister name) :=
  ⟨fun _ value there => ⟨value, there, still value⟩, fun _ next there => Or.inl ⟨next, there⟩⟩

/-- An object may be changed to one that follows it. -/
theorem evolves_update (still : ∀ value, follows value value) {reference : Nat} {value next : ν}
    (there : registry.object reference = some value) (followed : follows value next) :
    registry.Evolves follows fresh (registry.update reference next) := by
  refine ⟨?_, ?_⟩
  · intro other stored otherThere
    by_cases same : other = reference
    · subst same
      cases there.symm.trans otherThere
      refine ⟨next, ?_, followed⟩
      rw [object_update, if_pos rfl, there]
      rfl
    · exact ⟨stored, by rw [object_update, if_neg same, otherThere], still stored⟩
  · intro other later otherThere
    rw [object_update] at otherThere
    by_cases same : other = reference
    · exact Or.inl ⟨value, same ▸ there⟩
    · rw [if_neg same] at otherThere
      exact Or.inl ⟨later, otherThere⟩

end Evolving

end Registry

end Foundation
end ProtobufMq
