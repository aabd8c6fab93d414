import Mathlib.Data.List.AList

namespace ProtobufMq
namespace Foundation

/-!
# Dictionaries with the update rules of an unordered map

A dictionary is an association list with pairwise distinct keys.  Mathlib's
`AList` supplies lookup, erasure and the overwriting insertion.  An unordered
map also has an insertion that leaves a present key alone, an assignment in
place, a size, and a range of values in an unspecified order; these are defined
here, with the multiset laws by which an element that leaves a dictionary is
accounted for.
-/

/-- A finite map from keys to values. -/
abbrev Dictionary (κ ν : Type*) := AList (fun _ : κ => ν)

namespace Dictionary

variable {κ ν μ : Type*}

/-- The stored values, in the order of iteration. -/
def values (dictionary : Dictionary κ ν) : List ν :=
  dictionary.entries.map (fun entry => entry.2)

/-- The number of stored pairs. -/
def size (dictionary : Dictionary κ ν) : Nat :=
  dictionary.entries.length

@[simp] theorem size_empty : size (∅ : Dictionary κ ν) = 0 := rfl

section

variable [DecidableEq κ]

/-- Insertion that is ignored when the key is present. -/
def insertNew (key : κ) (value : ν) (dictionary : Dictionary κ ν) : Dictionary κ ν :=
  if key ∈ dictionary then dictionary else dictionary.insert key value

theorem insertNew_of_mem {key : κ} {dictionary : Dictionary κ ν} (value : ν)
    (present : key ∈ dictionary) : insertNew key value dictionary = dictionary :=
  if_pos present

theorem insertNew_of_notMem {key : κ} {dictionary : Dictionary κ ν} (value : ν)
    (absent : key ∉ dictionary) :
    insertNew key value dictionary = dictionary.insert key value :=
  if_neg absent

theorem lookup_eq_some_mem {key : κ} {value : ν} {dictionary : Dictionary κ ν}
    (found : dictionary.lookup key = some value) : key ∈ dictionary :=
  AList.lookup_isSome.mp (by rw [found]; rfl)

theorem mem_iff_lookup {key : κ} {dictionary : Dictionary κ ν} :
    key ∈ dictionary ↔ ∃ value, dictionary.lookup key = some value := by
  rw [← AList.lookup_isSome, Option.isSome_iff_exists]

theorem mem_values {value : ν} {dictionary : Dictionary κ ν} :
    value ∈ values dictionary ↔ ∃ key, dictionary.lookup key = some value := by
  rw [values, List.mem_map]
  constructor
  · rintro ⟨⟨key, stored⟩, member, rfl⟩
    exact ⟨key, AList.mem_lookup_iff.mpr member⟩
  · rintro ⟨key, found⟩
    exact ⟨⟨key, value⟩, AList.mem_lookup_iff.mp found, rfl⟩

/-- A dictionary without keys is empty. -/
theorem eq_empty {dictionary : Dictionary κ ν} (nothing : ∀ key, dictionary.lookup key = none) :
    dictionary = ∅ := by
  apply AList.ext
  apply List.eq_nil_iff_forall_not_mem.mpr
  intro entry member
  exact AList.lookup_eq_none.mp (nothing entry.1) (List.mem_map_of_mem member)

theorem lookup_insertNew (key : κ) (value : ν) (dictionary : Dictionary κ ν) (other : κ) :
    (insertNew key value dictionary).lookup other =
      if other = key then some ((dictionary.lookup key).getD value)
      else dictionary.lookup other := by
  by_cases same : other = key
  · subst other
    rw [if_pos rfl]
    by_cases present : key ∈ dictionary
    · rcases mem_iff_lookup.mp present with ⟨stored, found⟩
      rw [insertNew_of_mem value present, found, Option.getD_some]
    · rw [insertNew_of_notMem value present, AList.lookup_insert,
        AList.lookup_eq_none.mpr present, Option.getD_none]
  · rw [if_neg same]
    by_cases present : key ∈ dictionary
    · rw [insertNew_of_mem value present]
    · rw [insertNew_of_notMem value present, AList.lookup_insert_ne same]

theorem mem_insertNew (key : κ) (value : ν) (dictionary : Dictionary κ ν) (other : κ) :
    other ∈ insertNew key value dictionary ↔ other = key ∨ other ∈ dictionary := by
  by_cases present : key ∈ dictionary
  · rw [insertNew_of_mem value present]
    constructor
    · exact Or.inr
    · rintro (same | member)
      · exact same ▸ present
      · exact member
  · rw [insertNew_of_notMem value present, AList.mem_insert]

theorem lookup_insert (key : κ) (value : ν) (dictionary : Dictionary κ ν) (other : κ) :
    (dictionary.insert key value).lookup other =
      if other = key then some value else dictionary.lookup other := by
  by_cases same : other = key
  · subst other
    rw [if_pos rfl, AList.lookup_insert]
  · rw [if_neg same, AList.lookup_insert_ne same]

/-- Give a key a value, in place if it is present. -/
def assign (key : κ) (value : ν) (dictionary : Dictionary κ ν) : Dictionary κ ν :=
  if key ∈ dictionary then dictionary.replace key value else dictionary.insert key value

theorem dlookup_kreplace (key : κ) (value : ν) (entries : List (Sigma fun _ : κ => ν)) (other : κ) :
    (entries.kreplace key value).dlookup other =
      if other = key then (entries.dlookup key).map fun _ => value else entries.dlookup other := by
  induction entries with
  | nil => exact (ite_self _).symm
  | cons entry rest inductionHypothesis =>
      rcases entry with ⟨first, stored⟩
      by_cases same : key = first
      · subst same
        have replaced : List.kreplace key value (⟨key, stored⟩ :: rest) = ⟨key, value⟩ :: rest :=
          List.lookmap_cons_some _ _ (if_pos rfl)
        rw [replaced]
        by_cases equal : other = key
        · subst equal
          simp only [List.dlookup_cons_eq, if_true, Option.map_some]
        · rw [if_neg equal, List.dlookup_cons_ne rest ⟨key, value⟩ equal,
            List.dlookup_cons_ne rest ⟨key, stored⟩ equal]
      · have kept : List.kreplace key value (⟨first, stored⟩ :: rest) =
            ⟨first, stored⟩ :: List.kreplace key value rest :=
          List.lookmap_cons_none _ _ (if_neg same)
        rw [kept, List.dlookup_cons_ne rest ⟨first, stored⟩ same]
        by_cases equal : other = first
        · subst equal
          simp only [List.dlookup_cons_eq, if_neg (Ne.symm same)]
        · rw [List.dlookup_cons_ne (List.kreplace key value rest) ⟨first, stored⟩ equal,
            List.dlookup_cons_ne rest ⟨first, stored⟩ equal, inductionHypothesis]

theorem lookup_assign (key : κ) (value : ν) (dictionary : Dictionary κ ν) (other : κ) :
    (assign key value dictionary).lookup other =
      if other = key then some value else dictionary.lookup other := by
  unfold assign
  by_cases present : key ∈ dictionary
  · rcases mem_iff_lookup.mp present with ⟨stored, found⟩
    have replaced := dlookup_kreplace key value dictionary.entries other
    change _ = if other = key then (dictionary.lookup key).map _ else _ at replaced
    rw [found] at replaced
    rw [if_pos present]
    exact replaced
  · rw [if_neg present, lookup_insert]

/-- Assigning to a key that is there adds no key. -/
theorem mem_assign {key : κ} {dictionary : Dictionary κ ν} (present : key ∈ dictionary) (value : ν)
    (other : κ) : other ∈ assign key value dictionary ↔ other ∈ dictionary := by
  rw [← AList.lookup_isSome, ← AList.lookup_isSome, lookup_assign]
  by_cases same : other = key
  · subst same
    rw [if_pos rfl, Option.isSome_some, AList.lookup_isSome]
    exact ⟨fun _ => present, fun _ => rfl⟩
  · rw [if_neg same]

/-- Assigning the value that is there changes nothing. -/
theorem assign_self {key : κ} {value : ν} {dictionary : Dictionary κ ν}
    (found : dictionary.lookup key = some value) : assign key value dictionary = dictionary := by
  rw [assign, if_pos (lookup_eq_some_mem found)]
  exact AList.ext (List.kreplace_self dictionary.nodupKeys (AList.mem_lookup_iff.mp found))

theorem lookup_erase (key : κ) (dictionary : Dictionary κ ν) (other : κ) :
    (dictionary.erase key).lookup other =
      if other = key then none else dictionary.lookup other := by
  by_cases same : other = key
  · subst other
    rw [if_pos rfl, AList.lookup_erase]
  · rw [if_neg same, AList.lookup_erase_ne same]

theorem values_insert_of_notMem {key : κ} {dictionary : Dictionary κ ν} (value : ν)
    (absent : key ∉ dictionary) :
    values (dictionary.insert key value) = value :: values dictionary := by
  rw [values, AList.entries_insert_of_notMem absent]
  rfl

theorem size_insert_of_notMem {key : κ} {dictionary : Dictionary κ ν} (value : ν)
    (absent : key ∉ dictionary) :
    size (dictionary.insert key value) = size dictionary + 1 := by
  rw [size, AList.entries_insert_of_notMem absent]
  rfl

/-- Erasing a present key takes exactly its value away. -/
theorem values_perm_cons_erase {key : κ} {value : ν} {dictionary : Dictionary κ ν}
    (found : dictionary.lookup key = some value) :
    (values dictionary).Perm (value :: values (dictionary.erase key)) := by
  have member : (⟨key, value⟩ : Sigma fun _ : κ => ν) ∈ dictionary.entries :=
    AList.mem_lookup_iff.mp found
  have keyListed : key ∈ dictionary.entries.keys := List.mem_keys_of_mem member
  rcases List.exists_of_kerase keyListed with ⟨stored, before, after, _, split, erased⟩
  have storedHere : (⟨key, stored⟩ : Sigma fun _ : κ => ν) ∈ dictionary.entries := by
    rw [split]
    exact List.mem_append_right _ List.mem_cons_self
  have sameValue : stored = value := by
    have lookedUp : dictionary.lookup key = some stored := AList.mem_lookup_iff.mpr storedHere
    rw [found] at lookedUp
    exact (Option.some.inj lookedUp).symm
  subst stored
  have erasedEntries : (dictionary.erase key).entries = before ++ after := erased
  rw [values, values, erasedEntries, split, List.map_append, List.map_append, List.map_cons]
  exact List.perm_middle

omit [DecidableEq κ] in
theorem size_eq_length_values (dictionary : Dictionary κ ν) :
    size dictionary = (values dictionary).length :=
  (List.length_map _).symm

theorem size_erase_of_lookup {key : κ} {value : ν} {dictionary : Dictionary κ ν}
    (found : dictionary.lookup key = some value) :
    size dictionary = size (dictionary.erase key) + 1 := by
  rw [size_eq_length_values, (values_perm_cons_erase found).length_eq, List.length_cons,
    ← size_eq_length_values]

/-- A new key that is erased again leaves no trace. -/
theorem erase_insertNew_of_notMem {key : κ} {dictionary : Dictionary κ ν} (value : ν)
    (absent : key ∉ dictionary) : (insertNew key value dictionary).erase key = dictionary := by
  rw [insertNew_of_notMem value absent]
  refine AList.ext ?_
  change List.kerase key (dictionary.insert key value).entries = dictionary.entries
  rw [AList.entries_insert_of_notMem absent]
  exact List.kerase_cons_eq (s := (⟨key, value⟩ : Sigma fun _ : κ => ν)) rfl

/-- Apply a function to every stored pair. -/
def mapValues (f : κ → ν → μ) (dictionary : Dictionary κ ν) : Dictionary κ μ :=
  ⟨dictionary.entries.map (fun entry => ⟨entry.1, f entry.1 entry.2⟩), by
    have keys : (dictionary.entries.map
        (fun entry => (⟨entry.1, f entry.1 entry.2⟩ : Sigma fun _ : κ => μ))).keys =
        dictionary.entries.keys := by
      rw [List.keys, List.keys, List.map_map]
      rfl
    rw [List.NodupKeys, keys]
    exact dictionary.keys_nodup⟩

theorem lookup_mapValues (f : κ → ν → μ) (dictionary : Dictionary κ ν) (key : κ) :
    (mapValues f dictionary).lookup key = (dictionary.lookup key).map (f key) := by
  cases dictionary with
  | mk entries nodup =>
      change (entries.map fun entry =>
          (⟨entry.1, f entry.1 entry.2⟩ : Sigma fun _ : κ => μ)).dlookup key =
        (entries.dlookup key).map (f key)
      clear nodup
      induction entries with
      | nil => rfl
      | cons entry rest inductionHypothesis =>
          rcases entry with ⟨head, value⟩
          by_cases same : key = head
          · subst head
            rw [List.map_cons, List.dlookup_cons_eq, List.dlookup_cons_eq, Option.map_some]
          · rw [List.map_cons, List.dlookup_cons_ne _ _ same,
              List.dlookup_cons_ne _ _ same, inductionHypothesis]

theorem mem_mapValues (f : κ → ν → μ) (dictionary : Dictionary κ ν) (key : κ) :
    key ∈ mapValues f dictionary ↔ key ∈ dictionary := by
  rw [← AList.lookup_isSome, ← AList.lookup_isSome, lookup_mapValues, Option.isSome_map]

end

end Dictionary

end Foundation
end ProtobufMq
