import ProtobufMq.Common.Msg
import ProtobufMq.Common.SplitHelper
import ProtobufMq.Foundation.Dictionary

namespace ProtobufMq

open Foundation

/-!
# The args of an exchange or a queue

`Exchange` and `MsgQueue` have the same two functions, by which their args go
into a column of the database as text and come back.
-/

/-- `google::protobuf::Map<std::string, std::string>`. -/
abbrev Args := Dictionary Bytes Bytes

namespace Args

/-- `getArgs`: `key=val&key=val&`, in the order of iteration. -/
def getArgs (args : Args) : Bytes :=
  args.entries.flatMap fun entry => entry.1 ++ ascii "=" ++ entry.2 ++ ascii "&"

/-- One turn of the loop of `setArgs`.  Without a `=` the position is `npos`,
so that the key is the whole piece and, since `npos + 1` is zero, the value is
too. -/
def setArg (args : Args) (piece : Bytes) : Args :=
  match find (ascii "=") piece with
  | some pos => args.insert (piece.take pos) (piece.drop (pos + 1))
  | none => args.insert piece piece

/-- `setArgs`. -/
def setArgs (args : Args) (text : Bytes) : Args :=
  (split text (ascii "&")).foldl setArg args

/-! ## Which args survive the text -/

/-- What separates a key from its value. -/
def equals : UInt8 := UInt8.ofNat '='.toNat

/-- What stands after each value. -/
def ampersand : UInt8 := UInt8.ofNat '&'.toNat

/-- An entry can be told apart from its neighbours and its key from its value. -/
def SafeEntry (key value : Bytes) : Prop :=
  equals ∉ key ∧ ampersand ∉ key ∧ ampersand ∉ value

/-- Two maps with the same values. -/
def Same (first second : Args) : Prop :=
  ∀ key, first.lookup key = second.lookup key

/-- All entries are safe. -/
def Safe (args : Args) : Prop :=
  ∀ key value, args.lookup key = some value → SafeEntry key value

/-- The text of an entry, without the mark of its end. -/
def piece (entry : Sigma fun _ : Bytes => Bytes) : Bytes :=
  entry.1 ++ equals :: entry.2

theorem getArgs_eq (args : Args) :
    args.getArgs = (args.entries.map piece).flatMap fun piece => piece ++ [ampersand] := by
  rw [getArgs, List.flatMap_map]
  apply List.flatMap_congr
  intro entry _
  rw [piece, List.append_assoc, List.append_assoc, List.append_assoc]
  rfl

/-- A safe entry is read back from its text. -/
theorem setArg_piece {entry : Sigma fun _ : Bytes => Bytes} (safe : equals ∉ entry.1)
    (args : Args) : setArg args (piece entry) = args.insert entry.1 entry.2 := by
  have found : find (ascii "=") (piece entry) = some entry.1.length := find_append safe entry.2
  have key : (piece entry).take entry.1.length = entry.1 := List.take_left
  have value : (piece entry).drop (entry.1.length + 1) = entry.2 := by
    rw [piece, ← List.drop_drop, List.drop_left]
    rfl
  rw [setArg, found]
  simp only [key, value]

/-- Entries with different keys, put in one after another, are all there. -/
theorem lookup_foldl_insert (entries : List (Sigma fun _ : Bytes => Bytes)) (args : Args)
    (distinct : entries.NodupKeys) (key : Bytes) :
    (entries.foldl (fun args entry => args.insert entry.1 entry.2) args).lookup key =
      (entries.dlookup key).or (args.lookup key) := by
  induction entries generalizing args with
  | nil => rfl
  | cons entry rest inductionHypothesis =>
      rcases entry with ⟨first, value⟩
      rw [List.nodupKeys_cons] at distinct
      rw [List.foldl_cons, inductionHypothesis _ distinct.2, Dictionary.lookup_insert]
      by_cases same : key = first
      · subst same
        rw [if_pos rfl, List.dlookup_cons_eq, List.dlookup_eq_none.mpr distinct.1,
          Option.none_or, Option.some_or]
      · rw [if_neg same, List.dlookup_cons_ne _ _ same]

/-- Safe args are read back. -/
theorem lookup_setArgs_getArgs {args : Args} (safe : args.Safe) (key : Bytes) :
    (setArgs ∅ args.getArgs).lookup key = args.lookup key := by
  have entries : ∀ entry ∈ args.entries, SafeEntry entry.1 entry.2 := fun entry member =>
    safe entry.1 entry.2 (AList.mem_lookup_iff.mpr member)
  have absent : ∀ text ∈ args.entries.map piece, ampersand ∉ text := by
    intro text member
    rcases List.mem_map.mp member with ⟨entry, listed, rfl⟩
    rcases entries entry listed with ⟨_, key, value⟩
    rw [piece, List.mem_append, List.mem_cons]
    rintro (inKey | same | inValue)
    · exact key inKey
    · exact absurd same (by decide)
    · exact value inValue
  have nonempty : ∀ text ∈ args.entries.map piece, text ≠ [] := by
    intro text member
    rcases List.mem_map.mp member with ⟨entry, _, rfl⟩
    exact List.append_ne_nil_of_right_ne_nil _ (List.cons_ne_nil _ _)
  have pieces : split args.getArgs (ascii "&") = args.entries.map piece := by
    rw [getArgs_eq]
    exact split_flatMap absent nonempty
  have inserted : (args.entries.map piece).foldl setArg ∅ =
      args.entries.foldl (fun args entry => args.insert entry.1 entry.2) ∅ := by
    rw [List.foldl_map]
    apply List.foldl_ext
    intro args entry member
    exact setArg_piece (entries entry member).1 args
  rw [setArgs, pieces, inserted, lookup_foldl_insert _ _ args.nodupKeys, AList.lookup_empty,
    Option.or_none]
  rfl

/-- One piece without a mark gives a safe entry. -/
theorem safe_setArg {args : Args} (safe : args.Safe) {text : Bytes}
    (absent : ampersand ∉ text) : (setArg args text).Safe := by
  have inserted : ∀ key value, SafeEntry key value → Safe (args.insert key value) := by
    intro key value entry other stored found
    rw [Dictionary.lookup_insert] at found
    by_cases same : other = key
    · rw [if_pos same] at found
      cases found
      exact same ▸ entry
    · rw [if_neg same] at found
      exact safe other stored found
  unfold setArg
  cases found : find (ascii "=") text with
  | none => exact inserted _ _ ⟨find_eq_none found, absent, absent⟩
  | some pos =>
      refine inserted _ _ ⟨(find_eq_some found).2, ?_, ?_⟩
      · exact fun member => absent (List.mem_of_mem_take member)
      · exact fun member => absent (List.mem_of_mem_drop member)

/-- Whatever is read from a text is safe. -/
theorem safe_setArgs (text : Bytes) : (setArgs ∅ text).Safe := by
  have loop : ∀ pieces : List Bytes, (∀ piece ∈ pieces, ampersand ∉ piece) →
      ∀ args : Args, args.Safe → (pieces.foldl setArg args).Safe := by
    intro pieces
    induction pieces with
    | nil => exact fun _ args safe => safe
    | cons piece rest inductionHypothesis =>
        intro absent args safe
        rw [List.forall_mem_cons] at absent
        exact inductionHypothesis absent.2 _ (safe_setArg safe absent.1)
  apply loop _ (split_absent text ampersand)
  intro key value found
  rw [AList.lookup_empty] at found
  cases found

/-- The text keeps exactly the safe args. -/
theorem setArgs_getArgs_iff (args : Args) :
    Same (setArgs ∅ args.getArgs) args ↔ args.Safe := by
  constructor
  · intro same key value found
    exact safe_setArgs args.getArgs key value ((same key).trans found)
  · exact lookup_setArgs_getArgs

end Args

end ProtobufMq
