import Mathlib.Data.List.TakeWhile
import ProtobufMq.Common.Msg

namespace ProtobufMq

open Foundation

/-!
# Paths

The file functions get a path as a C string, so it ends at its first NUL.  Of
its components, the empty ones between repeated slashes and the ones that are a
single dot say nothing.  What is left over tells whether two paths lead to the
same file; a slash at the end stays, since only a directory may be named so.

Directories are not modelled, so a component `..` is one like any other.
-/

/-- What `c_str()` passes on: the bytes before the first NUL. -/
def cStr (text : Bytes) : Bytes :=
  text.takeWhile (· ≠ 0)

namespace Path

/-- The byte between two components. -/
def slash : UInt8 := UInt8.ofNat '/'.toNat

/-- A component that leads somewhere. -/
def Leads (component : Bytes) : Prop :=
  component ≠ [] ∧ component ≠ ascii "."

instance (component : Bytes) : Decidable (Leads component) :=
  inferInstanceAs (Decidable (_ ∧ _))

/-- The components that lead somewhere. -/
def components (path : Bytes) : List Bytes :=
  (path.splitOn slash).filter Leads

/-- The slash that a path begins with, if it does. -/
def root (path : Bytes) : Bytes :=
  if path.head? = some slash then [slash] else []

/-- The slash that a path ends with, if the last thing it names must be a
directory. -/
def closing (path : Bytes) : Bytes :=
  if components path ≠ [] ∧ ∃ last ∈ (path.splitOn slash).getLast?, ¬ Leads last then [slash]
  else []

end Path

/-- The path that says the same without what says nothing. -/
def resolve (text : Bytes) : Bytes :=
  let path := cStr text
  Path.root path ++ [Path.slash].intercalate (Path.components path) ++ Path.closing path

example : resolve (ascii ".//data/./q.mqd") = ascii "data/q.mqd" := by decide

namespace Path

/-- The components but the last, each with its slash, and then the last. -/
theorem intercalate_concat (front : List Bytes) (last : Bytes) :
    [slash].intercalate (front ++ [last]) = front.flatMap (· ++ [slash]) ++ last := by
  induction front with
  | nil => exact List.append_nil last
  | cons first rest inductionHypothesis =>
      have more : rest ++ [last] ≠ [] := List.append_ne_nil_of_right_ne_nil _ (List.cons_ne_nil _ _)
      rcases List.exists_cons_of_ne_nil more with ⟨second, others, whole⟩
      rw [List.cons_append, whole, List.intercalate_cons_cons, ← whole, inductionHypothesis,
        List.flatMap_cons, List.append_assoc, List.append_assoc, List.append_assoc]

theorem cStr_eq_self {text : Bytes} (clean : 0 ∉ text) : cStr text = text := by
  refine List.takeWhile_eq_self_iff.mpr fun byte member => decide_eq_true fun zero => ?_
  exact clean (zero ▸ member)

/-- What follows a NUL is not read. -/
theorem cStr_append {text : Bytes} (ends : 0 ∈ text) (more : Bytes) :
    cStr (text ++ more) = cStr text := by
  rcases List.eq_append_cons_of_mem ends with ⟨before, after, rfl, clean⟩
  have stops : ∀ rest : Bytes, cStr (before ++ 0 :: rest) = before := by
    intro rest
    have all : ∀ byte ∈ before, decide (byte ≠ 0) = true := fun byte member =>
      decide_eq_true fun zero => clean (zero ▸ member)
    rw [cStr, List.takeWhile_append_of_pos all, List.takeWhile_cons_of_neg (by decide),
      List.append_nil]
  rw [List.append_assoc, List.cons_append, stops, stops]

/-- A plain name, put behind a directory, stays as it is. -/
theorem resolve_in_directory {directory : Bytes} (clean : 0 ∉ directory)
    (closed : directory.getLast? = some slash) :
    ∃ place, ∀ name, 0 ∉ name → slash ∉ name → Leads name →
      resolve (directory ++ name) = place ++ name := by
  rcases List.getLast?_eq_some_iff.mp closed with ⟨front, rfl⟩
  refine ⟨root (front ++ [slash]) ++ (components front).flatMap (· ++ [slash]),
    fun name nameClean single leads => ?_⟩
  have parts : (front ++ [slash] ++ name).splitOn slash = front.splitOn slash ++ [name] := by
    rw [List.append_assoc, List.singleton_append, List.splitOn_append_cons_self,
      List.splitOn_eq_singleton single]
  have named : components (front ++ [slash] ++ name) = components front ++ [name] := by
    rw [components, parts, List.filter_append, List.filter_singleton, decide_eq_true leads]
    rfl
  have unclosed : closing (front ++ [slash] ++ name) = [] := by
    refine if_neg fun ends => ?_
    rcases ends.2 with ⟨last, same, misleads⟩
    rw [parts, List.getLast?_concat] at same
    cases same
    exact misleads leads
  have start : root (front ++ [slash] ++ name) = root (front ++ [slash]) := by
    unfold root
    rw [List.head?_append_of_ne_nil _ (List.append_ne_nil_of_right_ne_nil _ (List.cons_ne_nil _ _))]
  have whole : 0 ∉ front ++ [slash] ++ name := fun member =>
    (List.mem_append.mp member).elim clean nameClean
  rw [resolve, cStr_eq_self whole, named, unclosed, start, intercalate_concat, List.append_nil,
    List.append_assoc]

theorem leads_of_long {component : Bytes} (long : 2 ≤ component.length) : Leads component := by
  constructor
  · intro empty
    rw [empty] at long
    exact absurd long (by decide)
  · intro dot
    rw [dot] at long
    exact absurd long (by decide)

theorem exists_last_component {path : Bytes} (inside : slash ∈ path) :
    ∃ front last, path = front ++ [slash] ++ last ∧ slash ∉ last := by
  rcases List.eq_append_cons_of_mem (List.mem_reverse.mpr inside) with ⟨behind, ahead, whole, single⟩
  refine ⟨ahead.reverse, behind.reverse, ?_, fun member => single (List.mem_reverse.mp member)⟩
  rw [← List.reverse_reverse path, whole, List.reverse_append, List.reverse_cons]

/-- A path whose last component is long enough to lead somewhere may be continued
by a suffix. -/
theorem resolve_append {path name more : Bytes} (clean : 0 ∉ path) (inside : slash ∈ path)
    (nameClean : 0 ∉ name) (moreClean : 0 ∉ more) (nameSingle : slash ∉ name)
    (moreSingle : slash ∉ more) (long : 2 ≤ name.length) :
    resolve (path ++ name ++ more) = resolve (path ++ name) ++ more := by
  rcases exists_last_component inside with ⟨front, last, rfl, lastSingle⟩
  rcases resolve_in_directory (fun member => clean (List.mem_append_left _ member))
    List.getLast?_concat with ⟨place, stays⟩
  have lastClean : 0 ∉ last := fun member => clean (List.mem_append_right _ member)
  have wholeClean := List.not_mem_append lastClean nameClean
  have wholeSingle := List.not_mem_append lastSingle nameSingle
  have wholeLong : 2 ≤ (last ++ name).length := by
    rw [List.length_append]
    exact Nat.le_add_left_of_le long
  have moreLong : 2 ≤ (last ++ name ++ more).length := by
    rw [List.length_append]
    exact Nat.le_add_right_of_le wholeLong
  have short := stays (last ++ name) wholeClean wholeSingle (leads_of_long wholeLong)
  have longer := stays (last ++ name ++ more) (List.not_mem_append wholeClean moreClean)
    (List.not_mem_append wholeSingle moreSingle) (leads_of_long moreLong)
  rw [List.append_assoc _ last, List.append_assoc _ (last ++ name), longer, short,
    List.append_assoc place]

end Path

end ProtobufMq
