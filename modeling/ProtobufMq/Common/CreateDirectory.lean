import Mathlib.Data.List.Chain
import ProtobufMq.Foundation.Directories
import ProtobufMq.Common.Path
import ProtobufMq.Common.SplitHelper

namespace ProtobufMq

open Foundation

/-!
# `FileHelper::createDirectory`

The function asks whether the directory is there, and otherwise calls `mkdir`
for what stands before each slash of the path and then for the path itself.
Here the state is the tree of directories together with `errno`.

A path that is not seen makes `stat` set `errno`; for a missing directory that
is ENOENT.  What the function does depends on no more than the value that is
then in `errno`, so it is left open.  `errno` is not touched by a call that
succeeds.
-/

/-- A value of `errno`. -/
abbrev Errno := Int

/-- The directory is there already. -/
def EEXIST : Errno := 17

/-- A directory on the way is not there. -/
def ENOENT : Errno := 2

/-- What stays the same while directories are created. -/
structure Kernel where
  /-- The directory in which a relative path begins. -/
  cwd : List Bytes
  /-- The error of a creation that is refused. -/
  refused : List Bytes → Option Errno
  /-- What a failing `stat` leaves in `errno`. -/
  unseen : Errno → Errno

/-- The directories that are there, and `errno`. -/
structure FileSystem (kernel : Kernel) where
  tree : DirectoryTree Bytes
  errno : Errno
  working : tree.present kernel.cwd = true

namespace Path

/-- The step that a component stands for. -/
def step (component : Bytes) : PathStep Bytes :=
  if component = [] then .empty
  else if component = ascii "." then .self
  else if component = ascii ".." then .up
  else .down component

/-- The steps of a path. -/
def steps (path : Bytes) : List (PathStep Bytes) :=
  (path.splitOn slash).map step

/-- A text that is a path; no path is empty. -/
def Named (text : Bytes) : Prop :=
  cStr text ≠ []

instance (text : Bytes) : Decidable (Named text) :=
  inferInstanceAs (Decidable (_ ≠ _))

end Path

open ProtobufMq.Path

/-- Where a path begins. -/
def Kernel.start (kernel : Kernel) (path : Bytes) : List Bytes :=
  if path.head? = some slash then [] else kernel.cwd

/-- The directories that a path goes into. -/
def Kernel.way (kernel : Kernel) (text : Bytes) : List (List Bytes) :=
  Foundation.way (kernel.start (cStr text)) (steps (cStr text))

variable {kernel : Kernel}

namespace FileSystem

/-- What a path leads to. -/
def find (system : FileSystem kernel) (text : Bytes) : Found Bytes :=
  if cStr text = [] then .lost
  else system.tree.follow (kernel.start (cStr text)) (steps (cStr text))

/-- The directory named by a path is there. -/
def Seen (system : FileSystem kernel) (text : Bytes) : Prop :=
  system.find text = .here

instance (system : FileSystem kernel) (text : Bytes) : Decidable (system.Seen text) :=
  inferInstanceAs (Decidable (_ = _))

/-- The file system with a new value in `errno`. -/
def setErrno (system : FileSystem kernel) (errno : Errno) : FileSystem kernel :=
  ⟨system.tree, errno, system.working⟩

/-- The file system after a `stat` that failed. -/
def missed (system : FileSystem kernel) : FileSystem kernel :=
  system.setErrno (kernel.unseen system.errno)

/-- The file system with one more directory. -/
def add (system : FileSystem kernel) (place : List Bytes) : FileSystem kernel :=
  ⟨system.tree.add place, system.errno, DirectoryTree.add_present_iff.mpr (Or.inl system.working)⟩

end FileSystem

namespace FileHelper

/-- `stat`. -/
def stat (text : Bytes) : StateM (FileSystem kernel) Int := fun system =>
  match system.find text with
  | .here => (0, system)
  | .absent _ => (-1, system.missed)
  | .lost => (-1, system.missed)

/-- `mkdir`. -/
def mkdir (text : Bytes) : StateM (FileSystem kernel) Int := fun system =>
  match system.find text with
  | .here => (-1, system.setErrno EEXIST)
  | .lost => (-1, system.setErrno ENOENT)
  | .absent place =>
      match kernel.refused place with
      | some code => (-1, system.setErrno code)
      | none => (0, system.add place)

/-- `FileHelper::exists`, of a directory. -/
def directoryExists (text : Bytes) : StateM (FileSystem kernel) Bool := do
  return (← stat text) = 0

/-- The loop of `createDirectory`.  Every turn goes past a slash. -/
def createLoop (path : Bytes) : Nat → Nat → StateM (FileSystem kernel) Bool
  | 0, _ => return false
  | turns + 1, idx =>
      if idx < path.length then
        match findFrom path [slash] idx with
        | none => do return (← mkdir path) = 0
        | some pos => do
            let ret ← mkdir (path.take pos)
            if ret = 0 ∧ (← get).errno ≠ EEXIST then return false
            else createLoop path turns (pos + 1)
      else return true

/-- `FileHelper::createDirectory`. -/
def createDirectory (path : Bytes) : StateM (FileSystem kernel) Bool := do
  if ← directoryExists path then return true
  else createLoop path (path.length + 1) 0

end FileHelper

/-! ## What system calls do -/

namespace FileSystem

variable {system : FileSystem kernel} {text : Bytes} {place : List Bytes}

theorem start_present (system : FileSystem kernel) (path : Bytes) :
    system.tree.present (kernel.start path) = true := by
  unfold Kernel.start
  by_cases absolute : path.head? = some slash
  · rw [if_pos absolute]
    exact system.tree.root
  · rw [if_neg absolute]
    exact system.working

theorem find_of_named (named : Named text) :
    system.find text = system.tree.follow (kernel.start (cStr text)) (steps (cStr text)) :=
  if_neg named

theorem find_of_unnamed (unnamed : ¬ Named text) : system.find text = .lost :=
  if_pos (not_not.mp unnamed)

/-- A path is seen when all the directories that it goes into are there. -/
theorem seen_iff : system.Seen text ↔
    Named text ∧ ∀ entry ∈ kernel.way text, system.tree.present entry = true := by
  by_cases named : Named text
  · rw [Seen, find_of_named named, DirectoryTree.follow_eq_here_iff]
    exact ⟨fun all => ⟨named, all⟩, And.right⟩
  · rw [Seen, find_of_unnamed named]
    exact ⟨fun impossible => (nomatch impossible), fun both => absurd both.1 named⟩

theorem named_of_absent (found : system.find text = .absent place) : Named text := by
  by_contra unnamed
  rw [find_of_unnamed unnamed] at found
  cases found

/-- What `mkdir` creates is the only directory missing on the way. -/
theorem find_absent (found : system.find text = .absent place) :
    place ∈ kernel.way text ∧ system.tree.present place = false ∧
      ∀ entry ∈ kernel.way text, system.tree.present entry = true ∨ entry = place := by
  have follows := found
  rw [find_of_named (named_of_absent found)] at follows
  rcases DirectoryTree.follow_absent (system.start_present _) follows with
    ⟨member, missing, _, others⟩
  exact ⟨member, missing, others⟩

theorem add_seen (found : system.find text = .absent place) : (system.add place).Seen text := by
  have named := named_of_absent found
  rw [find_of_named named] at found
  rw [Seen, find_of_named named]
  exact DirectoryTree.follow_add (system.start_present _) found

/-- A directory on the way is missing and must not be created. -/
def Stuck (system : FileSystem kernel) (entry : List Bytes) : Prop :=
  system.tree.present entry = false ∧ kernel.refused entry ≠ none

end FileSystem

namespace FileHelper

open FileSystem

variable {system : FileSystem kernel} {text : Bytes}

theorem stat_seen (seen : system.Seen text) : stat text system = (0, system) := by
  have found : system.find text = .here := seen
  rw [stat, found]

theorem stat_unseen (missing : ¬ system.Seen text) : stat text system = (-1, system.missed) := by
  cases found : system.find text with
  | here => exact absurd found missing
  | absent place => rw [stat, found]
  | lost => rw [stat, found]

theorem mkdir_here (seen : system.Seen text) :
    mkdir text system = (-1, system.setErrno EEXIST) := by
  have found : system.find text = .here := seen
  rw [mkdir, found]

theorem mkdir_unnamed (unnamed : ¬ Named text) :
    mkdir text system = (-1, system.setErrno ENOENT) := by
  rw [mkdir, find_of_unnamed unnamed]

theorem mkdir_created {place : List Bytes} (found : system.find text = .absent place)
    (allowed : kernel.refused place = none) :
    mkdir text system = (0, system.add place) := by
  simp only [mkdir, found, allowed]

/-- `mkdir` fails where it is stuck, and leaves the directories as they are. -/
theorem mkdir_stuck {entry : List Bytes} (member : entry ∈ kernel.way text)
    (stuck : system.Stuck entry) : ∃ errno,
    mkdir text system = (-1, system.setErrno errno) := by
  cases found : system.find text with
  | here =>
      have present := (seen_iff.mp found).2 entry member
      rw [stuck.1] at present
      cases present
  | lost => exact ⟨ENOENT, by simp only [mkdir, found]⟩
  | absent place =>
      have same : entry = place := by
        rcases (find_absent found).2.2 entry member with present | same
        · rw [stuck.1] at present
          cases present
        · exact same
      rcases Option.ne_none_iff_exists'.mp stuck.2 with ⟨code, refused⟩
      rw [same] at refused
      exact ⟨code, by simp only [mkdir, found, refused]⟩

/-- `mkdir` takes no directory away, and creates none that is refused. -/
theorem mkdir_present (system : FileSystem kernel) (text : Bytes) (entry : List Bytes) :
    (system.tree.present entry = true →
      (mkdir text system).2.tree.present entry = true) ∧
    ((mkdir text system).2.tree.present entry = true →
      system.tree.present entry = true ∨
        kernel.refused entry = none ∧ entry ∈ kernel.way text) := by
  cases found : system.find text with
  | here => simp only [mkdir, found]; exact ⟨id, Or.inl⟩
  | lost => simp only [mkdir, found]; exact ⟨id, Or.inl⟩
  | absent place =>
      cases allowed : kernel.refused place with
      | some code => simp only [mkdir, found, allowed]; exact ⟨id, Or.inl⟩
      | none =>
          rw [mkdir_created found allowed]
          constructor
          · exact fun present => DirectoryTree.add_present_iff.mpr (Or.inl present)
          · intro present
            rcases DirectoryTree.add_present_iff.mp present with old | ⟨rfl, _⟩
            · exact Or.inl old
            · exact Or.inr ⟨allowed, (find_absent found).1⟩

end FileHelper

/-! ## The parents of a path -/

namespace Path

/-- What stands before each slash of a text, behind what was before the text. -/
def parentsFrom (done : Bytes) : Bytes → List Bytes
  | [] => []
  | byte :: rest =>
      if byte = slash then done :: parentsFrom (done ++ [byte]) rest
      else parentsFrom (done ++ [byte]) rest

/-- What stands before each slash of a path. -/
def parents (path : Bytes) : List Bytes :=
  parentsFrom [] path

theorem prefix_of_mem_parentsFrom {done rest parent : Bytes}
    (member : parent ∈ parentsFrom done rest) : done <+: parent := by
  induction rest generalizing done with
  | nil => cases member
  | cons byte rest inductionHypothesis =>
      rw [parentsFrom] at member
      by_cases here : byte = slash
      · rw [if_pos here] at member
        rcases List.mem_cons.mp member with rfl | later
        · exact List.prefix_rfl
        · exact (List.prefix_append done [byte]).trans (inductionHypothesis later)
      · rw [if_neg here] at member
        exact (List.prefix_append done [byte]).trans (inductionHypothesis member)

theorem parentsFrom_of_absent {part : Bytes} (absent : slash ∉ part) (done : Bytes) :
    parentsFrom done part = [] := by
  induction part generalizing done with
  | nil => rfl
  | cons byte rest inductionHypothesis =>
      rw [List.mem_cons, not_or] at absent
      rw [parentsFrom, if_neg (Ne.symm absent.1), inductionHypothesis absent.2]

theorem parentsFrom_append {part : Bytes} (absent : slash ∉ part) (done rest : Bytes) :
    parentsFrom done (part ++ slash :: rest) =
      (done ++ part) :: parentsFrom (done ++ part ++ [slash]) rest := by
  induction part generalizing done with
  | nil => rw [List.nil_append, parentsFrom, if_pos rfl, List.append_nil]
  | cons byte tail inductionHypothesis =>
      rw [List.mem_cons, not_or] at absent
      rw [List.cons_append, parentsFrom, if_neg (Ne.symm absent.1), inductionHypothesis absent.2,
        List.append_assoc done, List.singleton_append]

/-- A slash at the end has the whole rest before it. -/
theorem mem_parentsFrom_closed (done front : Bytes) :
    done ++ front ∈ parentsFrom done (front ++ [slash]) := by
  induction front generalizing done with
  | nil =>
      rw [List.nil_append, parentsFrom, if_pos rfl, List.append_nil]
      exact List.mem_cons_self
  | cons byte rest inductionHypothesis =>
      have later := inductionHypothesis (done ++ [byte])
      rw [List.append_assoc, List.singleton_append] at later
      rw [List.cons_append, parentsFrom]
      by_cases here : byte = slash
      · rw [if_pos here]
        exact List.mem_cons_of_mem _ later
      · rw [if_neg here]
        exact later

theorem cStr_of_clean_append {front : Bytes} (clean : 0 ∉ front) (rest : Bytes) :
    cStr (front ++ rest) = front ++ cStr rest := by
  refine List.takeWhile_append_of_pos fun byte member => decide_eq_true fun zero => ?_
  exact clean (zero ▸ member)

theorem cStr_slash (tail : Bytes) : cStr (slash :: tail) = slash :: cStr tail :=
  List.takeWhile_cons_of_pos (by decide)

theorem slash_notMem_cStr {tail : Bytes} (absent : slash ∉ tail) : slash ∉ cStr tail :=
  fun member => absent ((List.takeWhile_sublist _).subset member)

theorem steps_of_absent {component : Bytes} (absent : slash ∉ component) :
    steps component = [step component] := by
  rw [steps, List.splitOn_eq_singleton absent]
  rfl

/-- A component behind a slash is one more step. -/
theorem steps_append {component : Bytes} (absent : slash ∉ component) (front : Bytes) :
    steps (front ++ slash :: component) = steps front ++ [step component] := by
  rw [steps, List.splitOn_append_cons_self, List.map_append, List.splitOn_eq_singleton absent]
  rfl

end Path

namespace Kernel

open FileSystem

/-- The longer path goes first where the shorter one goes. -/
structure Within (kernel : Kernel) (shorter longer : Bytes) : Prop where
  goes : kernel.way shorter <+: kernel.way longer
  named : Named shorter → Named longer

instance : Trans kernel.Within kernel.Within kernel.Within :=
  ⟨fun first second => ⟨first.goes.trans second.goes, second.named ∘ first.named⟩⟩

/-- The longer path has one more step, or says the same since a NUL ends both. -/
structure Continues (kernel : Kernel) (shorter longer : Bytes) : Prop
    extends kernel.Within shorter longer where
  found : ∀ system : FileSystem kernel, Named longer →
    (∀ entry ∈ kernel.way shorter, system.tree.present entry = true) →
    system.find longer ≠ .lost

/-- The first component of a path. -/
theorem continues_first (kernel : Kernel) {component : Bytes} (absent : slash ∉ component) :
    kernel.Continues [] component where
  goes := List.nil_prefix
  named := fun named => absurd rfl named
  found := by
    intro system named _
    rw [find_of_named named, steps_of_absent (slash_notMem_cStr absent), ← List.nil_append [_]]
    exact DirectoryTree.follow_concat _ fun entry member => nomatch member

/-- One more component. -/
theorem continues_append (kernel : Kernel) (front : Bytes) {component : Bytes}
    (absent : slash ∉ component) : kernel.Continues front (front ++ slash :: component) := by
  by_cases ends : 0 ∈ front
  · have same : cStr (front ++ slash :: component) = cStr front := cStr_append ends _
    have ways : kernel.way (front ++ slash :: component) = kernel.way front := by
      rw [way, way, same]
    refine ⟨⟨ways ▸ List.prefix_rfl, fun named => ?_⟩, fun system named opens found => ?_⟩
    · rw [Named, same]
      exact named
    · rw [← ways] at opens
      have seen : system.find _ = .here := seen_iff.mpr ⟨named, opens⟩
      rw [found] at seen
      cases seen
  · have whole : cStr (front ++ slash :: component) = front ++ slash :: cStr component := by
      rw [cStr_of_clean_append ends, cStr_slash]
    have more := steps_append (slash_notMem_cStr absent) front
    by_cases nothing : front = []
    · subst nothing
      refine ⟨⟨List.nil_prefix, fun named => absurd rfl named⟩, fun system named _ => ?_⟩
      rw [find_of_named named, whole, more]
      exact DirectoryTree.follow_concat _ fun entry member => nomatch member
    · have begins : kernel.start (front ++ slash :: cStr component) = kernel.start front := by
        rw [start, start, List.head?_append_of_ne_nil _ nothing]
      refine ⟨⟨?_, fun _ => ?_⟩, fun system named opens => ?_⟩
      · rw [way, way, whole, cStr_eq_self ends, begins, more]
        exact Foundation.way_shorter _ _ _
      · rw [Named, whole]
        exact List.append_ne_nil_of_left_ne_nil nothing _
      · rw [way, cStr_eq_self ends] at opens
        rw [find_of_named named, whole, begins, more]
        exact DirectoryTree.follow_concat _ opens

/-- What is before a component: a path and a slash, or nothing. -/
def Before (previous done : Bytes) : Prop :=
  done = previous ++ [slash] ∨ previous = [] ∧ done = []

theorem continues_before (kernel : Kernel) {previous done part : Bytes}
    (before : Before previous done) (absent : slash ∉ part) :
    kernel.Continues previous (done ++ part) := by
  rcases before with rfl | ⟨rfl, rfl⟩
  · rw [List.append_assoc, List.singleton_append]
    exact kernel.continues_append previous absent
  · exact kernel.continues_first absent

/-- Each parent continues the one before, and the path the last of them. -/
theorem parentsFrom_chain (kernel : Kernel) {previous done part : Bytes}
    (before : Before previous done) (absent : slash ∉ part) (rest : Bytes) :
    List.IsChain kernel.Continues
      (previous :: (parentsFrom (done ++ part) rest ++ [done ++ part ++ rest])) := by
  induction rest generalizing previous done part with
  | nil =>
      rw [parentsFrom, List.nil_append, List.append_nil]
      exact .cons_cons (kernel.continues_before before absent) (.singleton _)
  | cons byte rest inductionHypothesis =>
      rw [parentsFrom]
      by_cases here : byte = slash
      · -- a parent ends here, and the next component begins
        have later := inductionHypothesis (Or.inl rfl : Before (done ++ part) _) List.not_mem_nil
        rw [List.append_nil, List.append_assoc (done ++ part), List.singleton_append] at later
        rw [if_pos here, here, List.cons_append, List.isChain_cons_cons]
        exact ⟨kernel.continues_before before absent, later⟩
      · have longer : slash ∉ part ++ [byte] :=
          List.not_mem_append absent fun member => here (List.mem_singleton.mp member).symm
        have later := inductionHypothesis before longer
        rw [← List.append_assoc, List.append_assoc (done ++ part), List.singleton_append] at later
        rw [if_neg here]
        exact later

theorem parents_chain (kernel : Kernel) (path : Bytes) :
    List.IsChain kernel.Continues ([] :: (parents path ++ [path])) :=
  kernel.parentsFrom_chain (Or.inr ⟨rfl, rfl⟩) List.not_mem_nil path

theorem pairwise_within {texts : List Bytes} (chain : List.IsChain kernel.Continues texts) :
    texts.Pairwise kernel.Within :=
  List.isChain_iff_pairwise.mp (chain.imp fun _ _ continues => continues.toWithin)

/-- A parent is within the path. -/
theorem within_of_mem_parents (kernel : Kernel) {path parent : Bytes}
    (member : parent ∈ parents path) : kernel.Within parent path := by
  have all := pairwise_within (kernel.parents_chain path)
  rw [List.pairwise_cons, List.pairwise_append] at all
  exact all.2.2.2 parent member path (List.mem_singleton_self path)

/-- A slash at the end of a path leads nowhere. -/
theorem way_closed (kernel : Kernel) (front : Bytes) :
    kernel.way (front ++ [slash]) = kernel.way front := by
  by_cases ends : 0 ∈ front
  · rw [way, way, cStr_append ends]
  · by_cases nothing : front = []
    · rw [nothing]
      rfl
    · have begins : kernel.start (front ++ [slash]) = kernel.start front := by
        rw [start, start, List.head?_append_of_ne_nil _ nothing]
      have more : steps (front ++ [slash]) = steps front ++ [.empty] :=
        steps_append List.not_mem_nil front
      have whole : cStr (front ++ [slash]) = front ++ [slash] := cStr_of_clean_append ends [slash]
      rw [way, way, whole, cStr_eq_self ends, begins, more, way_concat_empty]

end Kernel

end ProtobufMq
