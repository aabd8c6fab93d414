import ProtobufMq.Common.Climb

namespace ProtobufMq

open Foundation ProtobufMq.Path FileSystem

/-!
# Whether `createDirectory` tells the truth

The test after `mkdir` in the loop is the wrong way round: it is a success, not
a failure, that ends the function when `errno` is not EEXIST.  The exact
consequences are put together here.
-/

namespace FileHelper

variable {kernel : Kernel}

theorem arrive_closed {path : Bytes} (closed : path = [] ∨ path.getLast? = some slash)
    (system : FileSystem kernel) : arrive path system = (true, system) := by
  rw [arrive, if_pos closed]
  rfl

theorem arrive_open {path : Bytes} (unclosed : ¬ (path = [] ∨ path.getLast? = some slash))
    (system : FileSystem kernel) :
    arrive path system = (decide ((mkdir path system).1 = 0), (mkdir path system).2) := by
  rw [arrive, if_neg unclosed]
  rfl

/-- `createDirectory` takes no directory away, and creates only directories that
are on the way and not refused. -/
theorem createDirectory_present (path : Bytes) (system : FileSystem kernel)
    (entry : List Bytes) :
    (system.tree.present entry = true →
      (createDirectory path system).2.tree.present entry = true) ∧
    ((createDirectory path system).2.tree.present entry = true →
      system.tree.present entry = true ∨
        kernel.refused entry = none ∧ entry ∈ kernel.way path) := by
  by_cases seen : system.Seen path
  · rw [createDirectory_seen seen]
    exact ⟨id, Or.inl⟩
  · rw [createDirectory_unseen seen]
    rcases climb_present (parents path) system.missed entry with
      ⟨kept, created⟩
    have onWay : (climb (parents path)
        system.missed).2.tree.present entry = true →
        system.tree.present entry = true ∨
          kernel.refused entry = none ∧ entry ∈ kernel.way path := by
      intro present
      refine (created present).imp_right ?_
      rintro ⟨allowed, parent, member, inside⟩
      exact ⟨allowed, (kernel.within_of_mem_parents member).goes.subset inside⟩
    cases through : (climb (parents path)
        system.missed).1 with
    | false =>
        rw [ascend_of_cut through]
        exact ⟨kept, onWay⟩
    | true =>
        rw [ascend_of_through through]
        by_cases closed : path = [] ∨ path.getLast? = some slash
        · rw [arrive_closed closed]
          exact ⟨kept, onWay⟩
        · rw [arrive_open closed]
          rcases mkdir_present (climb (parents path)
            system.missed).2 path entry with ⟨keptLast, last⟩
          exact ⟨fun present => keptLast (kept present), fun present =>
            (last present).elim onWay Or.inr⟩

/-- What `createDirectory` is to do: it returns true exactly when the directory is
there afterwards, and unless a creation is refused, the directory and all the
parents that the path names are. -/
structure Truthful (system : FileSystem kernel) (path : Bytes) : Prop where
  told : (createDirectory path system).1 = true ↔ (createDirectory path system).2.Seen path
  created : Permitted system path → ∀ text ∈ parents path ++ [path], Named text →
    (createDirectory path system).2.Seen text

/-- The path goes at its end into a directory that is missing, and that none of its
parents goes into. -/
def LastMissing (system : FileSystem kernel) (path : Bytes) : Prop :=
  ∃ entry ∈ kernel.way path, system.tree.present entry = false ∧
    ∀ parent ∈ parents path, entry ∉ kernel.way parent

theorem not_fails_iff {system : FileSystem kernel} {path : Bytes} :
    ¬ Fails system path ↔ Named path ∧ Permitted system path := by
  rw [Fails, not_or, not_not]
  apply and_congr_right
  intro _
  constructor
  · intro free entry member
    by_contra stuck
    rw [not_or, Bool.not_eq_true] at stuck
    exact free ⟨entry, member, stuck⟩
  · rintro permitted ⟨entry, member, stuck⟩
    exact not_stuck_of_permitted permitted member stuck

/-- Where the path cannot come to be, the function must return false. -/
theorem truthful_iff_of_fails {system : FileSystem kernel} {path : Bytes}
    (fails : Fails system path) :
    Truthful system path ↔ (createDirectory path system).1 = false := by
  have unseen : ¬ (createDirectory path system).2.Seen path := by
    intro seen
    rcases fails with unnamed | ⟨entry, member, stuck⟩
    · exact unnamed (seen_iff.mp seen).1
    · rcases (createDirectory_present path system entry).2 ((seen_iff.mp seen).2 entry member) with
        present | ⟨allowed, _⟩
      · rw [stuck.1] at present
        cases present
      · exact stuck.2 allowed
  constructor
  · intro truthful
    rw [← Bool.not_eq_true]
    exact fun returned => unseen (truthful.told.mp returned)
  · intro returned
    refine ⟨?_, fun permitted text member named => ?_⟩
    · rw [returned]
      exact ⟨fun impossible => (nomatch impossible), fun seen => absurd seen unseen⟩
    · have namedPath : Named path := by
        rcases List.mem_append.mp member with parent | self
        · exact (kernel.within_of_mem_parents parent).named named
        · exact List.mem_singleton.mp self ▸ named
      exact absurd fails (not_fails_iff.mpr ⟨namedPath, permitted⟩)

/-- Where it can, the function must return true and the directory must be there. -/
theorem truthful_iff_of_permitted {system : FileSystem kernel} {path : Bytes}
    (named : Named path) (permitted : Permitted system path) :
    Truthful system path ↔ (createDirectory path system).1 = true ∧
      (createDirectory path system).2.Seen path := by
  constructor
  · intro truthful
    have seen := truthful.created permitted path
      (List.mem_append_right _ (List.mem_singleton_self path)) named
    exact ⟨truthful.told.mpr seen, seen⟩
  · rintro ⟨returned, seen⟩
    refine ⟨⟨fun _ => seen, fun _ => returned⟩, fun _ text member namedText => ?_⟩
    rcases List.mem_append.mp member with parent | self
    · refine seen_iff.mpr ⟨namedText, fun entry inside => ?_⟩
      exact (seen_iff.mp seen).2 entry
        ((kernel.within_of_mem_parents parent).goes.subset inside)
    · rw [List.mem_singleton.mp self]
      exact seen

theorem permitted_of_seen {system : FileSystem kernel} {path : Bytes}
    (seen : system.Seen path) : Permitted system path :=
  fun entry member => Or.inl ((seen_iff.mp seen).2 entry member)

theorem truthful_of_seen {system : FileSystem kernel} {path : Bytes}
    (seen : system.Seen path) : Truthful system path := by
  rw [truthful_iff_of_permitted (seen_iff.mp seen).1 (permitted_of_seen seen),
    createDirectory_seen seen]
  exact ⟨rfl, seen⟩

/-- Where the path cannot come to be, the function returns false when the loop is
left early, and otherwise when the path itself is tried. -/
theorem returns_false_iff_of_fails {system : FileSystem kernel} {path : Bytes}
    (fails : Fails system path) : (createDirectory path system).1 = false ↔
      CutShort system path ∨ path ≠ [] ∧ path.getLast? ≠ some slash := by
  have unseen : ¬ system.Seen path := fun seen =>
    not_fails_iff.mpr ⟨(seen_iff.mp seen).1, permitted_of_seen seen⟩ fails
  have still : Fails (climb (parents path) system.missed).2 path := by
    refine fails.imp_right ?_
    rintro ⟨entry, member, stuck⟩
    refine ⟨entry, member, ?_, stuck.2⟩
    rw [← Bool.not_eq_true]
    intro present
    rcases (climb_present (parents path) system.missed entry).2 present with old | ⟨allowed, _⟩
    · exact absurd (stuck.1.symm.trans old) Bool.false_ne_true
    · exact stuck.2 allowed
  have cutShort := (climb_parents path system).1
  rw [createDirectory_unseen unseen]
  cases through : (climb (parents path) system.missed).1 with
  | false =>
      rw [ascend_of_cut through]
      exact ⟨fun _ => Or.inl (cutShort.mp through), fun _ => rfl⟩
  | true =>
      have goes : ¬ CutShort system path := fun cut =>
        absurd (through.symm.trans (cutShort.mpr cut)) Bool.true_eq_false.mp
      rw [ascend_of_through through, ← not_or]
      by_cases closed : path = [] ∨ path.getLast? = some slash
      · rw [arrive_closed closed]
        refine ⟨fun impossible => (nomatch impossible), ?_⟩
        rintro (cut | unclosed)
        · exact absurd cut goes
        · exact absurd closed unclosed
      · rcases mkdir_fails still with ⟨errno, failed⟩
        rw [arrive_open closed, failed]
        exact ⟨fun _ => Or.inr closed, fun _ => rfl⟩

/-- When all the parents are there, the path itself is not lost. -/
theorem found_of_opens {system : FileSystem kernel} {path : Bytes} (named : Named path)
    (opens : ∀ parent ∈ parents path, Opens system parent) : system.find path ≠ .lost := by
  have whole : List.IsChain kernel.Continues (([] :: parents path) ++ [path]) :=
    kernel.parents_chain path
  rcases List.getLast?_isSome.mpr (List.cons_ne_nil [] (parents path)) |>
    Option.isSome_iff_exists.mp with ⟨previous, last⟩
  have continues := (List.isChain_append.mp whole).2.2 previous last path rfl
  have opensLast : Opens system previous := by
    rcases List.mem_cons.mp (List.mem_of_getLast? last) with rfl | parent
    · exact fun entry member => nomatch member
    · exact opens previous parent
  exact continues.found system named opensLast

/-- Where it can and the directory is not there yet, the function arrives when it
is not cut short, and a slash ends the path or the last directory is new. -/
theorem arrives_iff_of_permitted {system : FileSystem kernel} {path : Bytes}
    (unseen : ¬ system.Seen path) (named : Named path) (permitted : Permitted system path) :
    (createDirectory path system).1 = true ∧ (createDirectory path system).2.Seen path ↔
      ¬ CutShort system path ∧ (path.getLast? = some slash ∨ LastMissing system path) := by
  rcases climb_parents path system with ⟨cutShort, creates⟩
  rw [createDirectory_unseen unseen]
  cases through : (climb (parents path) system.missed).1 with
  | false =>
      rw [ascend_of_cut through]
      exact ⟨fun both => (nomatch both.1), fun both => absurd (cutShort.mp through) both.1⟩
  | true =>
      have goes : ¬ CutShort system path := fun cut =>
        absurd (through.symm.trans (cutShort.mpr cut)) Bool.true_eq_false.mp
      have opens := creates through fun parent member entry inside =>
        permitted entry ((kernel.within_of_mem_parents member).goes.subset inside)
      rw [ascend_of_through through]
      by_cases closed : path = [] ∨ path.getLast? = some slash
      · have slashed : path.getLast? = some slash := closed.resolve_left fun nothing =>
          named (congrArg cStr nothing)
        rw [arrive_closed closed]
        refine ⟨fun _ => ⟨goes, Or.inl slashed⟩, fun _ => ⟨rfl, seen_iff.mpr ⟨named, ?_⟩⟩⟩
        rcases List.getLast?_eq_some_iff.mp slashed with ⟨front, rfl⟩
        rw [kernel.way_closed]
        exact opens front (mem_parentsFrom_closed [] front)
      · rw [arrive_open closed]
        cases found : (climb (parents path) system.missed).2.find path with
        | lost => exact absurd found (found_of_opens named opens)
        | here =>
            rw [mkdir_here found]
            refine ⟨fun both => ?_, ?_⟩
            · exact absurd (of_decide_eq_true both.1 : (-1 : Int) = 0) (by decide)
            · rintro ⟨_, slashed | ⟨entry, member, missing, new⟩⟩
              · exact absurd (Or.inr slashed) closed
              · have present := (seen_iff.mp found).2 entry member
                rcases (climb_present (parents path) system.missed entry).2 present with
                  old | ⟨_, parent, inParents, inside⟩
                · exact absurd (missing.symm.trans old) Bool.false_ne_true
                · exact absurd inside (new parent inParents)
        | absent place =>
            rcases find_absent found with ⟨member, missing, _⟩
            have missingBefore : system.tree.present place = false := by
              rw [← Bool.not_eq_true]
              intro present
              have still := (climb_present (parents path) system.missed place).1 present
              exact absurd (missing.symm.trans still) Bool.false_ne_true
            have allowed : kernel.refused place = none :=
              (permitted place member).resolve_left fun present =>
                absurd (missingBefore.symm.trans present) Bool.false_ne_true
            have new : ∀ parent ∈ parents path, place ∉ kernel.way parent := by
              intro parent inParents inside
              have present := opens parent inParents place inside
              exact absurd (missing.symm.trans present) Bool.false_ne_true
            rw [mkdir_created found allowed]
            exact ⟨fun _ => ⟨goes, Or.inr ⟨place, member, missingBefore, new⟩⟩,
              fun _ => ⟨rfl, add_seen found⟩⟩

/-- Exactly when `createDirectory` does what it is to do. -/
theorem createDirectory_truthful_iff (kernel : Kernel) (system : FileSystem kernel)
    (path : Bytes) : Truthful system path ↔
      system.Seen path ∨
      Fails system path ∧
        (CutShort system path ∨ path ≠ [] ∧ path.getLast? ≠ some slash) ∨
      ¬ Fails system path ∧
        ¬ CutShort system path ∧ (path.getLast? = some slash ∨ LastMissing system path) := by
  by_cases seen : system.Seen path
  · exact ⟨fun _ => Or.inl seen, fun _ => truthful_of_seen seen⟩
  · by_cases fails : Fails system path
    · rw [truthful_iff_of_fails fails, returns_false_iff_of_fails fails]
      tauto
    · rcases not_fails_iff.mp fails with ⟨named, permitted⟩
      rw [truthful_iff_of_permitted named permitted,
        arrives_iff_of_permitted seen named permitted]
      tauto

/-- A kernel that refuses nothing, and reports a missing path by ENOENT. -/
def lenient : Kernel :=
  ⟨[], fun _ => none, fun _ => ENOENT⟩

/-- Nothing is there but the root, in which the program runs. -/
def bare : FileSystem lenient where
  tree := ⟨fun place => place.isEmpty, rfl, fun _ _ present => nomatch present⟩
  errno := 0
  working := rfl

/-- The first directory is created, and the function reports a failure and does not
create the second one. -/
theorem createDirectory_untruthful :
    (createDirectory (ascii "a/b") bare).1 = false ∧
      (createDirectory (ascii "a/b") bare).2.Seen (ascii "a") ∧
      ¬ (createDirectory (ascii "a/b") bare).2.Seen (ascii "a/b") ∧
      ¬ Truthful bare (ascii "a/b") := by
  have returned : (createDirectory (ascii "a/b") bare).1 = false := by decide +kernel
  have first : (createDirectory (ascii "a/b") bare).2.Seen (ascii "a") := by decide +kernel
  have second : ¬ (createDirectory (ascii "a/b") bare).2.Seen (ascii "a/b") := by decide +kernel
  refine ⟨returned, first, second, fun truthful => second ?_⟩
  exact truthful.created (fun _ _ => Or.inr rfl) _ (by decide) (by decide)

/-- A directory below the current one, named as the broker names the directory of
its data files: with a dot in front and a slash at the end. -/
theorem createDirectory_dotted {system : FileSystem kernel} {rest : Bytes}
    (closed : (ascii "./" ++ rest).getLast? = some slash)
    (permitted : Permitted system (ascii "./" ++ rest)) :
    (createDirectory (ascii "./" ++ rest) system).1 = true ∧
      (createDirectory (ascii "./" ++ rest) system).2.Seen (ascii "./" ++ rest) := by
  have named : Named (ascii "./" ++ rest) :=
    (named_of_begins (⟨slash :: rest, rfl⟩ : [46] <+: ascii "./" ++ rest)).mpr (by decide)
  by_cases seen : system.Seen (ascii "./" ++ rest)
  · rw [createDirectory_seen seen]
    exact ⟨rfl, seen⟩
  · refine (arrives_iff_of_permitted seen named permitted).mpr ⟨?_, Or.inl closed⟩
    -- the first directory of the path is the current one, which is there
    rintro ⟨⟨first, found, place, absent, _⟩, _⟩
    have dot : firstNamed (parents (ascii "./" ++ rest)) = some (ascii ".") :=
      firstNamed_of_named (by decide) (parentsFrom (ascii "./") rest)
    have same : first = ascii "." := Option.some.inj (found.symm.trans dot)
    have there : system.find (ascii ".") = .here :=
      seen_iff.mpr ⟨by decide, fun _ member => nomatch member⟩
    rw [same, there] at absent
    cases absent

example : (createDirectory (ascii "./aaa/bbb/ccc") bare).1 = true := by decide +kernel

end FileHelper

end ProtobufMq
