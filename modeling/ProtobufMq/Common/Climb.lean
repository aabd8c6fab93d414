import ProtobufMq.Common.CreateDirectory

namespace ProtobufMq

open Foundation ProtobufMq.Path FileSystem

/-!
# How far `createDirectory` climbs

The loop goes through the parents of a path.  A parent that is there sets
`errno` to EEXIST, and from then on the loop goes on to its end.  But if the
first parent of all is created, and `errno` is not EEXIST by chance, the
function takes the creation for a failure and returns.
-/

namespace FileHelper

variable {kernel : Kernel}

/-- The loop over the parents; false when the function returned from it. -/
def climb : List Bytes → StateM (FileSystem kernel) Bool
  | [] => return true
  | parent :: later => do
      let ret ← mkdir parent
      if ret = 0 ∧ (← get).errno ≠ EEXIST then return false
      else climb later

/-- What comes behind the parents: nothing when a slash is at the end. -/
def arrive (path : Bytes) : StateM (FileSystem kernel) Bool :=
  if path = [] ∨ path.getLast? = some slash then return true
  else do return (← mkdir path) = 0

theorem climb_cons (parent : Bytes) (later : List Bytes) (system : FileSystem kernel) :
    climb (parent :: later) system =
      if (mkdir parent system).1 = 0 ∧ (mkdir parent system).2.errno ≠ EEXIST
      then (false, (mkdir parent system).2)
      else climb later (mkdir parent system).2 := by
  by_cases cut : (mkdir parent system).1 = 0 ∧ (mkdir parent system).2.errno ≠ EEXIST
  · rw [if_pos cut]
    exact congrFun (if_pos cut) _
  · rw [if_neg cut]
    exact congrFun (if_neg cut) _

/-- The parents, and then what comes behind them. -/
def ascend (path : Bytes) (texts : List Bytes) : StateM (FileSystem kernel) Bool := do
  if ← climb texts then arrive path
  else return false

theorem ascend_of_cut {path : Bytes} {texts : List Bytes} {system : FileSystem kernel}
    (cut : (climb texts system).1 = false) :
    ascend path texts system = (false, (climb texts system).2) := by
  have stops : ¬ (climb texts system).1 = true := by
    rw [cut]
    exact Bool.false_ne_true
  exact congrFun (if_neg stops) _

theorem ascend_of_through {path : Bytes} {texts : List Bytes} {system : FileSystem kernel}
    (through : (climb texts system).1 = true) :
    ascend path texts system = arrive path (climb texts system).2 :=
  congrFun (if_pos through) _

theorem ascend_cons (path parent : Bytes) (later : List Bytes) (system : FileSystem kernel) :
    ascend path (parent :: later) system =
      if (mkdir parent system).1 = 0 ∧ (mkdir parent system).2.errno ≠ EEXIST
      then (false, (mkdir parent system).2)
      else ascend path later (mkdir parent system).2 := by
  have first := climb_cons parent later system
  by_cases cut : (mkdir parent system).1 = 0 ∧ (mkdir parent system).2.errno ≠ EEXIST
  · rw [if_pos cut] at first ⊢
    rw [ascend_of_cut (congrArg Prod.fst first), first]
  · rw [if_neg cut] at first ⊢
    cases through : (climb later (mkdir parent system).2).1 with
    | false =>
        have cutHere : (climb (parent :: later) system).1 = false := by rw [first, through]
        rw [ascend_of_cut through, ascend_of_cut cutHere, first]
    | true =>
        have throughHere : (climb (parent :: later) system).1 = true := by rw [first, through]
        rw [ascend_of_through through, ascend_of_through throughHere, first]

/-- The loop over the index is the loop over the parents. -/
theorem createLoop_eq {done rest : Bytes} {turns : Nat} (enough : rest.length < turns)
    (behind : done = [] ∨ done.getLast? = some slash) (system : FileSystem kernel) :
    createLoop (done ++ rest) turns done.length system =
      ascend (done ++ rest) (parentsFrom done rest) system := by
  induction turns generalizing done rest system with
  | zero => exact absurd enough (Nat.not_lt_zero _)
  | succ turns inductionHypothesis =>
      rw [createLoop]
      by_cases nothing : rest = []
      · subst nothing
        rw [List.append_nil, if_neg (Nat.lt_irrefl _), parentsFrom, ascend_of_through rfl, arrive,
          if_pos behind]
        rfl
      · have ahead : done.length < (done ++ rest).length := by
          rw [List.length_append]
          exact Nat.lt_add_of_pos_right (List.length_pos_iff.mpr nothing)
        rw [if_pos ahead, findFrom, List.drop_left]
        by_cases member : slash ∈ rest
        · rcases List.eq_append_cons_of_mem member with ⟨part, later, rfl, absent⟩
          have shorter : later.length < turns := by
            rw [List.length_append, List.length_cons] at enough
            omega
          have stands : (done ++ (part ++ slash :: later)).take (done.length + part.length) =
              done ++ part := by
            rw [← List.append_assoc, ← List.length_append, List.take_left]
          have moved := @inductionHypothesis (done ++ part ++ [slash]) later shorter
            (Or.inr List.getLast?_concat) (mkdir (done ++ part) system).2
          rw [List.append_assoc (done ++ part), List.singleton_append, List.append_assoc done,
            List.length_append, List.length_append, List.length_singleton] at moved
          rw [find_append absent, parentsFrom_append absent, ascend_cons, Option.map_some]
          simp only [stands]
          by_cases cut : (mkdir (done ++ part) system).1 = 0 ∧
              (mkdir (done ++ part) system).2.errno ≠ EEXIST
          · rw [if_pos cut]
            exact congrFun (if_pos cut) _
          · rw [if_neg cut, ← moved]
            exact congrFun (if_neg cut) _
        · have missing : find [slash] rest = none := by
            rw [find_eq_none_iff, List.singleton_infix_iff]
            exact member
          have unclosed : ¬ (done ++ rest = [] ∨ (done ++ rest).getLast? = some slash) := by
            rintro (empty | closed)
            · exact nothing (List.append_eq_nil_iff.mp empty).2
            · rw [List.getLast?_append_of_ne_nil _ nothing] at closed
              exact member (List.mem_of_getLast? closed)
          rw [missing, parentsFrom_of_absent member, ascend_of_through rfl, arrive,
            if_neg unclosed]
          rfl

theorem createDirectory_eq (path : Bytes) (system : FileSystem kernel) :
    createDirectory path system =
      if (stat path system).1 = 0 then (true, (stat path system).2)
      else createLoop path (path.length + 1) 0 (stat path system).2 := by
  by_cases there : (stat path system).1 = 0
  · rw [if_pos there]
    exact congrFun (if_pos (decide_eq_true there)) _
  · rw [if_neg there]
    exact congrFun (if_neg fun found => there (of_decide_eq_true found)) _

theorem createDirectory_seen {path : Bytes} {system : FileSystem kernel}
    (seen : system.Seen path) : createDirectory path system = (true, system) := by
  rw [createDirectory_eq, stat_seen seen]
  exact if_pos rfl

theorem createDirectory_unseen {path : Bytes} {system : FileSystem kernel}
    (missing : ¬ system.Seen path) :
    createDirectory path system = ascend path (parents path) system.missed := by
  have failed : ¬ (-1 : Int) = 0 := by decide
  rw [createDirectory_eq, stat_unseen missing, if_neg failed]
  exact createLoop_eq (Nat.lt_succ_self _) (Or.inl rfl) _

/-! ## What the loop creates -/

/-- The loop takes no directory away, and creates none that is refused or that is
not on the way of a parent. -/
theorem climb_present (texts : List Bytes) (system : FileSystem kernel) (entry : List Bytes) :
    (system.tree.present entry = true → (climb texts system).2.tree.present entry = true) ∧
    ((climb texts system).2.tree.present entry = true → system.tree.present entry = true ∨
      kernel.refused entry = none ∧ ∃ text ∈ texts, entry ∈ kernel.way text) := by
  induction texts generalizing system with
  | nil => exact ⟨id, Or.inl⟩
  | cons text later inductionHypothesis =>
      rcases mkdir_present system text entry with ⟨kept, created⟩
      rcases inductionHypothesis (mkdir text system).2 with ⟨keptLater, createdLater⟩
      have first : (mkdir text system).2.tree.present entry = true →
          system.tree.present entry = true ∨ kernel.refused entry = none ∧
            ∃ other ∈ text :: later, entry ∈ kernel.way other := by
        intro present
        rcases created present with old | ⟨allowed, member⟩
        · exact Or.inl old
        · exact Or.inr ⟨allowed, text, List.mem_cons_self, member⟩
      rw [climb_cons]
      by_cases cut : (mkdir text system).1 = 0 ∧ (mkdir text system).2.errno ≠ EEXIST
      · rw [if_pos cut]
        exact ⟨kept, first⟩
      · rw [if_neg cut]
        refine ⟨fun present => keptLater (kept present), fun present => ?_⟩
        rcases createdLater present with before | ⟨allowed, other, member, inside⟩
        · exact first before
        · exact Or.inr ⟨allowed, other, List.mem_cons_of_mem _ member, inside⟩

/-- `mkdir` of a text cannot succeed, since it is no path or stuck on the way. -/
def Fails (system : FileSystem kernel) (text : Bytes) : Prop :=
  ¬ Named text ∨ ∃ entry ∈ kernel.way text, system.Stuck entry

theorem mkdir_fails {system : FileSystem kernel} {text : Bytes} (fails : Fails system text) :
    ∃ errno, mkdir text system = (-1, system.setErrno errno) := by
  rcases fails with unnamed | ⟨entry, member, stuck⟩
  · exact ⟨ENOENT, mkdir_unnamed unnamed⟩
  · exact mkdir_stuck member stuck

/-- Where nothing can be created, the loop goes to its end and changes nothing. -/
theorem climb_fails {texts : List Bytes} {system : FileSystem kernel}
    (fail : ∀ text ∈ texts, Fails system text) :
    (climb texts system).1 = true ∧ (climb texts system).2.tree = system.tree := by
  induction texts generalizing system with
  | nil => exact ⟨rfl, rfl⟩
  | cons text later inductionHypothesis =>
      rw [List.forall_mem_cons] at fail
      rcases mkdir_fails fail.1 with ⟨errno, failed⟩
      have goes : ¬ ((-1 : Int) = 0 ∧ (system.setErrno errno).errno ≠ EEXIST) :=
        fun cut => absurd cut.1 (by decide)
      rw [climb_cons, failed, if_neg goes]
      -- only `errno` has changed
      exact @inductionHypothesis (system.setErrno errno) fail.2

/-! ## How far the loop gets -/

/-- All the directories on the way are there. -/
def Opens (system : FileSystem kernel) (text : Bytes) : Prop :=
  ∀ entry ∈ kernel.way text, system.tree.present entry = true

/-- `mkdir` of a text would succeed. -/
def Creatable (system : FileSystem kernel) (text : Bytes) : Prop :=
  ∃ place, system.find text = .absent place ∧ kernel.refused place = none

/-- No directory on the way is missing and refused. -/
def Permitted (system : FileSystem kernel) (text : Bytes) : Prop :=
  ∀ entry ∈ kernel.way text, system.tree.present entry = true ∨ kernel.refused entry = none

theorem not_stuck_of_permitted {system : FileSystem kernel} {text : Bytes}
    (permitted : Permitted system text) {entry : List Bytes} (member : entry ∈ kernel.way text) :
    ¬ system.Stuck entry := by
  intro stuck
  rcases permitted entry member with present | allowed
  · rw [stuck.1] at present
    cases present
  · exact stuck.2 allowed

/-- The next parent, when the one before is there: it is there too or is created,
with EEXIST in `errno`, or it is refused, or the function returns. -/
theorem climb_step {previous text : Bytes} {system : FileSystem kernel}
    (continues : kernel.Continues previous text) (opens : Opens system previous)
    (named : Named text) (later : List Bytes) :
    (¬ (Creatable system text ∧ system.errno ≠ EEXIST) ∧ ∃ next : FileSystem kernel,
      climb (text :: later) system = climb later next ∧ next.errno = EEXIST ∧ Opens next text ∧
        ∀ entry, system.tree.present entry = true → next.tree.present entry = true) ∨
    (¬ Creatable system text ∧ ∃ entry ∈ kernel.way text, system.Stuck entry) ∨
    (Creatable system text ∧ system.errno ≠ EEXIST ∧ (climb (text :: later) system).1 = false) := by
  cases found : system.find text with
  | lost => exact absurd found (continues.found system named opens)
  | here =>
      have uncreatable : ¬ Creatable system text := by
        rintro ⟨place, absent, _⟩
        rw [found] at absent
        cases absent
      refine Or.inl ⟨fun both => uncreatable both.1, system.setErrno EEXIST, ?_, rfl,
        (seen_iff.mp found).2, fun _ => id⟩
      rw [climb_cons, mkdir_here found]
      exact if_neg fun cut => absurd (cut.1 : (-1 : Int) = 0) (by decide)
  | absent place =>
      cases allowed : kernel.refused place with
      | some code =>
          rcases find_absent found with ⟨member, missing, _⟩
          have refused : kernel.refused place ≠ none := by
            rw [allowed]
            exact Option.some_ne_none code
          refine Or.inr (Or.inl ⟨?_, place, member, missing, refused⟩)
          rintro ⟨other, absent, permitted⟩
          rw [found] at absent
          cases absent
          exact refused permitted
      | none =>
          have creatable : Creatable system text := ⟨place, found, allowed⟩
          have created := mkdir_created found allowed
          by_cases stale : system.errno = EEXIST
          · refine Or.inl ⟨fun both => both.2 stale, system.add place, ?_, stale,
              (seen_iff.mp (add_seen found)).2, fun entry present => ?_⟩
            · rw [climb_cons, created]
              exact if_neg fun cut => cut.2 stale
            · exact DirectoryTree.add_present_iff.mpr (Or.inl present)
          · refine Or.inr (Or.inr ⟨creatable, stale, ?_⟩)
            have cut : (0 : Int) = 0 ∧ (system.add place).errno ≠ EEXIST := ⟨rfl, stale⟩
            rw [climb_cons, created, if_pos cut]

/-- Behind a directory that is stuck nothing is created. -/
theorem climb_stuck {text : Bytes} {later : List Bytes} {system : FileSystem kernel}
    (chain : List.IsChain kernel.Continues (text :: later)) {entry : List Bytes}
    (member : entry ∈ kernel.way text) (stuck : system.Stuck entry) :
    (climb (text :: later) system).1 = true := by
  have within := (List.pairwise_cons.mp (Kernel.pairwise_within chain)).1
  refine (climb_fails ?_).1
  rw [List.forall_mem_cons]
  refine ⟨Or.inr ⟨entry, member, stuck⟩, fun other inside => Or.inr ⟨entry, ?_, stuck⟩⟩
  exact (within other inside).goes.subset member

/-- All the parents are there at the end, unless one of them is refused. -/
def Creates (texts : List Bytes) (system : FileSystem kernel) : Prop :=
  (∀ text ∈ texts, Permitted system text) → ∀ text ∈ texts, Opens (climb texts system).2 text

/-- From a parent on, when the one before is there: the function returns if that
parent is created and `errno` is not EEXIST. -/
theorem climb_next {previous text : Bytes} {later : List Bytes} {system : FileSystem kernel}
    (chain : List.IsChain kernel.Continues (previous :: text :: later))
    (opens : Opens system previous) (named : Named text)
    (onward : ∀ next : FileSystem kernel, Opens next text → next.errno = EEXIST →
      (climb later next).1 = true ∧ Creates later next) :
    ((climb (text :: later) system).1 = false ↔
      Creatable system text ∧ system.errno ≠ EEXIST) ∧
    ((climb (text :: later) system).1 = true → Creates (text :: later) system) := by
  rw [List.isChain_cons_cons] at chain
  rcases climb_step chain.1 opens named later with
    ⟨goes, next, moves, stale, opensNext, grows⟩ | ⟨goes, entry, member, stuck⟩ |
      ⟨creatable, fresh, cut⟩
  · rcases onward next opensNext stale with ⟨through, creates⟩
    rw [Creates, moves, through]
    refine ⟨⟨fun cut => absurd cut.symm Bool.false_ne_true, fun both => absurd both goes⟩,
      fun _ permitted => ?_⟩
    rw [List.forall_mem_cons] at permitted ⊢
    refine ⟨fun entry inside => ?_, creates fun other inside entry member => ?_⟩
    · exact (climb_present later next entry).1 (opensNext entry inside)
    · exact (permitted.2 other inside entry member).imp_left (grows entry)
  · rw [climb_stuck chain.2 member stuck]
    refine ⟨⟨fun cut => absurd cut.symm Bool.false_ne_true, fun both => absurd both.1 goes⟩,
      fun _ permitted => ?_⟩
    exact absurd stuck (not_stuck_of_permitted (permitted text List.mem_cons_self) member)
  · rw [cut]
    exact ⟨⟨fun _ => ⟨creatable, fresh⟩, fun _ => rfl⟩,
      fun through => absurd through Bool.false_ne_true⟩

/-- With EEXIST in `errno` the loop goes to its end. -/
theorem climb_open {previous : Bytes} {texts : List Bytes} {system : FileSystem kernel}
    (chain : List.IsChain kernel.Continues (previous :: texts)) (named : Named previous)
    (opens : Opens system previous) (stale : system.errno = EEXIST) :
    (climb texts system).1 = true ∧ Creates texts system := by
  induction texts generalizing previous system with
  | nil => exact ⟨rfl, fun _ text member => nomatch member⟩
  | cons text later inductionHypothesis =>
      have namedNext := (List.isChain_cons_cons.mp chain).1.named named
      have next := climb_next chain opens namedNext
        fun next => inductionHypothesis (List.isChain_cons_cons.mp chain).2 namedNext
      have through : (climb (text :: later) system).1 = true := by
        rw [← Bool.not_eq_false]
        exact fun cut => (next.1.mp cut).2 stale
      exact ⟨through, next.2 through⟩

/-- From the first parent on. -/
theorem climb_first {text : Bytes} {later : List Bytes} {system : FileSystem kernel}
    (chain : List.IsChain kernel.Continues ([] :: text :: later)) (named : Named text) :
    ((climb (text :: later) system).1 = false ↔
      Creatable system text ∧ system.errno ≠ EEXIST) ∧
    ((climb (text :: later) system).1 = true → Creates (text :: later) system) :=
  climb_next chain (fun _ member => nomatch member) named
    fun _ => climb_open (List.isChain_cons_cons.mp chain).2 named

/-- The first of the texts that is a path. -/
def firstNamed (texts : List Bytes) : Option Bytes :=
  texts.find? fun text => decide (Named text)

theorem firstNamed_of_named {text : Bytes} (named : Named text) (later : List Bytes) :
    firstNamed (text :: later) = some text :=
  List.find?_cons_of_pos (decide_eq_true named)

theorem firstNamed_of_unnamed {text : Bytes} (unnamed : ¬ Named text) (later : List Bytes) :
    firstNamed (text :: later) = firstNamed later :=
  List.find?_cons_of_neg (fun named => unnamed (of_decide_eq_true named))

/-- The first directory that the path names is created on the way, while `errno`
is not EEXIST.  A path that begins with a slash has made `mkdir` fail before. -/
def CutShort (system : FileSystem kernel) (path : Bytes) : Prop :=
  (∃ first, firstNamed (parents path) = some first ∧ Creatable system first) ∧
    (path.head? ≠ some slash → kernel.unseen system.errno ≠ EEXIST)

/-- The loop over parents of which each is a path. -/
theorem climb_named {texts : List Bytes} {system : FileSystem kernel}
    (chain : List.IsChain kernel.Continues ([] :: texts)) (named : ∀ text ∈ texts, Named text) :
    ((climb texts system).1 = false ↔
      (∃ first, firstNamed texts = some first ∧ Creatable system first) ∧
        system.errno ≠ EEXIST) ∧
    ((climb texts system).1 = true → Creates texts system) := by
  cases texts with
  | nil =>
      refine ⟨⟨fun cut => (nomatch cut), ?_⟩, fun _ _ _ member => nomatch member⟩
      rintro ⟨⟨_, impossible, _⟩, _⟩
      cases impossible
  | cons text later =>
      have namedFirst := named text List.mem_cons_self
      rcases @climb_first _ text later system chain namedFirst with ⟨cut, creates⟩
      refine ⟨cut.trans (and_congr_left' ⟨fun creatable => ?_, ?_⟩), creates⟩
      · exact ⟨text, firstNamed_of_named namedFirst later, creatable⟩
      · rintro ⟨first, same, creatable⟩
        rw [firstNamed_of_named namedFirst] at same
        cases same
        exact creatable

theorem way_of_unnamed {text : Bytes} (unnamed : ¬ Named text) : kernel.way text = [] := by
  rw [Kernel.way, not_not.mp unnamed]
  rfl

theorem named_of_begins {byte : UInt8} {text : Bytes} (begins : [byte] <+: text) :
    Named text ↔ byte ≠ 0 := by
  rcases begins with ⟨rest, rfl⟩
  rw [Named, List.singleton_append, cStr]
  by_cases zero : byte = 0
  · rw [List.takeWhile_cons_of_neg (by simp [zero])]
    exact ⟨fun impossible => absurd rfl impossible, fun different => absurd zero different⟩
  · rw [List.takeWhile_cons_of_pos (by simp [zero])]
    exact ⟨fun _ => zero, fun _ => List.cons_ne_nil _ _⟩

/-- A path that begins with a slash has nothing for its first parent, and the
others begin with that slash. -/
theorem parents_absolute (rest : Bytes) :
    parents (slash :: rest) = [] :: parentsFrom [slash] rest ∧
      ∀ parent ∈ parentsFrom [slash] rest, Named parent := by
  constructor
  · rw [parents, parentsFrom, if_pos rfl, List.nil_append]
  · exact fun parent member =>
      (named_of_begins (prefix_of_mem_parentsFrom member)).mpr (by decide)

/-- The parents of any other path are paths. -/
theorem parents_named {path : Bytes} (named : Named path) (relative : path.head? ≠ some slash) :
    ∀ parent ∈ parents path, Named parent := by
  cases path with
  | nil => exact absurd rfl named
  | cons byte rest =>
      have single : byte ≠ slash := fun same => relative (congrArg some same)
      have same : parents (byte :: rest) = parentsFrom [byte] rest := by
        rw [parents, parentsFrom, if_neg single, List.nil_append]
      intro parent member
      rw [same] at member
      rw [named_of_begins (prefix_of_mem_parentsFrom member)]
      exact (named_of_begins (List.prefix_append [byte] rest)).mp named

/-- The loop over all the parents, after the path was not seen. -/
theorem climb_parents (path : Bytes) (system : FileSystem kernel) :
    ((climb (parents path) system.missed).1 = false ↔ CutShort system path) ∧
    ((climb (parents path) system.missed).1 = true → Creates (parents path) system.missed) := by
  have whole : List.IsChain kernel.Continues (([] :: parents path) ++ [path]) :=
    kernel.parents_chain path
  have chain := whole.left_of_append
  by_cases absolute : path.head? = some slash
  · rcases List.head?_eq_some_iff.mp absolute with ⟨rest, rfl⟩
    rcases parents_absolute rest with ⟨same, named⟩
    rw [same, List.isChain_cons_cons] at chain
    have unnamed : ¬ Named [] := fun named => named rfl
    have later := @climb_named _ _ (system.setErrno ENOENT) chain.2 named
    -- `mkdir` of the empty text fails
    have moves : climb (parents (slash :: rest)) system.missed =
        climb (parentsFrom [slash] rest) (system.setErrno ENOENT) := by
      rw [same, climb_cons, mkdir_unnamed unnamed]
      exact if_neg fun cut => absurd (cut.1 : (-1 : Int) = 0) (by decide)
    rw [Creates, moves]
    refine ⟨later.1.trans ?_, fun through permitted => ?_⟩
    · rw [CutShort, same, firstNamed_of_unnamed unnamed]
      apply and_congr_right
      intro _
      exact ⟨fun _ relative => absurd absolute relative, fun _ => (by decide : ENOENT ≠ EEXIST)⟩
    · rw [same, List.forall_mem_cons] at permitted ⊢
      exact ⟨fun entry inside => absurd inside List.not_mem_nil, later.2 through permitted.2⟩
  · by_cases named : Named path
    · rcases @climb_named _ _ system.missed chain (parents_named named absolute) with
        ⟨cut, creates⟩
      refine ⟨cut.trans (and_congr_right fun _ => ?_), creates⟩
      exact ⟨fun fresh _ => fresh, fun fresh => fresh absolute⟩
    · have unnamed : ∀ parent ∈ parents path, ¬ Named parent := fun parent member namedParent =>
        named ((kernel.within_of_mem_parents member).named namedParent)
      have fails := @climb_fails _ (parents path) system.missed
        fun parent member => Or.inl (unnamed parent member)
      rw [fails.1]
      refine ⟨⟨fun cut => absurd cut.symm Bool.false_ne_true, ?_⟩,
        fun _ _ parent member entry inside => ?_⟩
      · rintro ⟨⟨first, found, _⟩, _⟩
        have namedFirst := @List.find?_some _ (fun text => decide (Named text)) _ _ found
        exact absurd (of_decide_eq_true namedFirst)
          (unnamed first (List.mem_of_find?_eq_some found))
      · rw [way_of_unnamed (unnamed parent member)] at inside
        cases inside

end FileHelper

end ProtobufMq
