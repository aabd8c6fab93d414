import ProtobufMq.Server.Following
import ProtobufMq.Server.Stopping

namespace ProtobufMq

open Foundation

/-!
# When an operation completes

What stops an operation can be said in advance: a failure of a write that the
program learns of, a length in a data file that is too long for a string, an id
that is not waiting, a queue without a unit, a binding key without a word.  The
sections below find out for the operations of the server which of these they
meet, provided that nobody kills the process.
-/

/-- The process is not going to be killed. -/
def Lives (world : World) : Prop :=
  Outcome.dies ∉ world.script

/-- The code completes in every world in which the process lives. -/
def Steady {α : Type} (code : FileM α) : Prop :=
  ∀ world, Lives world → ∃ value after, code world = .ok value after ∧ Lives after

/-- The code completes in this world under the condition, and stops without it. -/
structure CompletesIff {α : Type} (code : FileM α) (world : World) (condition : Prop) : Prop where
  completes : condition → ∃ value after, code world = .ok value after ∧ Lives after
  stops : ¬ condition → ∃ fault after, code world = .error fault after

/-! ## How they compose -/

section Composition

variable {α β : Type} {first : FileM α} {next : α → FileM β} {world middle : World}
  {condition other : Prop}

theorem steady_pure (value : α) : Steady (pure value : FileM α) :=
  fun world lives => ⟨value, world, rfl, lives⟩

theorem steady_bind (firstSteady : Steady first) (nextSteady : ∀ value, Steady (next value)) :
    Steady (first >>= next) := by
  intro world lives
  rcases firstSteady world lives with ⟨value, middle, done, living⟩
  rcases nextSteady value middle living with ⟨result, after, finished, stillLiving⟩
  exact ⟨result, after, (bind_ok done).trans finished, stillLiving⟩

theorem steady_ite {test : Prop} [Decidable test] {one two : FileM α} (oneSteady : Steady one)
    (twoSteady : Steady two) : Steady (if test then one else two) := by
  by_cases holds : test
  · rw [if_pos holds]
    exact oneSteady
  · rw [if_neg holds]
    exact twoSteady

theorem Steady.completesIff (steady : Steady first) (lives : Lives world) :
    CompletesIff first world True :=
  ⟨fun _ => steady world lives, fun impossible => absurd trivial impossible⟩

theorem completesIff_throw (fault : Fault) : CompletesIff (throw fault : FileM α) world False :=
  ⟨nofun, fun _ => ⟨fault, world, rfl⟩⟩

theorem CompletesIff.congr (decided : CompletesIff first world condition)
    (same : condition ↔ other) : CompletesIff first world other :=
  ⟨fun holds => decided.completes (same.mpr holds),
    fun fails => decided.stops fun holds => fails (same.mp holds)⟩

/-- What follows is steady, so the first part decides. -/
theorem CompletesIff.bind (decided : CompletesIff first world condition)
    (nextSteady : ∀ value, Steady (next value)) : CompletesIff (first >>= next) world condition := by
  refine ⟨fun holds => ?_, fun fails => ?_⟩
  · rcases decided.completes holds with ⟨value, middle, done, living⟩
    rcases nextSteady value middle living with ⟨result, after, finished, stillLiving⟩
    exact ⟨result, after, (bind_ok done).trans finished, stillLiving⟩
  · rcases decided.stops fails with ⟨fault, after, stopped⟩
    exact ⟨fault, after, bind_error stopped⟩

/-- What comes first is done, so the rest decides. -/
theorem completesIff_after {value : α} (done : first world = .ok value middle)
    (decided : CompletesIff (next value) middle condition) :
    CompletesIff (first >>= next) world condition := by
  refine ⟨fun holds => ?_, fun fails => ?_⟩
  · rcases decided.completes holds with ⟨result, after, finished, living⟩
    exact ⟨result, after, (bind_ok done).trans finished, living⟩
  · rcases decided.stops fails with ⟨fault, after, stopped⟩
    exact ⟨fault, after, (bind_ok done).trans stopped⟩

/-- Both parts decide. -/
theorem CompletesIff.seq (decided : CompletesIff first world condition)
    (later : ∀ value middle, first world = .ok value middle → Lives middle →
      CompletesIff (next value) middle other) :
    CompletesIff (first >>= next) world (condition ∧ other) := by
  refine ⟨fun both => ?_, fun fails => ?_⟩
  · rcases decided.completes both.1 with ⟨value, middle, done, living⟩
    rcases (later value middle done living).completes both.2 with ⟨result, after, finished, still⟩
    exact ⟨result, after, (bind_ok done).trans finished, still⟩
  · by_cases holds : condition
    · rcases decided.completes holds with ⟨value, middle, done, living⟩
      rcases (later value middle done living).stops fun also => fails ⟨holds, also⟩ with
        ⟨fault, after, stopped⟩
      exact ⟨fault, after, (bind_ok done).trans stopped⟩
    · rcases decided.stops holds with ⟨fault, after, stopped⟩
      exact ⟨fault, after, bind_error stopped⟩

/-- Only one branch has something to decide. -/
theorem completesIff_ite {test : Prop} [Decidable test] {one two : FileM α} (lives : Lives world)
    (decided : test → CompletesIff one world condition) (twoSteady : Steady two) :
    CompletesIff (if test then one else two) world (test → condition) := by
  by_cases holds : test
  · rw [if_pos holds]
    exact (decided holds).congr ⟨fun met _ => met, fun met => met holds⟩
  · rw [if_neg holds]
    exact (twoSteady.completesIff lives).congr ⟨fun _ met => absurd met holds, fun _ => trivial⟩

theorem completesIff_ofExcept {result : Except Fault α} (lives : Lives world) :
    CompletesIff (ofExcept result) world (∃ value, result = .ok value) := by
  cases result with
  | ok value => exact ⟨fun _ => ⟨value, world, rfl, lives⟩, fun none => absurd ⟨value, rfl⟩ none⟩
  | error fault => exact ⟨nofun, fun _ => ⟨fault, world, rfl⟩⟩

end Composition

/-! ## Code that only reads -/

/-- The code changes nothing. -/
def Reads {α : Type} (code : FileM α) : Prop :=
  ∀ world value after, code world = .ok value after → after = world

section Reading

variable {α β : Type} {first : FileM α} {next : α → FileM β}

theorem reads_pure (value : α) : Reads (pure value : FileM α) := by
  intro world other after done
  cases done
  rfl

theorem reads_throw (fault : Fault) : Reads (throw fault : FileM α) :=
  fun _ _ _ done => (nomatch done)

theorem reads_bind (firstReads : Reads first) (nextReads : ∀ value, Reads (next value)) :
    Reads (first >>= next) := by
  intro world value after done
  rcases bind_eq_ok done with ⟨found, middle, read, rest⟩
  exact (nextReads found middle value after rest).trans (firstReads world found middle read)

theorem reads_ite {test : Prop} [Decidable test] {one two : FileM α} (oneReads : Reads one)
    (twoReads : Reads two) : Reads (if test then one else two) := by
  by_cases holds : test
  · rw [if_pos holds]
    exact oneReads
  · rw [if_neg holds]
    exact twoReads

end Reading

/-! ## The file operations -/

/-- The program learns that the operation fails. -/
def Outcome.noticed : Outcome → Bool
  | .fails _ => true
  | .done | .loses _ | .dies => false

/-- None of the next writes fails to the knowledge of the program. -/
def Unnoticed (writes : Nat) (script : List Outcome) : Prop :=
  ∀ outcome ∈ script.take writes, outcome.noticed = false

instance (writes : Nat) (script : List Outcome) : Decidable (Unnoticed writes script) :=
  inferInstanceAs (Decidable (∀ outcome ∈ script.take writes, outcome.noticed = false))

theorem unnoticed_add {first later : Nat} {script : List Outcome} :
    Unnoticed (first + later) script ↔
      Unnoticed first script ∧ Unnoticed later (script.drop first) := by
  unfold Unnoticed
  rw [List.take_add, List.forall_mem_append]

theorem unnoticed_one_iff {script : List Outcome} :
    Unnoticed 1 script ↔ (upcoming script).noticed = false := by
  cases script with
  | nil => exact iff_of_true (fun _ member => (nomatch member)) rfl
  | cons outcome rest => exact List.forall_mem_singleton

section Files

variable (name newName data : Bytes) (offset length : Nat) {world : World}

theorem steady_fileExists : Steady (FileHelper.fileExists name) :=
  fun world lives => ⟨_, world, rfl, lives⟩

theorem steady_setFile (content : Option Bytes) : Steady (setFile name content) :=
  fun _ lives => ⟨(), _, rfl, lives⟩

/-- How the next operation falls short. -/
def shortfall : List Outcome → Option Shortfall
  | .fails reached :: _ => some (.failed reached)
  | .loses reached :: _ => some (.lost reached)
  | _ => none

/-- An attempt takes one outcome, which is not that the process is killed. -/
theorem attempt_lives {disk : Disk} {script : List Outcome} (lives : Lives ⟨disk, script⟩) :
    attempt ⟨disk, script⟩ = .ok (shortfall script) ⟨disk, script.drop 1⟩ ∧
      Lives ⟨disk, script.drop 1⟩ := by
  refine ⟨?_, fun member => lives (List.mem_of_mem_drop member)⟩
  cases script with
  | nil => rfl
  | cons outcome later =>
      cases outcome with
      | done => rfl
      | fails reached => rfl
      | loses reached => rfl
      | dies => exact absurd List.mem_cons_self lives

theorem steady_attempt : Steady attempt := by
  rintro ⟨disk, script⟩ lives
  rcases attempt_lives lives with ⟨done, living⟩
  exact ⟨_, _, done, living⟩

theorem steady_get : Steady (get : FileM World) :=
  fun world lives => ⟨world, world, rfl, lives⟩

theorem steady_createFile : Steady (FileHelper.createFile name) := by
  refine steady_bind (steady_fileExists name) fun present => steady_ite (steady_pure true) ?_
  refine steady_bind steady_attempt fun outcome => ?_
  cases outcome with
  | none => exact steady_bind (steady_setFile name _) fun _ => steady_pure true
  | some short => exact steady_pure false

theorem steady_removeFile : Steady (FileHelper.removeFile name) := by
  refine steady_bind steady_attempt fun outcome => ?_
  cases outcome with
  | some short => exact steady_pure false
  | none =>
      exact steady_bind (steady_fileExists name) fun present => steady_ite
        (steady_bind (steady_setFile name none) fun _ => steady_pure true) (steady_pure false)

theorem steady_rename : Steady (FileHelper.rename name newName) := by
  refine steady_bind steady_attempt fun outcome => ?_
  cases outcome with
  | some short => exact steady_pure false
  | none =>
      refine steady_bind steady_get fun world => ?_
      cases world.disk name with
      | none => exact steady_pure false
      | some content =>
          exact steady_bind (steady_setFile name none) fun _ =>
            steady_bind (steady_setFile newName _) fun _ => steady_pure true

/-- A write completes if its file is there, unless it fails to the knowledge of the
program. -/
theorem completesIff_write (lives : Lives world) :
    CompletesIff (FileHelper.write name data offset) world
      ((world.disk name).isSome = true ∧ Unnoticed 1 world.script) := by
  have living : ∀ {disk : Disk}, Lives ⟨disk, world.script.drop 1⟩ :=
    fun member => lives (List.mem_of_mem_drop member)
  rw [unnoticed_one_iff]
  cases stored : world.disk name with
  | none =>
      refine ⟨fun both => (nomatch both.1), fun _ => ?_⟩
      rcases write_absent stored data offset with ⟨fault, after, stopped, _⟩
      exact ⟨fault, after, stopped⟩
  | some content =>
      rcases @write_cases world.disk world.script name content stored data offset with
        ⟨calm, ran⟩ | ⟨reached, next, ran⟩ | ⟨reached, next, ran⟩ | ⟨next, _⟩
      · rw [undisturbed_one_iff.mp calm]
        exact ⟨fun _ => ⟨_, _, ran, living⟩, fun fails => absurd ⟨rfl, rfl⟩ fails⟩
      · rw [next]
        exact ⟨fun _ => ⟨_, _, ran, living⟩, fun fails => absurd ⟨rfl, rfl⟩ fails⟩
      · rw [next]
        exact ⟨fun both => (nomatch both.2), fun _ => ⟨_, _, ran⟩⟩
      · refine absurd ?_ lives
        cases script : world.script with
        | nil =>
            rw [script] at next
            cases next
        | cons outcome rest =>
            rw [script] at next
            exact next ▸ List.mem_cons_self

variable {name data offset}

/-- A file that a write returns from is there. -/
theorem write_present {after : World} {result : Bool}
    (written : FileHelper.write name data offset world = .ok result after) :
    (after.disk name).isSome = true := by
  rcases write_returns written with ⟨_, _, content, _, ⟨_, left⟩ | ⟨reached, _, left⟩⟩
  · rw [left, Function.update_self]
    rfl
  · rw [left, Function.update_self]
    rfl

/-- A file that is there, or that is created. -/
def Creatable (name : Bytes) (world : World) : Prop :=
  (world.disk name).isSome = true ∨ upcoming world.script = .done

instance (name : Bytes) (world : World) : Decidable (Creatable name world) :=
  inferInstanceAs (Decidable (_ ∨ _))

/-- What `createFile` leaves. -/
theorem createFile_leaves (name : Bytes) (lives : Lives world) :
    ∃ created after, FileHelper.createFile name world = .ok created after ∧ Lives after ∧
      after.script = world.script.drop (creating world.disk name) ∧
      ((after.disk name).isSome = true ↔ Creatable name world) ∧
      (after.disk name).getD [] = (world.disk name).getD [] := by
  rcases world with ⟨disk, script⟩
  rw [FileHelper.createFile, bind_ok (fileExists_run _), creating, Creatable]
  cases stored : disk name with
  | some content =>
      simp only [stored, Option.isSome_some, if_true, true_or, iff_true]
      refine ⟨true, _, rfl, lives, rfl, ?_, congrArg (·.getD []) stored⟩
      exact congrArg Option.isSome stored
  | none =>
      rcases attempt_lives lives with ⟨attempted, living⟩
      simp only [stored, Option.isSome_none, Bool.false_eq_true, if_false, false_or]
      rw [bind_ok attempted]
      have short : ∀ {part : Shortfall}, shortfall script = some part → upcoming script ≠ .done := by
        intro part falls done
        cases script with
        | nil => cases falls
        | cons outcome rest =>
            cases done
            cases falls
      cases falls : shortfall script with
      | none =>
          have done : upcoming script = .done := by
            cases script with
            | nil => rfl
            | cons outcome rest =>
                cases outcome with
                | done => rfl
                | fails reached => cases falls
                | loses reached => cases falls
                | dies => exact absurd List.mem_cons_self lives
          have there : Function.update disk name (some []) name = some [] := Function.update_self ..
          exact ⟨true, _, rfl, living, rfl, iff_of_true (congrArg Option.isSome there) done,
            congrArg (·.getD []) there⟩
      | some part =>
          refine ⟨false, _, rfl, living, rfl, iff_of_false ?_ (short falls),
            congrArg (·.getD []) stored⟩
          intro there
          change (disk name).isSome = true at there
          rw [stored] at there
          cases there

end Files

/-! ## The data file of a queue -/

namespace MessageMapper

/-- The lengths that the loop of `load` reads from the content of a file can be
asked for: it ends, or gives up, before one that is too large. -/
def lengthsFit (content : Bytes) : Nat → Nat → Bool
  | 0, _ => true
  | fuel + 1, offset =>
      if offset < content.length then
        match readAt content offset sizeOfSize with
        | none => true
        | some header =>
            if maxSize < leNat header then false
            else
              match readAt content (offset + sizeOfSize) (leNat header) with
              | none => true
              | some _ => lengthsFit content fuel (offset + sizeOfSize + leNat header)
      else true

/-- The data file can be loaded. -/
def Loadable (file : Option Bytes) : Prop :=
  lengthsFit (file.getD []) ((file.getD []).length + 1) 0 = true

instance (file : Option Bytes) : Decidable (Loadable file) :=
  inferInstanceAs (Decidable (lengthsFit _ _ _ = true))

/-- An insertion completes if its two writes do. -/
theorem completesIff_insertInto (file : Bytes) (message : Message) {world : World}
    (lives : Lives world) :
    CompletesIff (insertInto file message) world
      ((world.disk file).isSome = true ∧ Unnoticed 2 world.script) := by
  have both : ((world.disk file).isSome = true ∧ Unnoticed 1 world.script) ∧
      Unnoticed 1 (world.script.drop 1) ↔
        (world.disk file).isSome = true ∧ Unnoticed 2 world.script := by
    rw [and_assoc, ← unnoticed_add]
  refine completesIff_after (size_run world) (CompletesIff.congr (CompletesIff.seq
    (completesIff_write file _ _ lives) fun headed middle header living => ?_) both)
  rcases write_returns header with ⟨rfl, left, _⟩
  refine (CompletesIff.bind (completesIff_write file _ _ living) fun written =>
    steady_ite (steady_pure _) (steady_pure _)).congr ?_
  rw [left]
  exact and_iff_right (write_present header)

/-- A file that an insertion returns from is there. -/
theorem insertInto_present {file : Bytes} {message : Message} {world after : World}
    {inserted : Bool × Message} (done : insertInto file message world = .ok inserted after) :
    (after.disk file).isSome = true := by
  rcases bind_eq_ok done with ⟨offset, middle, measured, rest⟩
  rcases bind_eq_ok rest with ⟨headed, last, header, rest⟩
  cases headed with
  | false =>
      cases rest
      exact write_present header
  | true =>
      rcases bind_eq_ok rest with ⟨written, final, body, rest⟩
      cases written <;>
      · cases rest
        exact write_present body

/-- Copying completes if there is nothing to copy, or if the file is there and its
writes complete. -/
theorem completesIff_insertAll (file : Bytes) (messages : List Message) {world : World}
    (lives : Lives world) :
    CompletesIff (insertAll file messages) world (messages ≠ [] →
      (world.disk file).isSome = true ∧ Unnoticed (2 * messages.length) world.script) := by
  induction messages generalizing world with
  | nil =>
      exact ((steady_pure _).completesIff lives).congr
        ⟨fun _ nonempty => absurd rfl nonempty, fun _ => trivial⟩
  | cons message rest inductionHypothesis =>
      have all : ((world.disk file).isSome = true ∧ Unnoticed 2 world.script) ∧
          (rest ≠ [] → Unnoticed (2 * rest.length) (world.script.drop 2)) ↔
            (message :: rest ≠ [] → (world.disk file).isSome = true ∧
              Unnoticed (2 * (message :: rest).length) world.script) := by
        rw [outcomes_cons, unnoticed_add, and_assoc]
        constructor
        · rintro ⟨there, first, later⟩ _
          refine ⟨there, first, ?_⟩
          cases rest with
          | nil => exact fun _ member => (nomatch member)
          | cons other others => exact later (List.cons_ne_nil _ _)
        · intro both
          rcases both (List.cons_ne_nil _ _) with ⟨there, first, later⟩
          exact ⟨there, first, fun _ => later⟩
      refine CompletesIff.congr (CompletesIff.seq (completesIff_insertInto file message lives)
        fun inserted middle done living => ?_) all
      rcases insertInto_returns done with ⟨content, _, rfl, left⟩
      refine (CompletesIff.bind (inductionHypothesis living) fun later => steady_pure _).congr ?_
      rw [left]
      exact forall_congr' fun _ => and_iff_right (insertInto_present done)

theorem steady_removeMsgFile (mapper : MessageMapper) : Steady mapper.removeMsgFile :=
  steady_bind (steady_removeFile _) fun _ => steady_bind (steady_removeFile _) fun _ =>
    steady_pure ()

section Loading

variable [Protobuf]

/-- Loading completes on the content that can be loaded. -/
theorem completesIff_loadLoop {file : Bytes} {world : World} (lives : Lives world)
    (fuel offset : Nat) (result : List Message) :
    CompletesIff (loadLoop file fuel offset result) world
      (lengthsFit ((world.disk file).getD []) fuel offset = true) := by
  induction fuel generalizing offset result with
  | zero => exact ((steady_pure _).completesIff lives).congr (by simp [lengthsFit])
  | succ fuel inductionHypothesis =>
      rw [loadLoop, lengthsFit]
      refine completesIff_after (size_run world) ?_
      by_cases within : offset < ((world.disk file).getD []).length
      · simp only [if_pos within]
        refine completesIff_after (read_run world offset sizeOfSize) ?_
        cases stored : world.disk file with
        | none =>
            rw [stored] at within
            cases within
        | some content =>
            rw [Option.bind_some, Option.getD_some]
            cases readAt content offset sizeOfSize with
            | none => exact ((steady_pure _).completesIff lives).congr (by simp)
            | some header =>
                by_cases large : maxSize < leNat header
                · simp only [if_pos large]
                  exact (completesIff_throw .lengthError).congr (by simp)
                · simp only [if_neg large]
                  refine completesIff_after (read_run world _ _) ?_
                  rw [stored, Option.bind_some]
                  cases readAt content (offset + sizeOfSize) (leNat header) with
                  | none => exact ((steady_pure _).completesIff lives).congr (by simp)
                  | some body =>
                      have later := inductionHypothesis (offset + sizeOfSize + leNat header)
                      rw [stored, Option.getD_some] at later
                      by_cases live :
                          (Protobuf.parseFromString body).2.valid = invalidMark
                      · simp only [if_pos live]
                        exact later _
                      · simp only [if_neg live]
                        exact later _
      · simp only [if_neg within]
        exact ((steady_pure _).completesIff lives).congr (by simp)

/-- Loading only reads. -/
theorem reads_load (mapper : MessageMapper) : Reads mapper.load := by
  have loops : ∀ fuel offset (result : List Message),
      Reads (loadLoop mapper.datafile fuel offset result) := by
    intro fuel
    induction fuel with
    | zero => exact fun _ _ => reads_pure _
    | succ fuel inductionHypothesis =>
        intro offset result
        refine reads_bind (fun _ _ _ done => by cases done; rfl) fun size =>
          reads_ite (reads_bind (fun _ _ _ done => by cases done; rfl) fun header => ?_)
            (reads_pure _)
        cases header with
        | none => exact reads_pure _
        | some header =>
            refine reads_ite (reads_throw _)
              (reads_bind (fun _ _ _ done => by cases done; rfl) fun body => ?_)
            cases body with
            | none => exact reads_pure _
            | some body =>
                exact reads_ite (inductionHypothesis _ _) (inductionHypothesis _ _)
  exact reads_bind (fun _ _ _ done => by cases done; rfl) fun _ => loops _ _ _

/-- How many messages a collection copies. -/
def survivors (mapper : MessageMapper) (world : World) : Nat :=
  match mapper.load world with
  | .ok (true, messages) _ => messages.length
  | _ => 0

/-- The data file can be loaded, and what it gives back can be copied. -/
def Collectable (mapper : MessageMapper) (world : World) : Prop :=
  Loadable (world.disk mapper.datafile) ∧ (mapper.survivors world ≠ 0 →
    Creatable mapper.tmpfile world ∧ Unnoticed (2 * mapper.survivors world)
      (world.script.drop (creating world.disk mapper.tmpfile)))

instance (mapper : MessageMapper) (world : World) : Decidable (mapper.Collectable world) :=
  inferInstanceAs (Decidable (_ ∧ _))

theorem completesIff_gc (mapper : MessageMapper) {world : World} (lives : Lives world) :
    CompletesIff mapper.gc world (mapper.Collectable world) := by
  have loading : CompletesIff mapper.load world (Loadable (world.disk mapper.datafile)) :=
    completesIff_after (size_run world) (completesIff_loadLoop lives _ _ _)
  refine CompletesIff.seq loading fun loaded middle done living => ?_
  cases mapper.reads_load world loaded middle done
  rcases loaded with ⟨complete, messages⟩
  cases complete with
  | false =>
      have nothing : mapper.survivors world = 0 := by rw [survivors, done]
      exact ((steady_pure _).completesIff lives).congr
        ⟨fun _ some_left => absurd nothing some_left, fun _ => trivial⟩
  | true =>
      have count : mapper.survivors world = messages.length := by rw [survivors, done]
      rcases createFile_leaves mapper.tmpfile lives with
        ⟨created, after, creates, stillLiving, script, there, _⟩
      simp only [if_true]
      refine completesIff_after creates (CompletesIff.congr (CompletesIff.bind
        (completesIff_insertAll mapper.tmpfile messages stillLiving) fun copied => ?_) ?_)
      · refine steady_ite ?_ (steady_pure _)
        refine steady_bind (steady_removeFile _) fun removed => steady_ite ?_ (steady_pure _)
        exact steady_bind (steady_rename _ _) fun renamed => steady_pure _
      · rw [count, there, script, Ne, Ne, ← List.length_eq_zero_iff]

end Loading

/-- A message can be struck out without the log of a failed write. -/
def Strikable (mapper : MessageMapper) (message : Message) (world : World) : Prop :=
  (message.payload.setValid invalidMark).serialize.length = message.length →
    (world.disk mapper.datafile).isSome = true ∧ Unnoticed 1 world.script

instance (mapper : MessageMapper) (message : Message) (world : World) :
    Decidable (mapper.Strikable message world) :=
  inferInstanceAs (Decidable (_ → _))

/-- What is left when a message has been struck out. -/
def afterStrike (mapper : MessageMapper) (message : Message) (world : World) : World :=
  let body := (message.payload.setValid invalidMark).serialize
  if body.length ≠ message.length then world
  else
    ⟨Function.update world.disk mapper.datafile ((world.disk mapper.datafile).map fun content =>
      overwrite content message.offset (((shortfall world.script).map (·.part body)).getD body)),
      world.script.drop 1⟩

/-- Striking a message out. -/
theorem completesIff_remove (mapper : MessageMapper) (message : Message) {world : World}
    (lives : Lives world) :
    CompletesIff (mapper.remove message) world (mapper.Strikable message world) := by
  unfold remove Strikable
  by_cases moved : (message.payload.setValid invalidMark).serialize.length ≠ message.length
  · simp only [if_pos moved]
    exact ((steady_pure _).completesIff lives).congr
      ⟨fun _ same => absurd same moved, fun _ => trivial⟩
  · simp only [if_neg moved]
    exact (completesIff_write _ _ _ lives).congr
      ⟨fun holds _ => holds, fun holds => holds (Decidable.not_not.mp moved)⟩

theorem remove_leaves {mapper : MessageMapper} {message : Message} {world after : World}
    {removed : Bool} (done : mapper.remove message world = .ok removed after) :
    after = mapper.afterStrike message world := by
  unfold remove at done
  unfold afterStrike
  by_cases moved : (message.payload.setValid invalidMark).serialize.length ≠ message.length
  · simp only [if_pos moved] at done ⊢
    cases done
    rfl
  · simp only [if_neg moved] at done ⊢
    rcases write_returns done with ⟨_, left, content, stored, outcome⟩
    have disk : after.disk = Function.update world.disk mapper.datafile
        ((world.disk mapper.datafile).map fun content => overwrite content message.offset
          (((shortfall world.script).map (·.part
            (message.payload.setValid invalidMark).serialize)).getD
              (message.payload.setValid invalidMark).serialize)) := by
      rw [stored]
      cases script : world.script with
      | nil =>
          rcases outcome with ⟨_, same⟩ | ⟨reached, lost, _⟩
          · exact same
          · rw [script] at lost
            cases lost
      | cons outcome' rest =>
          rcases outcome with ⟨calm, same⟩ | ⟨reached, lost, same⟩
          · rw [script] at calm
            cases undisturbed_one_iff.mp calm
            exact same
          · rw [script] at lost
            cases lost
            exact same
    cases after
    cases left
    cases disk
    rfl

end MessageMapper

/-! ## The message stores -/

namespace QueueMessage

/-- A message can be removed: it is waiting, and if it is durable, it can be struck
out, and the file can be collected if that makes a collection due. -/
def Removable [Protobuf] (queue : QueueMessage) (msgId : Bytes) (world : World) : Prop :=
  msgId ∈ queue.waitackMsgs ∧ ∀ pointer ∈ queue.waitackMsgs.lookup msgId,
    pointer.deliverMode = .durable → queue.mapper.Strikable pointer.message world ∧
      (CollectionDue queue.totalCount (Dictionary.size (queue.durableMsgs.erase msgId)) →
        queue.mapper.Collectable (queue.mapper.afterStrike pointer.message world))

instance [Protobuf] (queue : QueueMessage) (msgId : Bytes) (world : World) :
    Decidable (queue.Removable msgId world) :=
  inferInstanceAs (Decidable (_ ∧ _))

/-- A message can be inserted: if it is durable, its record can be written. -/
def Insertable (queue : QueueMessage) (properties : Option BasecProperties) (uuid : Bytes)
    (queueIsDurable : Bool) (world : World) : Prop :=
  (composed properties uuid queueIsDurable).deliverMode = .durable →
    (world.disk queue.mapper.datafile).isSome = true ∧ Unnoticed 2 world.script

instance (queue : QueueMessage) (properties : Option BasecProperties) (uuid : Bytes)
    (queueIsDurable : Bool) (world : World) :
    Decidable (queue.Insertable properties uuid queueIsDurable world) :=
  inferInstanceAs (Decidable (_ → _))

section Stores

variable {world : World}

theorem steady_new (qname basedir : Bytes) : Steady (new qname basedir) :=
  steady_bind (steady_bind (steady_createFile _) fun _ => steady_pure _) fun _ => steady_pure _

theorem completesIff_insert (queue : QueueMessage) (properties : Option BasecProperties)
    (uuid body : Bytes) (queueIsDurable : Bool) (lives : Lives world) :
    CompletesIff (queue.insert properties uuid body queueIsDurable) world
      (queue.Insertable properties uuid queueIsDurable world) := by
  refine completesIff_ite lives (fun _ => ?_) (steady_pure _)
  exact (MessageMapper.completesIff_insertInto _ _ lives).bind fun _ =>
    steady_ite (steady_pure _) (steady_pure _)

theorem steady_clear (queue : QueueMessage) : Steady queue.clear :=
  steady_bind (MessageMapper.steady_removeMsgFile _) fun _ => steady_pure _

variable [Protobuf]

theorem completesIff_recovery (queue : QueueMessage) (lives : Lives world) :
    CompletesIff queue.recovery world (queue.mapper.Collectable world) :=
  (MessageMapper.completesIff_gc queue.mapper lives).bind fun _ => steady_pure _

theorem completesIff_removeDurable (queue : QueueMessage) (msgId : Bytes) (pointer : MessagePtr)
    (lives : Lives world) :
    CompletesIff (queue.removeDurable msgId pointer) world
      (queue.mapper.Strikable pointer.message world ∧
        (CollectionDue queue.totalCount (Dictionary.size (queue.durableMsgs.erase msgId)) →
          queue.mapper.Collectable (queue.mapper.afterStrike pointer.message world))) := by
  refine CompletesIff.seq (MessageMapper.completesIff_remove _ _ lives)
    fun removed middle done living => ?_
  cases MessageMapper.remove_leaves done
  refine completesIff_ite living (fun _ => ?_) (steady_pure _)
  exact (MessageMapper.completesIff_gc queue.mapper living).bind fun _ => steady_pure _

theorem completesIff_remove (queue : QueueMessage) (msgId : Bytes) (lives : Lives world) :
    CompletesIff (queue.remove msgId) world (queue.Removable msgId world) := by
  unfold Removable
  rw [remove, Dictionary.mem_iff_lookup]
  cases queue.waitackMsgs.lookup msgId with
  | none =>
      refine (completesIff_throw .waitackEnd).congr ⟨False.elim, ?_⟩
      rintro ⟨⟨pointer, same⟩, _⟩
      cases same
  | some pointer =>
      have decided : CompletesIff (do
          let queue ←
            if pointer.deliverMode = .durable then queue.removeDurable msgId pointer
            else pure queue
          return { queue with waitackMsgs := queue.waitackMsgs.erase msgId } : FileM QueueMessage)
          world (pointer.deliverMode = .durable →
            queue.mapper.Strikable pointer.message world ∧
            (CollectionDue queue.totalCount (Dictionary.size (queue.durableMsgs.erase msgId)) →
              queue.mapper.Collectable (queue.mapper.afterStrike pointer.message world))) := by
        refine completesIff_ite lives (fun _ => ?_) (steady_pure _)
        exact (queue.completesIff_removeDurable msgId pointer lives).bind fun _ => steady_pure _
      refine decided.congr ⟨fun met => ⟨⟨pointer, rfl⟩, fun other same => ?_⟩, fun met =>
        met.2 pointer rfl⟩
      cases same
      exact met

end Stores

end QueueMessage

namespace MessageManager

section Deciding

variable {manager : MessageManager} {world : World}

/-- What decides is the store behind the reference, if there is one. -/
theorem completesIff_onStore {α : Type} {reference : Nat} {absent : α}
    {code : QueueMessage → FileM (α × QueueMessage)} {meets : QueueMessage → Prop}
    (lives : Lives world) (decided : ∀ store, CompletesIff (code store) world (meets store)) :
    CompletesIff (manager.onStore reference absent code) world
      (∀ store ∈ manager.queueMsgs.object reference, meets store) := by
  unfold onStore
  cases manager.queueMsgs.object reference with
  | none =>
      exact ((steady_pure _).completesIff lives).congr
        ⟨fun _ _ impossible => (nomatch impossible), fun _ => trivial⟩
  | some store =>
      refine ((decided store).bind fun _ => steady_pure _).congr ⟨fun met other same => ?_,
        fun met => met store rfl⟩
      cases same
      exact met

theorem steady_introduce (manager : MessageManager) (qname : Bytes) :
    Steady (manager.introduce qname) := by
  unfold introduce
  cases manager.queueMsgs.find qname with
  | some reference => exact steady_pure _
  | none => exact steady_bind (QueueMessage.steady_new _ _) fun _ => steady_pure _

theorem steady_clearStore (manager : MessageManager) (reference : Nat) :
    Steady (manager.clearStore reference) := by
  refine steady_bind ?_ fun _ => steady_pure _
  unfold onStore
  cases manager.queueMsgs.object reference with
  | none => exact steady_pure _
  | some store =>
      exact steady_bind (steady_bind store.steady_clear fun _ => steady_pure _) fun _ =>
        steady_pure _

theorem completesIff_insert (qname : Bytes) (properties : Option BasecProperties)
    (uuid body : Bytes) (queueIsDurable : Bool) (lives : Lives world) :
    CompletesIff (manager.insert qname properties uuid body queueIsDurable) world
      (∀ reference ∈ manager.queueMsgs.find qname,
        ∀ store ∈ manager.queueMsgs.object reference,
          store.Insertable properties uuid queueIsDurable world) := by
  unfold insert
  cases manager.queueMsgs.find qname with
  | none =>
      exact ((steady_pure _).completesIff lives).congr
        ⟨fun _ _ impossible => (nomatch impossible), fun _ => trivial⟩
  | some reference =>
      refine (completesIff_onStore lives fun store =>
        store.completesIff_insert properties uuid body queueIsDurable lives).congr
          ⟨fun met other same => ?_, fun met => met reference rfl⟩
      cases same
      exact met

variable [Protobuf]

theorem completesIff_recover (manager : MessageManager) (reference : Nat) (lives : Lives world) :
    CompletesIff (manager.recover reference) world
      (∀ store ∈ manager.queueMsgs.object reference, store.mapper.Collectable world) :=
  (completesIff_onStore lives fun store =>
    (store.completesIff_recovery lives).bind fun _ => steady_pure _).bind fun _ => steady_pure _

theorem completesIff_removeFrom (manager : MessageManager) (reference : Nat) (msgId : Bytes)
    (lives : Lives world) :
    CompletesIff (manager.removeFrom reference msgId) world
      (∀ store ∈ manager.queueMsgs.object reference, store.Removable msgId world) :=
  (completesIff_onStore lives fun store =>
    (store.completesIff_remove msgId lives).bind fun _ => steady_pure _).bind fun _ => steady_pure _

theorem completesIff_ack (manager : MessageManager) (qname msgId : Bytes) (lives : Lives world) :
    CompletesIff (manager.ack qname msgId) world
      (∀ reference ∈ manager.queueMsgs.find qname,
        ∀ store ∈ manager.queueMsgs.object reference, store.Removable msgId world) := by
  unfold ack
  cases manager.queueMsgs.find qname with
  | none =>
      exact ((steady_pure _).completesIff lives).congr
        ⟨fun _ _ impossible => (nomatch impossible), fun _ => trivial⟩
  | some reference =>
      refine (manager.completesIff_removeFrom reference msgId lives).congr
        ⟨fun met other same => ?_, fun met => met reference rfl⟩
      cases same
      exact met

end Deciding

end MessageManager

/-! ## The requests -/

namespace Channel

/-- The consumer that the channel would take out of its queue has a unit to
leave. -/
def Destroyable (cmptr : ConsumerManager) (channel : Channel) : Prop :=
  ∀ consumer, channel.consumer = some consumer →
    ∃ unit, cmptr.qconsumers.select consumer.qname = some unit

instance (cmptr : ConsumerManager) (channel : Channel) :
    Decidable (Destroyable cmptr channel) :=
  decidable_of_iff (∀ consumer ∈ channel.consumer,
    (cmptr.qconsumers.select consumer.qname).isSome = true)
    (forall₂_congr fun _ _ => Option.isSome_iff_exists)

/-- The router has an answer for the key of a binding. -/
def Publication.Routes (publication : Publication) (binding : Binding) : Prop :=
  publication.type = .topic → Router.isLegalRoutingKey (rotingKeyOf publication.properties) = true →
    Router.isLegalBindingKey binding.bindingKey = true → Router.words binding.bindingKey ≠ []

instance (publication : Publication) (binding : Binding) :
    Decidable (publication.Routes binding) :=
  inferInstanceAs (Decidable (_ → _ → _ → _))

/-- A message can be put into the queue of a binding: the router has an answer, and if
it accepts, a queue that is there can take the message. -/
def Publication.Enters (publication : Publication) (host : VirtualHost) (mqb : Bytes × Binding)
    (world : World) : Prop :=
  publication.Routes mqb.2 ∧
    (Router.route publication.type mqb.2.bindingKey (rotingKeyOf publication.properties) =
        .ok true →
      ∀ queue ∈ host.qmptr.selectQueue mqb.1, ∀ reference ∈ host.mmptr.queueMsgs.find mqb.1,
        ∀ store ∈ host.mmptr.queueMsgs.object reference,
          store.Insertable publication.properties (publication.uuid mqb.1) queue.durable world)

instance (publication : Publication) (host : VirtualHost) (mqb : Bytes × Binding) (world : World) :
    Decidable (publication.Enters host mqb world) :=
  inferInstanceAs (Decidable (_ ∧ _))

/-- The channel can carry out a request that takes one step. -/
def Defined [Protobuf] (shared : Shared) (world : World) : Request → Prop
  | .basicAck queueName messageId =>
      ∀ reference ∈ shared.host.mmptr.queueMsgs.find queueName,
        ∀ store ∈ shared.host.mmptr.queueMsgs.object reference, store.Removable messageId world
  | .basicCancel _ queueName => (shared.cmptr.qconsumers.select queueName).isSome = true
  | _ => True

instance [Protobuf] (shared : Shared) (world : World) :
    ∀ request, Decidable (Defined shared world request)
  | .declareExchange _ => .isTrue trivial
  | .deleteExchange _ => .isTrue trivial
  | .declareQueue _ => .isTrue trivial
  | .deleteQueue _ => .isTrue trivial
  | .queueBind _ _ _ => .isTrue trivial
  | .queueUnbind _ _ => .isTrue trivial
  | .basicPublish _ _ _ => .isTrue trivial
  | .basicAck queueName messageId => inferInstanceAs (Decidable
      (∀ reference ∈ shared.host.mmptr.queueMsgs.find queueName,
        ∀ store ∈ shared.host.mmptr.queueMsgs.object reference,
          store.Removable messageId world))
  | .basicConsume _ _ _ => .isTrue trivial
  | .basicCancel _ queueName =>
      inferInstanceAs (Decidable ((shared.cmptr.qconsumers.select queueName).isSome = true))

section Requests

variable {shared : Shared} {world : World}

theorem destroy_ok_iff (channel : Channel) :
    (∃ next, destroy shared channel = .ok next) ↔ Destroyable shared.cmptr channel := by
  unfold destroy Destroyable
  cases channel.consumer with
  | none => exact ⟨fun _ => nofun, fun _ => ⟨shared, rfl⟩⟩
  | some consumer =>
      have removes := shared.cmptr.remove_ok_iff consumer.tag consumer.qname
      constructor
      · rintro ⟨next, removed⟩ other same
        cases same
        rcases except_map_eq_ok removed with ⟨cmptr, done, _⟩
        exact removes.mp ⟨cmptr, done⟩
      · intro leaves
        rcases removes.mpr (leaves consumer rfl) with ⟨cmptr, done⟩
        refine ⟨{ shared with cmptr := cmptr }, ?_⟩
        simp only [done]
        rfl

theorem basicCancel_ok_iff (channel : Channel) (consumerTag queueName : Bytes) :
    (∃ result, basicCancel channel shared consumerTag queueName = .ok result) ↔
      ∃ unit, shared.cmptr.qconsumers.select queueName = some unit := by
  rw [← shared.cmptr.remove_ok_iff consumerTag queueName]
  constructor
  · rintro ⟨result, cancelled⟩
    rcases basicCancel_ok cancelled with ⟨cmptr, removed, _⟩
    exact ⟨cmptr, removed⟩
  · rintro ⟨cmptr, removed⟩
    exact ⟨({ channel with consumer := none }, { shared with cmptr := cmptr }),
      by rw [basicCancel, removed]; rfl⟩

theorem route_ok_iff (type : ExchangeType) (bindingKey routingKey : Bytes) :
    (∃ accepted, Router.route type bindingKey routingKey = .ok accepted) ↔
      (type = .topic → Router.isLegalRoutingKey routingKey = true →
        Router.isLegalBindingKey bindingKey = true → Router.words bindingKey ≠ []) := by
  constructor
  · rintro ⟨accepted, routed⟩ topic legalRouting legalBinding nothing
    have stops := (Router.route_error_iff type bindingKey routingKey .wordsEnd).mpr
      ⟨rfl, topic, legalRouting, legalBinding, nothing⟩
    cases routed.symm.trans stops
  · intro word
    cases routed : Router.route type bindingKey routingKey with
    | ok accepted => exact ⟨accepted, rfl⟩
    | error fault =>
        rcases (Router.route_error_iff type bindingKey routingKey fault).mp routed with
          ⟨_, topic, legalRouting, legalBinding, nothing⟩
        exact absurd nothing (word topic legalRouting legalBinding)

/-- The first part of a turn completes if the message can be put into the queue. -/
theorem completesIff_insertTurn (publication : Publication) (shared : Shared)
    (mqb : Bytes × Binding) (lives : Lives world) :
    CompletesIff (insertTurn publication shared mqb) world
      (publication.Enters shared.host mqb world) := by
  refine CompletesIff.seq ((completesIff_ofExcept lives).congr (route_ok_iff _ _ _))
    fun accepted middle routed living => ?_
  rcases ofExcept_eq_ok routed with ⟨outcome, rfl⟩
  rw [outcome]
  cases accepted with
  | false =>
      exact ((steady_pure _).completesIff lives).congr
        ⟨fun _ impossible => (nomatch impossible), fun _ => trivial⟩
  | true =>
      simp only [if_true, forall_const]
      refine CompletesIff.bind ?_ fun _ => steady_pure _
      unfold VirtualHost.basicPublish
      cases shared.host.qmptr.selectQueue mqb.1 with
      | none =>
          exact ((steady_pure _).completesIff lives).congr
            ⟨fun _ _ impossible => (nomatch impossible), fun _ => trivial⟩
      | some queue =>
          refine ((MessageManager.completesIff_insert mqb.1 publication.properties
            (publication.uuid mqb.1) publication.body queue.durable lives).bind
              fun _ => steady_pure _).congr ⟨fun met other same => ?_, fun met => met queue rfl⟩
          cases same
          exact met

variable [Protobuf]

/-- An open channel carries out the requests that are defined. -/
theorem completesIff_handle (channel : Channel) (chance : Chance) {request : Request}
    (storeless : Shared.Storeless request) (lives : Lives world) :
    CompletesIff (channel.handle shared chance request) world (Defined shared world request) := by
  cases request with
  | declareExchange exchange => exact (steady_pure _).completesIff lives
  | deleteExchange exchangeName => exact (steady_pure _).completesIff lives
  | declareQueue queue => cases storeless
  | deleteQueue queueName => cases storeless
  | queueBind exchangeName queueName bindingKey => exact (steady_pure _).completesIff lives
  | queueUnbind exchangeName queueName => exact (steady_pure _).completesIff lives
  | basicPublish exchangeName properties body => cases storeless
  | basicAck queueName messageId =>
      refine CompletesIff.bind (CompletesIff.bind (CompletesIff.bind ?_ fun _ => steady_pure _)
        fun _ => steady_pure _) fun _ => steady_pure _
      exact MessageManager.completesIff_ack _ queueName messageId lives
  | basicConsume consumerTag queueName autoAck => exact (steady_pure _).completesIff lives
  | basicCancel consumerTag queueName =>
      refine CompletesIff.bind ((completesIff_ofExcept lives).congr ?_) fun _ => steady_pure _
      exact (basicCancel_ok_iff channel consumerTag queueName).trans Option.isSome_iff_exists.symm

omit [Protobuf]

/-- Destroying a channel takes no unit away. -/
theorem destroyable_congr {shared next : Shared} {channel : Channel}
    (destroyed : destroy shared channel = .ok next) (other : Channel) :
    Destroyable next.cmptr other ↔ Destroyable shared.cmptr other := by
  rcases destroy_ok destroyed with ⟨_, same⟩ | ⟨consumer, cmptr, _, removed, same⟩
  · rw [same]
  · rw [same]
    rcases shared.cmptr.remove_cases removed with ⟨unit, there, units⟩
    refine forall₂_congr fun subscribed _ => ?_
    rw [units]
    by_cases own : subscribed.qname = consumer.qname
    · rw [if_pos own, own, there]
      exact ⟨fun _ => ⟨unit, rfl⟩, fun _ => ⟨_, rfl⟩⟩
    · rw [if_neg own]

/-- Channels can be destroyed one after another if each of them can. -/
theorem destroyAll_ok_iff (channels : List Channel) (shared : Shared) :
    (∃ next, channels.foldlM destroy shared = .ok next) ↔
      ∀ channel ∈ channels, Destroyable shared.cmptr channel := by
  induction channels generalizing shared with
  | nil => exact ⟨fun _ _ member => (nomatch member), fun _ => ⟨shared, rfl⟩⟩
  | cons channel rest inductionHypothesis =>
      rw [List.foldlM_cons, List.forall_mem_cons, ← destroy_ok_iff]
      cases destroyed : destroy shared channel with
      | error fault => exact ⟨nofun, nofun⟩
      | ok next =>
          have units := destroyable_congr destroyed
          rw [show (Except.ok next >>= fun shared => rest.foldlM destroy shared) =
            rest.foldlM destroy next from rfl, inductionHypothesis next]
          simp only [units]
          exact ⟨fun all => ⟨⟨next, rfl⟩, all⟩, And.right⟩

end Requests

end Channel

namespace Server

section Closing

variable {server : Server} {conn : Nat}

theorem closeChannel_ok_iff {connection : Connection}
    (connected : server.connections.lookup conn = some connection) (cid : Bytes) :
    (∃ closed, server.closeChannel conn connection cid = .ok closed) ↔
      ∀ channel, server.channelAt conn cid = some channel →
        Channel.Destroyable server.shared.cmptr channel := by
  rw [channelAt_eq connected, closeChannel]
  cases connection.channels.lookup cid with
  | none => exact ⟨fun _ _ impossible => (nomatch impossible), fun _ => ⟨_, rfl⟩⟩
  | some channel =>
      simp only [Option.some.injEq, forall_eq', ← Channel.destroy_ok_iff]
      cases Channel.destroy server.shared channel with
      | ok shared => exact ⟨fun _ => ⟨shared, rfl⟩, fun _ => ⟨_, rfl⟩⟩
      | error fault => exact ⟨nofun, nofun⟩

theorem deleteConnection_ok_iff (server : Server) (conn : Nat) :
    (∃ next, server.deleteConnection conn = .ok next) ↔
      ∀ connection, server.connections.lookup conn = some connection →
        ∀ channel ∈ Dictionary.values connection.channels,
          Channel.Destroyable server.shared.cmptr channel := by
  unfold deleteConnection
  cases server.connections.lookup conn with
  | none => exact ⟨fun _ _ impossible => (nomatch impossible), fun _ => ⟨_, rfl⟩⟩
  | some connection =>
      simp only [Option.some.injEq, forall_eq', ← Channel.destroyAll_ok_iff]
      cases (Dictionary.values connection.channels).foldlM Channel.destroy server.shared with
      | ok shared => exact ⟨fun _ => ⟨shared, rfl⟩, fun _ => ⟨_, rfl⟩⟩
      | error fault => exact ⟨nofun, nofun⟩

end Closing

end Server


end ProtobufMq
