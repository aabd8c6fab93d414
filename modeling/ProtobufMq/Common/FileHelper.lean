import Mathlib.Logic.Function.Basic
import ProtobufMq.Common.Msg

namespace ProtobufMq

open Foundation

/-!
# `FileHelper`: files, and the operations that may not succeed

A disk gives each file name its content, or nothing when there is no such
file.  Directories are left out here; the directory of the data files exists.

Every operation that changes the disk may meet an outcome that the program
does not choose: it is carried out, it fails, or the process dies before it.
The outcomes to come are a script, consumed one entry for each changing
operation, and an operation that finds the script used up is carried out; so an
empty script is a run in which nothing fails, and a script ending in `dies` cuts
a run short between two operations.  Reading does not consume an outcome.

A write goes through a buffered stream.  `FileHelper::write` asks the stream
whether it is good before it closes it, and closing is what writes the buffer
out.  So it learns only of a failure to open the file and of one while a body
that is too large for the buffer is written; what is lost on closing is lost
unnoticed, and `write` returns true.  On a failure that it learns of it calls
`printf` with a `%s` and no argument for it.  That call is undefined; here it
ends the program.
-/

/-- What ends a thread of the program before its current call returns. -/
inductive Fault where
  /-- The process dies. -/
  | killed
  /-- `std::length_error`: a string longer than `max_size` was asked for. -/
  | lengthError
  /-- `QueueMessage::remove` uses the end iterator of `_waitack_msgs`. -/
  | waitackEnd
  /-- `ConsumerManager::remove` uses the end iterator of `_qconsumers`. -/
  | consumersEnd
  /-- `router::route` indexes an empty vector of words. -/
  | wordsEnd
  /-- A function that captured the `this` of a channel uses it after the channel
  was destroyed. -/
  | channelGone
  /-- `FileHelper::write` logs a failure with a `%s` that has no argument. -/
  | logArgument
  deriving DecidableEq, Repr

/-- What one changing file operation meets. -/
inductive Outcome where
  | done
  /-- The operation fails, and reports it; a write has put `reached` bytes into
  the file. -/
  | fails (reached : Nat)
  /-- A write does not put all its bytes into the file, at most `reached` of them,
  and nobody notices.  The other operations just fail. -/
  | loses (reached : Nat)
  | dies
  deriving DecidableEq, Repr

/-- How an operation falls short of what it was to do. -/
inductive Shortfall where
  | failed (reached : Nat)
  | lost (reached : Nat)
  deriving DecidableEq, Repr

/-- What a write that falls short puts into the file.  Something is missing when
bytes were lost. -/
def Shortfall.part (data : Bytes) : Shortfall → Bytes
  | .failed reached => data.take reached
  | .lost reached => data.take (min reached (data.length - 1))

/-- The content of every file. -/
abbrev Disk := Bytes → Option Bytes

/-- The disk together with the outcomes to come. -/
structure World where
  disk : Disk
  script : List Outcome

/-- Code that works on files. -/
abbrev FileM := EStateM Fault World

/-- Consume one outcome: nothing if the operation is to be carried out, how it
falls short otherwise. -/
def attempt : FileM (Option Shortfall) := fun world =>
  match world.script with
  | [] => .ok none world
  | .done :: rest => .ok none ⟨world.disk, rest⟩
  | .fails reached :: rest => .ok (some (.failed reached)) ⟨world.disk, rest⟩
  | .loses reached :: rest => .ok (some (.lost reached)) ⟨world.disk, rest⟩
  | .dies :: rest => .error .killed ⟨world.disk, rest⟩

/-- Give a file a content, or remove it. -/
def setFile (name : Bytes) (content : Option Bytes) : FileM Unit :=
  modify fun world => ⟨Function.update world.disk name content, world.script⟩

/-- Code that works on no files. -/
def ofExcept {α : Type} : Except Fault α → FileM α
  | .ok value => pure value
  | .error fault => throw fault

namespace FileHelper

/-- `FileHelper::exists`. -/
def fileExists (name : Bytes) : FileM Bool := do
  return ((← get).disk name).isSome

/-- `FileHelper::size`; a file that is not there has size zero. -/
def size (name : Bytes) : FileM Nat := do
  return (((← get).disk name).getD []).length

/-- `FileHelper::read` of `length` bytes at a position. -/
def read (name : Bytes) (offset length : Nat) : FileM (Option Bytes) := do
  return ((← get).disk name).bind fun content => readAt content offset length

/-- The effect of a write with a known outcome. -/
def writeWith (name data : Bytes) (offset : Nat) (outcome : Option Shortfall) : FileM Bool := do
  match (← get).disk name, outcome with
  | none, _ => throw .logArgument
  | some content, none =>
      setFile name (some (overwrite content offset data))
      return true
  | some content, some (.lost reached) =>
      setFile name (some (overwrite content offset ((Shortfall.lost reached).part data)))
      return true
  | some content, some (.failed reached) =>
      setFile name (some (overwrite content offset ((Shortfall.failed reached).part data)))
      throw .logArgument

/-- `FileHelper::write`.  The stream is opened for reading and writing, so a
file that is not there is not created and the write fails.  The `false` after
the log of a failure is never returned. -/
def write (name data : Bytes) (offset : Nat) : FileM Bool := do
  writeWith name data offset (← attempt)

/-- `FileHelper::createFile`: a file that is there is left as it is. -/
def createFile (name : Bytes) : FileM Bool := do
  if ← fileExists name then
    return true
  else
    match ← attempt with
    | none =>
        setFile name (some [])
        return true
    | some _ => return false

/-- `FileHelper::removeFile`. -/
def removeFile (name : Bytes) : FileM Bool := do
  match ← attempt with
  | none =>
      if ← fileExists name then
        setFile name none
        return true
      else
        return false
  | some _ => return false

/-- `FileHelper::rename`. -/
def rename (name newName : Bytes) : FileM Bool := do
  match ← attempt with
  | none =>
      match (← get).disk name with
      | none => return false
      | some content =>
          setFile name none
          setFile newName (some content)
          return true
  | some _ => return false

end FileHelper

/-! ## How steps compose -/

section Composition

variable {α β : Type} {first : FileM α} {next : α → FileM β} {world after : World}

theorem bind_ok {value : α} (done : first world = .ok value after) :
    (first >>= next) world = next value after := by
  change EStateM.bind first next world = _
  simp only [EStateM.bind, done]

theorem bind_error {fault : Fault} (stopped : first world = .error fault after) :
    (first >>= next) world = .error fault after := by
  change EStateM.bind first next world = _
  simp only [EStateM.bind, stopped]

theorem ofExcept_eq_ok {result : Except Fault α} {value : α}
    (done : ofExcept result world = .ok value after) : result = .ok value ∧ after = world := by
  cases result with
  | ok other =>
      cases done
      exact ⟨rfl, rfl⟩
  | error fault => cases done

/-- A completed sequence completed its first part. -/
theorem bind_eq_ok {result : β} {final : World}
    (completed : (first >>= next) world = .ok result final) :
    ∃ value middle, first world = .ok value middle ∧ next value middle = .ok result final := by
  cases stepped : first world with
  | ok value middle =>
      rw [bind_ok stepped] at completed
      exact ⟨value, middle, rfl, completed⟩
  | error fault middle =>
      rw [bind_error stepped] at completed
      cases completed

/-- What every turn of a loop preserves holds after the loop. -/
theorem foldlM_invariant {σ ι : Type} {turn : σ → ι → FileM σ} {holds : σ → Prop}
    (preserved : ∀ state item next world after, holds state →
      turn state item world = .ok next after → holds next)
    {items : List ι} {start final : σ} {world after : World} (held : holds start)
    (completed : items.foldlM turn start world = .ok final after) : holds final := by
  induction items generalizing start world with
  | nil =>
      cases completed
      exact held
  | cons item rest inductionHypothesis =>
      rw [List.foldlM_cons] at completed
      rcases bind_eq_ok completed with ⟨next, middle, turned, continued⟩
      exact inductionHypothesis (preserved start item next world middle held turned) continued

end Composition

/-- Run code on a disk, with the given outcomes to come. -/
def performed {α : Type} (code : FileM α) (disk : Disk) (script : List Outcome) :
    Except Fault (α × Disk) :=
  match code ⟨disk, script⟩ with
  | .ok value world => .ok (value, world.disk)
  | .error fault _ => .error fault

theorem performed_ok {α : Type} {code : FileM α} {disk : Disk} {script : List Outcome} {value : α}
    {world : World} (done : code ⟨disk, script⟩ = .ok value world) :
    performed code disk script = .ok (value, world.disk) := by
  rw [performed, done]

theorem performed_error {α : Type} {code : FileM α} {disk : Disk} {script : List Outcome}
    {fault : Fault} {world : World} (stopped : code ⟨disk, script⟩ = .error fault world) :
    performed code disk script = .error fault := by
  rw [performed, stopped]

theorem performed_eq_ok {α : Type} {code : FileM α} {disk : Disk} {script : List Outcome}
    {done : α × Disk} (completed : performed code disk script = .ok done) :
    ∃ world, code ⟨disk, script⟩ = .ok done.1 world ∧ world.disk = done.2 := by
  unfold performed at completed
  cases ended : code ⟨disk, script⟩ with
  | ok value world =>
      rw [ended] at completed
      cases completed
      exact ⟨world, rfl, rfl⟩
  | error fault world =>
      rw [ended] at completed
      cases completed

theorem performed_eq_error {α : Type} {code : FileM α} {disk : Disk} {script : List Outcome}
    {fault : Fault} (stopped : performed code disk script = .error fault) :
    ∃ world, code ⟨disk, script⟩ = .error fault world := by
  unfold performed at stopped
  cases ended : code ⟨disk, script⟩ with
  | ok value world =>
      rw [ended] at stopped
      cases stopped
  | error other world =>
      rw [ended] at stopped
      cases stopped
      exact ⟨world, rfl⟩

/-! ## What code leaves on the disk, completed or not -/

/-- The disk that code leaves. -/
def leftDisk {α : Type} : EStateM.Result Fault World α → Disk
  | .ok _ world => world.disk
  | .error _ world => world.disk

/-- Code keeps a property of the disk, wherever it is stopped. -/
def Keeps {α : Type} (holds : Disk → Prop) (code : FileM α) : Prop :=
  ∀ world, holds world.disk → holds (leftDisk (code world))

section Keeping

variable {α β : Type} {holds : Disk → Prop} {first : FileM α} {next : α → FileM β}

theorem leftDisk_bind_ok {value : α} {world after : World} (done : first world = .ok value after) :
    leftDisk ((first >>= next) world) = leftDisk (next value after) := by
  rw [bind_ok done]

theorem leftDisk_bind_error {fault : Fault} {world after : World}
    (stopped : first world = .error fault after) :
    leftDisk ((first >>= next) world) = after.disk := by
  rw [bind_error stopped]
  rfl

theorem keeps_pure (value : α) : Keeps holds (pure value : FileM α) :=
  fun _ held => held

/-- The sequence rule. -/
theorem keeps_bind (firstKeeps : Keeps holds first) (nextKeeps : ∀ value, Keeps holds (next value)) :
    Keeps holds (first >>= next) := by
  intro world held
  have left := firstKeeps world held
  cases stepped : first world with
  | ok value after =>
      rw [stepped] at left
      rw [leftDisk_bind_ok stepped]
      exact nextKeeps value after left
  | error fault after =>
      rw [stepped] at left
      rw [leftDisk_bind_error stepped]
      exact left

theorem keeps_attempt : Keeps holds attempt := by
  intro world held
  rcases world with ⟨disk, script⟩
  cases script with
  | nil => exact held
  | cons outcome rest => cases outcome <;> exact held

theorem keeps_fileExists (name : Bytes) : Keeps holds (FileHelper.fileExists name) :=
  fun _ held => held

/-- A mapped result leaves what it left before it was mapped. -/
theorem leftDisk_map (change : α → β) (world : World) :
    leftDisk ((first >>= fun value => pure (change value)) world) = leftDisk (first world) := by
  cases stepped : first world with
  | ok value after => rw [leftDisk_bind_ok stepped]; rfl
  | error fault after => rw [leftDisk_bind_error stepped]; rfl

end Keeping

section KeepingFiles

variable {holds : Disk → Prop} {name newName : Bytes}

theorem keeps_createFile
    (creates : ∀ disk, holds disk → disk name = none → holds (Function.update disk name (some []))) :
    Keeps holds (FileHelper.createFile name) := by
  intro world held
  cases stored : world.disk name with
  | some content =>
      have present : FileHelper.fileExists name world = .ok true world := by
        change EStateM.Result.ok (world.disk name).isSome world = _
        rw [stored]
        rfl
      rw [FileHelper.createFile, leftDisk_bind_ok present]
      exact held
  | none =>
      have absent : FileHelper.fileExists name world = .ok false world := by
        change EStateM.Result.ok (world.disk name).isSome world = _
        rw [stored]
        rfl
      rw [FileHelper.createFile, leftDisk_bind_ok absent]
      rcases world with ⟨disk, script⟩
      cases script with
      | nil => exact creates disk held stored
      | cons outcome rest =>
          cases outcome with
          | done => exact creates disk held stored
          | fails reached => exact held
          | loses reached => exact held
          | dies => exact held

theorem keeps_removeFile (removes : ∀ disk, holds disk → holds (Function.update disk name none)) :
    Keeps holds (FileHelper.removeFile name) := by
  refine keeps_bind keeps_attempt fun outcome => ?_
  cases outcome with
  | some short => exact keeps_pure false
  | none =>
      refine keeps_bind (keeps_fileExists name) fun present => ?_
      cases present with
      | false => exact keeps_pure false
      | true => exact fun world held => removes world.disk held

theorem keeps_rename
    (renames : ∀ disk content, holds disk → disk name = some content →
      holds (Function.update (Function.update disk name none) newName (some content))) :
    Keeps holds (FileHelper.rename name newName) := by
  refine keeps_bind keeps_attempt fun outcome => ?_
  cases outcome with
  | some short => exact keeps_pure false
  | none =>
      intro world held
      change holds (leftDisk ((match world.disk name with
        | none => (pure false : FileM Bool)
        | some content => do
            setFile name none
            setFile newName (some content)
            return true) world))
      cases stored : world.disk name with
      | none => exact held
      | some content => exact renames world.disk content held stored

end KeepingFiles

/-! ## What may stop code -/

/-- Only faults of a kind stop the code. -/
def StopsBy {α : Type} (kind : Fault → Prop) (code : FileM α) : Prop :=
  ∀ world fault after, code world = .error fault after → kind fault

section Stopping

variable {α β : Type} {kind : Fault → Prop} {first : FileM α} {next : α → FileM β}

theorem stopsBy_pure (value : α) : StopsBy kind (pure value : FileM α) :=
  fun _ _ _ stopped => (nomatch stopped)

/-- The sequence rule. -/
theorem stopsBy_bind (firstStops : StopsBy kind first) (nextStops : ∀ value, StopsBy kind (next value)) :
    StopsBy kind (first >>= next) := by
  intro world fault after stopped
  cases stepped : first world with
  | ok value middle =>
      rw [bind_ok stepped] at stopped
      exact nextStops value middle fault after stopped
  | error other middle =>
      rw [bind_error stepped] at stopped
      cases stopped
      exact firstStops world fault after stepped

theorem stopsBy_throw {fault : Fault} (ofKind : kind fault) :
    StopsBy kind (throw fault : FileM α) := by
  intro world other after stopped
  cases stopped
  exact ofKind

theorem stopsBy_ofExcept {result : Except Fault α}
    (ofKind : ∀ fault, result = .error fault → kind fault) : StopsBy kind (ofExcept result) := by
  cases result with
  | ok value => exact stopsBy_pure value
  | error fault => exact stopsBy_throw (ofKind fault rfl)

theorem stopsBy_ite {condition : Prop} [Decidable condition] {other : FileM α}
    (one : StopsBy kind first) (two : StopsBy kind other) :
    StopsBy kind (if condition then first else other) := by
  by_cases holds : condition
  · rw [if_pos holds]
    exact one
  · rw [if_neg holds]
    exact two

/-- What every turn is stopped by stops the loop. -/
theorem stopsBy_foldlM {σ ι : Type} {turn : σ → ι → FileM σ}
    (turnStops : ∀ state item, StopsBy kind (turn state item)) (items : List ι) (state : σ) :
    StopsBy kind (items.foldlM turn state) := by
  induction items generalizing state with
  | nil => exact stopsBy_pure state
  | cons item rest inductionHypothesis =>
      rw [List.foldlM_cons]
      exact stopsBy_bind (turnStops state item) fun next => inductionHypothesis next

end Stopping

/-- A kind of faults that has those which a write can meet. -/
structure WriteFaults (kind : Fault → Prop) : Prop where
  killed : kind .killed
  logged : kind .logArgument

section StoppingFiles

variable {kind : Fault → Prop} (dies : kind .killed) (writes : WriteFaults kind)
  (name newName data : Bytes) (offset length : Nat)

theorem stopsBy_fileExists : StopsBy kind (FileHelper.fileExists name) :=
  fun _ _ _ stopped => (nomatch stopped)

theorem stopsBy_size : StopsBy kind (FileHelper.size name) :=
  fun _ _ _ stopped => (nomatch stopped)

theorem stopsBy_read : StopsBy kind (FileHelper.read name offset length) :=
  fun _ _ _ stopped => (nomatch stopped)

theorem stopsBy_setFile (content : Option Bytes) : StopsBy kind (setFile name content) :=
  fun _ _ _ stopped => (nomatch stopped)

include dies

/-- Only a changing operation lets the process die. -/
theorem stopsBy_attempt : StopsBy kind attempt := by
  rintro ⟨disk, script⟩ fault after stopped
  cases script with
  | nil => cases stopped
  | cons outcome rest =>
      cases outcome with
      | done => cases stopped
      | fails reached => cases stopped
      | loses reached => cases stopped
      | dies =>
          cases stopped
          exact dies

theorem stopsBy_createFile : StopsBy kind (FileHelper.createFile name) := by
  refine stopsBy_bind (stopsBy_fileExists name) fun present => stopsBy_ite (stopsBy_pure true) ?_
  refine stopsBy_bind (stopsBy_attempt dies) fun outcome => ?_
  cases outcome with
  | none => exact stopsBy_bind (stopsBy_setFile name _) fun _ => stopsBy_pure true
  | some short => exact stopsBy_pure false

theorem stopsBy_removeFile : StopsBy kind (FileHelper.removeFile name) := by
  refine stopsBy_bind (stopsBy_attempt dies) fun outcome => ?_
  cases outcome with
  | some short => exact stopsBy_pure false
  | none =>
      exact stopsBy_bind (stopsBy_fileExists name) fun present => stopsBy_ite
        (stopsBy_bind (stopsBy_setFile name none) fun _ => stopsBy_pure true) (stopsBy_pure false)

theorem stopsBy_rename : StopsBy kind (FileHelper.rename name newName) := by
  refine stopsBy_bind (stopsBy_attempt dies) fun outcome => ?_
  cases outcome with
  | some short => exact stopsBy_pure false
  | none =>
      refine stopsBy_bind (fun _ _ _ stopped => (nomatch stopped)) fun world => ?_
      cases world.disk name with
      | none => exact stopsBy_pure false
      | some content =>
          exact stopsBy_bind (stopsBy_setFile name none) fun _ =>
            stopsBy_bind (stopsBy_setFile newName _) fun _ => stopsBy_pure true

omit dies in
include writes in
/-- A write may also be stopped by the log of its failure. -/
theorem stopsBy_write : StopsBy kind (FileHelper.write name data offset) := by
  refine stopsBy_bind (stopsBy_attempt writes.killed) fun outcome => ?_
  refine stopsBy_bind (fun _ _ _ stopped => (nomatch stopped)) fun world => ?_
  cases world.disk name with
  | none => exact stopsBy_throw writes.logged
  | some content =>
      cases outcome with
      | none => exact stopsBy_bind (stopsBy_setFile name _) fun _ => stopsBy_pure true
      | some short =>
          cases short with
          | failed reached =>
              exact stopsBy_bind (stopsBy_setFile name _) fun _ => stopsBy_throw writes.logged
          | lost reached => exact stopsBy_bind (stopsBy_setFile name _) fun _ => stopsBy_pure true

end StoppingFiles

/-! ## The operations when they are carried out -/

/-- The next changing operations are all carried out. -/
def Undisturbed (operations : Nat) (script : List Outcome) : Prop :=
  ∀ outcome ∈ script.take operations, outcome = .done

instance (operations : Nat) (script : List Outcome) : Decidable (Undisturbed operations script) :=
  inferInstanceAs (Decidable (∀ outcome ∈ script.take operations, outcome = .done))

theorem undisturbed_nil (operations : Nat) : Undisturbed operations [] := by
  intro outcome member
  rw [List.take_nil] at member
  cases member

/-- Undisturbed operations are a first stretch and what follows it. -/
theorem undisturbed_add {first later : Nat} {script : List Outcome} :
    Undisturbed (first + later) script ↔
      Undisturbed first script ∧ Undisturbed later (script.drop first) := by
  unfold Undisturbed
  rw [List.take_add]
  constructor
  · intro all
    exact ⟨fun outcome member => all outcome (List.mem_append_left _ member),
      fun outcome member => all outcome (List.mem_append_right _ member)⟩
  · rintro ⟨earlier, onward⟩ outcome member
    rcases List.mem_append.mp member with old | new
    · exact earlier outcome old
    · exact onward outcome new

theorem attempt_done {disk : Disk} {script : List Outcome} (calm : Undisturbed 1 script) :
    attempt ⟨disk, script⟩ = .ok none ⟨disk, script.drop 1⟩ := by
  cases script with
  | nil => rfl
  | cons outcome rest =>
      rw [calm outcome List.mem_cons_self]
      rfl

section Done

variable {disk : Disk} {script : List Outcome} {name content : Bytes}

@[simp] theorem size_run (world : World) :
    FileHelper.size name world = .ok ((world.disk name).getD []).length world := rfl

@[simp] theorem read_run (world : World) (offset length : Nat) :
    FileHelper.read name offset length world =
      .ok ((world.disk name).bind fun content => readAt content offset length) world := rfl

@[simp] theorem fileExists_run (world : World) :
    FileHelper.fileExists name world = .ok (world.disk name).isSome world := rfl

theorem writeWith_absent {world : World} (absent : world.disk name = none) (data : Bytes)
    (offset : Nat) (outcome : Option Shortfall) :
    FileHelper.writeWith name data offset outcome world = .error .logArgument world := by
  rw [FileHelper.writeWith, bind_ok (rfl : (get : FileM World) world = .ok world world), absent]
  rfl

theorem writeWith_all {world : World} (stored : world.disk name = some content) (data : Bytes)
    (offset : Nat) :
    FileHelper.writeWith name data offset none world =
      .ok true ⟨Function.update world.disk name (some (overwrite content offset data)),
        world.script⟩ := by
  rw [FileHelper.writeWith, bind_ok (rfl : (get : FileM World) world = .ok world world), stored]
  rfl

theorem writeWith_lost {world : World} (stored : world.disk name = some content) (data : Bytes)
    (offset reached : Nat) :
    FileHelper.writeWith name data offset (some (.lost reached)) world =
      .ok true ⟨Function.update world.disk name (some (overwrite content offset
        ((Shortfall.lost reached).part data))), world.script⟩ := by
  rw [FileHelper.writeWith, bind_ok (rfl : (get : FileM World) world = .ok world world), stored]
  rfl

theorem writeWith_failed {world : World} (stored : world.disk name = some content) (data : Bytes)
    (offset reached : Nat) :
    FileHelper.writeWith name data offset (some (.failed reached)) world =
      .error .logArgument ⟨Function.update world.disk name (some (overwrite content offset
        ((Shortfall.failed reached).part data))), world.script⟩ := by
  rw [FileHelper.writeWith, bind_ok (rfl : (get : FileM World) world = .ok world world), stored]
  rfl

theorem write_done (stored : disk name = some content) (data : Bytes) (offset : Nat)
    (calm : Undisturbed 1 script) :
    FileHelper.write name data offset ⟨disk, script⟩ =
      .ok true ⟨Function.update disk name (some (overwrite content offset data)),
        script.drop 1⟩ := by
  rw [FileHelper.write, bind_ok (attempt_done calm)]
  exact writeWith_all stored data offset

theorem write_lost (stored : disk name = some content) (data : Bytes) (offset reached : Nat)
    (rest : List Outcome) :
    FileHelper.write name data offset ⟨disk, .loses reached :: rest⟩ =
      .ok true ⟨Function.update disk name (some (overwrite content offset
        ((Shortfall.lost reached).part data))), rest⟩ :=
  @writeWith_lost name content ⟨disk, rest⟩ stored data offset reached

theorem write_failed (stored : disk name = some content) (data : Bytes) (offset reached : Nat)
    (rest : List Outcome) :
    FileHelper.write name data offset ⟨disk, .fails reached :: rest⟩ =
      .error .logArgument ⟨Function.update disk name (some (overwrite content offset
        (data.take reached))), rest⟩ :=
  @writeWith_failed name content ⟨disk, rest⟩ stored data offset reached

/-- What the next write meets. -/
def upcoming : List Outcome → Outcome
  | [] => .done
  | outcome :: _ => outcome

theorem undisturbed_one_iff : Undisturbed 1 script ↔ upcoming script = .done := by
  cases script with
  | nil => exact iff_of_true (undisturbed_nil 1) rfl
  | cons outcome rest =>
      exact ⟨fun calm => calm outcome List.mem_cons_self,
        fun done other member => (List.mem_singleton.mp member).trans done⟩

/-- A write that is not absent, by what it meets. -/
theorem write_cases (stored : disk name = some content) (data : Bytes) (offset : Nat) :
    (Undisturbed 1 script ∧ FileHelper.write name data offset ⟨disk, script⟩ =
      .ok true ⟨Function.update disk name (some (overwrite content offset data)),
        script.drop 1⟩) ∨
    (∃ reached, upcoming script = .loses reached ∧
      FileHelper.write name data offset ⟨disk, script⟩ =
        .ok true ⟨Function.update disk name (some (overwrite content offset
          ((Shortfall.lost reached).part data))), script.drop 1⟩) ∨
    (∃ reached, upcoming script = .fails reached ∧
      FileHelper.write name data offset ⟨disk, script⟩ =
        .error .logArgument ⟨Function.update disk name (some (overwrite content offset
          (data.take reached))), script.drop 1⟩) ∨
    (upcoming script = .dies ∧
      FileHelper.write name data offset ⟨disk, script⟩ = .error .killed ⟨disk, script.drop 1⟩) := by
  cases script with
  | nil => exact Or.inl ⟨undisturbed_nil 1, write_done stored data offset (undisturbed_nil 1)⟩
  | cons outcome rest =>
      cases outcome with
      | done =>
          have calm : Undisturbed 1 (.done :: rest) := undisturbed_one_iff.mpr rfl
          exact Or.inl ⟨calm, write_done stored data offset calm⟩
      | loses reached =>
          exact Or.inr (Or.inl ⟨reached, rfl, write_lost stored data offset reached rest⟩)
      | fails reached =>
          exact Or.inr (Or.inr (Or.inl ⟨reached, rfl, write_failed stored data offset reached rest⟩))
      | dies => exact Or.inr (Or.inr (Or.inr ⟨rfl, rfl⟩))

/-- The write of a file that is not there does not return. -/
theorem write_absent {world : World} (absent : world.disk name = none) (data : Bytes)
    (offset : Nat) :
    ∃ fault after, FileHelper.write name data offset world = .error fault after ∧
      after.disk = world.disk := by
  rcases world with ⟨disk, script⟩
  cases script with
  | nil => exact ⟨_, _, @writeWith_absent name ⟨disk, []⟩ absent data offset none, rfl⟩
  | cons outcome rest =>
      cases outcome with
      | done => exact ⟨_, _, @writeWith_absent name ⟨disk, rest⟩ absent data offset none, rfl⟩
      | fails reached => exact ⟨_, _, @writeWith_absent name ⟨disk, rest⟩ absent data offset _, rfl⟩
      | loses reached => exact ⟨_, _, @writeWith_absent name ⟨disk, rest⟩ absent data offset _, rfl⟩
      | dies => exact ⟨_, _, rfl, rfl⟩

/-- A write that returns found its file, returns true, and put everything there
or lost something unnoticed. -/
theorem write_returns {world after : World} {data : Bytes} {offset : Nat} {result : Bool}
    (written : FileHelper.write name data offset world = .ok result after) :
    result = true ∧ after.script = world.script.drop 1 ∧ ∃ content,
      world.disk name = some content ∧
      ((Undisturbed 1 world.script ∧
          after.disk = Function.update world.disk name (some (overwrite content offset data))) ∨
        ∃ reached, upcoming world.script = .loses reached ∧
          after.disk = Function.update world.disk name (some (overwrite content offset
            ((Shortfall.lost reached).part data)))) := by
  rcases world with ⟨disk, script⟩
  cases stored : disk name with
  | none =>
      rcases @write_absent name ⟨disk, script⟩ stored data offset with ⟨fault, other, stopped, _⟩
      cases written.symm.trans stopped
  | some content =>
      rcases @write_cases disk script name content stored data offset with
        ⟨calm, ran⟩ | ⟨reached, next, ran⟩ | ⟨reached, next, ran⟩ | ⟨next, ran⟩
      · cases written.symm.trans ran
        exact ⟨rfl, rfl, content, stored, Or.inl ⟨calm, rfl⟩⟩
      · cases written.symm.trans ran
        exact ⟨rfl, rfl, content, stored, Or.inr ⟨reached, next, rfl⟩⟩
      · cases written.symm.trans ran
      · cases written.symm.trans ran

/-- A write changes no other file. -/
theorem write_frame {world after : World} {data : Bytes} {offset : Nat} {result : Bool}
    (written : FileHelper.write name data offset world = .ok result after) {other : Bytes}
    (distinct : other ≠ name) : after.disk other = world.disk other := by
  rcases write_returns written with ⟨_, _, content, _, ⟨_, left⟩ | ⟨reached, _, left⟩⟩
  · rw [left]
    exact Function.update_of_ne distinct _ _
  · rw [left]
    exact Function.update_of_ne distinct _ _

/-- The changing operations that `createFile` performs. -/
def creating (disk : Disk) (name : Bytes) : Nat :=
  if (disk name).isSome then 0 else 1

theorem createFile_done (name : Bytes) (calm : Undisturbed (creating disk name) script) :
    FileHelper.createFile name ⟨disk, script⟩ =
      .ok true ⟨Function.update disk name (some ((disk name).getD [])),
        script.drop (creating disk name)⟩ := by
  rw [FileHelper.createFile, bind_ok (fileExists_run _)]
  cases stored : disk name with
  | none =>
      rw [creating, stored] at calm ⊢
      simp only [stored, Option.isSome_none, Bool.false_eq_true, if_false] at calm ⊢
      rw [bind_ok (attempt_done calm)]
      rfl
  | some content =>
      have unchanged : Function.update disk name (some content) = disk := by
        rw [← stored, Function.update_eq_self]
      rw [creating, stored]
      simp only [stored, Option.isSome_some, if_true, Option.getD_some, unchanged, List.drop_zero]
      rfl

theorem removeFile_done (stored : disk name = some content) (calm : Undisturbed 1 script) :
    FileHelper.removeFile name ⟨disk, script⟩ =
      .ok true ⟨Function.update disk name none, script.drop 1⟩ := by
  rw [FileHelper.removeFile, bind_ok (attempt_done calm)]
  simp only
  rw [bind_ok (fileExists_run _)]
  simp only [stored, Option.isSome_some, if_true]
  rfl

theorem rename_failed {world after : World} {newName : Bytes} {short : Shortfall}
    (tried : attempt world = .ok (some short) after) :
    FileHelper.rename name newName world = .ok false after :=
  bind_ok tried

theorem rename_missing {world after : World} {newName : Bytes}
    (tried : attempt world = .ok none after) (missing : after.disk name = none) :
    FileHelper.rename name newName world = .ok false after := by
  rw [FileHelper.rename, bind_ok tried]
  change (match after.disk name with
    | none => (pure false : FileM Bool)
    | some content => do
        setFile name none
        setFile newName (some content)
        return true) after = _
  rw [missing]
  rfl

theorem rename_moved {world after : World} {newName : Bytes}
    (tried : attempt world = .ok none after) (stored : after.disk name = some content) :
    FileHelper.rename name newName world =
      .ok true ⟨Function.update (Function.update after.disk name none) newName (some content),
        after.script⟩ := by
  rw [FileHelper.rename, bind_ok tried]
  change (match after.disk name with
    | none => (pure false : FileM Bool)
    | some content => do
        setFile name none
        setFile newName (some content)
        return true) after = _
  rw [stored]
  rfl

theorem rename_done (stored : disk name = some content) (newName : Bytes)
    (calm : Undisturbed 1 script) :
    FileHelper.rename name newName ⟨disk, script⟩ =
      .ok true ⟨Function.update (Function.update disk name none) newName (some content),
        script.drop 1⟩ :=
  rename_moved (attempt_done calm) stored

end Done

end ProtobufMq
