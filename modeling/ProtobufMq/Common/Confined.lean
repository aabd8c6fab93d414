import ProtobufMq.Common.FileHelper

namespace ProtobufMq

open Foundation

/-!
# Code that keeps to its files

Code is confined to some files if the others make no difference to it and it
makes none to them: with any other contents of these it does the same, and
leaves them there.  One equation says both.  From it follow that confined code
changes no other file, wherever it is stopped, and that its result is the same
on all disks that agree on its files.
-/

/-- A disk with other contents of all files but the given ones. -/
def beside (files : List Bytes) (rest disk : Disk) : Disk :=
  fun name => if files.contains name then disk name else rest name

/-- A result with other contents of all files but the given ones. -/
def resultBeside {α : Type} (files : List Bytes) (rest : Disk) :
    EStateM.Result Fault World α → EStateM.Result Fault World α
  | .ok value world => .ok value ⟨beside files rest world.disk, world.script⟩
  | .error fault world => .error fault ⟨beside files rest world.disk, world.script⟩

/-- Code works on the given files alone. -/
def Confined {α : Type} (files : List Bytes) (code : FileM α) : Prop :=
  ∀ (rest disk : Disk) (script : List Outcome),
    code ⟨beside files rest disk, script⟩ = resultBeside files rest (code ⟨disk, script⟩)

section Beside

variable {files : List Bytes} {rest disk : Disk} {name : Bytes}

theorem beside_mem (member : name ∈ files) : beside files rest disk name = disk name :=
  if_pos (List.contains_iff_mem.mpr member)

theorem beside_notMem (missing : name ∉ files) : beside files rest disk name = rest name :=
  if_neg fun present => missing (List.contains_iff_mem.mp present)

/-- A disk has the contents of any disk that agrees with it on the files. -/
theorem beside_of_agree (agree : ∀ name ∈ files, disk name = rest name) :
    beside files rest disk = rest := by
  funext name
  by_cases member : name ∈ files
  · exact (beside_mem member).trans (agree name member)
  · exact beside_notMem member

theorem beside_update (member : name ∈ files) (content : Option Bytes) :
    beside files rest (Function.update disk name content) =
      Function.update (beside files rest disk) name content := by
  funext other
  by_cases same : other = name
  · subst same
    rw [beside_mem member, Function.update_self, Function.update_self]
  · rw [Function.update_of_ne same]
    unfold beside
    rw [Function.update_of_ne same]

end Beside

/-! ## What confined code does -/

section Confinement

variable {α β : Type} {files : List Bytes} {code : FileM α}

/-- Confined code changes no other file, completed or not. -/
theorem Confined.frame (confined : Confined files code) {name : Bytes} (missing : name ∉ files)
    (world : World) : leftDisk (code world) name = world.disk name := by
  have itself := confined world.disk world.disk world.script
  rw [beside_of_agree fun _ _ => rfl] at itself
  change code world = resultBeside files world.disk (code world) at itself
  rw [itself]
  cases code world with
  | ok value after => exact beside_notMem missing
  | error fault after => exact beside_notMem missing

/-- Confined code gives the same result wherever its files are the same. -/
theorem Confined.value (confined : Confined files code) {disk other : Disk}
    (agree : ∀ name ∈ files, disk name = other name) (script : List Outcome) :
    (performed code other script).map Prod.fst = (performed code disk script).map Prod.fst := by
  have same := confined other disk script
  rw [beside_of_agree agree] at same
  unfold performed
  rw [same]
  cases code ⟨disk, script⟩ with
  | ok value after => rfl
  | error fault after => rfl

theorem confined_pure (value : α) : Confined files (pure value : FileM α) :=
  fun _ _ _ => rfl

theorem confined_throw (fault : Fault) : Confined files (throw fault : FileM α) :=
  fun _ _ _ => rfl

/-- The sequence rule.  What comes later need only be confined for the values
that the first part can give. -/
theorem confined_bind_result {next : α → FileM β} (first : Confined files code)
    (later : ∀ value world after, code world = .ok value after → Confined files (next value)) :
    Confined files (code >>= next) := by
  intro rest disk script
  have begins := first rest disk script
  cases stepped : code ⟨disk, script⟩ with
  | ok value after =>
      rw [stepped] at begins
      rw [bind_ok stepped, bind_ok begins]
      exact later value _ after stepped rest after.disk after.script
  | error fault after =>
      rw [stepped] at begins
      rw [bind_error stepped, bind_error begins]
      rfl

theorem confined_bind {next : α → FileM β} (first : Confined files code)
    (later : ∀ value, Confined files (next value)) : Confined files (code >>= next) :=
  confined_bind_result first fun value _ _ _ => later value

theorem confined_ite {condition : Prop} [Decidable condition] {other : FileM α}
    (one : Confined files code) (two : Confined files other) :
    Confined files (if condition then code else other) := by
  by_cases holds : condition
  · rw [if_pos holds]
    exact one
  · rw [if_neg holds]
    exact two

end Confinement

/-! ## The operations on one file -/

section Operations

variable {files : List Bytes} {name : Bytes}

theorem confined_attempt : Confined files attempt := by
  intro rest disk script
  cases script with
  | nil => rfl
  | cons outcome later => cases outcome <;> rfl

theorem confined_setFile (member : name ∈ files) (content : Option Bytes) :
    Confined files (setFile name content) := by
  intro rest disk script
  change EStateM.Result.ok () (World.mk (Function.update (beside files rest disk) name content)
    script) = _
  rw [← beside_update member]
  rfl

/-- Code that looks at one of the files. -/
theorem confined_look {α : Type} (member : name ∈ files) {next : Option Bytes → FileM α}
    (later : ∀ content, Confined files (next content)) :
    Confined files (do next ((← get).disk name)) := by
  intro rest disk script
  change next (beside files rest disk name) _ = resultBeside files rest (next (disk name) _)
  rw [beside_mem member]
  exact later (disk name) rest disk script

theorem confined_fileExists (member : name ∈ files) : Confined files (FileHelper.fileExists name) :=
  confined_look member fun content => confined_pure content.isSome

theorem confined_size (member : name ∈ files) : Confined files (FileHelper.size name) :=
  confined_look member fun content => confined_pure (content.getD []).length

theorem confined_read (member : name ∈ files) (offset length : Nat) :
    Confined files (FileHelper.read name offset length) :=
  confined_look member fun content =>
    confined_pure (content.bind fun content => readAt content offset length)

theorem confined_writeWith (member : name ∈ files) (data : Bytes) (offset : Nat)
    (outcome : Option Shortfall) :
    Confined files (FileHelper.writeWith name data offset outcome) := by
  intro rest disk script
  have same : beside files rest disk name = disk name := beside_mem member
  cases stored : disk name with
  | none =>
      rw [writeWith_absent (same.trans stored), writeWith_absent stored]
      rfl
  | some content =>
      cases outcome with
      | none =>
          rw [writeWith_all (same.trans stored), writeWith_all stored, ← beside_update member]
          rfl
      | some short =>
          cases short with
          | failed reached =>
              rw [writeWith_failed (same.trans stored), writeWith_failed stored,
                ← beside_update member]
              rfl
          | lost reached =>
              rw [writeWith_lost (same.trans stored), writeWith_lost stored, ← beside_update member]
              rfl

theorem confined_write (member : name ∈ files) (data : Bytes) (offset : Nat) :
    Confined files (FileHelper.write name data offset) :=
  confined_bind confined_attempt fun outcome => confined_writeWith member data offset outcome

theorem confined_createFile (member : name ∈ files) : Confined files (FileHelper.createFile name) := by
  refine confined_bind (confined_fileExists member) fun present =>
    confined_ite (confined_pure true) ?_
  refine confined_bind confined_attempt fun outcome => ?_
  cases outcome with
  | none => exact confined_bind (confined_setFile member _) fun _ => confined_pure true
  | some short => exact confined_pure false

theorem confined_removeFile (member : name ∈ files) : Confined files (FileHelper.removeFile name) := by
  refine confined_bind confined_attempt fun outcome => ?_
  cases outcome with
  | some short => exact confined_pure false
  | none =>
      exact confined_bind (confined_fileExists member) fun present => confined_ite
        (confined_bind (confined_setFile member none) fun _ => confined_pure true)
        (confined_pure false)

theorem confined_rename {newName : Bytes} (member : name ∈ files) (newMember : newName ∈ files) :
    Confined files (FileHelper.rename name newName) := by
  intro rest disk script
  have begins := @confined_attempt files rest disk script
  cases tried : attempt ⟨disk, script⟩ with
  | error fault after =>
      rw [tried] at begins
      rw [FileHelper.rename, bind_error tried, bind_error begins]
      rfl
  | ok outcome after =>
      rw [tried] at begins
      cases outcome with
      | some short =>
          rw [rename_failed tried, rename_failed begins]
          rfl
      | none =>
          have same : beside files rest after.disk name = after.disk name := beside_mem member
          cases stored : after.disk name with
          | none =>
              rw [rename_missing tried stored, rename_missing begins (same.trans stored)]
              rfl
          | some content =>
              rw [rename_moved tried stored, rename_moved begins (same.trans stored),
                ← beside_update member, ← beside_update newMember]
              rfl

end Operations

end ProtobufMq
