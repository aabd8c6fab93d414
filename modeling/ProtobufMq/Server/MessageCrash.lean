import ProtobufMq.Foundation.Run
import ProtobufMq.Server.QueueMessage

namespace ProtobufMq

open Foundation

/-!
# Starts that are cut short

A start constructs the queue and collects its data file.  Any of the file
operations on the way may fail, and the process may die between two of them;
the next start then begins on whatever disk was left.

A collection writes the live records to the temporary file, removes the data
file and renames.  The temporary file is not emptied when it is found, and it
is not looked at when the data file is missing.  So a cut does no harm before
the first byte is in the temporary file and after the rename, and in between
it does, as soon as there is a live message.
-/

/-- An operation that leaves no byte behind, and does not seem to succeed. -/
def Outcome.Blank : Outcome → Prop
  | .done => False
  | .fails reached => reached = 0
  | .loses _ => False
  | .dies => True

instance (outcome : Outcome) : Decidable outcome.Blank := by
  cases outcome with
  | done => exact inferInstanceAs (Decidable False)
  | fails reached => exact inferInstanceAs (Decidable (reached = 0))
  | loses reached => exact inferInstanceAs (Decidable False)
  | dies => exact inferInstanceAs (Decidable True)

namespace QueueMessage

/-- One start, whose file operations meet the given outcomes, leaves a disk. -/
def start [Protobuf] (qname basedir : Bytes) (disk : Disk) (script : List Outcome) :
    Except Fault Disk :=
  .ok (leftDisk ((new qname basedir >>= recovery) ⟨disk, script⟩))

/-- The next start, with nothing failing, finds the given messages, and leaves
a data file from which they are loaded. -/
def NextStartFinds [Protobuf] (qname basedir : Bytes) (live : List Payload) (disk : Disk) : Prop :=
  ∃ recovered after, restart qname basedir disk = .ok (recovered, after) ∧
    recovered.msgs.map (·.message.payload) = live ∧
    ∃ messages, calmly (MessageMapper.ofNames qname basedir).load after =
        .ok ((true, messages), after) ∧
      messages.map (·.payload) = live

/-- The cut comes when the temporary file is created, or at the first write to
it, of which nothing arrives and which the program knows to have failed. -/
def CutBeforeWriting (mapper : MessageMapper) (disk : Disk) (script : List Outcome) : Prop :=
  ¬ Undisturbed (creating disk mapper.tmpfile) script ∨
  ∃ outcome ∈ (script.drop (creating disk mapper.tmpfile)).head?, Outcome.Blank outcome

/-- A start that does no harm: there is no live message, or the cut comes before
the temporary file has a content, or there is no cut up to the rename. -/
def CutSafely (mapper : MessageMapper) (live : List Payload) (disk : Disk)
    (script : List Outcome) : Prop :=
  live = [] ∨ CutBeforeWriting mapper disk script ∨
    Undisturbed (creating disk mapper.tmpfile + (2 * live.length + (1 + 1))) script

/-! ## The invariant -/

/-- The disk holds the live messages, and nothing else that a start would take
for messages. -/
structure Intact [Protobuf] (mapper : MessageMapper) (live : List Payload) (disk : Disk) : Prop where
  data : (∃ records, disk mapper.datafile = some (Record.file records) ∧
    Record.livePayloads records = live) ∨ (disk mapper.datafile = none ∧ live = [])
  tmp : (disk mapper.tmpfile).getD [] = []

section Steps

variable [Protobuf] {qname basedir : Bytes} {live : List Payload} {disk : Disk}

/-- A collection of an intact disk leaves it intact. -/
theorem intact_collected {mapper : MessageMapper} (undoes : Undoes)
    (distinct : mapper.tmpfile ≠ mapper.datafile) {records : List Record}
    (agrees : Record.livePayloads records = live) (tmp : (disk mapper.tmpfile).getD [] = []) :
    Intact mapper live (mapper.collectedDisk disk records) := by
  rcases Record.exists_compacted undoes records with ⟨compacted, file, same⟩
  refine ⟨Or.inl ⟨compacted, ?_, same.trans agrees⟩, ?_⟩
  · rw [MessageMapper.collectedDisk, Function.update_of_ne distinct.symm, Function.update_self, tmp,
      List.nil_append, file]
  · rw [MessageMapper.collectedDisk, Function.update_self, Option.getD_none]

private theorem nextStartFinds_of_records (undoes : Undoes) {records : List Record}
    (stored : disk (MessageMapper.ofNames qname basedir).datafile = some (Record.file records))
    (agrees : Record.livePayloads records = live)
    (tmp : (disk (MessageMapper.ofNames qname basedir).tmpfile).getD [] = []) :
    NextStartFinds qname basedir live disk := by
  have distinct := MessageMapper.ofNames_distinct qname basedir
  rcases restart_records qname basedir stored with ⟨recovered, restarted, found⟩
  have after := intact_collected undoes distinct agrees tmp
  refine ⟨recovered, _, restarted, found.trans agrees, ?_⟩
  rcases after.data with ⟨compacted, storedAfter, agreesAfter⟩ | ⟨absent, _⟩
  · have loaded : (MessageMapper.ofNames qname basedir).load
        ⟨(MessageMapper.ofNames qname basedir).collectedDisk disk records, []⟩ = _ :=
      MessageMapper.load_records storedAfter
    refine ⟨_, calmly_ok loaded, ?_⟩
    rw [List.map_map, agreesAfter]
    exact List.map_id _
  · rw [MessageMapper.collectedDisk, Function.update_of_ne distinct.symm,
      Function.update_self] at absent
    cases absent

/-- From an intact disk the next start is right. -/
theorem nextStartFinds_of_intact (undoes : Undoes)
    (intact : Intact (MessageMapper.ofNames qname basedir) live disk) :
    NextStartFinds qname basedir live disk := by
  have distinct := MessageMapper.ofNames_distinct qname basedir
  rcases intact.data with ⟨records, stored, agrees⟩ | ⟨absent, empty⟩
  · exact nextStartFinds_of_records undoes stored agrees intact.tmp
  · have stored : Function.update disk (MessageMapper.ofNames qname basedir).datafile (some [])
        (MessageMapper.ofNames qname basedir).datafile = some (Record.file []) :=
      Function.update_self ..
    have tmp : (Function.update disk (MessageMapper.ofNames qname basedir).datafile (some [])
        (MessageMapper.ofNames qname basedir).tmpfile).getD [] = [] := by
      rw [Function.update_of_ne distinct, intact.tmp]
    rcases nextStartFinds_of_records undoes stored empty.symm tmp with
      ⟨recovered, after, restarted, found, loaded⟩
    exact ⟨recovered, after, (restart_absent qname basedir absent).trans restarted, found, loaded⟩

/-! ## One start -/

/-- With a data file in place, a start leaves what its collection leaves. -/
theorem start_present {content : Bytes} {script : List Outcome}
    (stored : disk (MessageMapper.ofNames qname basedir).datafile = some content) :
    start qname basedir disk script =
      .ok (leftDisk ((MessageMapper.ofNames qname basedir).gc ⟨disk, script⟩)) := by
  rw [start, leftDisk_bind_ok (new_present qname basedir script stored)]
  exact congrArg Except.ok (leftDisk_map _ _)

/-- An uncut start. -/
theorem intact_uncut (undoes : Undoes) {script : List Outcome}
    (intact : Intact (MessageMapper.ofNames qname basedir) live disk) {records : List Record}
    (stored : disk (MessageMapper.ofNames qname basedir).datafile = some (Record.file records))
    (agrees : Record.livePayloads records = live)
    (calm : Undisturbed (creating disk (MessageMapper.ofNames qname basedir).tmpfile +
      (2 * live.length + (1 + 1))) script) {next : Disk}
    (started : start qname basedir disk script = .ok next) :
    Intact (MessageMapper.ofNames qname basedir) live next := by
  have distinct := MessageMapper.ofNames_distinct qname basedir
  subst agrees
  rw [start_present stored, MessageMapper.gc_done distinct stored calm] at started
  cases started
  exact intact_collected undoes distinct rfl intact.tmp

/-- A write that stops code and leaves nothing. -/
def StopsBlank (disk : Disk) (result : EStateM.Result Fault World Bool) : Prop :=
  ∃ fault rest, result = .error fault ⟨disk, rest⟩

omit [Protobuf] in
/-- A write to a file that is not there leaves nothing. -/
theorem stopsBlank_absent {name : Bytes} (absent : disk name = none) (script : List Outcome)
    (data : Bytes) (offset : Nat) :
    StopsBlank disk (FileHelper.write name data offset ⟨disk, script⟩) := by
  rcases @write_absent name ⟨disk, script⟩ absent data offset with
    ⟨fault, ⟨left, rest⟩, stopped, unchanged⟩
  change left = disk at unchanged
  rw [unchanged] at stopped
  exact ⟨fault, rest, stopped⟩

omit [Protobuf] in
/-- A write that meets a blank outcome leaves nothing. -/
theorem stopsBlank_blank {name content : Bytes} {script : List Outcome}
    (stored : disk name = some content)
    (blank : ∃ outcome ∈ script.head?, Outcome.Blank outcome) (data : Bytes) (offset : Nat) :
    StopsBlank disk (FileHelper.write name data offset ⟨disk, script⟩) := by
  rcases blank with ⟨outcome, next, blank⟩
  cases script with
  | nil => cases next
  | cons first rest =>
      cases next
      cases outcome with
      | done => exact absurd blank id
      | loses reached => exact absurd blank id
      | dies => exact ⟨.killed, rest, rfl⟩
      | fails reached =>
          have unchanged : Function.update disk name
              (some (overwrite content offset (data.take reached))) = disk := by
            rw [show reached = 0 from blank, List.take_zero, overwrite, if_pos rfl, ← stored,
              Function.update_eq_self]
          have stopped := write_failed stored data offset reached rest
          rw [unchanged] at stopped
          exact ⟨.logArgument, rest, stopped⟩

omit [Protobuf] in
/-- Copying at least one message stops with the first write. -/
theorem insertAll_blank {file : Bytes} {script : List Outcome}
    (blank : ∀ data offset, StopsBlank disk (FileHelper.write file data offset ⟨disk, script⟩))
    (message : Message) (later : List Message) :
    ∃ fault left, MessageMapper.insertAll file (message :: later) ⟨disk, script⟩ =
      .error fault ⟨disk, left⟩ := by
  rcases blank (leBytes sizeOfSize message.payload.serialize.length)
    ((disk file).getD []).length with ⟨fault, left, stopped⟩
  have inserting : MessageMapper.insertInto file message ⟨disk, script⟩ =
      .error fault ⟨disk, left⟩ := by
    rw [MessageMapper.insertInto, bind_ok (size_run _)]
    exact bind_error stopped
  exact ⟨fault, left, bind_error inserting⟩

/-- A collection whose first write to the temporary file leaves nothing leaves
what the creation of that file left. -/
theorem gc_blank {mapper : MessageMapper} {records : List Record} {created : Bool}
    {script rest : List Outcome} {after : Disk}
    (stored : disk mapper.datafile = some (Record.file records))
    (nonempty : Record.livePayloads records ≠ [])
    (create : FileHelper.createFile mapper.tmpfile ⟨disk, script⟩ = .ok created ⟨after, rest⟩)
    (blank : ∀ data offset,
      StopsBlank after (FileHelper.write mapper.tmpfile data offset ⟨after, rest⟩)) :
    leftDisk (mapper.gc ⟨disk, script⟩) = after := by
  have loaded : mapper.load ⟨disk, script⟩ = _ := MessageMapper.load_records stored
  rw [MessageMapper.gc, leftDisk_bind_ok loaded]
  simp only [if_true]
  rw [leftDisk_bind_ok create]
  cases live : Record.livePayloads records with
  | nil => exact absurd live nonempty
  | cons payload payloads =>
      rw [List.map_cons]
      rcases insertAll_blank blank { payload := payload }
        (payloads.map fun payload => { payload := payload }) with ⟨fault, left, stopped⟩
      rw [leftDisk_bind_error stopped]

omit [Protobuf] in
/-- A creation that is not carried out leaves the file absent. -/
theorem createFile_disturbed {name : Bytes} {script : List Outcome}
    (disturbed : ¬ Undisturbed (creating disk name) script) :
    disk name = none ∧ ∃ rest,
      FileHelper.createFile name ⟨disk, script⟩ = .error .killed ⟨disk, rest⟩ ∨
      FileHelper.createFile name ⟨disk, script⟩ = .ok false ⟨disk, rest⟩ := by
  cases stored : disk name with
  | some content =>
      rw [creating, stored] at disturbed
      exact absurd (fun outcome member => by cases member) disturbed
  | none =>
      have absent : FileHelper.fileExists name ⟨disk, script⟩ = .ok false ⟨disk, script⟩ := by
        simp only [fileExists_run, stored, Option.isSome_none]
      refine ⟨rfl, ?_⟩
      rw [FileHelper.createFile, bind_ok absent]
      cases script with
      | nil => exact absurd (undisturbed_nil _) disturbed
      | cons outcome rest =>
          cases outcome with
          | dies => exact ⟨rest, Or.inl rfl⟩
          | fails reached => exact ⟨rest, Or.inr rfl⟩
          | loses reached => exact ⟨rest, Or.inr rfl⟩
          | done =>
              rw [creating, stored] at disturbed
              refine absurd (fun outcome member => ?_) disturbed
              exact List.mem_singleton.mp member

/-- A start that is cut before anything is in the temporary file. -/
theorem intact_cutBeforeWriting {script : List Outcome}
    (intact : Intact (MessageMapper.ofNames qname basedir) live disk) {records : List Record}
    (stored : disk (MessageMapper.ofNames qname basedir).datafile = some (Record.file records))
    (agrees : Record.livePayloads records = live) (nonempty : live ≠ [])
    (early : CutBeforeWriting (MessageMapper.ofNames qname basedir) disk script) {next : Disk}
    (started : start qname basedir disk script = .ok next) :
    Intact (MessageMapper.ofNames qname basedir) live next := by
  have distinct := MessageMapper.ofNames_distinct qname basedir
  subst agrees
  rw [start_present stored] at started
  cases started
  by_cases calm : Undisturbed (creating disk (MessageMapper.ofNames qname basedir).tmpfile) script
  · have blank := early.resolve_left (not_not_intro calm)
    have create := createFile_done (MessageMapper.ofNames qname basedir).tmpfile calm
    rw [gc_blank stored nonempty create (stopsBlank_blank (Function.update_self ..) blank)]
    refine ⟨Or.inl ⟨records, ?_, rfl⟩, ?_⟩
    · rw [Function.update_of_ne distinct.symm, stored]
    · rw [Function.update_self, Option.getD_some, intact.tmp]
  · rcases createFile_disturbed calm with ⟨absent, rest, died | failed⟩
    · have loaded : (MessageMapper.ofNames qname basedir).load ⟨disk, script⟩ = _ :=
        MessageMapper.load_records stored
      rw [MessageMapper.gc, leftDisk_bind_ok loaded]
      simp only [if_true]
      rw [leftDisk_bind_error died]
      exact intact
    · rw [gc_blank stored nonempty failed (stopsBlank_absent absent rest)]
      exact intact

/-! ## Starts without a live message -/

/-- A collection that finds nothing live leaves nothing live, wherever it is
stopped. -/
theorem keeps_gc {mapper : MessageMapper} (distinct : mapper.tmpfile ≠ mapper.datafile) :
    Keeps (Intact mapper []) mapper.gc := by
  intro world intact
  have loaded : mapper.load world = .ok (true, []) world := by
    rcases intact.data with ⟨records, stored, agrees⟩ | ⟨absent, _⟩
    · have found := MessageMapper.load_records stored
      rwa [agrees, List.map_nil] at found
    · exact MessageMapper.load_absent absent
  rw [MessageMapper.gc, leftDisk_bind_ok loaded]
  simp only [if_true, MessageMapper.insertAll, pure_bind]
  refine keeps_bind (keeps_createFile ?_) (fun _ => keeps_bind (keeps_removeFile ?_)
    fun removed => ?_) world intact
  · intro disk held _
    refine ⟨?_, ?_⟩
    · rw [Function.update_of_ne distinct.symm]
      exact held.data
    · rw [Function.update_self, Option.getD_some]
  · intro disk held
    refine ⟨Or.inr ⟨Function.update_self .., rfl⟩, ?_⟩
    rw [Function.update_of_ne distinct, held.tmp]
  · cases removed with
    | false => exact keeps_pure _
    | true =>
        refine keeps_bind (keeps_rename ?_) fun _ => keeps_pure _
        intro disk content held stored
        have empty : content = [] := by
          have tmp := held.tmp
          rwa [stored, Option.getD_some] at tmp
        subst empty
        refine ⟨Or.inl ⟨[], Function.update_self .., rfl⟩, ?_⟩
        rw [Function.update_of_ne distinct, Function.update_self, Option.getD_none]

/-- Without a live message, any outcomes leave the disk intact. -/
theorem intact_nothing_live {script : List Outcome} {next : Disk}
    (intact : Intact (MessageMapper.ofNames qname basedir) [] disk)
    (started : start qname basedir disk script = .ok next) :
    Intact (MessageMapper.ofNames qname basedir) [] next := by
  have distinct := MessageMapper.ofNames_distinct qname basedir
  have opened : Keeps (Intact (MessageMapper.ofNames qname basedir) [])
      (new qname basedir >>= recovery) := by
    simp only [new, MessageMapper.new, bind_assoc, pure_bind]
    refine keeps_bind (keeps_createFile ?_) fun _ world held => ?_
    · intro disk held _
      refine ⟨Or.inl ⟨[], Function.update_self .., rfl⟩, ?_⟩
      rw [Function.update_of_ne distinct, held.tmp]
    · have left : leftDisk (recovery { mapper := MessageMapper.ofNames qname basedir } world) =
          leftDisk ((MessageMapper.ofNames qname basedir).gc world) := leftDisk_map _ _
      rw [left]
      exact keeps_gc distinct world held
  cases started
  exact opened ⟨disk, script⟩ intact

/-- What one start preserves. -/
theorem intact_step (undoes : Undoes) {script : List Outcome} {next : Disk}
    (intact : Intact (MessageMapper.ofNames qname basedir) live disk)
    (safe : CutSafely (MessageMapper.ofNames qname basedir) live disk script)
    (started : start qname basedir disk script = .ok next) :
    Intact (MessageMapper.ofNames qname basedir) live next := by
  by_cases empty : live = []
  · subst empty
    exact intact_nothing_live intact started
  · rcases intact.data with ⟨records, stored, agrees⟩ | ⟨_, nothing⟩
    · rcases safe.resolve_left empty with early | calm
      · exact intact_cutBeforeWriting intact stored agrees empty early started
      · exact intact_uncut undoes intact stored agrees calm started
    · exact absurd nothing empty

end Steps

/-! ## All starts -/

/-- When every start is cut safely, the next start finds the live messages,
whenever it comes. -/
theorem next_start_finds_live [Protobuf] (undoes : Undoes) (qname basedir : Bytes)
    (records : List Record) (disk : Disk)
    (stored : disk (MessageMapper.ofNames qname basedir).datafile = some (Record.file records))
    (tmpAbsent : disk (MessageMapper.ofNames qname basedir).tmpfile = none)
    (scripts : List (List Outcome))
    (safe : Along (start qname basedir)
      (CutSafely (MessageMapper.ofNames qname basedir) (Record.livePayloads records)) disk scripts) :
    Throughout (start qname basedir)
      (NextStartFinds qname basedir (Record.livePayloads records)) disk scripts := by
  refine throughout_of_along (fun state intact => nextStartFinds_of_intact undoes intact)
    (fun state script next intact safe started => intact_step undoes intact safe started) ?_ safe
  refine ⟨Or.inl ⟨records, stored, rfl⟩, ?_⟩
  rw [tmpAbsent, Option.getD_none]

/-- The files of a queue named `q`. -/
def crashMapper : MessageMapper :=
  MessageMapper.ofNames (ascii "q") (ascii "data")

/-- A disk whose data file holds one message. -/
def crashDisk : Disk :=
  Function.update (fun _ => none) crashMapper.datafile
    (some (frames sizeOfSize [({ body := ascii "x", valid := validMark } : Payload).serialize]))

/-- The same, as a record. -/
def crashRecord : Record :=
  Record.ofPayload wireFormat_undoes { body := ascii "x", valid := validMark }
    (Payload.sound_of_ascii (by decide) (by decide))

/-- A start that cannot create its temporary file, then one that dies with the
first write to it, then one that is not cut. -/
theorem next_start_finds_one :
    Throughout (start (ascii "q") (ascii "data"))
      (NextStartFinds (ascii "q") (ascii "data") (Record.livePayloads [crashRecord])) crashDisk
      [[.fails 0], [.done, .dies], []] := by
  refine next_start_finds_live wireFormat_undoes (ascii "q") (ascii "data") [crashRecord] crashDisk
    rfl rfl _ ?_
  refine along_cons (Or.inr (Or.inl ?_)) rfl (along_cons (Or.inr (Or.inl ?_)) rfl
    (along_cons (Or.inr (Or.inr ?_)) rfl trivial))
  · exact Or.inl (by decide)
  · exact Or.inr ⟨.dies, rfl, trivial⟩
  · exact undisturbed_nil _

/-- A start that dies between removing the data file and renaming the temporary
one: the next start finds nothing. -/
theorem cut_before_rename_loses :
    ¬ ∀ (records : List Record) (disk : Disk) (scripts : List (List Outcome)),
      disk crashMapper.datafile = some (Record.file records) →
      disk crashMapper.tmpfile = none →
      Throughout (start (ascii "q") (ascii "data"))
        (NextStartFinds (ascii "q") (ascii "data") (Record.livePayloads records)) disk scripts := by
  intro always
  have everywhere := always [crashRecord] crashDisk [[.done, .done, .done, .done, .dies]] rfl rfl
  rcases everywhere.last rfl with ⟨recovered, after, restarted, found, _⟩
  have nothing : recovered.msgs.map (·.message.payload) = [] := by
    cases restarted
    rfl
  rw [nothing] at found
  exact absurd found (by decide)

end QueueMessage

end ProtobufMq
