import Mathlib.Tactic.IntervalCases
import ProtobufMq.Server.Loading
import ProtobufMq.Server.MessageDurability

namespace ProtobufMq

open Foundation

/-!
# What a failed insertion leaves

A record is written in two steps, and nothing takes the first back when the
second fails.  The next insertion asks for the size of the file and writes after
whatever is there.  A leftover that is not a whole record makes the loader take
bytes of later records for the rest of it; a whole record whose write was only
reported as failed brings back a message that was refused.

The failure is logged with an argument missing.  Where that ends the program,
the next start works on the leftover; where `printf` comes back from it, the
insertion returns false and the queue goes on.  Both are looked at here.
-/

namespace QueueMessage

/-- The arguments of `QueueMessage::insert`. -/
structure Insertion where
  properties : Option BasecProperties
  uuid : Bytes
  body : Bytes
  queueIsDurable : Bool

namespace Insertion

/-- The message is stored. -/
def Durable (insertion : Insertion) : Prop :=
  (composed insertion.properties insertion.uuid insertion.queueIsDurable).deliverMode = .durable

instance (insertion : Insertion) : Decidable insertion.Durable :=
  inferInstanceAs (Decidable (_ = _))

/-- The payload of the message if it is stored. -/
def payload (insertion : Insertion) : Payload :=
  stamped (composed insertion.properties insertion.uuid insertion.queueIsDurable) insertion.body

/-- The call. -/
def perform (insertion : Insertion) (queue : QueueMessage) : FileM (Bool × QueueMessage) :=
  queue.insert insertion.properties insertion.uuid insertion.body insertion.queueIsDurable

/-- The call where `printf` comes back from the log of a failed write.  The
write, `MessageMapper::insert` and `QueueMessage::insert` then return false one
after the other, and none of them changes the queue. -/
def resumed (insertion : Insertion) (queue : QueueMessage) : FileM (Bool × QueueMessage) :=
  fun world =>
    match insertion.perform queue world with
    | .error .logArgument after => .ok (false, queue) after
    | other => other

end Insertion

/-- Insertions one after another, whatever they return: the payloads of the
stored messages that were accepted, and the queue. -/
def insertEach (queue : QueueMessage) : List Insertion → FileM (List Payload × QueueMessage)
  | [] => return ([], queue)
  | insertion :: rest => do
      let inserted ← insertion.resumed queue
      let later ← inserted.2.insertEach rest
      if inserted.1 ∧ insertion.Durable then
        return (insertion.payload :: later.1, later.2)
      else
        return later

/-- The program learns that a write of the record fails: that of the length, or
that of the body after the length was written. -/
def FailsNoticed (script : List Outcome) : Prop :=
  ∃ reached, upcoming script = .fails reached ∨
    (Undisturbed 1 script ∧ upcoming (script.drop 1) = .fails reached)

/-- Of the writes to come each is carried out, or is that of a length, fails and
leaves no byte. -/
def Unharmed : List Insertion → List Outcome → Prop
  | [], _ => True
  | insertion :: rest, script =>
      if insertion.Durable then
        (Undisturbed 2 script ∧ Unharmed rest (script.drop 2)) ∨
          (script.head? = some (.fails 0) ∧ Unharmed rest (script.drop 1))
      else Unharmed rest script

/-- A restart finds the messages with these payloads. -/
def Recovers [Protobuf] (qname basedir : Bytes) (disk : Disk) (payloads : List Payload) : Prop :=
  ∃ recovered after, restart qname basedir disk = .ok (recovered, after) ∧
    recovered.msgs.map (·.message.payload) = payloads

/-- Whatever is inserted from here on, a restart finds the old messages and all
stored messages that were accepted. -/
def NoHarm [Protobuf] (qname basedir : Bytes) (old : List Payload) (queue : QueueMessage)
    (disk : Disk) : Prop :=
  ∀ (later : List Insertion) (script : List Outcome), Unharmed later script →
    (∀ insertion ∈ later, insertion.payload.Sound) →
    ∃ accepted final after, queue.insertEach later ⟨disk, script⟩ = .ok (accepted, final) after ∧
      Recovers qname basedir after.disk (old ++ accepted)

/-- The next start finds the old messages, and what is inserted from then on does
no harm to them and is found too. -/
def NoHarmRestarted [Protobuf] (qname basedir : Bytes) (old : List Payload) (disk : Disk) : Prop :=
  ∃ recovered after, restart qname basedir disk = .ok (recovered, after) ∧
    recovered.msgs.map (·.message.payload) = old ∧ NoHarm qname basedir old recovered after

/-! ## What a failing write leaves -/

section Leaving

variable {disk : Disk} {script : List Outcome} {file content : Bytes}

theorem write_end_done (stored : disk file = some content) (data : Bytes)
    (calm : Undisturbed 1 script) :
    FileHelper.write file data content.length ⟨disk, script⟩ =
      .ok true ⟨Function.update disk file (some (content ++ data)), script.drop 1⟩ := by
  have wrote := write_done stored data content.length calm
  rwa [overwrite_end] at wrote

/-- A write at the end that fails leaves some of its bytes. -/
theorem write_end_fails (stored : disk file = some content) (data : Bytes) {reached : Nat}
    (fails : upcoming script = .fails reached) :
    FileHelper.write file data content.length ⟨disk, script⟩ = .error .logArgument
      ⟨Function.update disk file (some (content ++ data.take reached)), script.drop 1⟩ := by
  cases script with
  | nil => cases fails
  | cons outcome rest =>
      cases fails
      have wrote := write_failed stored data content.length reached rest
      rwa [overwrite_end] at wrote

/-- An insertion that fails leaves a part of its record, and nothing only if the
write of the length left nothing. -/
theorem insertInto_fails (stored : disk file = some content) (message : Message)
    (fails : FailsNoticed script) :
    ∃ count ≤ (frame sizeOfSize message.payload.serialize).length, ∃ rest,
      MessageMapper.insertInto file message ⟨disk, script⟩ = .error .logArgument
        ⟨Function.update disk file
          (some (content ++ (frame sizeOfSize message.payload.serialize).take count)), rest⟩ ∧
      (count = 0 ↔ script.head? = some (.fails 0)) := by
  have headerLength : (leBytes sizeOfSize message.payload.serialize.length).length = sizeOfSize :=
    length_leBytes ..
  have whole : (frame sizeOfSize message.payload.serialize).length =
      sizeOfSize + message.payload.serialize.length := by
    rw [frame, List.length_append, headerLength]
  rcases fails with ⟨reached, fails | ⟨calm, fails⟩⟩
  · -- a part of the length is left
    have wrote := write_end_fails stored
      (leBytes sizeOfSize message.payload.serialize.length) fails
    have part : (frame sizeOfSize message.payload.serialize).take (min reached sizeOfSize) =
        (leBytes sizeOfSize message.payload.serialize.length).take reached := by
      have within : min reached sizeOfSize ≤
          (leBytes sizeOfSize message.payload.serialize.length).length :=
        (Nat.min_le_right _ _).trans (Nat.le_of_eq headerLength.symm)
      have least := @List.take_eq_take_min _
        (leBytes sizeOfSize message.payload.serialize.length) reached
      rw [frame, List.take_append_of_le_length within, least, headerLength]
    refine ⟨min reached sizeOfSize, (Nat.min_le_right _ _).trans (whole ▸ Nat.le_add_right _ _),
      script.drop 1, ?_, ?_⟩
    · unfold MessageMapper.insertInto
      rw [bind_ok (size_run _)]
      simp only [stored, Option.getD_some]
      rw [bind_error wrote, part]
    · cases script with
      | nil => cases fails
      | cons outcome rest =>
          cases fails
          have headerSize : 0 < sizeOfSize := by decide
          rw [List.head?_cons, Option.some.injEq, Outcome.fails.injEq]
          omega
  · -- the length and a part of the body are left
    have header := write_end_done stored (leBytes sizeOfSize message.payload.serialize.length) calm
    have storedHeader : Function.update disk file
        (some (content ++ leBytes sizeOfSize message.payload.serialize.length)) file =
        some (content ++ leBytes sizeOfSize message.payload.serialize.length) :=
      Function.update_self ..
    have body := write_end_fails storedHeader message.payload.serialize fails
    have atEnd : content.length + sizeOfSize =
        (content ++ leBytes sizeOfSize message.payload.serialize.length).length := by
      rw [List.length_append, headerLength]
    have part : (frame sizeOfSize message.payload.serialize).take
        (sizeOfSize + min reached message.payload.serialize.length) =
        leBytes sizeOfSize message.payload.serialize.length ++
          message.payload.serialize.take reached := by
      have place : sizeOfSize + min reached message.payload.serialize.length =
          (leBytes sizeOfSize message.payload.serialize.length).length +
            min reached message.payload.serialize.length := by
        rw [headerLength]
      rw [frame, place, List.take_length_add_append, ← List.take_eq_take_min]
    rw [← atEnd, Function.update_idem, List.append_assoc, ← part] at body
    refine ⟨sizeOfSize + min reached message.payload.serialize.length,
      whole ▸ Nat.add_le_add_left (Nat.min_le_right _ _) _, (script.drop 1).drop 1, ?_, ?_⟩
    · unfold MessageMapper.insertInto
      rw [bind_ok (size_run _)]
      simp only [stored, Option.getD_some]
      rw [bind_ok header]
      simp only [if_true]
      exact bind_error body
    · have positive : sizeOfSize + min reached message.payload.serialize.length ≠ 0 :=
        Nat.ne_of_gt (Nat.add_pos_left (by decide) _)
      refine ⟨fun nothing => absurd nothing positive, fun blank => ?_⟩
      cases script with
      | nil => cases blank
      | cons outcome rest =>
          cases blank
          cases undisturbed_one_iff.mp calm

end Leaving

/-! ## One insertion -/

section Performing

variable {queue : QueueMessage} {disk : Disk} {script : List Outcome} {content : Bytes}
variable {insertion : Insertion}

theorem perform_done (durable : insertion.Durable)
    (stored : disk queue.mapper.datafile = some content) (calm : Undisturbed 2 script) :
    ∃ next : QueueMessage, insertion.perform queue ⟨disk, script⟩ =
        .ok (true, next) ⟨Function.update disk queue.mapper.datafile
          (some (content ++ frame sizeOfSize insertion.payload.serialize)), script.drop 2⟩ ∧
      next.mapper = queue.mapper := by
  have written := MessageMapper.insertInto_done stored { payload := insertion.payload } calm
  let next : QueueMessage := { queue with
    totalCount := queue.totalCount + 1
    durableMsgs := Dictionary.insertNew
      (composed insertion.properties insertion.uuid insertion.queueIsDurable).id
      ⟨queue.allocated, MessageMapper.placedAt content.length { payload := insertion.payload }⟩
      queue.durableMsgs
    msgs := queue.msgs ++ [⟨queue.allocated,
      MessageMapper.placedAt content.length { payload := insertion.payload }⟩]
    allocated := queue.allocated + 1 }
  refine ⟨next, ?_, rfl⟩
  unfold Insertion.perform insert
  unfold Insertion.Durable at durable
  rw [if_pos durable]
  exact bind_ok written

/-- A message that is not stored is accepted, and no file is touched. -/
theorem perform_transient (transient : ¬ insertion.Durable) (queue : QueueMessage) (world : World) :
    ∃ next : QueueMessage, insertion.perform queue world = .ok (true, next) world ∧
      next.mapper = queue.mapper := by
  unfold Insertion.perform insert
  unfold Insertion.Durable at transient
  rw [if_neg transient]
  exact ⟨_, rfl, rfl⟩

/-- A stored message whose write fails leaves a part of its record. -/
theorem perform_fails (durable : insertion.Durable)
    (stored : disk queue.mapper.datafile = some content) (fails : FailsNoticed script) :
    ∃ count ≤ (frame sizeOfSize insertion.payload.serialize).length, ∃ rest,
      insertion.perform queue ⟨disk, script⟩ = .error .logArgument
        ⟨Function.update disk queue.mapper.datafile
          (some (content ++ (frame sizeOfSize insertion.payload.serialize).take count)), rest⟩ ∧
      (count = 0 ↔ script.head? = some (.fails 0)) := by
  rcases insertInto_fails stored { payload := insertion.payload } fails with
    ⟨count, few, rest, stopped, blank⟩
  refine ⟨count, few, rest, ?_, blank⟩
  unfold Insertion.perform insert
  unfold Insertion.Durable at durable
  rw [if_pos durable]
  exact bind_error stopped

theorem resumed_ok {world after : World} {inserted : Bool × QueueMessage}
    (done : insertion.perform queue world = .ok inserted after) :
    insertion.resumed queue world = .ok inserted after := by
  rw [Insertion.resumed, done]

theorem resumed_log {world after : World}
    (stopped : insertion.perform queue world = .error .logArgument after) :
    insertion.resumed queue world = .ok (false, queue) after := by
  rw [Insertion.resumed, stopped]

/-- A write of the length that fails without a byte leaves everything as it was. -/
theorem resumed_blank (durable : insertion.Durable)
    (stored : disk queue.mapper.datafile = some content)
    (blank : script.head? = some (.fails 0)) :
    insertion.resumed queue ⟨disk, script⟩ = .ok (false, queue) ⟨disk, script.drop 1⟩ := by
  cases script with
  | nil => cases blank
  | cons outcome rest =>
      cases blank
      have wrote := @write_end_fails disk (.fails 0 :: rest) _ content stored
        (leBytes sizeOfSize insertion.payload.serialize.length) 0 rfl
      rw [List.take_zero, List.append_nil, ← stored, Function.update_eq_self] at wrote
      have stopped : MessageMapper.insertInto queue.mapper.datafile
          { payload := insertion.payload } ⟨disk, .fails 0 :: rest⟩ =
          .error .logArgument ⟨disk, rest⟩ := by
        unfold MessageMapper.insertInto
        rw [bind_ok (size_run _)]
        simp only [stored, Option.getD_some]
        exact bind_error wrote
      refine resumed_log ?_
      unfold Insertion.perform insert
      unfold Insertion.Durable at durable
      rw [if_pos durable]
      exact bind_error stopped

end Performing

/-! ## Insertions that do no harm -/

section Harmless

variable [Protobuf]

/-- As long as nothing is left of a refused message, the file holds the old
records and those of the accepted messages. -/
theorem insertEach_unharmed (undoes : Undoes) {queue : QueueMessage} {disk : Disk}
    {script : List Outcome} {later : List Insertion} {records : List Record}
    (stored : disk queue.mapper.datafile = some (Record.file records))
    (unharmed : Unharmed later script)
    (sound : ∀ insertion ∈ later, insertion.payload.Sound) :
    ∃ accepted final after, queue.insertEach later ⟨disk, script⟩ = .ok (accepted, final) after ∧
      ∃ more : List Record, after.disk queue.mapper.datafile = some (Record.file more) ∧
        Record.livePayloads more = Record.livePayloads records ++ accepted := by
  induction later generalizing queue disk script records with
  | nil =>
      refine ⟨[], queue, ⟨disk, script⟩, rfl, records, stored, ?_⟩
      rw [List.append_nil]
  | cons insertion rest inductionHypothesis =>
      rw [List.forall_mem_cons] at sound
      rw [Unharmed] at unharmed
      by_cases durable : insertion.Durable
      · rw [if_pos durable] at unharmed
        rcases unharmed with ⟨calm, onward⟩ | ⟨blank, onward⟩
        · rcases perform_done durable stored calm with ⟨next, performed, mapper⟩
          let record := Record.ofPayload undoes insertion.payload sound.1
          have storedNext : Function.update disk queue.mapper.datafile
              (some (Record.file records ++ frame sizeOfSize insertion.payload.serialize))
              next.mapper.datafile = some (Record.file (records ++ [record])) := by
            rw [mapper, Record.file_concat]
            exact Function.update_self ..
          rcases inductionHypothesis storedNext onward sound.2 with
            ⟨accepted, final, after, inserted, more, file, payloads⟩
          have live : record.payload.Live := (by decide : validMark ≠ invalidMark)
          have lives : Record.livePayloads [record] = [insertion.payload] :=
            Record.livePayloads_cons_of_live live []
          refine ⟨insertion.payload :: accepted, final, after, ?_, more, mapper ▸ file, ?_⟩
          · rw [insertEach, bind_ok (resumed_ok performed), bind_ok inserted]
            simp only [durable, and_self, if_true]
            rfl
          · rw [payloads, Record.livePayloads_append, lives, List.append_assoc,
              List.singleton_append]
        · have resumed := resumed_blank durable stored blank
          rcases inductionHypothesis stored onward sound.2 with
            ⟨accepted, final, after, inserted, more, file, payloads⟩
          refine ⟨accepted, final, after, ?_, more, file, payloads⟩
          rw [insertEach, bind_ok resumed, bind_ok inserted]
          rfl
      · rw [if_neg durable] at unharmed
        rcases perform_transient durable queue ⟨disk, script⟩ with ⟨next, performed, mapper⟩
        rcases inductionHypothesis (mapper ▸ stored) unharmed sound.2 with
          ⟨accepted, final, after, inserted, more, file, payloads⟩
        refine ⟨accepted, final, after, ?_, more, mapper ▸ file, payloads⟩
        rw [insertEach, bind_ok (resumed_ok performed), bind_ok inserted]
        simp only [durable, and_false, if_false]
        rfl

/-- So a restart finds them. -/
theorem noHarm_of_records (undoes : Undoes) {qname basedir : Bytes} {queue : QueueMessage}
    {disk : Disk} {records : List Record}
    (names : queue.mapper = MessageMapper.ofNames qname basedir)
    (stored : disk queue.mapper.datafile = some (Record.file records)) :
    NoHarm qname basedir (Record.livePayloads records) queue disk := by
  intro later script unharmed sound
  rcases insertEach_unharmed undoes stored unharmed sound with
    ⟨accepted, final, after, inserted, more, file, payloads⟩
  refine ⟨accepted, final, after, inserted, ?_⟩
  rw [names] at file
  rcases restart_records qname basedir file with ⟨recovered, restarted, found⟩
  exact ⟨recovered, _, restarted, found.trans payloads⟩

/-- So does the next start, and after it the queue holds records again. -/
theorem noHarmRestarted_of_records (undoes : Undoes) {qname basedir : Bytes} {disk : Disk}
    {records : List Record}
    (stored : disk (MessageMapper.ofNames qname basedir).datafile = some (Record.file records))
    (tmp : (disk (MessageMapper.ofNames qname basedir).tmpfile).getD [] = []) :
    NoHarmRestarted qname basedir (Record.livePayloads records) disk := by
  have distinct := MessageMapper.ofNames_distinct qname basedir
  rcases restart_records qname basedir stored with ⟨recovered, restarted, found⟩
  rcases Record.exists_compacted undoes records with ⟨compacted, file, same⟩
  refine ⟨recovered, _, restarted, found, ?_⟩
  have mapper := restart_mapper restarted
  rw [← same]
  refine noHarm_of_records undoes mapper ?_
  rw [mapper, MessageMapper.collectedDisk, Function.update_of_ne distinct.symm,
    Function.update_self, tmp, List.nil_append, file]

end Harmless

/-! ## Leftovers that do harm -/

section Harmful

variable [Protobuf] {qname basedir : Bytes} {disk : Disk} {bodies : List Bytes} {rest : Bytes}

/-- From a file that ends with an incomplete record a restart can only find what
stands before it, and it leaves the file as it is. -/
theorem restart_torn
    (stored : disk (MessageMapper.ofNames qname basedir).datafile =
      some (frames sizeOfSize bodies ++ rest))
    (fit : ∀ body ∈ bodies, body.length < 256 ^ sizeOfSize)
    (incomplete : Incomplete sizeOfSize rest) (nonempty : rest ≠ []) {recovered : QueueMessage}
    {after : Disk} (restarted : restart qname basedir disk = .ok (recovered, after)) :
    recovered.mapper = MessageMapper.ofNames qname basedir ∧ after = disk ∧
      recovered.msgs.map (·.message.payload) = MessageMapper.countedPayloads bodies := by
  rcases calmly_eq_ok restarted with ⟨world, done, left⟩
  rw [bind_ok (new_present qname basedir [] stored)] at done
  rcases bind_eq_ok done with ⟨messages, middle, collected, same⟩
  cases same
  rcases bind_eq_ok collected with ⟨loaded, loadedWorld, load, collected⟩
  rcases @MessageMapper.load_content (MessageMapper.ofNames qname basedir) ⟨disk, []⟩ _ _ stored
    with ⟨throws, returns⟩
  rw [cut_frames_append (by decide) fit incomplete] at returns
  by_cases long : MessageMapper.ReadsTooLong (frames sizeOfSize bodies ++ rest)
  · cases (throws long).symm.trans load
  · cases (returns long).symm.trans load
    simp only [nonempty, decide_false, Bool.false_eq_true, if_false] at collected
    cases collected
    refine ⟨rfl, left.symm, ?_⟩
    change List.map (·.message.payload) (holding _ _).msgs = _
    rw [holding_payloads, List.map_map]
    exact List.map_id _

theorem recovers_torn
    (stored : disk (MessageMapper.ofNames qname basedir).datafile =
      some (frames sizeOfSize bodies ++ rest))
    (fit : ∀ body ∈ bodies, body.length < 256 ^ sizeOfSize)
    (incomplete : Incomplete sizeOfSize rest) (nonempty : rest ≠ []) {payloads : List Payload}
    (recovers : Recovers qname basedir disk payloads) :
    payloads = MessageMapper.countedPayloads bodies := by
  rcases recovers with ⟨recovered, after, restarted, found⟩
  rw [← found]
  exact (restart_torn stored fit incomplete nonempty restarted).2.2

omit [Protobuf] in
/-- Durable messages that are inserted with nothing failing are accepted and
their records appended. -/
theorem insertEach_calm {queue : QueueMessage} {content : Bytes} {later : List Insertion}
    (stored : disk queue.mapper.datafile = some content)
    (durable : ∀ insertion ∈ later, insertion.Durable) :
    ∃ final, queue.insertEach later ⟨disk, []⟩ =
      .ok (later.map Insertion.payload, final) ⟨Function.update disk queue.mapper.datafile
        (some (content ++ frames sizeOfSize (later.map (·.payload.serialize)))), []⟩ := by
  induction later generalizing queue disk content with
  | nil =>
      refine ⟨queue, ?_⟩
      rw [List.map_nil, List.map_nil, frames_nil, List.append_nil, ← stored,
        Function.update_eq_self]
      rfl
  | cons insertion others inductionHypothesis =>
      rw [List.forall_mem_cons] at durable
      rcases perform_done durable.1 stored (undisturbed_nil 2) with ⟨next, performed, mapper⟩
      have storedNext : Function.update disk queue.mapper.datafile
          (some (content ++ frame sizeOfSize insertion.payload.serialize)) next.mapper.datafile =
          some (content ++ frame sizeOfSize insertion.payload.serialize) := by
        rw [mapper]
        exact Function.update_self ..
      rcases inductionHypothesis storedNext durable.2 with ⟨final, inserted⟩
      rw [mapper, Function.update_idem, List.append_assoc] at inserted
      refine ⟨final, ?_⟩
      rw [insertEach, bind_ok (resumed_ok performed), List.drop_nil, bind_ok inserted]
      simp only [durable.1, and_self, if_true]
      rfl

omit [Protobuf] in
theorem unharmed_nil (later : List Insertion) : Unharmed later [] := by
  induction later with
  | nil => trivial
  | cons insertion others inductionHypothesis =>
      rw [Unharmed]
      by_cases durable : insertion.Durable
      · rw [if_pos durable]
        exact Or.inl ⟨undisturbed_nil 2, inductionHypothesis⟩
      · rw [if_neg durable]
        exact inductionHypothesis

/-- If later records complete or prolong an incomplete one so that an incomplete
one is left again, fewer messages are found than were accepted. -/
theorem not_noHarm_of_torn {records : List Record} {queue : QueueMessage} {leftover : Bytes}
    {later : List Insertion} {garbage : List Bytes}
    (names : queue.mapper = MessageMapper.ofNames qname basedir)
    (stored : disk queue.mapper.datafile = some (Record.file records ++ leftover))
    (durable : ∀ insertion ∈ later, insertion.Durable)
    (sound : ∀ insertion ∈ later, insertion.payload.Sound)
    (split : leftover ++ frames sizeOfSize (later.map (·.payload.serialize)) =
      frames sizeOfSize garbage ++ rest)
    (garbageFit : ∀ body ∈ garbage, body.length < 256 ^ sizeOfSize)
    (incomplete : Incomplete sizeOfSize rest) (nonempty : rest ≠ [])
    (fewer : garbage.length < later.length) :
    ¬ NoHarm qname basedir (Record.livePayloads records) queue disk := by
  intro noHarm
  rcases noHarm later [] (unharmed_nil later) sound with ⟨accepted, final, after, inserted, recovers⟩
  rcases insertEach_calm stored durable with ⟨other, calm⟩
  cases calm.symm.trans inserted
  have file : Function.update disk queue.mapper.datafile (some (Record.file records ++ leftover ++
      frames sizeOfSize (later.map (·.payload.serialize))))
      (MessageMapper.ofNames qname basedir).datafile =
      some (frames sizeOfSize (records.map Record.body ++ garbage) ++ rest) := by
    rw [← names, Function.update_self, List.append_assoc, split, frames_append, List.append_assoc]
    rfl
  have fit : ∀ body ∈ records.map Record.body ++ garbage, body.length < 256 ^ sizeOfSize := by
    intro body member
    rcases List.mem_append.mp member with inRecords | inGarbage
    · rcases List.mem_map.mp inRecords with ⟨record, _, rfl⟩
      exact Nat.lt_of_le_of_lt record.bodyFits (by decide)
    · exact garbageFit body inGarbage
  have found := congrArg List.length (recovers_torn file fit incomplete nonempty recovers)
  have counted : MessageMapper.countedPayloads (records.map Record.body ++ garbage) =
      Record.livePayloads records ++ MessageMapper.countedPayloads garbage := by
    rw [← MessageMapper.countedPayloads_records, MessageMapper.countedPayloads, List.map_append,
      List.filter_append]
    rfl
  have few : (MessageMapper.countedPayloads garbage).length ≤ garbage.length := by
    have kept := List.length_filter_le (fun payload => decide payload.Live)
      (garbage.map fun body => (Protobuf.parseFromString body).2)
    rwa [List.length_map] at kept
  rw [counted, List.length_append, List.length_append, List.length_map] at found
  omega

/-! ### Which later messages show the harm -/

/-- A durable message with nothing in it, of 7 bytes. -/
def shortInsertion : Insertion :=
  ⟨some { deliverMode := .durable }, [], [], true⟩

/-- A durable message with a longer id, of 29 bytes, none of them zero. -/
def longInsertion : Insertion :=
  ⟨some { id := List.replicate 20 97, deliverMode := .durable }, [], [], true⟩

omit [Protobuf] in
theorem shortInsertion_sound : shortInsertion.payload.Sound :=
  Payload.sound_of_ascii (by decide) (by decide)

omit [Protobuf] in
theorem longInsertion_sound : longInsertion.payload.Sound :=
  Payload.sound_of_ascii (by decide) (by decide)

/-- The records of two of the longer messages. -/
def twoLong : Bytes :=
  frames sizeOfSize (([longInsertion, longInsertion].map Insertion.payload).map Payload.serialize)

omit [Protobuf] in
/-- A part of a header, with a short record after it, announces more than there
is. -/
theorem incomplete_partHeader {length count : Nat} (positive : 0 < count) (part : count < 8) :
    Incomplete sizeOfSize ((leBytes sizeOfSize length).take count ++
      frames sizeOfSize [shortInsertion.payload.serialize]) := by
  have partLength : ((leBytes sizeOfSize length).take count).length = count := by
    rw [List.length_take, length_leBytes]
    exact Nat.min_eq_left (Nat.le_of_lt part)
  have recordLength : (frames sizeOfSize [shortInsertion.payload.serialize]).length = 15 := by
    decide
  have header : ((leBytes sizeOfSize length).take count ++
      frames sizeOfSize [shortInsertion.payload.serialize]).take sizeOfSize =
      (leBytes sizeOfSize length).take count ++
        (frames sizeOfSize [shortInsertion.payload.serialize]).take (8 - count) := by
    rw [List.take_append, partLength, List.take_of_length_le (partLength.trans_le (Nat.le_of_lt part))]
  have seven : leNat ((frames sizeOfSize [shortInsertion.payload.serialize]).take (8 - count)) =
      7 := by
    interval_cases count <;> decide
  have large : 256 ≤ 256 ^ count := Nat.le_self_pow (Nat.ne_of_gt positive) 256
  right
  rw [header, leNat_append, partLength, seven, List.length_append, partLength, recordLength]
  omega

omit [Protobuf] in
theorem length_frame_sizeOfSize (body : Bytes) : (frame sizeOfSize body).length = 8 + body.length := by
  rw [frame, List.length_append, length_leBytes]

omit [Protobuf] in
/-- A part of a frame is no whole frame. -/
theorem incomplete_take_frame {body : Bytes} {count : Nat}
    (fits : body.length < 256 ^ sizeOfSize)
    (part : count < (frame sizeOfSize body).length) :
    Incomplete sizeOfSize ((frame sizeOfSize body).take count) := by
  have whole := length_frame_sizeOfSize body
  have partLength : ((frame sizeOfSize body).take count).length = count := by
    rw [List.length_take]
    omega
  by_cases headed : count < sizeOfSize
  · left
    rwa [partLength]
  · right
    have header : ((frame sizeOfSize body).take count).take sizeOfSize =
        leBytes sizeOfSize body.length := by
      rw [List.take_take, Nat.min_eq_left (Nat.le_of_not_lt headed), frame]
      exact List.take_left' (length_leBytes ..)
    rw [header, leNat_leBytes_of_lt fits, partLength]
    have width : sizeOfSize = 8 := rfl
    omega

omit [Protobuf] in
/-- A whole header whose body is not there even with a short record. -/
theorem incomplete_partBody {body : Bytes} {count : Nat} (headed : 8 ≤ count)
    (missing : count + 15 < 8 + body.length) (fits : body.length < 256 ^ sizeOfSize) :
    Incomplete sizeOfSize ((frame sizeOfSize body).take count ++
      frames sizeOfSize [shortInsertion.payload.serialize]) := by
  have whole := length_frame_sizeOfSize body
  have partLength : ((frame sizeOfSize body).take count).length = count := by
    rw [List.length_take, whole]
    omega
  have recordLength : (frames sizeOfSize [shortInsertion.payload.serialize]).length = 15 := by
    decide
  have header : ((frame sizeOfSize body).take count ++
      frames sizeOfSize [shortInsertion.payload.serialize]).take sizeOfSize =
      leBytes sizeOfSize body.length := by
    rw [List.take_append_of_le_length (by rwa [partLength]), List.take_take,
      Nat.min_eq_left headed, frame]
    exact List.take_left' (length_leBytes ..)
  right
  rw [header, leNat_leBytes_of_lt fits, List.length_append, partLength, recordLength]
  omega

omit [Protobuf] in
/-- After a few bytes of two long records no record begins. -/
theorem incomplete_drop_twoLong {taken : Nat} (some_taken : 0 < taken) (few : taken ≤ 15) :
    Incomplete sizeOfSize (twoLong.drop taken) := by
  interval_cases taken <;> decide

omit [Protobuf] in
/-- The missing part of a body is taken from what follows. -/
theorem take_frame_append {body : Bytes} {count : Nat} (headed : 8 ≤ count)
    (part : count ≤ 8 + body.length) (later : Bytes)
    (enough : 8 + body.length - count ≤ later.length) :
    (frame sizeOfSize body).take count ++ later =
      frames sizeOfSize [body.take (count - 8) ++ later.take (8 + body.length - count)] ++
        later.drop (8 + body.length - count) := by
  have garbageLength : (body.take (count - 8) ++ later.take (8 + body.length - count)).length =
      body.length := by
    rw [List.length_append, List.length_take, List.length_take]
    omega
  have taken : (frame sizeOfSize body).take count =
      leBytes sizeOfSize body.length ++ body.take (count - 8) := by
    have place : count = (leBytes sizeOfSize body.length).length + (count - 8) := by
      rw [length_leBytes]
      exact (Nat.add_sub_of_le headed).symm
    rw [frame]
    conv_lhs => rw [place]
    rw [List.take_length_add_append]
  rw [taken, frames_cons, frames_nil, List.append_nil, garbageLength, List.append_assoc,
    List.append_assoc, List.append_assoc, List.take_append_drop]

/-- A record that is left whole brings the refused message back. -/
theorem not_noHarm_of_whole (undoes : Undoes) {records : List Record} {queue : QueueMessage}
    {payload : Payload} (live : payload.Live) (sound : payload.Sound)
    (names : queue.mapper = MessageMapper.ofNames qname basedir)
    (stored : disk queue.mapper.datafile = some (Record.file records ++
      frame sizeOfSize payload.serialize)) :
    ¬ NoHarm qname basedir (Record.livePayloads records) queue disk := by
  intro noHarm
  rcases noHarm [] [] trivial (fun _ impossible => by cases impossible) with
    ⟨accepted, final, after, inserted, recovered, left, restarted, found⟩
  cases inserted
  have record : disk (MessageMapper.ofNames qname basedir).datafile =
      some (Record.file (records ++ [Record.ofPayload undoes payload sound])) := by
    rw [← names, stored, Record.file_concat]
    rfl
  rcases restart_records qname basedir record with ⟨other, otherRestarted, otherFound⟩
  cases otherRestarted.symm.trans restarted
  have lives : Record.livePayloads [Record.ofPayload undoes payload sound] = [payload] :=
    Record.livePayloads_cons_of_live live []
  rw [Record.livePayloads_append, lives, found] at otherFound
  have lengths := congrArg List.length otherFound
  rw [List.length_append, List.length_append, List.length_singleton, List.length_nil] at lengths
  omega

/-- A leftover that a short record does not complete swallows that record. -/
theorem not_noHarm_of_swallowing {records : List Record} {queue : QueueMessage} {leftover : Bytes}
    (names : queue.mapper = MessageMapper.ofNames qname basedir)
    (stored : disk queue.mapper.datafile = some (Record.file records ++ leftover))
    (incomplete : Incomplete sizeOfSize
      (leftover ++ frames sizeOfSize [shortInsertion.payload.serialize])) :
    ¬ NoHarm qname basedir (Record.livePayloads records) queue disk := by
  apply @not_noHarm_of_torn _ _ _ _ _ _ _ _ [shortInsertion] [] names stored
  · decide
  · exact List.forall_mem_singleton.mpr shortInsertion_sound
  · rfl
  · intro body impossible
    cases impossible
  · exact incomplete
  · intro nothing
    exact absurd (List.append_eq_nil_iff.mp nothing).2 (by decide)
  · exact Nat.zero_lt_one

/-- A body of which a few bytes are missing takes them from the front of a long
record, and the rest of that record is misread. -/
theorem not_noHarm_of_misreading {records : List Record} {queue : QueueMessage} {body : Bytes}
    {count : Nat} (names : queue.mapper = MessageMapper.ofNames qname basedir)
    (stored : disk queue.mapper.datafile = some (Record.file records ++
      (frame sizeOfSize body).take count))
    (lengthFits : body.length < 256 ^ sizeOfSize) (headed : 8 ≤ count)
    (part : count < 8 + body.length) (near : 8 + body.length ≤ count + 15) :
    ¬ NoHarm qname basedir (Record.livePayloads records) queue disk := by
  have taken : 8 + body.length - count ≤ 15 := by omega
  have some_taken : 0 < 8 + body.length - count := by omega
  have length : twoLong.length = 74 := by decide
  have enough : 8 + body.length - count ≤ twoLong.length := by omega
  have garbageLength : (body.take (count - 8) ++
      twoLong.take (8 + body.length - count)).length = body.length := by
    rw [List.length_append, List.length_take, List.length_take]
    omega
  apply @not_noHarm_of_torn _ _ _ _ _ _ _ _ [longInsertion, longInsertion]
    [body.take (count - 8) ++ twoLong.take (8 + body.length - count)] names stored
  · decide
  · exact List.forall_mem_cons.mpr ⟨longInsertion_sound,
      List.forall_mem_singleton.mpr longInsertion_sound⟩
  · exact take_frame_append headed (Nat.le_of_lt part) twoLong enough
  · intro garbage member
    rw [List.mem_singleton.mp member, garbageLength]
    exact lengthFits
  · exact incomplete_drop_twoLong some_taken taken
  · intro nothing
    have more := congrArg List.length nothing
    rw [List.length_drop, length, List.length_nil] at more
    omega
  · exact Nat.lt_succ_self 1

/-- Whatever is left of a record does harm. -/
theorem not_noHarm_of_leftover (undoes : Undoes) {records : List Record} {queue : QueueMessage}
    {payload : Payload} {count : Nat} (live : payload.Live)
    (sound : payload.Sound)
    (names : queue.mapper = MessageMapper.ofNames qname basedir)
    (stored : disk queue.mapper.datafile = some (Record.file records ++
      (frame sizeOfSize payload.serialize).take count))
    (positive : 0 < count) (part : count ≤ (frame sizeOfSize payload.serialize).length) :
    ¬ NoHarm qname basedir (Record.livePayloads records) queue disk := by
  have lengthFits : payload.serialize.length < 256 ^ sizeOfSize :=
    Nat.lt_of_le_of_lt sound.fits (by decide)
  have whole := length_frame_sizeOfSize payload.serialize
  by_cases complete : count = 8 + payload.serialize.length
  · rw [List.take_of_length_le (by omega)] at stored
    exact not_noHarm_of_whole undoes live sound names stored
  · by_cases headed : 8 ≤ count
    · by_cases far : count + 15 < 8 + payload.serialize.length
      · exact not_noHarm_of_swallowing names stored (incomplete_partBody headed far lengthFits)
      · exact not_noHarm_of_misreading names stored lengthFits headed (by omega) (by omega)
    · -- a part of the length is all that is left
      have partHeader : count < 8 := Nat.lt_of_not_le headed
      have header : (frame sizeOfSize payload.serialize).take count =
          (leBytes sizeOfSize payload.serialize.length).take count := by
        rw [frame, List.take_append_of_le_length]
        rw [length_leBytes]
        exact Nat.le_of_lt partHeader
      rw [header] at stored
      exact not_noHarm_of_swallowing names stored (incomplete_partHeader positive partHeader)

/-- A leftover that is not a whole record is still there after the next start. -/
theorem not_noHarmRestarted_of_leftover (undoes : Undoes) {records : List Record}
    {payload : Payload} {count : Nat} (live : payload.Live)
    (sound : payload.Sound)
    (stored : disk (MessageMapper.ofNames qname basedir).datafile = some (Record.file records ++
      (frame sizeOfSize payload.serialize).take count))
    (positive : 0 < count) (part : count ≤ (frame sizeOfSize payload.serialize).length) :
    ¬ NoHarmRestarted qname basedir (Record.livePayloads records) disk := by
  rintro ⟨recovered, after, restarted, found, noHarm⟩
  rcases Nat.lt_or_eq_of_le part with torn | complete
  · have lengthFits : payload.serialize.length < 256 ^ sizeOfSize :=
      Nat.lt_of_le_of_lt sound.fits (by decide)
    have fit : ∀ body ∈ records.map Record.body, body.length < 256 ^ sizeOfSize := by
      intro body member
      rcases List.mem_map.mp member with ⟨record, _, rfl⟩
      exact Nat.lt_of_le_of_lt record.bodyFits (by decide)
    have nonempty : (frame sizeOfSize payload.serialize).take count ≠ [] := by
      intro nothing
      have none_left := congrArg List.length nothing
      rw [List.length_take, List.length_nil] at none_left
      omega
    rcases restart_torn stored fit (incomplete_take_frame lengthFits torn) nonempty restarted with
      ⟨mapper, same, _⟩
    rw [same] at noHarm
    exact not_noHarm_of_leftover undoes live sound mapper (mapper ▸ stored) positive part noHarm
  · -- the refused message is back
    rw [List.take_of_length_le (Nat.le_of_eq complete.symm)] at stored
    have record : disk (MessageMapper.ofNames qname basedir).datafile =
        some (Record.file (records ++ [Record.ofPayload undoes payload sound])) := by
      rw [stored, Record.file_concat]
      rfl
    rcases restart_records qname basedir record with ⟨other, otherRestarted, otherFound⟩
    cases otherRestarted.symm.trans restarted
    have lives : Record.livePayloads [Record.ofPayload undoes payload sound] = [payload] :=
      Record.livePayloads_cons_of_live live []
    rw [Record.livePayloads_append, lives, found] at otherFound
    exact absurd (List.self_eq_append_right.mp otherFound) (List.cons_ne_nil _ _)

/-- When the program learns that a write of a stored message fails, no harm is
done exactly if it was the write of the length and left no byte; both where the
program goes on and where it is started again. -/
theorem failed_insert_noHarm_iff (undoes : Undoes) {records : List Record}
    {queue : QueueMessage} {script : List Outcome} {insertion : Insertion}
    (names : queue.mapper = MessageMapper.ofNames qname basedir)
    (stored : disk queue.mapper.datafile = some (Record.file records))
    (durable : insertion.Durable) (sound : insertion.payload.Sound)
    (fails : FailsNoticed script) :
    ∃ after, insertion.perform queue ⟨disk, script⟩ = .error .logArgument after ∧
      insertion.resumed queue ⟨disk, script⟩ = .ok (false, queue) after ∧
      (NoHarm qname basedir (Record.livePayloads records) queue after.disk ↔
        script.head? = some (.fails 0)) ∧
      ((disk queue.mapper.tmpfile).getD [] = [] →
        (NoHarmRestarted qname basedir (Record.livePayloads records) after.disk ↔
          script.head? = some (.fails 0))) := by
  rcases perform_fails durable stored fails with ⟨count, part, rest, stopped, blank⟩
  have live : insertion.payload.Live := (by decide : validMark ≠ invalidMark)
  have left : Function.update disk queue.mapper.datafile (some (Record.file records ++
      (frame sizeOfSize insertion.payload.serialize).take count)) queue.mapper.datafile =
      some (Record.file records ++ (frame sizeOfSize insertion.payload.serialize).take count) :=
    Function.update_self ..
  refine ⟨_, stopped, resumed_log stopped, ?_, fun tmp => ?_⟩ <;> rw [← blank]
  · constructor
    · intro noHarm
      by_contra something
      exact not_noHarm_of_leftover undoes live sound names left (Nat.pos_of_ne_zero something) part
        noHarm
    · rintro rfl
      rw [List.take_zero, List.append_nil] at left ⊢
      exact noHarm_of_records undoes names left
  · constructor
    · intro noHarm
      by_contra something
      exact not_noHarmRestarted_of_leftover undoes live sound (names ▸ left)
        (Nat.pos_of_ne_zero something) part noHarm
    · rintro rfl
      rw [List.take_zero, List.append_nil, ← stored, Function.update_eq_self]
      rw [names] at stored tmp
      exact noHarmRestarted_of_records undoes stored tmp

omit [Protobuf] in
/-- The length of a short record is not written: the refusal does no harm. -/
theorem blank_failure_noHarm :
    ∃ after, shortInsertion.perform { mapper := exampleMapper }
        ⟨exampleDisk, [.fails 0]⟩ = .error .logArgument after ∧
      @NoHarm wireFormat (ascii "q") (ascii "data") [] { mapper := exampleMapper } after.disk ∧
      @NoHarmRestarted wireFormat (ascii "q") (ascii "data") [] after.disk := by
  rcases @failed_insert_noHarm_iff wireFormat (ascii "q") (ascii "data") exampleDisk
    wireFormat_undoes [] { mapper := exampleMapper } [.fails 0] shortInsertion rfl
    (Function.update_self ..) (by decide) shortInsertion_sound ⟨0, Or.inl rfl⟩ with
    ⟨after, stopped, _, goesOn, startsAgain⟩
  exact ⟨after, stopped, goesOn.mpr rfl, (startsAgain rfl).mpr rfl⟩

omit [Protobuf] in
/-- The length of a short record is written and its body is not: the next
record is lost, whether the program goes on or is started again. -/
theorem failed_insert_harms :
    ¬ ∀ (records : List (@Record wireFormat)) (disk : Disk) (queue : QueueMessage)
      (script : List Outcome) (insertion : Insertion) (after : World),
      queue.mapper = MessageMapper.ofNames (ascii "q") (ascii "data") →
      disk queue.mapper.datafile = some (@Record.file wireFormat records) →
      disk queue.mapper.tmpfile = none →
      insertion.Durable → insertion.payload.Sound →
      insertion.perform queue ⟨disk, script⟩ = .error .logArgument after →
      @NoHarm wireFormat (ascii "q") (ascii "data") (@Record.livePayloads wireFormat records)
        queue after.disk ∨
      @NoHarmRestarted wireFormat (ascii "q") (ascii "data")
        (@Record.livePayloads wireFormat records) after.disk := by
  intro always
  rcases always [] exampleDisk { mapper := exampleMapper } [.done, .fails 0] shortInsertion _ rfl
    (Function.update_self ..) rfl (by decide) shortInsertion_sound rfl with noHarm | noHarm
  · refine @not_noHarm_of_leftover wireFormat _ _ _ wireFormat_undoes []
      { mapper := exampleMapper } shortInsertion.payload 8 (by decide) shortInsertion_sound rfl ?_
      (by decide) (by decide) noHarm
    rfl
  · refine @not_noHarmRestarted_of_leftover wireFormat _ _ _ wireFormat_undoes []
      shortInsertion.payload 8 (by decide) shortInsertion_sound ?_ (by decide) (by decide) noHarm
    rfl

end Harmful

end QueueMessage

end ProtobufMq
