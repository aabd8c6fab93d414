import ProtobufMq.Server.MessageMapper

namespace ProtobufMq

open Foundation

/-!
# The data file as a list of records

A message remembers the offset and the length of its own body, and nothing in
the file tells whether they are right.  Two operations rely on them or hand
them out.  A collection copies the live records one after another and gives
each message the place that its copy has; striking out overwrites the body at
the remembered place.  Both are stated here on the file as the list of its
records: a collection keeps the live records in order, and striking out
replaces one record by one of the same length, so every other body stays where
it is.
-/

/-- The place that a message remembers is that of its own body. -/
def Message.PlacedIn (message : Message) (bodies : List Bytes) (index : Nat) : Prop :=
  bodies[index]? = some message.payload.serialize ∧
    Delimits sizeOfSize bodies index message.offset message.length

namespace MessageMapper

/-- Messages appended one after another remember where their bodies went, as
far as 32 bits can hold it. -/
theorem placedFrom_placedIn {messages : List Message} {before : List Bytes} {index : Nat}
    {message : Message}
    (there : (placedFrom (frames sizeOfSize before).length messages)[index]? = some message)
    (offsetFits : (frames sizeOfSize (before ++
      (messages.map (·.payload.serialize)).take index)).length + sizeOfSize < uint32Range)
    (lengthFits : message.payload.serialize.length < uint32Range) :
    message.PlacedIn (before ++ messages.map (·.payload.serialize)) (before.length + index) := by
  induction messages generalizing before index with
  | nil => cases there
  | cons first rest inductionHypothesis =>
      cases index with
      | zero =>
          rw [placedFrom, List.getElem?_cons_zero] at there
          cases there
          rw [List.take_zero, List.append_nil] at offsetFits
          have body : (before ++ (first :: rest).map (·.payload.serialize))[before.length + 0]? =
              some first.payload.serialize := by
            rw [Nat.add_zero, List.getElem?_append_right (Nat.le_refl _), Nat.sub_self]
            rfl
          refine ⟨body, first.payload.serialize, body, ?_, ?_⟩
          · rw [Nat.add_zero, List.take_left]
            exact Nat.mod_eq_of_lt offsetFits
          · exact Nat.mod_eq_of_lt lengthFits
      | succ index =>
          rw [placedFrom, List.getElem?_cons_succ] at there
          have grown : (frames sizeOfSize before).length +
              (frame sizeOfSize first.payload.serialize).length =
              (frames sizeOfSize (before ++ [first.payload.serialize])).length := by
            rw [frames_concat, List.length_append]
            rfl
          have shifted : before ++ (first :: rest).map (·.payload.serialize) =
              before ++ [first.payload.serialize] ++ rest.map (·.payload.serialize) := by
            rw [List.map_cons, List.append_assoc, List.singleton_append]
          have position : before.length + (index + 1) =
              (before ++ [first.payload.serialize]).length + index := by
            rw [List.length_append, List.length_singleton]
            omega
          rw [grown] at there
          rw [shifted, position]
          apply inductionHypothesis there
          rwa [List.append_assoc, List.singleton_append, ← List.take_succ_cons]

/-! ## A file of two records -/

/-- A message that was struck out. -/
def strickenPayload : Payload :=
  { basecProperties := some { id := ascii "a", deliverMode := .durable }, body := ascii "x",
    valid := invalidMark }

/-- A message that counts. -/
def countingPayload : Payload :=
  { basecProperties := some { id := ascii "b", deliverMode := .durable }, body := ascii "y",
    valid := validMark }

/-- The records of the two. -/
def twoRecords : List (@Record wireFormat) :=
  [@Record.ofPayload wireFormat wireFormat_undoes strickenPayload
      (Payload.sound_of_ascii (by decide) (by decide)),
    @Record.ofPayload wireFormat wireFormat_undoes countingPayload
      (Payload.sound_of_ascii (by decide) (by decide))]

/-- The disk with their file. -/
def twoRecordsDisk : Disk :=
  Function.update (fun _ => none) (ofNames (ascii "q") (ascii "data")).datafile
    (some (@Record.file wireFormat twoRecords))

/-- The second message with its place. -/
def countingMessage : Message :=
  { payload := countingPayload, offset := 29, length := 13 }

end MessageMapper

section Records

variable [Protobuf]

namespace Record

/-- The bodies of the records. -/
def bodies (records : List Record) : List Bytes :=
  records.map Record.body

/-- The records that are not struck out. -/
def live (records : List Record) : List Record :=
  records.filter fun record => record.payload.Live

/-- Writing what was read gives the records back. -/
def Rewritable (records : List Record) : Prop :=
  ∀ record ∈ records, record.payload.serialize = record.body

theorem payloads_live (records : List Record) :
    (live records).map Record.payload = livePayloads records := by
  rw [livePayloads, List.filter_map]
  rfl

/-- The live records all stay live. -/
theorem live_live (records : List Record) : live (live records) = live records := by
  rw [live, live, List.filter_filter]
  exact List.filter_congr fun record _ => Bool.and_self _

theorem livePayloads_live (records : List Record) :
    livePayloads (live records) = livePayloads records := by
  rw [← payloads_live, live_live, payloads_live]

/-- A live record's payload stands between those before it and those after it. -/
theorem livePayloads_split {records : List Record} {index : Nat} {record : Record}
    (there : records[index]? = some record) (live : record.payload.Live) :
    livePayloads records = livePayloads (records.take index) ++
      record.payload :: livePayloads (records.drop (index + 1)) := by
  conv_lhs => rw [take_cons_drop there]
  rw [livePayloads_append, livePayloads_cons_of_live live]

/-- A record that is struck out is left out. -/
theorem livePayloads_set {records : List Record} {index : Nat} {record struck : Record}
    (there : records[index]? = some record) (dead : ¬ struck.payload.Live) :
    livePayloads (records.set index struck) = livePayloads (records.take index) ++
      livePayloads (records.drop (index + 1)) := by
  rw [set_eq_take_cons_drop there, livePayloads_append, livePayloads_cons_of_dead dead]

theorem Rewritable.live {records : List Record} (rewritable : Rewritable records) :
    Rewritable (live records) :=
  fun record member => rewritable record (List.mem_of_mem_filter member)

/-- The live payloads are written as the bodies of the live records. -/
theorem Rewritable.serialized {records : List Record} (rewritable : Rewritable records) :
    (livePayloads records).map Payload.serialize = bodies (Record.live records) := by
  rw [← payloads_live, List.map_map]
  exact List.map_congr_left fun record member => rewritable.live record member

end Record

namespace MessageMapper

/-! ## A collection -/

/-- What a collection of a file of records does: the messages that it returns,
and the disk that it leaves. -/
structure Collected (mapper : MessageMapper) (records : List Record) (returned : List Message)
    (after : Disk) : Prop where
  returnsLive : returned.map (·.payload) = Record.livePayloads records
  tmpfileGone : after mapper.tmpfile = none
  rewritten : after mapper.datafile = some (Record.file (Record.live records))
  placed : ∀ index message, returned[index]? = some message →
    (frames sizeOfSize ((Record.bodies (Record.live records)).take index)).length + sizeOfSize <
      uint32Range → message.payload.serialize.length < uint32Range →
    message.PlacedIn (Record.bodies (Record.live records)) index
  loads : mapper.load ⟨after, []⟩ =
    .ok (true, (Record.livePayloads records).map fun payload => { payload := payload }) ⟨after, []⟩
  stable : ∃ again, mapper.gc ⟨after, []⟩ = .ok again ⟨after, []⟩

/-- A collection with no temporary file beside the data file leaves the live
records, in order, as the data file, and a second one changes nothing. -/
theorem gc_collected {qname basedir : Bytes} {disk : Disk} {records : List Record}
    (stored : disk (ofNames qname basedir).datafile = some (Record.file records))
    (alone : disk (ofNames qname basedir).tmpfile = none)
    (rewritable : Record.Rewritable records) :
    ∃ returned after, (ofNames qname basedir).gc ⟨disk, []⟩ = .ok returned ⟨after, []⟩ ∧
      Collected (ofNames qname basedir) records returned after := by
  have distinct := ofNames_distinct qname basedir
  have collects := gc_calm distinct stored
  have rewritten : ∀ {before : Disk} {others : List Record},
      before (ofNames qname basedir).tmpfile = none → Record.Rewritable others →
      (ofNames qname basedir).collectedDisk before others =
        Function.update (Function.update before (ofNames qname basedir).datafile
          (some (Record.file (Record.live others)))) (ofNames qname basedir).tmpfile none := by
    intro before others gone inverse
    rw [collectedDisk, gone, inverse.serialized]
    rfl
  let after := (ofNames qname basedir).collectedDisk disk records
  have gone : after (ofNames qname basedir).tmpfile = none := Function.update_self ..
  have left : after (ofNames qname basedir).datafile =
      some (Record.file (Record.live records)) := by
    change (ofNames qname basedir).collectedDisk disk records _ = _
    rw [rewritten alone rewritable, Function.update_of_ne distinct.symm, Function.update_self]
  refine ⟨_, after, collects, ⟨collected_payloads _ _, gone, left, ?_, ?_, ?_⟩⟩
  · intro index message there offsetFits lengthFits
    have serialized : ((Record.livePayloads records).map
        (fun payload => ({ payload := payload } : Message))).map (·.payload.serialize) =
        Record.bodies (Record.live records) := by
      rw [List.map_map]
      exact rewritable.serialized
    rw [alone, Option.getD_none] at there
    have placed := @placedFrom_placedIn _ [] index message there
      (by rwa [serialized, List.nil_append]) lengthFits
    rwa [serialized, List.nil_append, List.length_nil, Nat.zero_add] at placed
  · have loaded := @load_records _ (ofNames qname basedir) ⟨after, []⟩ _ left
    rwa [Record.livePayloads_live] at loaded
  · have again := gc_calm distinct left
    have unchanged : (ofNames qname basedir).collectedDisk after (Record.live records) = after := by
      rw [rewritten gone rewritable.live, Record.live_live, ← left, Function.update_eq_self, ← gone,
        Function.update_eq_self]
    rw [unchanged] at again
    exact ⟨_, again⟩

omit [Protobuf] in
/-- A file whose first record is struck out is collected. -/
theorem two_records_collected :
    ∃ returned after, @gc wireFormat (ofNames (ascii "q") (ascii "data")) ⟨twoRecordsDisk, []⟩ =
        .ok returned ⟨after, []⟩ ∧
      @Collected wireFormat (ofNames (ascii "q") (ascii "data")) twoRecords returned after :=
  @gc_collected wireFormat _ _ twoRecordsDisk twoRecords (Function.update_self ..)
    (Function.update_of_ne (ofNames_distinct _ _) _ _) (by
      intro record member
      rcases List.mem_cons.mp member with rfl | member
      · rfl
      · rw [List.mem_singleton.mp member]
        rfl)

/-! ## Striking out -/

/-- What is left of a file in which one stretch was written to. -/
structure OnlyWithin (file : Bytes) (offset length : Nat) (before : Bytes) (disk after : Disk) :
    Prop where
  otherFiles : ∀ name, name ≠ file → after name = disk name
  sameSize : ∃ content, after file = some content ∧ content.length = before.length ∧
    ∀ position, position < offset ∨ offset + length ≤ position →
      content[position]? = before[position]?

omit [Protobuf] in
/-- A write inside a file stays inside its stretch, whatever becomes of it. -/
theorem write_onlyWithin {file content data : Bytes} {offset : Nat} {disk : Disk}
    (stored : disk file = some content) (within : offset + data.length ≤ content.length)
    (script : List Outcome) :
    OnlyWithin file offset data.length content disk
      (leftDisk (FileHelper.write file data offset ⟨disk, script⟩)) := by
  have wrote : ∀ part : Bytes, part.length ≤ data.length →
      OnlyWithin file offset data.length content disk
        (Function.update disk file (some (overwrite content offset part))) := by
    intro part shorter
    have inside : offset + part.length ≤ content.length :=
      (Nat.add_le_add_left shorter offset).trans within
    refine ⟨fun name other => Function.update_of_ne other _ _, _, Function.update_self ..,
      length_overwrite inside, fun position outside => getElem?_overwrite inside ?_⟩
    exact outside.imp_right (Nat.add_le_add_left shorter offset).trans
  rcases @write_cases disk script file content stored data offset with
    ⟨_, ran⟩ | ⟨reached, _, ran⟩ | ⟨reached, _, ran⟩ | ⟨_, ran⟩
  · rw [ran]
    exact wrote data (Nat.le_refl _)
  · rw [ran]
    exact wrote _ (List.length_take_le' _ _)
  · rw [ran]
    exact wrote _ (List.length_take_le' _ _)
  · rw [ran]
    exact ⟨fun _ _ => rfl, content, stored, rfl, fun _ _ => rfl⟩

/-- What striking out a message of a file of records does.  `script` gives the
outcomes of the file operations to come. -/
structure StruckOut (mapper : MessageMapper) (disk : Disk) (records : List Record) (index : Nat)
    (message : Message) : Prop where
  passes : (message.payload.setValid invalidMark).serialize.length = message.length
  writes : ∀ script, mapper.remove message ⟨disk, script⟩ =
    FileHelper.write mapper.datafile (message.payload.setValid invalidMark).serialize
      message.offset ⟨disk, script⟩
  onlyBody : ∀ script, OnlyWithin mapper.datafile message.offset message.length
    (Record.file records) disk (leftDisk (mapper.remove message ⟨disk, script⟩))
  loaded : mapper.load ⟨disk, []⟩ = .ok (true,
    ((Record.livePayloads (records.take index) ++ message.payload ::
      Record.livePayloads (records.drop (index + 1))).map fun payload => { payload := payload }))
    ⟨disk, []⟩
  done : ∀ script, Undisturbed 1 script → ∃ after bodies,
    mapper.remove message ⟨disk, script⟩ = .ok true ⟨after, script.drop 1⟩ ∧
    after mapper.datafile = some (frames sizeOfSize bodies) ∧
    mapper.load ⟨after, []⟩ = .ok (true,
      ((Record.livePayloads (records.take index) ++
        Record.livePayloads (records.drop (index + 1))).map fun payload => { payload := payload }))
      ⟨after, []⟩ ∧
    ∀ other (there : Message), other ≠ index → there.PlacedIn (Record.bodies records) other →
      there.PlacedIn bodies other

/-- Striking out a live message whose place is right touches its record only. -/
theorem remove_struckOut (undoes : Undoes) {mapper : MessageMapper} {disk : Disk}
    {records : List Record} {index : Nat} {message : Message}
    (stored : disk mapper.datafile = some (Record.file records))
    (placed : message.PlacedIn (Record.bodies records) index)
    (valid : message.payload.valid = validMark) : StruckOut mapper disk records index message := by
  rcases placed with ⟨own, delimits⟩
  have stands := own
  rw [Record.bodies, List.getElem?_map, Option.map_eq_some_iff] at stands
  rcases stands with ⟨record, there, body⟩
  -- the record is read as the payload of the message
  have payload : record.payload = message.payload := by
    have parsed := record.parsed
    rw [body] at parsed
    exact undoes.reads parsed
  have marks : invalidMark.length = message.payload.valid.length := by
    rw [valid]
    rfl
  have sameLength := message.payload.serialize_setValid_length marks
  have length : (message.payload.setValid invalidMark).serialize.length = message.length := by
    rcases delimits with ⟨same, sameThere, _, size⟩
    rw [sameLength, size, Option.some.inj (own.symm.trans sameThere)]
  have sound : (message.payload.setValid invalidMark).Sound :=
    (payload ▸ record.sound).setValid (isText_of_ascii (by decide)) marks
  have writes : ∀ script, mapper.remove message ⟨disk, script⟩ =
      FileHelper.write mapper.datafile (message.payload.setValid invalidMark).serialize
        message.offset ⟨disk, script⟩ := by
    intro script
    rw [remove, if_neg (not_not_intro length)]
  -- the file afterwards is that of the records with one of them struck
  let struck := Record.ofPayload undoes (message.payload.setValid invalidMark) sound
  have bodies : (Record.bodies records).set index struck.body =
      Record.bodies (records.set index struck) := List.map_set.symm
  have overwritten := delimits.overwrite length
  change overwrite (Record.file records) message.offset struck.body =
    frames sizeOfSize ((Record.bodies records).set index struck.body) at overwritten
  have live : record.payload.Live := by
    rw [payload, Payload.Live, valid]
    decide
  have dead : ¬ struck.payload.Live := fun lives => lives rfl
  refine ⟨length, writes, ?_, ?_, ?_⟩
  · intro script
    have within := delimits.within
    rw [← length] at within ⊢
    rw [writes]
    exact write_onlyWithin stored within script
  · have loads := @load_records _ mapper ⟨disk, []⟩ records stored
    rwa [Record.livePayloads_split there live, payload] at loads
  · intro script calm
    let after : Disk := Function.update disk mapper.datafile
      (some (overwrite (Record.file records) message.offset struck.body))
    have left : after mapper.datafile = some (Record.file (records.set index struck)) := by
      change Function.update disk mapper.datafile _ mapper.datafile = _
      rw [Function.update_self, overwritten, bodies]
      rfl
    have loads := @load_records _ mapper ⟨after, []⟩ _ left
    rw [Record.livePayloads_set there dead] at loads
    refine ⟨after, Record.bodies (records.set index struck), (writes script).trans
      (write_done stored _ _ calm), left, loads, ?_⟩
    rintro other placed apart ⟨otherOwn, otherDelimits⟩
    rw [← bodies]
    exact ⟨(List.getElem?_set_ne apart.symm).trans otherOwn,
      otherDelimits.set apart.symm own sameLength⟩

omit [Protobuf] in
/-- The second of the two records is struck out. -/
theorem counting_message_struck_out :
    @StruckOut wireFormat (ofNames (ascii "q") (ascii "data")) twoRecordsDisk twoRecords 1
      countingMessage :=
  @remove_struckOut wireFormat wireFormat_undoes _ twoRecordsDisk twoRecords 1 countingMessage
    (Function.update_self ..) ⟨rfl, countingPayload.serialize, rfl, by decide, by decide⟩ rfl

end MessageMapper

end Records

end ProtobufMq
