import ProtobufMq.Server.QueueMessage

namespace ProtobufMq

open Foundation

namespace QueueMessage

/-!
# What a restart finds

A restart forgets the three containers and rebuilds the pending list from the
data file.  What it should find is a ledger: the durable messages that were
inserted and not yet removed, in insertion order.

The file agrees with the ledger as long as every durable message is struck out
at its own record.  A message remembers where its record was written, and a
collection moves the records without telling the messages that are held in
memory; so the place must be checked where it is used, in `remove`.
-/

/-! ## The ledger -/

/-- What a message is, apart from where it is stored. -/
structure Letter where
  properties : BasecProperties
  body : Bytes
  deriving DecidableEq, Repr

/-- The letter of a payload. -/
def letter (payload : Payload) : Letter :=
  ⟨payload.properties, payload.body⟩

/-- The ids under which a call inserts. -/
def Call.insertedIds : Call → List Bytes
  | .insert properties uuid _ queueIsDurable => [(composed properties uuid queueIsDurable).id]
  | .front => []
  | .remove _ => []

/-- Enter a call in the ledger. -/
def enter (letters : List Letter) : Call → List Letter
  | .insert properties uuid body queueIsDurable =>
      let basecProperties := composed properties uuid queueIsDurable
      if basecProperties.deliverMode = .durable then letters ++ [⟨basecProperties, body⟩]
      else letters
  | .front => letters
  | .remove msgId => letters.filter (·.properties.id ≠ msgId)

/-- The durable messages that were inserted and not yet removed. -/
def ledger (calls : List Call) : List Letter :=
  calls.foldl enter []

/-! ## The conditions on a run -/

/-- What is inserted can be read back. -/
def Call.Sound : Call → Prop
  | .insert properties uuid body queueIsDurable =>
      (stamped (composed properties uuid queueIsDurable) body).Sound
  | .front => True
  | .remove _ => True

/-- What the callers guarantee: an id is removed while it waits, what is inserted can
be read back, and the file stays small. -/
structure Admissible [Protobuf] (site : Site) (call : Call) : Prop where
  waits : ∀ msgId, call = .remove msgId → msgId ∈ site.queue.waitackMsgs
  sound : call.Sound
  small : ∀ next, perform site call = .ok next → next.content.length < uint32Range

/-- A call whose result is known is admissible if the result is small. -/
theorem admissible_of_performed [Protobuf] {site next : Site} {call : Call}
    (waits : ∀ msgId, call = .remove msgId → msgId ∈ site.queue.waitackMsgs)
    (sound : call.Sound) (performed : perform site call = .ok next)
    (small : next.content.length < uint32Range) : Admissible site call := by
  refine ⟨waits, sound, fun other otherPerformed => ?_⟩
  cases performed.symm.trans otherPerformed
  exact small

/-- The remembered place of a message is the place of its own record. -/
def InPlace (content : Bytes) (message : Message) : Prop :=
  ∃ before after, content = frames sizeOfSize (before ++ message.payload.serialize :: after) ∧
    message.offset = (frames sizeOfSize before).length + sizeOfSize

/-- A durable message is removed at the place of its own record, and a
collection that this triggers finds no old temporary file with a content. -/
def RemovedInPlace (site : Site) : Call → Prop
  | .remove msgId => ∀ pointer, site.queue.waitackMsgs.lookup msgId = some pointer →
      pointer.deliverMode = .durable →
      InPlace site.content pointer.message ∧
      (CollectionDue site.queue.totalCount (Dictionary.size (site.queue.durableMsgs.erase msgId)) →
        (site.disk site.queue.mapper.tmpfile).getD [] = [])
  | _ => True

/-! ## The calls when nothing fails -/

section Calm

variable {queue : QueueMessage} {disk : Disk} {content uuid msgId : Bytes}
  {properties : Option BasecProperties} {queueIsDurable : Bool}

/-- The object that an insert of a durable message makes. -/
def inserted (queue : QueueMessage) (size : Nat) (properties : BasecProperties) (body : Bytes) :
    MessagePtr :=
  ⟨queue.allocated, MessageMapper.placedAt size { payload := stamped properties body }⟩

theorem insert_durable_calm (stored : disk queue.mapper.datafile = some content) (body : Bytes)
    (durable : (composed properties uuid queueIsDurable).deliverMode = .durable) :
    queue.insert properties uuid body queueIsDurable ⟨disk, []⟩ =
      .ok (true, { queue with
        totalCount := queue.totalCount + 1
        durableMsgs := Dictionary.insertNew (composed properties uuid queueIsDurable).id
          (queue.inserted content.length (composed properties uuid queueIsDurable) body)
          queue.durableMsgs
        msgs := queue.msgs ++
          [queue.inserted content.length (composed properties uuid queueIsDurable) body]
        allocated := queue.allocated + 1 })
        ⟨Function.update disk queue.mapper.datafile (some (content ++ frame sizeOfSize
          (stamped (composed properties uuid queueIsDurable) body).serialize)), []⟩ := by
  have written := MessageMapper.insertInto_done stored
    { payload := stamped (composed properties uuid queueIsDurable) body } (undisturbed_nil 2)
  unfold insert
  simp only [durable, if_true]
  exact bind_ok written

theorem insert_transient_calm (queue : QueueMessage) (disk : Disk) (body : Bytes)
    (transient : (composed properties uuid queueIsDurable).deliverMode ≠ .durable) :
    queue.insert properties uuid body queueIsDurable ⟨disk, []⟩ =
      .ok (true, { queue with
        msgs := queue.msgs ++ [⟨queue.allocated, { payload :=
          { basecProperties := some (composed properties uuid queueIsDurable), body := body } }⟩]
        allocated := queue.allocated + 1 })
        ⟨disk, []⟩ := by
  unfold insert
  simp only [transient, if_false]
  rfl

variable [Protobuf] {pointer : MessagePtr}

theorem remove_transient_calm (disk : Disk) (found : queue.waitackMsgs.lookup msgId = some pointer)
    (transient : pointer.deliverMode ≠ .durable) :
    queue.remove msgId ⟨disk, []⟩ =
      .ok { queue with waitackMsgs := queue.waitackMsgs.erase msgId } ⟨disk, []⟩ := by
  rw [remove, found]
  simp only [transient, if_false]
  rfl

/-- The content after a message has been struck out where it remembers to be. -/
def struckOut (content : Bytes) (message : Message) : Bytes :=
  overwrite content message.offset (message.payload.setValid invalidMark).serialize

theorem remove_durable_calm (found : queue.waitackMsgs.lookup msgId = some pointer)
    (durable : pointer.deliverMode = .durable)
    (stored : disk queue.mapper.datafile = some content)
    (length : (pointer.message.payload.setValid invalidMark).serialize.length =
      pointer.message.length)
    (notDue : ¬ CollectionDue queue.totalCount (Dictionary.size (queue.durableMsgs.erase msgId))) :
    queue.remove msgId ⟨disk, []⟩ =
      .ok { queue with
        durableMsgs := queue.durableMsgs.erase msgId
        waitackMsgs := queue.waitackMsgs.erase msgId }
        ⟨Function.update disk queue.mapper.datafile
          (some (struckOut content pointer.message)), []⟩ := by
  have removed : queue.removeDurable msgId pointer ⟨disk, []⟩ =
      .ok { queue with durableMsgs := queue.durableMsgs.erase msgId }
        ⟨Function.update disk queue.mapper.datafile
          (some (struckOut content pointer.message)), []⟩ := by
    rw [removeDurable,
      bind_ok (MessageMapper.remove_done stored pointer.message length (undisturbed_nil 1))]
    simp only [notDue, if_false]
    rfl
  rw [remove, found]
  simp only [durable, if_true]
  rw [bind_ok removed]
  rfl

theorem remove_collecting_calm {records : List Record}
    (distinct : queue.mapper.tmpfile ≠ queue.mapper.datafile)
    (found : queue.waitackMsgs.lookup msgId = some pointer)
    (durable : pointer.deliverMode = .durable)
    (stored : disk queue.mapper.datafile = some content)
    (length : (pointer.message.payload.setValid invalidMark).serialize.length =
      pointer.message.length)
    (records_eq : struckOut content pointer.message = Record.file records)
    (due : CollectionDue queue.totalCount (Dictionary.size (queue.durableMsgs.erase msgId)))
    (clear : (disk queue.mapper.tmpfile).getD [] = []) :
    ∃ after, queue.remove msgId ⟨disk, []⟩ =
      .ok { queue with
        durableMsgs := queue.durableMsgs.erase msgId
        totalCount := Dictionary.size (queue.durableMsgs.erase msgId)
        waitackMsgs := queue.waitackMsgs.erase msgId } ⟨after, []⟩ ∧
      after queue.mapper.datafile = some (frames sizeOfSize
        ((Record.livePayloads records).map Payload.serialize)) := by
  have storedAfter : Function.update disk queue.mapper.datafile
      (some (struckOut content pointer.message)) queue.mapper.datafile =
      some (Record.file records) := by
    rw [Function.update_self, records_eq]
  have clearAfter : (Function.update disk queue.mapper.datafile
      (some (struckOut content pointer.message)) queue.mapper.tmpfile).getD [] = [] := by
    rw [Function.update_of_ne distinct, clear]
  obtain ⟨after, collected, data⟩ : ∃ after, queue.mapper.gc ⟨Function.update disk
      queue.mapper.datafile (some (struckOut content pointer.message)), []⟩ =
        .ok (MessageMapper.collected [].length records) ⟨after, []⟩ ∧
      after queue.mapper.datafile = some (frames sizeOfSize
        ((Record.livePayloads records).map Payload.serialize)) := by
    have collected := MessageMapper.gc_calm distinct storedAfter
    rw [MessageMapper.collectedDisk, clearAfter, List.nil_append] at collected
    refine ⟨_, collected, ?_⟩
    rw [Function.update_of_ne distinct.symm, Function.update_self]
  have removed : queue.removeDurable msgId pointer ⟨disk, []⟩ =
      .ok { queue with
        durableMsgs := queue.durableMsgs.erase msgId
        totalCount := Dictionary.size (queue.durableMsgs.erase msgId) } ⟨after, []⟩ := by
    rw [removeDurable,
      bind_ok (MessageMapper.remove_done stored pointer.message length (undisturbed_nil 1))]
    simp only [due, if_true]
    exact bind_ok collected
  refine ⟨after, ?_, data⟩
  rw [remove, found]
  simp only [durable, if_true]
  rw [bind_ok removed]
  rfl

end Calm

/-! ## Striking out a record -/

/-- Filtering out the key of one element of a list with distinct keys takes
that element away and nothing else. -/
private theorem filter_key_ne {α κ : Type} [DecidableEq κ] (key : α → κ) {before after : List α}
    {element : α} (distinct : ((before ++ element :: after).map key).Nodup) :
    (before ++ element :: after).filter (fun other => key other ≠ key element) =
      before ++ after := by
  rw [List.map_append, List.map_cons, List.nodup_middle, List.nodup_cons, List.mem_append] at distinct
  have others : ∀ entries : List α, key element ∉ entries.map key →
      entries.filter (fun other => key other ≠ key element) = entries := by
    intro entries absent
    refine List.filter_eq_self.mpr fun other member => ?_
    have differs : key other ≠ key element :=
      fun same => absent (same ▸ List.mem_map_of_mem member)
    exact decide_eq_true differs
  rw [List.filter_append, List.filter_cons_of_neg (by simp),
    others before fun member => distinct.1 (Or.inl member),
    others after fun member => distinct.1 (Or.inr member)]

section Striking

variable [Protobuf] {records : List Record} {message : Message}

/-- A message whose place is its own record's is struck out at that record,
and the file holds records again. -/
theorem exists_struck (undoes : Undoes) (small : (Record.file records).length < uint32Range)
    (inPlace : InPlace (Record.file records) message) (valid : message.payload.valid = validMark) :
    ∃ before record after struck, records = before ++ record :: after ∧
      record.payload = message.payload ∧
      struck.payload = message.payload.setValid invalidMark ∧
      struckOut (Record.file records) message = Record.file (before ++ struck :: after) := by
  rcases inPlace with ⟨bodiesBefore, bodiesAfter, cut, place⟩
  have wide : uint32Range < 256 ^ sizeOfSize := by decide
  have recordsFit : ∀ body ∈ records.map Record.body, body.length < 256 ^ sizeOfSize :=
    fun body member => Nat.lt_of_le_of_lt (length_le_frames_length _ member) (Nat.lt_trans small wide)
  have bodiesFit : ∀ body ∈ bodiesBefore ++ message.payload.serialize :: bodiesAfter,
      body.length < 256 ^ sizeOfSize := by
    intro body member
    have inside := length_le_frames_length sizeOfSize member
    rw [← cut] at inside
    exact Nat.lt_of_le_of_lt inside (Nat.lt_trans small wide)
  have bodies := frames_injective (by decide) recordsFit bodiesFit cut
  rcases List.map_eq_append_iff.mp bodies with ⟨before, later, split, beforeBodies, laterBodies⟩
  rcases List.map_eq_cons_iff.mp laterBodies with ⟨record, after, laterSplit, recordBody, afterBodies⟩
  subst laterSplit split
  have samePayload : record.payload = message.payload := by
    have parsed := record.parsed
    rw [recordBody] at parsed
    exact undoes.reads parsed
  have marks : invalidMark.length = message.payload.valid.length := by
    rw [valid]
    rfl
  have sameLength := message.payload.serialize_setValid_length marks
  have sound : (message.payload.setValid invalidMark).Sound :=
    (samePayload ▸ record.sound).setValid (isText_of_ascii (by decide)) marks
  refine ⟨before, record, after, Record.ofPayload undoes _ sound, rfl, samePayload, rfl, ?_⟩
  rw [struckOut, cut, place, overwrite_frames _ _ _ _ _ sameLength, Record.file, List.map_append,
    List.map_cons, beforeBodies, afterBodies]
  rfl

/-- Striking out a record takes its letter out of the ledger. -/
theorem letters_struck {before after : List Record} {record struck : Record} {letters : List Letter}
    {payload : Payload} (live : payload.Live) (recordPayload : record.payload = payload)
    (struckPayload : struck.payload = payload.setValid invalidMark)
    (agrees : (Record.livePayloads (before ++ record :: after)).map letter = letters)
    (distinct : (letters.map (·.properties.id)).Nodup) :
    (Record.livePayloads (before ++ struck :: after)).map letter =
      letters.filter (·.properties.id ≠ payload.properties.id) := by
  have dead : ¬ struck.payload.Live := by
    rw [struckPayload]
    exact fun alive => alive rfl
  have alive : record.payload.Live := recordPayload ▸ live
  rw [Record.livePayloads_append, Record.livePayloads_cons_of_live alive, recordPayload,
    List.map_append, List.map_cons] at agrees
  subst agrees
  rw [Record.livePayloads_append, Record.livePayloads_cons_of_dead dead, List.map_append]
  exact (filter_key_ne (fun entry : Letter => entry.properties.id) distinct).symm

end Striking

/-! ## The invariant -/

/-- What holds of every message in memory. -/
structure Held (letters : List Letter) (issued : List Bytes) (pointer : MessagePtr) : Prop where
  known : pointer.id ∈ issued
  stored : pointer.deliverMode = .durable →
    pointer.message.payload.valid = validMark ∧
      pointer.message.length = pointer.message.payload.serialize.length
  notStored : pointer.deliverMode ≠ .durable →
    pointer.id ∉ letters.map (·.properties.id)

/-- The data file holds the ledger. -/
structure Kept [Protobuf] (mapper : MessageMapper) (letters : List Letter) (issued : List Bytes)
    (site : Site) : Prop where
  sameFiles : site.queue.mapper = mapper
  agrees : ∃ records, site.disk mapper.datafile = some (Record.file records) ∧
    (Record.livePayloads records).map letter = letters
  small : site.content.length < uint32Range
  distinct : (letters.map (·.properties.id)).Nodup
  known : ∀ id ∈ letters.map (·.properties.id), id ∈ issued
  queued : ∀ pointer ∈ site.queue.msgs, Held letters issued pointer
  waiting : ∀ msgId pointer, site.queue.waitackMsgs.lookup msgId = some pointer →
    pointer.id = msgId ∧ Held letters issued pointer

/-- A held message stays held when another id is added. -/
theorem Held.mono {letters moreLetters : List Letter} {issued moreIssued : List Bytes}
    {pointer : MessagePtr} (held : Held letters issued pointer)
    (known : ∀ id ∈ issued, id ∈ moreIssued)
    (new : ∀ id ∈ moreLetters.map (·.properties.id), id ∈ issued →
      id ∈ letters.map (·.properties.id)) :
    Held moreLetters moreIssued pointer :=
  ⟨known _ held.known, held.stored,
    fun transient member => held.notStored transient (new _ member held.known)⟩

section Steps

variable [Protobuf] {mapper : MessageMapper} {letters : List Letter} {issued : List Bytes}
  {site : Site}

theorem kept_insert_durable (undoes : Undoes) {properties : Option BasecProperties}
    {uuid body : Bytes} {queueIsDurable : Bool} (kept : Kept mapper letters issued site)
    (durable : (composed properties uuid queueIsDurable).deliverMode = .durable)
    (fresh : (composed properties uuid queueIsDurable).id ∉ issued)
    (sound : (stamped (composed properties uuid queueIsDurable) body).Sound)
    (small : ∀ next, perform site (.insert properties uuid body queueIsDurable) = .ok next →
      next.content.length < uint32Range) :
    ∃ next, perform site (.insert properties uuid body queueIsDurable) = .ok next ∧
      Kept mapper (letters ++ [⟨composed properties uuid queueIsDurable, body⟩])
        (issued ++ [(composed properties uuid queueIsDurable).id]) next := by
  rcases kept.agrees with ⟨records, stored, agrees⟩
  have storedHere : site.disk site.queue.mapper.datafile = some (Record.file records) := by
    rw [kept.sameFiles, stored]
  have performed := calmly_ok (insert_durable_calm storedHere body durable)
  refine ⟨_, congrArg (Except.map _) performed, ?_⟩
  have smallNext : (Record.file records ++ frame sizeOfSize
      (stamped (composed properties uuid queueIsDurable) body).serialize).length < uint32Range := by
    have bound := small _ (congrArg (Except.map _) performed)
    simpa only [Site.content, Function.update_self, Option.getD_some] using bound
  have bounds := smallNext
  rw [List.length_append, frame, List.length_append, length_leBytes] at bounds
  have more : Record.file records ++ frame sizeOfSize
      (stamped (composed properties uuid queueIsDurable) body).serialize =
      Record.file (records ++ [Record.ofPayload undoes _ sound]) :=
    (Record.file_concat records (Record.ofPayload undoes _ sound)).symm
  have idAbsent : (composed properties uuid queueIsDurable).id ∉
      letters.map (·.properties.id) :=
    fun member => fresh (kept.known _ member)
  have stays : ∀ pointer, Held letters issued pointer →
      Held (letters ++ [⟨composed properties uuid queueIsDurable, body⟩])
        (issued ++ [(composed properties uuid queueIsDurable).id]) pointer := by
    intro pointer held
    refine held.mono (fun id member => List.mem_append_left _ member) fun id member old => ?_
    rw [List.map_append, List.mem_append] at member
    rcases member with earlier | new
    · exact earlier
    · have same : id = (composed properties uuid queueIsDurable).id := List.mem_singleton.mp new
      exact absurd (same ▸ old) fresh
  refine ⟨kept.sameFiles, ⟨records ++ [Record.ofPayload undoes _ sound], ?_, ?_⟩, ?_, ?_, ?_, ?_, ?_⟩
  · rw [← more, ← kept.sameFiles]
    exact Function.update_self ..
  · rw [Record.livePayloads_append, List.map_append, agrees]
    rfl
  · simpa only [Site.content, Function.update_self, Option.getD_some] using smallNext
  · rw [List.map_append, List.map_singleton]
    exact (List.perm_append_singleton _ _).nodup_iff.mpr
      (List.nodup_cons.mpr ⟨idAbsent, kept.distinct⟩)
  · intro id member
    rw [List.map_append, List.mem_append] at member
    rcases member with earlier | new
    · exact List.mem_append_left _ (kept.known id earlier)
    · exact List.mem_append_right _ new
  · intro pointer member
    rcases List.mem_append.mp member with earlier | new
    · exact stays pointer (kept.queued pointer earlier)
    · rw [List.mem_singleton.mp new]
      have short : (stamped (composed properties uuid queueIsDurable) body).serialize.length <
          uint32Range := by omega
      exact ⟨List.mem_append_right _ List.mem_cons_self,
        fun _ => ⟨rfl, Nat.mod_eq_of_lt short⟩, fun transient => absurd durable transient⟩
  · intro msgId pointer found
    have old := kept.waiting msgId pointer found
    exact ⟨old.1, stays pointer old.2⟩

theorem kept_insert_transient {properties : Option BasecProperties} {uuid body : Bytes}
    {queueIsDurable : Bool} (kept : Kept mapper letters issued site)
    (transient : (composed properties uuid queueIsDurable).deliverMode ≠ .durable)
    (fresh : (composed properties uuid queueIsDurable).id ∉ issued) :
    ∃ next, perform site (.insert properties uuid body queueIsDurable) = .ok next ∧
      Kept mapper letters (issued ++ [(composed properties uuid queueIsDurable).id]) next := by
  have performed := calmly_ok (insert_transient_calm site.queue site.disk body transient)
  refine ⟨_, congrArg (Except.map _) performed, ?_⟩
  have stays : ∀ pointer, Held letters issued pointer →
      Held letters (issued ++ [(composed properties uuid queueIsDurable).id]) pointer :=
    fun pointer held => held.mono (fun id member => List.mem_append_left _ member)
      fun id member _ => member
  refine ⟨kept.sameFiles, kept.agrees, kept.small, kept.distinct,
    fun id member => List.mem_append_left _ (kept.known id member), ?_, ?_⟩
  · intro pointer member
    rcases List.mem_append.mp member with earlier | new
    · exact stays pointer (kept.queued pointer earlier)
    · rw [List.mem_singleton.mp new]
      exact ⟨List.mem_append_right _ List.mem_cons_self, fun durable => absurd durable transient,
        fun _ member => fresh (kept.known _ member)⟩
  · intro msgId pointer found
    have old := kept.waiting msgId pointer found
    exact ⟨old.1, stays pointer old.2⟩

theorem kept_front (kept : Kept mapper letters issued site) :
    Kept mapper letters issued ⟨site.queue.front.2, site.disk⟩ := by
  cases msgs : site.queue.msgs with
  | nil =>
      have nothing : site.queue.front = (none, site.queue) := by
        rw [front, msgs]
      rw [nothing]
      exact kept
  | cons pointer rest =>
      have popped : site.queue.front = (some pointer, { site.queue with
          msgs := rest
          waitackMsgs := Dictionary.insertNew pointer.id pointer site.queue.waitackMsgs }) := by
        rw [front, msgs]
      have queued := kept.queued
      rw [msgs] at queued
      rw [popped]
      refine ⟨kept.sameFiles, kept.agrees, kept.small, kept.distinct, kept.known,
        fun other member => queued other (List.mem_cons_of_mem _ member), ?_⟩
      intro msgId other found
      rw [Dictionary.lookup_insertNew] at found
      by_cases same : msgId = pointer.id
      · rw [if_pos same] at found
        cases lookup : site.queue.waitackMsgs.lookup pointer.id with
        | none =>
            rw [lookup, Option.getD_none] at found
            cases found
            exact ⟨same.symm, queued pointer List.mem_cons_self⟩
        | some earlier =>
            rw [lookup, Option.getD_some] at found
            cases found
            rw [same]
            exact kept.waiting pointer.id other lookup
      · rw [if_neg same] at found
        exact kept.waiting msgId other found

/-- The waiting messages after one has been removed. -/
private theorem waiting_erased {msgId : Bytes} {fewer : List Letter}
    (kept : Kept mapper letters issued site)
    (subset : ∀ id ∈ fewer.map (·.properties.id), id ∈ letters.map (·.properties.id)) :
    ∀ other pointer, (site.queue.waitackMsgs.erase msgId).lookup other = some pointer →
      pointer.id = other ∧ Held fewer issued pointer := by
  intro other pointer found
  rw [Dictionary.lookup_erase] at found
  by_cases same : other = msgId
  · rw [if_pos same] at found
    cases found
  · rw [if_neg same] at found
    have old := kept.waiting other pointer found
    exact ⟨old.1, old.2.mono (fun id member => member) fun id member _ => subset id member⟩

theorem kept_remove (undoes : Undoes) {msgId : Bytes} (kept : Kept mapper letters issued site)
    (distinctFiles : mapper.tmpfile ≠ mapper.datafile)
    (present : msgId ∈ site.queue.waitackMsgs)
    (inPlace : RemovedInPlace site (.remove msgId))
    (small : ∀ next, perform site (.remove msgId) = .ok next → next.content.length < uint32Range) :
    ∃ next, perform site (.remove msgId) = .ok next ∧
      Kept mapper (letters.filter (·.properties.id ≠ msgId)) issued next := by
  rcases Dictionary.mem_iff_lookup.mp present with ⟨pointer, found⟩
  rcases kept.waiting msgId pointer found with ⟨key, held⟩
  have fewer : ∀ id ∈ (letters.filter (·.properties.id ≠ msgId)).map (·.properties.id),
      id ∈ letters.map (·.properties.id) :=
    fun id member => (List.filter_sublist.map _).subset member
  have stillDistinct : ((letters.filter (·.properties.id ≠ msgId)).map (·.properties.id)).Nodup :=
    (List.filter_sublist.map _).nodup kept.distinct
  have stays : ∀ other ∈ site.queue.msgs,
      Held (letters.filter (·.properties.id ≠ msgId)) issued other :=
    fun other member => (kept.queued other member).mono (fun id known => known)
      fun id listed _ => fewer id listed
  by_cases durable : pointer.deliverMode = .durable
  · rcases kept.agrees with ⟨records, stored, agrees⟩
    have storedHere : site.disk site.queue.mapper.datafile = some (Record.file records) := by
      rw [kept.sameFiles, stored]
    have contentHere : site.content = Record.file records := by
      rw [Site.content, storedHere, Option.getD_some]
    have smallHere := kept.small
    have place := inPlace pointer found durable
    rw [contentHere] at smallHere place
    rcases exists_struck undoes smallHere place.1 (held.stored durable).1 with
      ⟨before, record, after, struck, split, recordPayload, struckPayload, file⟩
    have length : (pointer.message.payload.setValid invalidMark).serialize.length =
        pointer.message.length := by
      rw [(held.stored durable).2]
      exact pointer.message.payload.serialize_setValid_length
        (by rw [(held.stored durable).1]; rfl)
    have live : pointer.message.payload.Live := by
      rw [Payload.Live, (held.stored durable).1]
      decide
    rw [split] at agrees
    have agreesNext := letters_struck live recordPayload struckPayload agrees kept.distinct
    have idEq : pointer.message.payload.properties.id = msgId := key
    rw [idEq] at agreesNext
    by_cases due : CollectionDue site.queue.totalCount
        (Dictionary.size (site.queue.durableMsgs.erase msgId))
    · rcases remove_collecting_calm (kept.sameFiles.symm ▸ distinctFiles) found durable storedHere
        length file due (place.2 due) with ⟨disk, removed, data⟩
      have performed := calmly_ok removed
      rcases Record.exists_compacted undoes (before ++ struck :: after) with
        ⟨compacted, compactedFile, compactedLive⟩
      rw [kept.sameFiles, compactedFile] at data
      exact ⟨_, congrArg (Except.map _) performed, kept.sameFiles,
        ⟨compacted, data, by rw [compactedLive, agreesNext]⟩,
        small _ (congrArg (Except.map _) performed), stillDistinct,
        fun id member => kept.known id (fewer id member), stays, waiting_erased kept fewer⟩
    · have performed := calmly_ok
        (remove_durable_calm found durable storedHere length due)
      refine ⟨_, congrArg (Except.map _) performed, kept.sameFiles,
        ⟨before ++ struck :: after, ?_, agreesNext⟩,
        small _ (congrArg (Except.map _) performed), stillDistinct,
        fun id member => kept.known id (fewer id member), stays, waiting_erased kept fewer⟩
      rw [← file, ← kept.sameFiles]
      exact Function.update_self ..
  · have performed := calmly_ok (remove_transient_calm site.disk found durable)
    have absent : msgId ∉ letters.map (·.properties.id) := key ▸ held.notStored durable
    have same : letters.filter (·.properties.id ≠ msgId) = letters := by
      refine List.filter_eq_self.mpr fun entry member => ?_
      have differs : entry.properties.id ≠ msgId :=
        fun equal => absent (equal ▸ List.mem_map_of_mem member)
      exact decide_eq_true differs
    refine ⟨_, congrArg (Except.map _) performed, ?_⟩
    exact ⟨kept.sameFiles, same.symm ▸ kept.agrees, kept.small, stillDistinct,
      fun id member => kept.known id (fewer id member), stays, waiting_erased kept fewer⟩

/-- What one call preserves. -/
theorem kept_step (undoes : Undoes) {call : Call} (kept : Kept mapper letters issued site)
    (distinctFiles : mapper.tmpfile ≠ mapper.datafile)
    (fresh : (issued ++ call.insertedIds).Nodup) (admissible : Admissible site call)
    (inPlace : RemovedInPlace site call) :
    ∃ next, perform site call = .ok next ∧
      Kept mapper (enter letters call) (issued ++ call.insertedIds) next := by
  cases call with
  | insert properties uuid body queueIsDurable =>
      have absent : (composed properties uuid queueIsDurable).id ∉ issued :=
        fun member => (List.nodup_append.mp fresh).2.2 _ member _ List.mem_cons_self rfl
      by_cases durable : (composed properties uuid queueIsDurable).deliverMode = .durable
      · rw [enter, if_pos durable]
        exact kept_insert_durable undoes kept durable absent admissible.sound admissible.small
      · rw [enter, if_neg durable]
        exact kept_insert_transient kept durable absent
  | front =>
      rw [Call.insertedIds, List.append_nil]
      exact ⟨_, rfl, kept_front kept⟩
  | remove msgId =>
      rw [Call.insertedIds, List.append_nil]
      exact kept_remove undoes kept distinctFiles (admissible.waits msgId rfl) inPlace admissible.small

/-- What a whole run preserves. -/
theorem kept_run (undoes : Undoes) (calls : List Call) (kept : Kept mapper letters issued site)
    (distinctFiles : mapper.tmpfile ≠ mapper.datafile)
    (fresh : (issued ++ calls.flatMap Call.insertedIds).Nodup)
    (admissible : Along perform Admissible site calls)
    (inPlace : Along perform RemovedInPlace site calls) :
    ∃ final, run perform site calls = .ok final ∧
      Kept mapper (calls.foldl enter letters) (issued ++ calls.flatMap Call.insertedIds) final := by
  induction calls generalizing site letters issued with
  | nil =>
      rw [List.flatMap_nil, List.append_nil]
      exact ⟨site, rfl, kept⟩
  | cons call rest inductionHypothesis =>
      rw [List.flatMap_cons, ← List.append_assoc] at fresh ⊢
      have freshHere := (List.nodup_append.mp fresh).1
      rcases kept_step undoes kept distinctFiles freshHere admissible.1 inPlace.1 with
        ⟨next, performed, keptNext⟩
      rcases inductionHypothesis keptNext fresh (admissible.2 next performed)
        (inPlace.2 next performed) with ⟨final, completed, keptFinal⟩
      exact ⟨final, (run_cons_ok performed).trans completed, keptFinal⟩

end Steps

/-! ## The result -/

/-- A fresh queue over an empty data file. -/
def emptySite (mapper : MessageMapper) (disk : Disk) : Site :=
  ⟨{ mapper := mapper }, disk⟩

/-- In every run from an empty data file whose durable messages are all removed
in place, the run completes, and a restart then finds exactly the ledger. -/
theorem restart_finds_ledger [Protobuf] (undoes : Undoes) (qname basedir : Bytes) (disk : Disk)
    (calls : List Call)
    (empty : disk (MessageMapper.ofNames qname basedir).datafile = some [])
    (fresh : (calls.flatMap Call.insertedIds).Nodup)
    (admissible : Along perform Admissible
      (emptySite (MessageMapper.ofNames qname basedir) disk) calls)
    (inPlace : Along perform RemovedInPlace
      (emptySite (MessageMapper.ofNames qname basedir) disk) calls) :
    ∃ final recovered after,
      run perform (emptySite (MessageMapper.ofNames qname basedir) disk) calls = .ok final ∧
      restart qname basedir final.disk = .ok (recovered, after) ∧
      recovered.msgs.map (fun pointer => letter pointer.message.payload) = ledger calls := by
  have start : Kept (MessageMapper.ofNames qname basedir) [] []
      (emptySite (MessageMapper.ofNames qname basedir) disk) :=
    { sameFiles := rfl
      agrees := ⟨[], empty, rfl⟩
      small := by
        change ((disk (MessageMapper.ofNames qname basedir).datafile).getD []).length < uint32Range
        rw [empty]
        decide
      distinct := List.nodup_nil
      known := fun _ member => member
      queued := fun _ member => by cases member
      waiting := fun _ _ found => by cases found }
  rcases kept_run undoes calls start (MessageMapper.ofNames_distinct qname basedir) fresh
    admissible inPlace with ⟨final, completed, kept⟩
  rcases kept.agrees with ⟨records, stored, agrees⟩
  rcases restart_records qname basedir stored with ⟨recovered, restarted, payloads⟩
  refine ⟨final, recovered, _, completed, restarted, ?_⟩
  rw [ledger, ← agrees, ← payloads, List.map_map]
  rfl

/-- A durable message with the given id and no body. -/
def durableInsert (id : Bytes) : Call :=
  .insert (some { id := id, deliverMode := .durable }) [] [] true

theorem durableInsert_sound {id : Bytes} (low : IsAscii id)
    (short : (stamped { id := id, deliverMode := .durable } []).serialize.length < 0x80000000) :
    (durableInsert id).Sound := by
  refine Payload.sound_of_ascii short fun byte member => ?_
  simp only [List.mem_append] at member
  rcases member with ((inId | inKey) | inBody) | inMark
  · exact low byte inId
  · cases inKey
  · cases inBody
  · exact (by decide : IsAscii validMark) byte inMark

/-- The files of a queue named `q`. -/
def exampleMapper : MessageMapper :=
  MessageMapper.ofNames (ascii "q") (ascii "data")

/-- A disk with an empty data file and no other file. -/
def exampleDisk : Disk :=
  Function.update (fun _ => none) exampleMapper.datafile (some [])

/-- Two messages are inserted and one is removed: a restart finds the other. -/
theorem restart_finds_the_second :
    ∃ final recovered after,
      run perform (emptySite exampleMapper exampleDisk)
        [durableInsert (ascii "a"), durableInsert (ascii "b"), .front, .remove (ascii "a")] =
        .ok final ∧
      restart (ascii "q") (ascii "data") final.disk = .ok (recovered, after) ∧
      recovered.msgs.map (fun pointer => letter pointer.message.payload) =
        ledger [durableInsert (ascii "a"), durableInsert (ascii "b"), .front,
          .remove (ascii "a")] := by
  refine restart_finds_ledger wireFormat_undoes (ascii "q") (ascii "data") exampleDisk _
    (by decide) (by decide) ?_ ?_
  · refine along_cons (admissible_of_performed (fun _ other => by cases other)
      (durableInsert_sound (by decide) (by decide)) rfl (by decide)) rfl ?_
    refine along_cons (admissible_of_performed (fun _ other => by cases other)
      (durableInsert_sound (by decide) (by decide)) rfl (by decide)) rfl ?_
    refine along_cons (admissible_of_performed (fun _ other => by cases other) trivial rfl
      (by decide)) rfl ?_
    refine along_cons (admissible_of_performed (fun msgId same => ?_) trivial rfl (by decide)) rfl
      trivial
    cases same
    decide
  · refine along_cons trivial rfl (along_cons trivial rfl (along_cons trivial rfl
      (along_cons ?_ rfl trivial)))
    intro pointer found _
    cases found
    exact ⟨⟨[], [(stamped { id := ascii "b", deliverMode := .durable } []).serialize],
      by decide, by decide⟩, fun due => absurd due (by decide)⟩

/-! ## A message that comes back

Two thousand messages pass through the queue, then two more are delivered and
the second one is acknowledged.  Its removal starts a collection, which moves
the record of the first to the start of the file; the first is then struck out
where its record no longer is.
-/

section Collected

/-- The numbered ids of the messages, two characters each. -/
def numbered (number : Nat) : Bytes :=
  [UInt8.ofNat (48 + number / 64 % 64), UInt8.ofNat (48 + number % 64)]

private theorem numbered_ascii (number : Nat) : IsAscii (numbered number) := by
  intro byte member
  rcases List.mem_cons.mp member with rfl | last
  · rw [UInt8.toNat_ofNat']
    omega
  · rw [List.mem_singleton.mp last, UInt8.toNat_ofNat']
    omega

private theorem numbered_injective {first second : Nat} (firstSmall : first < 4096)
    (secondSmall : second < 4096) (same : numbered first = numbered second) : first = second := by
  have high := congrArg UInt8.toNat (List.cons.inj same).1
  have low := congrArg UInt8.toNat (List.cons.inj (List.cons.inj same).2).1
  rw [UInt8.toNat_ofNat', UInt8.toNat_ofNat'] at high low
  omega

/-- The payload of a numbered message. -/
def numberedPayload (number : Nat) : Payload :=
  stamped { id := numbered number, deliverMode := .durable } []

private theorem numberedPayload_length (number : Nat) :
    (numberedPayload number).serialize.length = 11 := rfl

private theorem struckPayload_length (number : Nat) :
    ((numberedPayload number).setValid invalidMark).serialize.length = 11 := by
  have sameLength : invalidMark.length = (numberedPayload number).valid.length := rfl
  rw [Payload.serialize_setValid_length _ sameLength, numberedPayload_length]

private theorem numbered_sound (number : Nat) : (durableInsert (numbered number)).Sound :=
  durableInsert_sound (numbered_ascii number)
    ((numberedPayload_length number).trans_lt (by decide))

/-- The record of a numbered message. -/
def liveRecord (number : Nat) : Record :=
  Record.ofPayload wireFormat_undoes (numberedPayload number) (numbered_sound number)

/-- The record of a numbered message that has been struck out. -/
def deadRecord (number : Nat) : Record :=
  Record.ofPayload wireFormat_undoes ((numberedPayload number).setValid invalidMark)
    ((numbered_sound number).setValid (isText_of_ascii (by decide)) rfl)

/-- The struck-out records of the first messages. -/
def deadRecords (count : Nat) : List Record :=
  (List.range count).map deadRecord

/-- Every record of the example has the same size. -/
private theorem file_length {records : List Record}
    (equal : ∀ record ∈ records, record.body.length = 11) :
    (Record.file records).length = records.length * 19 := by
  induction records with
  | nil => rfl
  | cons record rest inductionHypothesis =>
      have head := equal record List.mem_cons_self
      have later := inductionHypothesis fun other member => equal other (List.mem_cons_of_mem _ member)
      rw [Record.file, List.map_cons, frames_cons, List.length_append, List.length_append,
        length_leBytes, head, List.length_cons]
      rw [Record.file] at later
      have headerSize : sizeOfSize = 8 := rfl
      omega

private theorem deadRecords_equal (count : Nat) :
    ∀ record ∈ deadRecords count, record.body.length = 11 := by
  intro record member
  rcases List.mem_map.mp member with ⟨number, _, same⟩
  subst same
  exact struckPayload_length number

private theorem deadRecords_length (count : Nat) :
    (Record.file (deadRecords count)).length = count * 19 := by
  rw [file_length (deadRecords_equal count), deadRecords, List.length_map, List.length_range]

private theorem deadRecords_live (count : Nat) : Record.livePayloads (deadRecords count) = [] := by
  refine List.filter_eq_nil_iff.mpr fun payload member => ?_
  rcases List.mem_map.mp member with ⟨record, listed, same⟩
  rcases List.mem_map.mp listed with ⟨number, _, same'⟩
  subst same' same
  exact fun live => of_decide_eq_true live rfl

private theorem deadRecords_succ (count : Nat) :
    deadRecords (count + 1) = deadRecords count ++ [deadRecord count] := by
  rw [deadRecords, List.range_succ, List.map_append]
  rfl

/-- A disk whose only file is the data file. -/
def onDisk (content : Bytes) : Disk :=
  Function.update (fun _ => none) exampleMapper.datafile (some content)

private theorem onDisk_data (content : Bytes) :
    onDisk content exampleMapper.datafile = some content :=
  Function.update_self ..

private theorem update_onDisk (content changed : Bytes) :
    Function.update (onDisk content) exampleMapper.datafile (some changed) = onDisk changed :=
  Function.update_idem ..

private theorem small_onDisk {queue : QueueMessage} (files : queue.mapper = exampleMapper)
    {content : Bytes} (small : content.length < uint32Range) :
    (Site.content ⟨queue, onDisk content⟩).length < uint32Range := by
  have data : Site.content ⟨queue, onDisk content⟩ = content := by
    change (onDisk content queue.mapper.datafile).getD [] = content
    rw [files, onDisk_data, Option.getD_some]
  rw [data]
  exact small

/-- The object that stands for a numbered message. -/
def numberedPtr (addr : Nat) (records : List Record) (number : Nat) : MessagePtr :=
  ⟨addr, MessageMapper.placedAt (Record.file records).length { payload := numberedPayload number }⟩

private theorem perform_numbered (queue : QueueMessage) (files : queue.mapper = exampleMapper)
    (records : List Record) (number : Nat) :
    perform ⟨queue, onDisk (Record.file records)⟩ (durableInsert (numbered number)) =
      .ok ⟨{ queue with
        totalCount := queue.totalCount + 1
        durableMsgs := Dictionary.insertNew (numbered number)
          (numberedPtr queue.allocated records number) queue.durableMsgs
        msgs := queue.msgs ++ [numberedPtr queue.allocated records number]
        allocated := queue.allocated + 1 },
        onDisk (Record.file (records ++ [liveRecord number]))⟩ := by
  have stored : onDisk (Record.file records) queue.mapper.datafile = some (Record.file records) := by
    rw [files, onDisk_data]
  have durable : (composed (some { id := numbered number, deliverMode := .durable }) []
      true).deliverMode = .durable := rfl
  have performed := congrArg
    (Except.map fun done : (Bool × QueueMessage) × Disk => (⟨done.1.2, done.2⟩ : Site))
    (calmly_ok (insert_durable_calm stored [] durable))
  have written : ∀ changed, Function.update (onDisk (Record.file records)) queue.mapper.datafile
      (some changed) = onDisk changed := by
    intro changed
    rw [files, update_onDisk]
  rw [written] at performed
  rw [Record.file_concat]
  exact performed

/-- A message that was inserted last is struck out at the end of the file. -/
private theorem struckOut_last {records : List Record}
    (equal : ∀ record ∈ records, record.body.length = 11) (few : records.length ≤ 4096)
    (addr number : Nat) :
    struckOut (Record.file (records ++ [liveRecord number]))
      (numberedPtr addr records number).message =
      Record.file (records ++ [deadRecord number]) := by
  have offset : (numberedPtr addr records number).message.offset =
      (Record.file records).length + sizeOfSize := by
    refine Nat.mod_eq_of_lt ?_
    rw [file_length equal]
    have wide : 4096 * 19 + sizeOfSize < uint32Range := by decide
    omega
  have sameLength : (deadRecord number).body.length = (liveRecord number).body.length :=
    (struckPayload_length number).trans (numberedPayload_length number).symm
  rw [struckOut, offset]
  simp only [Record.file, List.map_append, List.map_singleton]
  exact overwrite_frames sizeOfSize (records.map Record.body) (liveRecord number).body
    (deadRecord number).body [] sameLength

private theorem perform_remove_last {queue : QueueMessage} (files : queue.mapper = exampleMapper)
    {records : List Record} (equal : ∀ record ∈ records, record.body.length = 11)
    (few : records.length ≤ 4096) {addr number : Nat}
    (found : queue.waitackMsgs.lookup (numbered number) = some (numberedPtr addr records number))
    (notDue : ¬ CollectionDue queue.totalCount
      (Dictionary.size (queue.durableMsgs.erase (numbered number)))) :
    perform ⟨queue, onDisk (Record.file (records ++ [liveRecord number]))⟩
        (.remove (numbered number)) =
      .ok ⟨{ queue with
        durableMsgs := queue.durableMsgs.erase (numbered number)
        waitackMsgs := queue.waitackMsgs.erase (numbered number) },
        onDisk (Record.file (records ++ [deadRecord number]))⟩ := by
  have stored : onDisk (Record.file (records ++ [liveRecord number])) queue.mapper.datafile =
      some (Record.file (records ++ [liveRecord number])) := by
    rw [files, onDisk_data]
  have length : ((numberedPtr addr records number).message.payload.setValid
      invalidMark).serialize.length = (numberedPtr addr records number).message.length :=
    (struckPayload_length number).trans
      (congrArg (· % uint32Range) (numberedPayload_length number)).symm
  have performed := congrArg (Except.map fun done : QueueMessage × Disk => (⟨done.1, done.2⟩ : Site))
    (calmly_ok (remove_durable_calm found rfl stored length notDue))
  have written : ∀ content changed, Function.update (onDisk content) queue.mapper.datafile
      (some changed) = onDisk changed := by
    intro content changed
    rw [files, update_onDisk]
  rw [written, struckOut_last equal few] at performed
  exact performed

/-- The queue after messages have been inserted, delivered and acknowledged. -/
def drainedQueue (count : Nat) : QueueMessage :=
  { mapper := exampleMapper, totalCount := count, allocated := count }

/-- The same with the files: every record is struck out. -/
def drained (count : Nat) : Site :=
  ⟨drainedQueue count, onDisk (Record.file (deadRecords count))⟩

/-- The queue after one more message has been inserted and delivered. -/
def delivered (count : Nat) : QueueMessage :=
  { drainedQueue (count + 1) with
    durableMsgs := Dictionary.insertNew (numbered count)
      (numberedPtr count (deadRecords count) count) ∅
    waitackMsgs := Dictionary.insertNew (numbered count)
      (numberedPtr count (deadRecords count) count) ∅ }

/-- One message passes through the queue. -/
def cycle (number : Nat) : List Call :=
  [durableInsert (numbered number), .front, .remove (numbered number)]

private theorem lookup_delivered (count : Nat) :
    (delivered count).waitackMsgs.lookup (numbered count) =
      some (numberedPtr count (deadRecords count) count) := by
  rw [delivered, Dictionary.lookup_insertNew, if_pos rfl]
  rfl

private theorem small_deadRecords {count : Nat} (few : count ≤ 2000) :
    (Record.file (deadRecords count)).length + 38 < uint32Range := by
  have wide : 2000 * 19 + 38 < uint32Range := by decide
  rw [deadRecords_length]
  omega

private theorem length_liveFrame (number : Nat) :
    (frame sizeOfSize (liveRecord number).body).length = 19 := by
  rw [frame, List.length_append, length_leBytes]
  exact congrArg (sizeOfSize + ·) (numberedPayload_length number)

/-- A message is inserted and delivered. -/
private theorem delivered_run {count : Nat} (few : count ≤ 2000) :
    run perform (drained count) [durableInsert (numbered count), .front] =
      .ok ⟨delivered count, onDisk (Record.file (deadRecords count ++ [liveRecord count]))⟩ ∧
    Along perform Admissible (drained count) [durableInsert (numbered count), .front] := by
  have insertStep := perform_numbered (drainedQueue count) rfl (deadRecords count) count
  have frontStep : perform ⟨{ drainedQueue (count + 1) with
      durableMsgs := Dictionary.insertNew (numbered count)
        (numberedPtr count (deadRecords count) count) ∅
      msgs := [numberedPtr count (deadRecords count) count] },
      onDisk (Record.file (deadRecords count ++ [liveRecord count]))⟩ .front =
      .ok ⟨delivered count, onDisk (Record.file (deadRecords count ++ [liveRecord count]))⟩ := rfl
  have small := small_deadRecords few
  have smallLive : (Record.file (deadRecords count ++ [liveRecord count])).length < uint32Range := by
    rw [Record.file_concat, List.length_append, length_liveFrame]
    omega
  exact ⟨(run_cons_ok insertStep).trans (run_cons_ok frontStep),
    along_cons (admissible_of_performed (fun _ other => by cases other) (numbered_sound _) insertStep
      (small_onDisk rfl smallLive)) insertStep
      (along_cons (admissible_of_performed (fun _ other => by cases other) trivial frontStep
        (small_onDisk rfl smallLive)) frontStep trivial)⟩

/-- A message passes through the queue without a collection. -/
private theorem drained_cycle {count : Nat} (few : count < 2000) :
    run perform (drained count) (cycle count) = .ok (drained (count + 1)) ∧
      Along perform Admissible (drained count) (cycle count) := by
  have lengthDead : (deadRecords count).length ≤ 4096 := by
    rw [deadRecords, List.length_map, List.length_range]
    omega
  have smallDead : (Record.file (deadRecords (count + 1))).length < uint32Range :=
    Nat.lt_of_le_of_lt (Nat.le_add_right _ 38) (small_deadRecords few)
  have leftOver : ∀ pointer : MessagePtr,
      (Dictionary.insertNew (numbered count) pointer ∅).erase (numbered count) = ∅ :=
    fun pointer => Dictionary.erase_insertNew_of_notMem pointer (AList.notMem_empty _)
  have notDue : ¬ CollectionDue (delivered count).totalCount
      (Dictionary.size ((delivered count).durableMsgs.erase (numbered count))) :=
    fun due => Nat.lt_irrefl _ (Nat.lt_of_lt_of_le due.1 few)
  have removeStep : perform ⟨delivered count,
      onDisk (Record.file (deadRecords count ++ [liveRecord count]))⟩ (.remove (numbered count)) =
      .ok (drained (count + 1)) := by
    rw [perform_remove_last rfl (deadRecords_equal count) lengthDead (lookup_delivered count) notDue,
      delivered]
    simp only [leftOver]
    rw [drained, deadRecords_succ]
    rfl
  have before := delivered_run (Nat.le_of_lt few)
  refine ⟨(run_append before.1).trans (run_cons_ok removeStep), along_append before.2 before.1
    (along_cons (admissible_of_performed (fun msgId same => ?_) trivial removeStep
      (small_onDisk rfl smallDead)) removeStep trivial)⟩
  cases same
  exact Dictionary.lookup_eq_some_mem (lookup_delivered count)

/-- Messages pass through the queue one after another. -/
private theorem drained_run {count : Nat} (few : count ≤ 2000) :
    run perform (emptySite exampleMapper exampleDisk) ((List.range count).flatMap cycle) =
        .ok (drained count) ∧
      Along perform Admissible (emptySite exampleMapper exampleDisk)
        ((List.range count).flatMap cycle) := by
  induction count with
  | zero => exact ⟨rfl, trivial⟩
  | succ count inductionHypothesis =>
      have before := inductionHypothesis (Nat.le_of_succ_le few)
      have here := drained_cycle (Nat.lt_of_succ_le few)
      rw [List.range_succ, List.flatMap_append, List.flatMap_singleton]
      exact ⟨(run_append before.1).trans here.1, along_append before.2 before.1 here.2⟩

/-- After a number of messages have passed, two are delivered together, the
second is removed, and then the first. -/
def collectedCalls (count : Nat) : List Call :=
  (List.range count).flatMap cycle ++
    [durableInsert (numbered count), .front, durableInsert (numbered (count + 1)), .front,
      .remove (numbered (count + 1)), .remove (numbered count)]

private theorem collectedCalls_distinct {count : Nat} (few : count ≤ 2000) :
    ((collectedCalls count).flatMap Call.insertedIds).Nodup := by
  have ids : (collectedCalls count).flatMap Call.insertedIds =
      (List.range (count + 2)).map numbered := by
    have cycles : ((List.range count).flatMap cycle).flatMap Call.insertedIds =
        (List.range count).map numbered := by
      rw [List.flatMap_assoc]
      exact List.flatMap_pure_eq_map numbered (List.range count)
    rw [collectedCalls, List.flatMap_append, cycles, List.range_succ, List.range_succ,
      List.map_append, List.map_append, List.append_assoc]
    rfl
  rw [ids]
  refine List.Nodup.map_on (fun first firstListed second secondListed same => ?_) List.nodup_range
  rw [List.mem_range] at firstListed secondListed
  exact numbered_injective (by omega) (by omega) same

private theorem enter_removed (letters : List Letter) (number : Nat) :
    enter (enter letters (durableInsert (numbered number))) (.remove (numbered number)) =
      letters.filter (·.properties.id ≠ numbered number) := by
  change (letters ++ [_]).filter _ = _
  rw [List.filter_append, List.filter_cons_of_neg (by simp [composed]), List.filter_nil,
    List.append_nil]

private theorem ledger_collectedCalls (count : Nat) :
    ledger (collectedCalls count) = [] := by
  have cycles : ∀ numbers : List Nat, (numbers.flatMap cycle).foldl enter [] = [] := by
    intro numbers
    induction numbers with
    | nil => rfl
    | cons number rest inductionHypothesis =>
        rw [List.flatMap_cons, List.foldl_append]
        change (rest.flatMap cycle).foldl enter
          (enter (enter [] (durableInsert (numbered number))) (.remove (numbered number))) = []
        rw [enter_removed, List.filter_nil, inductionHypothesis]
  rw [ledger, collectedCalls, List.foldl_append, cycles]
  change enter (enter (enter (enter [] (durableInsert (numbered count)))
    (durableInsert (numbered (count + 1)))) (.remove (numbered (count + 1))))
      (.remove (numbered count)) = []
  rw [enter_removed]
  change (List.filter _ (List.filter _ [_])) = []
  rw [List.filter_filter]
  refine List.filter_eq_nil_iff.mpr fun entry member => ?_
  rw [List.mem_singleton.mp member]
  simp [composed]

/-- The queue after both messages have been delivered. -/
def bothDelivered (count : Nat) : QueueMessage :=
  { drainedQueue (count + 2) with
    durableMsgs := Dictionary.insertNew (numbered (count + 1))
      (numberedPtr (count + 1) (deadRecords count ++ [liveRecord count]) (count + 1))
      (delivered count).durableMsgs
    waitackMsgs := Dictionary.insertNew (numbered (count + 1))
      (numberedPtr (count + 1) (deadRecords count ++ [liveRecord count]) (count + 1))
      (delivered count).waitackMsgs }

private theorem numbered_succ_ne {count : Nat} (few : count ≤ 2000) :
    numbered (count + 1) ≠ numbered count :=
  fun same => absurd (numbered_injective (by omega) (by omega) same) (Nat.succ_ne_self count)

private theorem notMem_delivered {count : Nat} (few : count ≤ 2000) (pointer : MessagePtr) :
    numbered (count + 1) ∉ Dictionary.insertNew (numbered count) pointer ∅ := by
  rw [Dictionary.mem_insertNew]
  rintro (same | member)
  · exact numbered_succ_ne few same
  · exact AList.notMem_empty _ member

private theorem size_delivered (count : Nat) :
    Dictionary.size (delivered count).durableMsgs = 1 := by
  rw [delivered]
  simp only [Dictionary.insertNew_of_notMem _ (AList.notMem_empty _)]
  rw [Dictionary.size_insert_of_notMem _ (AList.notMem_empty _), Dictionary.size_empty]

/-- Both messages are delivered. -/
private theorem bothDelivered_run {count : Nat} (few : count ≤ 2000) :
    run perform (drained count) ([durableInsert (numbered count), .front] ++
        [durableInsert (numbered (count + 1)), .front]) =
      .ok ⟨bothDelivered count, onDisk (Record.file
        (deadRecords count ++ [liveRecord count] ++ [liveRecord (count + 1)]))⟩ ∧
    Along perform Admissible (drained count) ([durableInsert (numbered count), .front] ++
        [durableInsert (numbered (count + 1)), .front]) := by
  have insertStep := perform_numbered (delivered count) rfl
    (deadRecords count ++ [liveRecord count]) (count + 1)
  have frontStep : perform ⟨{ delivered count with
      totalCount := count + 2
      allocated := count + 2
      durableMsgs := (bothDelivered count).durableMsgs
      msgs := [numberedPtr (count + 1) (deadRecords count ++ [liveRecord count]) (count + 1)] },
      onDisk (Record.file (deadRecords count ++ [liveRecord count] ++ [liveRecord (count + 1)]))⟩
      .front = .ok ⟨bothDelivered count, onDisk (Record.file
        (deadRecords count ++ [liveRecord count] ++ [liveRecord (count + 1)]))⟩ := rfl
  have small := small_deadRecords few
  have smallTwo : (Record.file (deadRecords count ++ [liveRecord count] ++
      [liveRecord (count + 1)])).length < uint32Range := by
    rw [Record.file_concat, Record.file_concat, List.length_append, List.length_append,
      length_liveFrame, length_liveFrame]
    omega
  have before := delivered_run few
  refine ⟨(run_append before.1).trans ((run_cons_ok insertStep).trans (run_cons_ok frontStep)),
    along_append before.2 before.1 ?_⟩
  exact along_cons (admissible_of_performed (fun _ other => by cases other) (numbered_sound _)
    insertStep (small_onDisk rfl smallTwo)) insertStep
    (along_cons (admissible_of_performed (fun _ other => by cases other) trivial frontStep
      (small_onDisk rfl smallTwo)) frontStep trivial)

/-- The removal of the second message moves the record of the first to the
start of the file. -/
private theorem perform_collecting {count : Nat} (few : count ≤ 2000) (many : 2000 < count + 2) :
    ∃ disk, perform ⟨bothDelivered count, onDisk (Record.file
        (deadRecords count ++ [liveRecord count] ++ [liveRecord (count + 1)]))⟩
        (.remove (numbered (count + 1))) =
      .ok ⟨{ delivered count with totalCount := 1, allocated := count + 2 }, disk⟩ ∧
      disk exampleMapper.datafile = some (Record.file [liveRecord count]) := by
  have found : (bothDelivered count).waitackMsgs.lookup (numbered (count + 1)) =
      some (numberedPtr (count + 1) (deadRecords count ++ [liveRecord count]) (count + 1)) := by
    have absent : numbered (count + 1) ∉ (delivered count).waitackMsgs := notMem_delivered few _
    rw [bothDelivered, Dictionary.lookup_insertNew, if_pos rfl, AList.lookup_eq_none.mpr absent,
      Option.getD_none]
  have durableErased : (bothDelivered count).durableMsgs.erase (numbered (count + 1)) =
      (delivered count).durableMsgs :=
    Dictionary.erase_insertNew_of_notMem _ (notMem_delivered few _)
  have waitingErased : (bothDelivered count).waitackMsgs.erase (numbered (count + 1)) =
      (delivered count).waitackMsgs :=
    Dictionary.erase_insertNew_of_notMem _ (notMem_delivered few _)
  have due : CollectionDue (bothDelivered count).totalCount (Dictionary.size
      ((bothDelivered count).durableMsgs.erase (numbered (count + 1)))) := by
    rw [durableErased, size_delivered]
    refine ⟨many, ?_⟩
    change 10 / (count + 2) < 5
    exact Nat.lt_of_le_of_lt (Nat.div_le_div_left (Nat.le_of_lt many) (by decide)) (by decide)
  have equal : ∀ record ∈ deadRecords count ++ [liveRecord count], record.body.length = 11 := by
    intro record member
    rcases List.mem_append.mp member with dead | live
    · exact deadRecords_equal count record dead
    · rw [List.mem_singleton.mp live]
      exact numberedPayload_length count
  have short : (deadRecords count ++ [liveRecord count]).length ≤ 4096 := by
    rw [List.length_append, deadRecords, List.length_map, List.length_range, List.length_singleton]
    omega
  have length : ((numberedPtr (count + 1) (deadRecords count ++ [liveRecord count])
      (count + 1)).message.payload.setValid invalidMark).serialize.length =
      (numberedPtr (count + 1) (deadRecords count ++ [liveRecord count])
        (count + 1)).message.length :=
    (struckPayload_length (count + 1)).trans
      (congrArg (· % uint32Range) (numberedPayload_length (count + 1))).symm
  have distinct : exampleMapper.tmpfile ≠ exampleMapper.datafile :=
    MessageMapper.ofNames_distinct _ _
  have tmpAbsent : ∀ content, (onDisk content exampleMapper.tmpfile).getD [] = [] := by
    intro content
    rw [onDisk, Function.update_of_ne distinct, Option.getD_none]
  rcases remove_collecting_calm distinct found rfl (onDisk_data _) length
    (struckOut_last equal short _ _) due (tmpAbsent _) with ⟨disk, removed, data⟩
  have live : (Record.livePayloads (deadRecords count ++ [liveRecord count] ++
      [deadRecord (count + 1)])).map Payload.serialize = [(liveRecord count).body] := by
    rw [Record.livePayloads_append, Record.livePayloads_append, deadRecords_live]
    rfl
  rw [live] at data
  rw [durableErased, waitingErased, size_delivered] at removed
  exact ⟨disk, congrArg (Except.map fun done : QueueMessage × Disk => (⟨done.1, done.2⟩ : Site))
    (calmly_ok removed), data⟩

/-- The removal of the first message then strikes out nothing: its record stays
at the start of the file. -/
private theorem perform_stale {count : Nat} (few : count ≤ 2000) (many : 1 < count) {disk : Disk}
    (data : disk exampleMapper.datafile = some (Record.file [liveRecord count])) :
    ∃ after tail, perform ⟨{ delivered count with totalCount := 1, allocated := count + 2 }, disk⟩
        (.remove (numbered count)) =
      .ok ⟨{ drainedQueue (count + 2) with totalCount := 1 }, after⟩ ∧
      after exampleMapper.datafile = some (Record.file [liveRecord count] ++ tail) ∧
      (Record.file [liveRecord count] ++ tail).length < uint32Range := by
  have offset : (numberedPtr count (deadRecords count) count).message.offset =
      count * 19 + sizeOfSize := by
    have wide : 2000 * 19 + sizeOfSize < uint32Range := by decide
    refine (Nat.mod_eq_of_lt ?_).trans (congrArg (· + sizeOfSize) (deadRecords_length count))
    rw [deadRecords_length]
    omega
  have fileLength : (Record.file [liveRecord count]).length = 19 := by
    refine file_length fun record member => ?_
    rw [List.mem_singleton.mp member]
    exact numberedPayload_length count
  have beyond : (Record.file [liveRecord count]).length ≤
      (numberedPtr count (deadRecords count) count).message.offset := by
    rw [fileLength, offset]
    omega
  have nonempty : ((numberedPtr count (deadRecords count) count).message.payload.setValid
      invalidMark).serialize ≠ [] := by
    intro empty
    have length := struckPayload_length count
    rw [show ((numberedPayload count).setValid invalidMark).serialize = [] from empty] at length
    cases length
  have length : ((numberedPtr count (deadRecords count) count).message.payload.setValid
      invalidMark).serialize.length = (numberedPtr count (deadRecords count) count).message.length :=
    (struckPayload_length count).trans
      (congrArg (· % uint32Range) (numberedPayload_length count)).symm
  have notDue : ¬ CollectionDue 1 (Dictionary.size
      ((delivered count).durableMsgs.erase (numbered count))) :=
    fun due => absurd due.1 (by decide)
  have removed : QueueMessage.remove { delivered count with totalCount := 1, allocated := count + 2 }
      (numbered count) ⟨disk, []⟩ = _ :=
    remove_durable_calm (lookup_delivered count) rfl data length notDue
  have durableErased : (delivered count).durableMsgs.erase (numbered count) = ∅ :=
    Dictionary.erase_insertNew_of_notMem _ (AList.notMem_empty _)
  have waitingErased : (delivered count).waitackMsgs.erase (numbered count) = ∅ :=
    Dictionary.erase_insertNew_of_notMem _ (AList.notMem_empty _)
  obtain ⟨tail, written, small⟩ : ∃ tail, struckOut (Record.file [liveRecord count])
      (numberedPtr count (deadRecords count) count).message =
        Record.file [liveRecord count] ++ tail ∧
      (Record.file [liveRecord count] ++ tail).length < uint32Range := by
    refine ⟨_, overwrite_beyond beyond nonempty, ?_⟩
    have wide : 2000 * 19 + sizeOfSize + 11 < uint32Range := by decide
    have struckLength : ((numberedPtr count (deadRecords count) count).message.payload.setValid
        invalidMark).serialize.length = 11 := struckPayload_length count
    rw [List.length_append, List.length_append, List.length_replicate, struckLength, fileLength,
      offset]
    omega
  rw [written] at removed
  simp only [durableErased, waitingErased] at removed
  refine ⟨Function.update disk exampleMapper.datafile (some (Record.file [liveRecord count] ++ tail)),
    tail, congrArg (Except.map fun done : QueueMessage × Disk => (⟨done.1, done.2⟩ : Site))
      (calmly_ok removed), Function.update_self .., small⟩

/-- A restart over a file that begins with a live record finds a message. -/
private theorem restart_ne_nil {disk : Disk} {record : Record} {tail : Bytes}
    (live : record.payload.Live)
    (data : disk exampleMapper.datafile = some (Record.file [record] ++ tail))
    {recovered : QueueMessage} {after : Disk}
    (restarted : restart (ascii "q") (ascii "data") disk = .ok (recovered, after)) :
    recovered.msgs ≠ [] := by
  rcases calmly_eq_ok restarted with ⟨world, done, _⟩
  rw [bind_ok (new_present _ _ [] data)] at done
  rcases bind_eq_ok done with ⟨messages, _, collected, same⟩
  cases same
  rcases MessageMapper.gc_payloads collected with ⟨loaded, _, load, payloads⟩
  have length := congrArg List.length payloads
  rw [List.length_map, List.length_map] at length
  have begins : (Record.livePayloads [record]).map _ <+: loaded.2 :=
    MessageMapper.load_begins data load
  have found := begins.length_le
  have one : Record.livePayloads [record] = [record.payload] :=
    Record.livePayloads_cons_of_live live []
  rw [one, List.map_singleton, List.length_singleton, ← length] at found
  intro empty
  have shared := congrArg List.length (share_messages 0 messages)
  rw [List.length_map, show share 0 messages = [] from empty, List.length_nil] at shared
  omega

/-- The whole run. -/
private theorem collectedCalls_run {count : Nat} (few : count ≤ 2000) (many : 2000 < count + 2) :
    ∃ final tail,
      run perform (emptySite exampleMapper exampleDisk) (collectedCalls count) = .ok final ∧
      Along perform Admissible (emptySite exampleMapper exampleDisk) (collectedCalls count) ∧
      final.disk exampleMapper.datafile = some (Record.file [liveRecord count] ++ tail) := by
  rcases drained_run few with ⟨drainedRun, drainedAdmissible⟩
  rcases bothDelivered_run few with ⟨deliveredRun, deliveredAdmissible⟩
  rcases perform_collecting few many with ⟨disk, collecting, data⟩
  rcases perform_stale few (by omega) data with ⟨after, tail, stale, staleData, staleSmall⟩
  have smallCollected : (Site.content ⟨{ delivered count with totalCount := 1, allocated := count + 2 },
      disk⟩).length < uint32Range := by
    change ((disk exampleMapper.datafile).getD []).length < uint32Range
    have bound := staleSmall
    rw [List.length_append] at bound
    rw [data, Option.getD_some]
    exact Nat.lt_of_le_of_lt (Nat.le_add_right _ _) bound
  have smallStale : (Site.content ⟨{ drainedQueue (count + 2) with totalCount := 1 },
      after⟩).length < uint32Range := by
    change ((after exampleMapper.datafile).getD []).length < uint32Range
    rw [staleData, Option.getD_some]
    exact staleSmall
  refine ⟨_, tail, (run_append drainedRun).trans ((run_append deliveredRun).trans
    ((run_cons_ok collecting).trans (run_cons_ok stale))), ?_, staleData⟩
  refine along_append drainedAdmissible drainedRun (along_append deliveredAdmissible deliveredRun
    (along_cons (admissible_of_performed (fun msgId same => ?_) trivial collecting
      smallCollected) collecting
      (along_cons (admissible_of_performed (fun msgId same => ?_) trivial stale smallStale) stale
        trivial)))
  · cases same
    exact (Dictionary.mem_insertNew _ _ _ _).mpr (Or.inl rfl)
  · cases same
    exact Dictionary.lookup_eq_some_mem (lookup_delivered count)

/-- A message that is struck out after a collection has moved its record comes
back at the restart. -/
theorem collection_brings_a_message_back :
    ¬ ∀ calls final,
      (calls.flatMap Call.insertedIds).Nodup →
      Along perform Admissible (emptySite exampleMapper exampleDisk) calls →
      run perform (emptySite exampleMapper exampleDisk) calls = .ok final →
      ∃ recovered after, restart (ascii "q") (ascii "data") final.disk = .ok (recovered, after) ∧
        recovered.msgs.map (fun pointer => letter pointer.message.payload) = ledger calls := by
  intro always
  obtain ⟨count, few, many⟩ : ∃ count, count ≤ 2000 ∧ 2000 < count + 2 :=
    ⟨2000, by decide, by decide⟩
  rcases collectedCalls_run few many with ⟨final, tail, completes, admissible, data⟩
  rcases always _ final (collectedCalls_distinct few) admissible completes with
    ⟨recovered, after, restarted, found⟩
  have live : (liveRecord count).payload.Live := (by decide : validMark ≠ invalidMark)
  rw [ledger_collectedCalls, List.map_eq_nil_iff] at found
  exact restart_ne_nil live data restarted found

end Collected

end QueueMessage

end ProtobufMq
