import ProtobufMq.Foundation.Dictionary
import ProtobufMq.Foundation.Run
import ProtobufMq.Server.MessageMapper

namespace ProtobufMq

open Foundation

/-!
# `QueueMessage`: the messages of one queue

A queue holds its messages in three containers at once.  `_msgs` lists the
messages that wait to be pushed, `_waitack_msgs` maps ids to the messages that
were pushed and wait to be acknowledged, and `_durable_msgs` maps ids to the
messages that are also in the data file.  All three hold shared pointers to
the same objects; a pointer is modelled by the object it points to together
with an address that no other object of the queue has.  An object is changed
only before it is shared, when it is inserted, and when it leaves all
containers, so copies of it never differ.

`std::unordered_map::insert` ignores a present key, and nothing here checks
that the ids chosen by publishers are distinct.
-/

/-- `std::shared_ptr<Message>`: the address of an object, and the object. -/
structure MessagePtr where
  addr : Nat
  message : Message
  deriving DecidableEq, Repr

namespace MessagePtr

/-- `payload().properties().id()`. -/
def id (pointer : MessagePtr) : Bytes :=
  pointer.message.payload.properties.id

/-- `payload().properties().deliver_mode()`. -/
def deliverMode (pointer : MessagePtr) : DeliveryMode :=
  pointer.message.payload.properties.deliverMode

end MessagePtr

/-- The members of `QueueMessage`.  `allocated` counts the objects made so far,
and so gives the next one its address. -/
structure QueueMessage where
  mapper : MessageMapper
  totalCount : Nat := 0
  msgs : List MessagePtr := []
  durableMsgs : Dictionary Bytes MessagePtr := ∅
  waitackMsgs : Dictionary Bytes MessagePtr := ∅
  allocated : Nat := 0

namespace QueueMessage

/-- The constructor. -/
def new (qname basedir : Bytes) : FileM QueueMessage := do
  let mapper ← MessageMapper.new qname basedir
  return { mapper := mapper }

/-- Give the messages of a list consecutive addresses. -/
def share (first : Nat) (messages : List Message) : List MessagePtr :=
  messages.zipIdx.map fun entry => ⟨first + entry.2, entry.1⟩

/-- The queue that holds the given messages after `recovery`. -/
def holding (queue : QueueMessage) (messages : List Message) : QueueMessage :=
  let msgs := share queue.allocated messages
  let durableMsgs := msgs.foldl
    (fun stored pointer => Dictionary.insertNew pointer.id pointer stored) queue.durableMsgs
  { queue with
    msgs := msgs
    durableMsgs := durableMsgs
    totalCount := Dictionary.size durableMsgs
    allocated := queue.allocated + messages.length }

/-- `QueueMessage::recovery`. -/
def recovery [Protobuf] (queue : QueueMessage) : FileM QueueMessage := do
  return queue.holding (← queue.mapper.gc)

/-- The properties of an inserted message.  Without properties the message gets
a generated id; in a queue that is not durable no message is. -/
def composed (properties : Option BasecProperties) (uuid : Bytes) (queueIsDurable : Bool) :
    BasecProperties :=
  match properties with
  | some given =>
      { id := given.id
        deliverMode := if queueIsDurable then given.deliverMode else .undurable
        rotingKey := given.rotingKey }
  | none =>
      { id := uuid
        deliverMode := if queueIsDurable then .durable else .undurable
        rotingKey := [] }

/-- The payload of a durable message that is inserted. -/
def stamped (properties : BasecProperties) (body : Bytes) : Payload :=
  { basecProperties := some properties, body := body, valid := validMark }

/-- `QueueMessage::insert`; `uuid` is what `UUIDHelper::uuid` would return. -/
def insert (queue : QueueMessage) (properties : Option BasecProperties) (uuid body : Bytes)
    (queueIsDurable : Bool) : FileM (Bool × QueueMessage) := do
  let basecProperties := composed properties uuid queueIsDurable
  if basecProperties.deliverMode = .durable then
    let payload : Payload :=
      { basecProperties := some basecProperties, body := body, valid := validMark }
    let inserted ← queue.mapper.insert { payload := payload }
    if inserted.1 then
      let pointer : MessagePtr := ⟨queue.allocated, inserted.2⟩
      return (true, { queue with
        totalCount := queue.totalCount + 1
        durableMsgs := Dictionary.insertNew basecProperties.id pointer queue.durableMsgs
        msgs := queue.msgs ++ [pointer]
        allocated := queue.allocated + 1 })
    else
      return (false, queue)
  else
    let payload : Payload := { basecProperties := some basecProperties, body := body }
    let pointer : MessagePtr := ⟨queue.allocated, { payload := payload }⟩
    return (true, { queue with
      msgs := queue.msgs ++ [pointer]
      allocated := queue.allocated + 1 })

/-- `QueueMessage::front`. -/
def front (queue : QueueMessage) : Option MessagePtr × QueueMessage :=
  match queue.msgs with
  | [] => (none, queue)
  | pointer :: rest =>
      (some pointer, { queue with
        msgs := rest
        waitackMsgs := Dictionary.insertNew pointer.id pointer queue.waitackMsgs })

/-- The test for a collection: more than 2000 stored messages, of which fewer
than half count, by integer division. -/
def CollectionDue (totalCount durableCount : Nat) : Prop :=
  2000 < totalCount ∧ durableCount * 10 / totalCount < 5

instance (totalCount durableCount : Nat) : Decidable (CollectionDue totalCount durableCount) :=
  inferInstanceAs (Decidable (_ ∧ _))

/-- The part of `QueueMessage::remove` for a durable message. -/
def removeDurable [Protobuf] (queue : QueueMessage) (msgId : Bytes) (pointer : MessagePtr) :
    FileM QueueMessage := do
  -- the result is not looked at
  let _ ← queue.mapper.remove pointer.message
  let durableMsgs := queue.durableMsgs.erase msgId
  if CollectionDue queue.totalCount (Dictionary.size durableMsgs) then
    -- the messages that come back, with their new places, are dropped
    let _ ← queue.mapper.gc
    return { queue with durableMsgs := durableMsgs, totalCount := Dictionary.size durableMsgs }
  else
    return { queue with durableMsgs := durableMsgs }

/-- `QueueMessage::remove`.  When the id is not waiting, a line is logged and
the end iterator is used all the same. -/
def remove [Protobuf] (queue : QueueMessage) (msgId : Bytes) : FileM QueueMessage :=
  match queue.waitackMsgs.lookup msgId with
  | none => throw .waitackEnd
  | some pointer => do
      let queue ←
        if pointer.deliverMode = .durable then queue.removeDurable msgId pointer
        else pure queue
      return { queue with waitackMsgs := queue.waitackMsgs.erase msgId }

/-- `QueueMessage::clear`. -/
def clear (queue : QueueMessage) : FileM QueueMessage := do
  queue.mapper.removeMsgFile
  return { queue with msgs := [], durableMsgs := ∅, waitackMsgs := ∅ }

/-! ## Pointers -/

theorem share_messages (first : Nat) (messages : List Message) :
    (share first messages).map (·.message) = messages := by
  rw [share, List.map_map]
  exact List.zipIdx_map_fst 0 messages

/-! ## What a call can do to the containers, whatever the files do -/

/-- The queue with a message appended. -/
def appending (queue : QueueMessage) (pointer : MessagePtr) : QueueMessage :=
  { queue with msgs := queue.msgs ++ [pointer], allocated := queue.allocated + 1 }

/-- The queue with a message appended, counted and stored. -/
def storing (queue : QueueMessage) (pointer : MessagePtr) : QueueMessage :=
  { queue.appending pointer with
    totalCount := queue.totalCount + 1
    durableMsgs := Dictionary.insertNew pointer.id pointer queue.durableMsgs }

/-- The queue without a waiting message. -/
def releasing (queue : QueueMessage) (msgId : Bytes) : QueueMessage :=
  { queue with waitackMsgs := queue.waitackMsgs.erase msgId }

/-- The queue without a waiting message that was stored, with the new count. -/
def striking (queue : QueueMessage) (msgId : Bytes) (totalCount : Nat) : QueueMessage :=
  { queue.releasing msgId with
    totalCount := totalCount
    durableMsgs := queue.durableMsgs.erase msgId }

/-- An insert either refuses and leaves the queue alone, or appends one new
object, which is counted and stored too if it is durable. -/
theorem insert_ok {queue next : QueueMessage} {properties : Option BasecProperties}
    {uuid body : Bytes} {queueIsDurable accepted : Bool} {world after : World}
    (done : queue.insert properties uuid body queueIsDurable world = .ok (accepted, next) after) :
    (accepted = false ∧ next = queue) ∨
    (accepted = true ∧ ∃ pointer : MessagePtr, pointer.addr = queue.allocated ∧
      pointer.message.payload.properties = composed properties uuid queueIsDurable ∧
      pointer.message.payload.body = body ∧
      ((pointer.deliverMode = .durable ∧ next = queue.storing pointer) ∨
        (pointer.deliverMode ≠ .durable ∧ next = queue.appending pointer))) := by
  unfold insert at done
  by_cases durable : (composed properties uuid queueIsDurable).deliverMode = .durable
  · simp only [durable, if_true] at done
    rcases bind_eq_ok done with ⟨inserted, middle, stored, rest⟩
    have payload := MessageMapper.insertInto_payload stored
    cases written : inserted.1 with
    | false =>
        simp only [written, Bool.false_eq_true, if_false] at rest
        cases rest
        exact Or.inl ⟨rfl, rfl⟩
    | true =>
        simp only [written, if_true] at rest
        cases rest
        have own : inserted.2.payload.properties = composed properties uuid queueIsDurable := by
          rw [payload]
          rfl
        refine Or.inr ⟨rfl, ⟨queue.allocated, inserted.2⟩, rfl, own, ?_, Or.inl ⟨?_, ?_⟩⟩
        · rw [payload]
        · exact (congrArg BasecProperties.deliverMode own).trans durable
        · rw [storing, MessagePtr.id, own]
          rfl
  · simp only [durable, if_false] at done
    cases done
    let payload : Payload :=
      { basecProperties := some (composed properties uuid queueIsDurable), body := body }
    exact Or.inr ⟨rfl, ⟨queue.allocated, { payload := payload }⟩, rfl, rfl, rfl,
      Or.inr ⟨durable, rfl⟩⟩

/-- What an insert does to the pending list. -/
theorem insert_cases {queue next : QueueMessage} {properties : Option BasecProperties}
    {uuid body : Bytes} {queueIsDurable accepted : Bool} {world after : World}
    (done : queue.insert properties uuid body queueIsDurable world = .ok (accepted, next) after) :
    (accepted = false ∧ next = queue) ∨
    (accepted = true ∧ ∃ message totalCount durableMsgs,
      message.payload.properties = composed properties uuid queueIsDurable ∧
      message.payload.body = body ∧
      next = { queue with
        totalCount := totalCount
        durableMsgs := durableMsgs
        msgs := queue.msgs ++ [⟨queue.allocated, message⟩]
        allocated := queue.allocated + 1 }) := by
  rcases insert_ok done with refused |
    ⟨accepted, ⟨address, message⟩, young, properties, body, either⟩
  · exact Or.inl refused
  · cases young
    refine Or.inr ⟨accepted, message, ?_⟩
    rcases either with ⟨_, same⟩ | ⟨_, same⟩
    · exact ⟨_, _, properties, body, same⟩
    · exact ⟨queue.totalCount, queue.durableMsgs, properties, body, same⟩

/-- A stored payload is not written as nothing. -/
theorem serialize_stamped_ne_nil (properties : BasecProperties) (body : Bytes) :
    (stamped properties body).serialize ≠ [] := by
  intro nothing
  rw [Payload.serialize, Payload.fields, encodeFields, List.flatMap_append] at nothing
  have mark := (List.append_eq_nil_iff.mp nothing).2
  exact absurd mark (by decide : encodeFields (stringField 3 validMark) ≠ [])

/-- A durable message whose insertion returns was accepted, and found the data
file.  Its whole record is there if the two writes leave it. -/
theorem insert_durable_returns {queue next : QueueMessage} {properties : Option BasecProperties}
    {uuid body : Bytes} {queueIsDurable accepted : Bool} {world after : World}
    (durable : (composed properties uuid queueIsDurable).deliverMode = .durable)
    (done : queue.insert properties uuid body queueIsDurable world = .ok (accepted, next) after) :
    ∃ content pointer, world.disk queue.mapper.datafile = some content ∧ accepted = true ∧
      next.msgs = queue.msgs ++ [pointer] ∧
      pointer.message.payload = stamped (composed properties uuid queueIsDurable) body ∧
      after.script = world.script.drop 2 ∧
      (after.disk queue.mapper.datafile =
          some (content ++ frame sizeOfSize pointer.message.payload.serialize) ↔
        MessageMapper.LeavesWhole pointer.message.payload.serialize world.script) := by
  unfold insert at done
  simp only [durable, if_true] at done
  rcases bind_eq_ok done with ⟨inserted, middle, written, rest⟩
  rcases MessageMapper.insertInto_returns written with ⟨content, stored, same, script⟩
  subst same
  cases rest
  have whole := @MessageMapper.insertInto_whole_iff _ _
    { payload := stamped (composed properties uuid queueIsDurable) body } _ _ _ stored
    (serialize_stamped_ne_nil _ _) written
  exact ⟨content, ⟨queue.allocated, _⟩, stored, rfl, rfl, rfl, script, whole⟩

/-- Any other message is accepted without a look at the files. -/
theorem insert_transient {queue : QueueMessage} {properties : Option BasecProperties}
    {uuid body : Bytes} {queueIsDurable : Bool}
    (transient : (composed properties uuid queueIsDurable).deliverMode ≠ .durable)
    (world : World) :
    ∃ pointer next, queue.insert properties uuid body queueIsDurable world =
        .ok (true, next) world ∧
      next.msgs = queue.msgs ++ [pointer] ∧
      pointer.message.payload.properties = composed properties uuid queueIsDurable ∧
      pointer.message.payload.body = body := by
  let payload : Payload :=
    { basecProperties := some (composed properties uuid queueIsDurable), body := body }
  let pointer : MessagePtr := ⟨queue.allocated, { payload := payload }⟩
  let next : QueueMessage :=
    { queue with msgs := queue.msgs ++ [pointer], allocated := queue.allocated + 1 }
  refine ⟨pointer, next, ?_, rfl, rfl, rfl⟩
  unfold insert
  simp only [transient, if_false]
  rfl

/-- An insertion changes no file but the data file. -/
theorem insert_frame {queue next : QueueMessage} {properties : Option BasecProperties}
    {uuid body : Bytes} {queueIsDurable accepted : Bool} {world after : World}
    (done : queue.insert properties uuid body queueIsDurable world = .ok (accepted, next) after)
    {other : Bytes} (distinct : other ≠ queue.mapper.datafile) :
    after.disk other = world.disk other := by
  unfold insert at done
  by_cases durable : (composed properties uuid queueIsDurable).deliverMode = .durable
  · simp only [durable, if_true] at done
    rcases bind_eq_ok done with ⟨inserted, middle, stored, rest⟩
    have frame := MessageMapper.insertInto_frame stored distinct
    cases written : inserted.1 with
    | false =>
        simp only [written, Bool.false_eq_true, if_false] at rest
        cases rest
        exact frame
    | true =>
        simp only [written, if_true] at rest
        cases rest
        exact frame
  · simp only [durable, if_false] at done
    cases done
    rfl

/-- `front` finds nothing, or takes the first pending message. -/
theorem front_cases (queue : QueueMessage) :
    (queue.msgs = [] ∧ queue.front = (none, queue)) ∨
    (∃ pointer rest, queue.msgs = pointer :: rest ∧
      queue.front = (some pointer, { queue with
        msgs := rest
        waitackMsgs := Dictionary.insertNew pointer.id pointer queue.waitackMsgs })) := by
  unfold front
  cases pending : queue.msgs with
  | nil => exact Or.inl ⟨rfl, rfl⟩
  | cons pointer rest => exact Or.inr ⟨pointer, rest, rfl, rfl⟩

/-- A remove that returns took the waiting message of that id.  A durable one is
stored no longer, and the records are counted anew if there was a collection. -/
theorem remove_ok [Protobuf] {queue next : QueueMessage} {msgId : Bytes} {world after : World}
    (done : queue.remove msgId world = .ok next after) :
    ∃ pointer, queue.waitackMsgs.lookup msgId = some pointer ∧
      ((pointer.deliverMode ≠ .durable ∧ next = queue.releasing msgId) ∨
        (pointer.deliverMode = .durable ∧ next = queue.striking msgId
          (if CollectionDue queue.totalCount (Dictionary.size (queue.durableMsgs.erase msgId)) then
            Dictionary.size (queue.durableMsgs.erase msgId)
          else queue.totalCount))) := by
  unfold remove at done
  cases waiting : queue.waitackMsgs.lookup msgId with
  | none =>
      rw [waiting] at done
      cases done
  | some pointer =>
      rw [waiting] at done
      simp only at done
      by_cases durable : pointer.deliverMode = .durable
      · simp only [durable, if_true] at done
        rcases bind_eq_ok done with ⟨struck, middle, removed, rest⟩
        unfold removeDurable at removed
        rcases bind_eq_ok removed with ⟨_, middle, _, removed⟩
        by_cases due : CollectionDue queue.totalCount (Dictionary.size (queue.durableMsgs.erase msgId))
        · simp only [due, if_true] at removed
          rcases bind_eq_ok removed with ⟨_, middle, _, removed⟩
          cases removed
          cases rest
          exact ⟨pointer, rfl, Or.inr ⟨durable, by rw [if_pos due]; rfl⟩⟩
        · simp only [due, if_false] at removed
          cases removed
          cases rest
          exact ⟨pointer, rfl, Or.inr ⟨durable, by rw [if_neg due]; rfl⟩⟩
      · simp only [durable, if_false] at done
        cases done
        exact ⟨pointer, rfl, Or.inl ⟨durable, rfl⟩⟩

/-- What a remove does to the pending list and to the other waiting messages:
nothing. -/
theorem remove_cases [Protobuf] {queue next : QueueMessage} {msgId : Bytes} {world after : World}
    (done : queue.remove msgId world = .ok next after) :
    ∃ pointer totalCount durableMsgs, queue.waitackMsgs.lookup msgId = some pointer ∧
      next = { queue with
        totalCount := totalCount
        durableMsgs := durableMsgs
        waitackMsgs := queue.waitackMsgs.erase msgId } := by
  rcases remove_ok done with ⟨pointer, waiting, ⟨_, same⟩ | ⟨_, same⟩⟩
  · exact ⟨pointer, queue.totalCount, queue.durableMsgs, waiting, same⟩
  · exact ⟨pointer, _, _, waiting, same⟩

/-- A remove of an id that is not waiting uses the end iterator. -/
theorem remove_of_notMem [Protobuf] {queue : QueueMessage} {msgId : Bytes}
    (absent : msgId ∉ queue.waitackMsgs) (world : World) :
    queue.remove msgId world = .error .waitackEnd world := by
  rw [remove, AList.lookup_eq_none.mpr absent]
  rfl

/-! ## Calls when no file operation fails -/

/-- A call of one of the three operations that move messages. -/
inductive Call where
  | insert (properties : Option BasecProperties) (uuid body : Bytes) (queueIsDurable : Bool)
  | front
  | remove (msgId : Bytes)
  deriving DecidableEq, Repr

/-- A queue together with the disk its files are on. -/
structure Site where
  queue : QueueMessage
  disk : Disk

namespace Site

/-- The content of the data file. -/
def content (site : Site) : Bytes :=
  (site.disk site.queue.mapper.datafile).getD []

end Site

/-- Run code on files with nothing failing. -/
def calmly {α : Type} (code : FileM α) (disk : Disk) : Except Fault (α × Disk) :=
  performed code disk []

theorem calmly_ok {α : Type} {code : FileM α} {disk : Disk} {value : α} {world : World}
    (done : code ⟨disk, []⟩ = .ok value world) : calmly code disk = .ok (value, world.disk) :=
  performed_ok done

theorem calmly_eq_ok {α : Type} {code : FileM α} {disk : Disk} {done : α × Disk}
    (completed : calmly code disk = .ok done) :
    ∃ world, code ⟨disk, []⟩ = .ok done.1 world ∧ world.disk = done.2 :=
  performed_eq_ok completed

/-- Perform one call. -/
def perform [Protobuf] (site : Site) : Call → Except Fault Site
  | .insert properties uuid body queueIsDurable =>
      (calmly (site.queue.insert properties uuid body queueIsDurable) site.disk).map
        fun done => ⟨done.1.2, done.2⟩
  | .front => .ok ⟨site.queue.front.2, site.disk⟩
  | .remove msgId =>
      (calmly (site.queue.remove msgId) site.disk).map fun done => ⟨done.1, done.2⟩

/-- What a restart finds: a fresh `QueueMessage` over the same files, after
`recovery`. -/
def restart [Protobuf] (qname basedir : Bytes) (disk : Disk) : Except Fault (QueueMessage × Disk) :=
  calmly (new qname basedir >>= recovery) disk

/-! ## Restarting -/

section Restarting

variable {disk : Disk}

/-- The constructor changes nothing when the data file is there. -/
theorem new_present (qname basedir : Bytes) {content : Bytes} (script : List Outcome)
    (stored : disk (MessageMapper.ofNames qname basedir).datafile = some content) :
    new qname basedir ⟨disk, script⟩ =
      .ok { mapper := MessageMapper.ofNames qname basedir } ⟨disk, script⟩ := by
  have unchanged : Function.update disk (MessageMapper.ofNames qname basedir).datafile
      (some ((disk (MessageMapper.ofNames qname basedir).datafile).getD [])) = disk := by
    rw [stored, Option.getD_some, ← stored, Function.update_eq_self]
  have nothing : creating disk (MessageMapper.ofNames qname basedir).datafile = 0 := by
    rw [creating, stored, Option.isSome_some, if_pos rfl]
  have calm : Undisturbed (creating disk (MessageMapper.ofNames qname basedir).datafile) script := by
    rw [nothing]
    exact fun outcome member => by cases member
  have file := createFile_done (MessageMapper.ofNames qname basedir).datafile calm
  rw [unchanged, nothing, List.drop_zero] at file
  exact bind_ok (bind_ok file)

/-- The constructor creates a data file that is not there. -/
theorem new_absent (qname basedir : Bytes)
    (absent : disk (MessageMapper.ofNames qname basedir).datafile = none) :
    new qname basedir ⟨disk, []⟩ =
      .ok { mapper := MessageMapper.ofNames qname basedir }
        ⟨Function.update disk (MessageMapper.ofNames qname basedir).datafile (some []), []⟩ := by
  have file := @createFile_done disk [] (MessageMapper.ofNames qname basedir).datafile
    (undisturbed_nil _)
  rw [absent, Option.getD_none, List.drop_nil] at file
  exact bind_ok (bind_ok file)

/-- The pending messages after `recovery` are those that `gc` returned. -/
theorem holding_payloads (queue : QueueMessage) (messages : List Message) :
    (queue.holding messages).msgs.map (·.message.payload) = messages.map (·.payload) := by
  have shared := congrArg (List.map Message.payload) (share_messages queue.allocated messages)
  rwa [List.map_map] at shared

/-- A restart over a file of records finds the live ones, in order. -/
theorem restart_records [Protobuf] (qname basedir : Bytes) {records : List Record}
    (stored : disk (MessageMapper.ofNames qname basedir).datafile = some (Record.file records)) :
    ∃ recovered,
      restart qname basedir disk = .ok (recovered,
        (MessageMapper.ofNames qname basedir).collectedDisk disk records) ∧
      recovered.msgs.map (·.message.payload) = Record.livePayloads records := by
  have created := new_present qname basedir [] stored
  have collected := MessageMapper.gc_calm (MessageMapper.ofNames_distinct qname basedir) stored
  have recovered : ({ mapper := MessageMapper.ofNames qname basedir } : QueueMessage).recovery
      ⟨disk, []⟩ = .ok (({ mapper := MessageMapper.ofNames qname basedir } : QueueMessage).holding
        (MessageMapper.collected _ records)) ⟨_, []⟩ := bind_ok collected
  refine ⟨_, calmly_ok ((bind_ok created).trans recovered), ?_⟩
  rw [holding_payloads, MessageMapper.collected_payloads]

/-- The queue that a restart makes works on the files of its name. -/
theorem restart_mapper [Protobuf] {qname basedir : Bytes} {recovered : QueueMessage} {after : Disk}
    (restarted : restart qname basedir disk = .ok (recovered, after)) :
    recovered.mapper = MessageMapper.ofNames qname basedir := by
  rcases calmly_eq_ok restarted with ⟨world, done, _⟩
  rcases bind_eq_ok done with ⟨made, middle, constructed, recovering⟩
  rcases bind_eq_ok constructed with ⟨mapper, opened, named, same⟩
  rcases bind_eq_ok named with ⟨created, _, _, returned⟩
  cases returned
  cases same
  rcases bind_eq_ok recovering with ⟨messages, last, _, held⟩
  cases held
  rfl

/-- A restart without a data file is one with an empty data file. -/
theorem restart_absent [Protobuf] (qname basedir : Bytes)
    (absent : disk (MessageMapper.ofNames qname basedir).datafile = none) :
    restart qname basedir disk = restart qname basedir
      (Function.update disk (MessageMapper.ofNames qname basedir).datafile (some [])) := by
  have created := new_absent qname basedir absent
  have stored : Function.update disk (MessageMapper.ofNames qname basedir).datafile (some [])
      (MessageMapper.ofNames qname basedir).datafile = some [] := Function.update_self ..
  have present := new_present qname basedir [] stored
  rw [restart, restart, calmly, calmly, performed, performed, bind_ok created, bind_ok present]

end Restarting

end QueueMessage

end ProtobufMq
