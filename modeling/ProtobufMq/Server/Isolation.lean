import ProtobufMq.Common.Confined
import ProtobufMq.Common.Path
import ProtobufMq.Server.Following

namespace ProtobufMq

open Foundation

/-!
# What the queues have on the disk together

The name of a queue goes into the paths of its two files as it is.  Names are
told apart as strings and files by where their paths lead, so two queues may
share a file.

The disk gives contents to places here, and the constructor of the mapper
resolves its two paths.  Every file operation of a queue is one on a path that
its mapper has, so the functions that are given a store are those of the other
modules; only the ones that make a store have a definition of their own.

A queue works on its own two files alone.  So what is done to one queue leaves
the other as it is as long as the four files are different; and if they are
not, declaring and deleting the one is enough to change the other.
-/

namespace MessageMapper

/-- The mapper with the places that its paths lead to. -/
def resolved (mapper : MessageMapper) : MessageMapper :=
  ⟨resolve mapper.datafile, resolve mapper.tmpfile⟩

/-- Where the files of a queue are. -/
def located (qname basedir : Bytes) : MessageMapper :=
  (ofNames qname basedir).resolved

/-- The two files. -/
def files (mapper : MessageMapper) : List Bytes :=
  [mapper.datafile, mapper.tmpfile]

/-- Both paths begin with a directory, which a slash ends. -/
theorem exists_directory (basedir : Bytes) :
    ∃ directory, directory.getLast? = some Path.slash ∧ (0 ∉ basedir → 0 ∉ directory) ∧
      ∀ qname, ofNames qname basedir =
      ⟨directory ++ qname ++ ascii ".mqd", directory ++ qname ++ ascii ".mqd" ++ ascii ".tmp"⟩ := by
  have suffix : ascii ".mqd.tmp" = ascii ".mqd" ++ ascii ".tmp" := by decide
  unfold ofNames
  by_cases closed : basedir.getLast? = some (UInt8.ofNat '/'.toNat)
  · refine ⟨basedir, closed, id, fun qname => ?_⟩
    rw [if_pos closed, suffix, List.append_assoc _ (ascii ".mqd")]
  · refine ⟨basedir ++ ascii "/", List.getLast?_concat,
      fun clean => List.not_mem_append clean (by decide), fun qname => ?_⟩
    rw [if_neg closed, suffix, List.append_assoc _ (ascii ".mqd")]

theorem datafile_mem (mapper : MessageMapper) : mapper.datafile ∈ mapper.files :=
  List.mem_cons_self

theorem tmpfile_mem (mapper : MessageMapper) : mapper.tmpfile ∈ mapper.files :=
  List.mem_cons_of_mem _ List.mem_cons_self

end MessageMapper

namespace QueueMessage

/-- The constructor, with the paths resolved. -/
def locate (qname basedir : Bytes) : FileM QueueMessage := do
  let mapper := MessageMapper.located qname basedir
  let _ ← mapper.createMsgFile
  return { mapper := mapper }

/-- What recovery would return for a queue. -/
def recoverable [Protobuf] (qname basedir : Bytes) (disk : Disk) : Except Fault QueueMessage :=
  (calmly (locate qname basedir >>= recovery) disk).map Prod.fst

end QueueMessage

namespace MessageManager

/-- The part of `initQueueMessage` under the lock, with the paths resolved. -/
def locate (manager : MessageManager) (qname : Bytes) : FileM (Option Nat × MessageManager) :=
  match manager.queueMsgs.find qname with
  | some _ => return (none, manager)
  | none => do
      let store ← QueueMessage.locate qname manager.basedir
      return (some manager.queueMsgs.next,
        { manager with queueMsgs := manager.queueMsgs.register qname store })

/-- `MessageManager::initQueueMessage`, with the paths resolved. -/
def initLocated [Protobuf] (manager : MessageManager) (qname : Bytes) : FileM MessageManager := do
  let admitted ← manager.locate qname
  match admitted.1 with
  | none => return admitted.2
  | some reference => admitted.2.recover reference

end MessageManager

/-- The operations on the messages of a queue. -/
inductive Operation where
  /-- One turn of the loop of the constructor of `VirtualHost`. -/
  | initQueueMessage (qname : Bytes)
  | declareQueue (sql : SqlOutcome) (queue : MsgQueue)
  | basicPublish (qname : Bytes) (properties : Option BasecProperties) (uuid body : Bytes)
  | basicConsume (qname : Bytes)
  /-- The acknowledgement may be followed by a collection. -/
  | basicAck (qname msgId : Bytes)
  | deleteQueue (sql : SqlOutcome) (name : Bytes)

/-- The name of the queue that an operation is on. -/
def Operation.qname : Operation → Bytes
  | .initQueueMessage qname => qname
  | .declareQueue _ queue => queue.name
  | .basicPublish qname _ _ _ => qname
  | .basicConsume qname => qname
  | .basicAck qname _ => qname
  | .deleteQueue _ name => name

namespace VirtualHost

/-- `VirtualHost::declareQueue`, with the paths resolved. -/
def declareLocated [Protobuf] (host : VirtualHost) (sql : SqlOutcome) (queue : MsgQueue) :
    FileM (Bool × VirtualHost) := do
  let mmptr ← host.mmptr.initLocated queue.name
  let declared := host.qmptr.declareQueue sql.queueTable queue
  return (declared.1, { host with qmptr := declared.2, mmptr := mmptr })

/-- Perform an operation. -/
def operate [Protobuf] (host : VirtualHost) : Operation → FileM VirtualHost
  | .initQueueMessage qname => do
      let mmptr ← host.mmptr.initLocated qname
      return { host with mmptr := mmptr }
  | .declareQueue sql queue => do
      let declared ← host.declareLocated sql queue
      return declared.2
  | .basicPublish qname properties uuid body => do
      let published ← host.basicPublish qname properties uuid body
      return published.2
  | .basicConsume qname => return (host.basicConsume qname).2
  | .basicAck qname msgId => host.basicAck qname msgId
  | .deleteQueue sql name => do
      let deleted ← host.deleteQueue sql name
      return deleted.2

end VirtualHost

/-- A host and the disk that it works on. -/
structure Storage where
  host : VirtualHost
  disk : Disk

namespace Storage

/-- An operation, and what its file operations meet. -/
structure Event where
  operation : Operation
  script : List Outcome := []

/-- Perform one operation. -/
def perform [Protobuf] (storage : Storage) (event : Event) : Except Fault Storage :=
  (performed (storage.host.operate event.operation) storage.disk event.script).map fun done =>
    ⟨done.1, done.2⟩

/-- The disk after an operation, completed or not. -/
def leaves [Protobuf] (storage : Storage) (event : Event) : Disk :=
  leftDisk (storage.host.operate event.operation ⟨storage.disk, event.script⟩)

/-- A host that has opened its database and not begun to initialise the queues. -/
def start (database : Database) (basedir : Bytes) (disk : Disk) : Storage where
  host := ⟨ExchangeManager.new database.exchangeMapper, MsgQueueManager.new database.queueMapper,
    BindingManager.new database.bindingMapper, { basedir := basedir }⟩
  disk := disk

/-- An operation on the one queue leaves what recovery would return for the other. -/
def Spares [Protobuf] (basedir qname other : Bytes) (storage : Storage) (event : Event) : Prop :=
  event.operation.qname = qname → QueueMessage.recoverable other basedir (storage.leaves event) =
    QueueMessage.recoverable other basedir storage.disk

/-- An operation on either of two queues leaves what recovery would return for
the other. -/
def Isolates [Protobuf] (basedir first second : Bytes) (storage : Storage) (event : Event) : Prop :=
  storage.Spares basedir first second event ∧ storage.Spares basedir second first event

/-- No file of the one queue is a file of the other. -/
def Apart (basedir first second : Bytes) : Prop :=
  ∀ file ∈ (MessageMapper.located first basedir).files,
    file ∉ (MessageMapper.located second basedir).files

end Storage

/-! ## A queue works on its own files -/

namespace MessageMapper

section Confinement

variable {files : List Bytes} {file : Bytes}

theorem confined_insertInto (member : file ∈ files) (message : Message) :
    Confined files (insertInto file message) := by
  refine confined_bind (confined_size member) fun offset => ?_
  refine confined_bind (confined_write member _ _) fun headed => confined_ite ?_ (confined_pure _)
  exact confined_bind (confined_write member _ _) fun written =>
    confined_ite (confined_pure _) (confined_pure _)

theorem confined_insertAll (member : file ∈ files) (messages : List Message) :
    Confined files (insertAll file messages) := by
  induction messages with
  | nil => exact confined_pure _
  | cons message rest inductionHypothesis =>
      exact confined_bind (confined_insertInto member message) fun inserted => confined_ite
        (confined_bind inductionHypothesis fun later => confined_pure _) (confined_pure _)

variable [Protobuf]

theorem confined_loadLoop (member : file ∈ files) (fuel offset : Nat) (result : List Message) :
    Confined files (loadLoop file fuel offset result) := by
  induction fuel generalizing offset result with
  | zero => exact confined_pure _
  | succ fuel inductionHypothesis =>
      refine confined_bind (confined_size member) fun size => confined_ite ?_ (confined_pure _)
      refine confined_bind (confined_read member _ _) fun header => ?_
      cases header with
      | none => exact confined_pure _
      | some header =>
          refine confined_ite (confined_throw _) ?_
          refine confined_bind (confined_read member _ _) fun body => ?_
          cases body with
          | none => exact confined_pure _
          | some body =>
              exact confined_ite (inductionHypothesis _ _) (inductionHypothesis _ _)

theorem confined_gc (mapper : MessageMapper) : Confined mapper.files mapper.gc := by
  have data := mapper.datafile_mem
  have tmp := mapper.tmpfile_mem
  have loads : Confined mapper.files mapper.load :=
    confined_bind (confined_size data) fun size => confined_loadLoop data _ _ _
  refine confined_bind loads fun loaded => confined_ite ?_ (confined_pure _)
  refine confined_bind (confined_createFile tmp) fun created => ?_
  refine confined_bind (confined_insertAll tmp _) fun copied => confined_ite ?_ (confined_pure _)
  refine confined_bind (confined_removeFile data) fun removed => confined_ite ?_ (confined_pure _)
  exact confined_bind (confined_rename tmp data) fun renamed => confined_pure _

end Confinement

end MessageMapper

namespace QueueMessage

section Confinement

variable (queue : QueueMessage)

theorem confined_insert (properties : Option BasecProperties) (uuid body : Bytes)
    (queueIsDurable : Bool) :
    Confined queue.mapper.files (queue.insert properties uuid body queueIsDurable) := by
  unfold insert
  refine confined_ite ?_ (confined_pure _)
  exact confined_bind (MessageMapper.confined_insertInto queue.mapper.datafile_mem _)
    fun inserted => confined_ite (confined_pure _) (confined_pure _)

theorem confined_clear : Confined queue.mapper.files queue.clear :=
  confined_bind (confined_bind (confined_removeFile queue.mapper.datafile_mem) fun _ =>
    confined_bind (confined_removeFile queue.mapper.tmpfile_mem) fun _ => confined_pure _)
    fun _ => confined_pure _

/-- Making a store works on the files that it will have. -/
theorem confined_locate (qname basedir : Bytes) :
    Confined (MessageMapper.located qname basedir).files (locate qname basedir) :=
  confined_bind (confined_createFile (MessageMapper.datafile_mem _)) fun _ => confined_pure _

variable [Protobuf]

theorem confined_recovery : Confined queue.mapper.files queue.recovery :=
  confined_bind queue.mapper.confined_gc fun _ => confined_pure _

theorem confined_removeDurable (msgId : Bytes) (pointer : MessagePtr) :
    Confined queue.mapper.files (queue.removeDurable msgId pointer) := by
  have strikes : Confined queue.mapper.files (queue.mapper.remove pointer.message) :=
    confined_ite (confined_pure _) (confined_write queue.mapper.datafile_mem _ _)
  exact confined_bind strikes fun struck => confined_ite
    (confined_bind queue.mapper.confined_gc fun _ => confined_pure _) (confined_pure _)

theorem confined_remove (msgId : Bytes) : Confined queue.mapper.files (queue.remove msgId) := by
  unfold remove
  cases queue.waitackMsgs.lookup msgId with
  | none => exact confined_throw _
  | some pointer =>
      simp only
      by_cases durable : pointer.deliverMode = .durable
      · simp only [durable, if_true]
        exact confined_bind (queue.confined_removeDurable msgId pointer) fun _ => confined_pure _
      · simp only [durable, if_false]
        exact confined_pure _

end Confinement

/-- A store that was made has the files of its queue. -/
theorem locate_ok {qname basedir : Bytes} {store : QueueMessage} {world after : World}
    (made : locate qname basedir world = .ok store after) :
    store = { mapper := MessageMapper.located qname basedir } := by
  rcases bind_eq_ok made with ⟨created, middle, _, rest⟩
  cases rest
  rfl

/-- What recovery would return depends on the files of the queue alone. -/
theorem recoverable_congr [Protobuf] {qname basedir : Bytes} {disk other : Disk}
    (agree : ∀ file ∈ (MessageMapper.located qname basedir).files, disk file = other file) :
    recoverable qname basedir other = recoverable qname basedir disk := by
  refine Confined.value (confined_bind_result (confined_locate qname basedir) ?_) agree []
  intro store world after made
  cases locate_ok made
  exact confined_recovery _

end QueueMessage

namespace MessageManager

/-- Every store has the files of the queue that it belongs to. -/
def Located (manager : MessageManager) : Prop :=
  Placed (MessageMapper.located · manager.basedir) manager.queueMsgs

section Confinement

variable {manager : MessageManager} {reference : Nat}

theorem confined_onStore {α : Type} {files : List Bytes} {absent : α}
    {code : QueueMessage → FileM (α × QueueMessage)}
    (confined : ∀ store, manager.queueMsgs.object reference = some store →
      Confined files (code store)) :
    Confined files (manager.onStore reference absent code) := by
  unfold onStore
  cases there : manager.queueMsgs.object reference with
  | none => exact confined_pure _
  | some store => exact confined_bind (confined store there) fun _ => confined_pure _

/-- Code on the store of a queue that works on the files of the store works on
those of the queue. -/
theorem Located.confined {α : Type} (located : manager.Located) {qname : Bytes}
    (found : manager.queueMsgs.find qname = some reference) {absent : α}
    {code : QueueMessage → FileM (α × QueueMessage)}
    (confined : ∀ store : QueueMessage, Confined store.mapper.files (code store)) :
    Confined (MessageMapper.located qname manager.basedir).files
      (manager.onStore reference absent code) :=
  confined_onStore fun store there => by
    have mapper : store.mapper = MessageMapper.located qname manager.basedir :=
      located qname reference store found there
    rw [← mapper]
    exact confined store

theorem confined_insert (located : manager.Located) (qname : Bytes)
    (properties : Option BasecProperties) (uuid body : Bytes) (queueIsDurable : Bool) :
    Confined (MessageMapper.located qname manager.basedir).files
      (manager.insert qname properties uuid body queueIsDurable) := by
  unfold insert
  cases found : manager.queueMsgs.find qname with
  | none => exact confined_pure _
  | some reference =>
      exact located.confined found fun store => store.confined_insert properties uuid body _

theorem confined_destroyQueueMessage (located : manager.Located) (qname : Bytes) :
    Confined (MessageMapper.located qname manager.basedir).files
      (manager.destroyQueueMessage qname) := by
  unfold destroyQueueMessage withdraw
  cases found : manager.queueMsgs.find qname with
  | none => exact confined_pure _
  | some reference =>
      -- the store is without its name, but still there
      refine confined_bind (confined_onStore fun store there => ?_) fun _ => confined_pure _
      have mapper : store.mapper = MessageMapper.located qname manager.basedir :=
        located qname reference store found there
      rw [← mapper]
      exact confined_bind store.confined_clear fun _ => confined_pure _

theorem confined_locate (manager : MessageManager) (qname : Bytes) :
    Confined (MessageMapper.located qname manager.basedir).files (manager.locate qname) := by
  unfold locate
  cases manager.queueMsgs.find qname with
  | some reference => exact confined_pure _
  | none => exact confined_bind (QueueMessage.confined_locate qname _) fun _ => confined_pure _

variable [Protobuf]

theorem confined_ack (located : manager.Located) (qname msgId : Bytes) :
    Confined (MessageMapper.located qname manager.basedir).files (manager.ack qname msgId) := by
  unfold ack
  cases found : manager.queueMsgs.find qname with
  | none => exact confined_pure _
  | some reference =>
      exact confined_bind (located.confined found fun store =>
        confined_bind (store.confined_remove msgId) fun _ => confined_pure _) fun _ => confined_pure _

end Confinement

section Managing

variable {manager next : MessageManager} {qname : Bytes} {world after : World}

/-- Where the paths lead to themselves, `initLocated` is `initQueueMessage`. -/
theorem initLocated_eq [Protobuf]
    (plain : MessageMapper.located qname manager.basedir =
      MessageMapper.ofNames qname manager.basedir) :
    manager.initLocated qname = manager.initQueueMessage qname := by
  have made : QueueMessage.locate qname manager.basedir =
      QueueMessage.new qname manager.basedir := by
    rw [QueueMessage.locate, QueueMessage.new, MessageMapper.new, plain, bind_assoc]
    rfl
  have admits : manager.locate qname = manager.introduce qname := by
    unfold locate introduce
    cases manager.queueMsgs.find qname with
    | some reference => rfl
    | none => exact congrArg (· >>= _) made
  rw [initLocated, admits]
  rfl

/-- A queue gets a store with its files, unless it has one. -/
theorem locate_cases {admitted : Option Nat × MessageManager}
    (completed : manager.locate qname world = .ok admitted after) :
    admitted = (none, manager) ∨
    admitted = (some manager.queueMsgs.next, { manager with
      queueMsgs := manager.queueMsgs.register qname
        { mapper := MessageMapper.located qname manager.basedir } }) := by
  unfold locate at completed
  cases found : manager.queueMsgs.find qname with
  | some reference =>
      rw [found] at completed
      cases completed
      exact Or.inl rfl
  | none =>
      rw [found] at completed
      rcases bind_eq_ok completed with ⟨store, middle, made, rest⟩
      cases rest
      cases QueueMessage.locate_ok made
      exact Or.inr rfl

theorem confined_initLocated [Protobuf] (manager : MessageManager) (qname : Bytes) :
    Confined (MessageMapper.located qname manager.basedir).files (manager.initLocated qname) := by
  refine confined_bind_result (manager.confined_locate qname) fun admitted world after entered => ?_
  rcases locate_cases entered with same | same
  · rw [same]
    exact confined_pure _
  · rw [same]
    refine confined_bind (confined_onStore fun store there => ?_) fun _ => confined_pure _
    rw [Registry.object_register, if_pos rfl] at there
    cases there
    exact confined_bind (QueueMessage.confined_recovery _) fun _ => confined_pure _

/-- Stores keep their files as long as no name is given to another one. -/
theorem Follows.placed {place : Bytes → MessageMapper} (followed : manager.Follows next)
    (names : ∀ other reference, next.queueMsgs.find other = some reference →
      manager.queueMsgs.find other = some reference)
    (placed : Placed place manager.queueMsgs) : Placed place next.queueMsgs := by
  intro other reference store found there
  have before := names other reference found
  rcases Registry.object_of_find before with ⟨old, oldThere⟩
  rcases followed.stores.kept reference old oldThere with ⟨kept, keptThere, follows⟩
  cases keptThere.symm.trans there
  exact follows.mapper.trans (placed other reference old before oldThere)

/-- Only the change of the names matters to where the stores are. -/
theorem Follows.located (followed : manager.Follows next)
    (names : ∀ other reference, next.queueMsgs.find other = some reference →
      manager.queueMsgs.find other = some reference)
    (located : manager.Located) : next.Located := by
  unfold Located
  rw [followed.basedir]
  exact followed.placed names located

/-- Code that leaves the names as they are leaves the stores where they are. -/
theorem Follows.located_of_names (followed : manager.Follows next)
    (names : next.queueMsgs.names = manager.queueMsgs.names) (located : manager.Located) :
    next.Located ∧ next.basedir = manager.basedir :=
  ⟨followed.located (fun other _ found =>
    (congrArg (AList.lookup other) names).symm.trans found) located, followed.basedir⟩

theorem located_initLocated [Protobuf] (located : manager.Located)
    (completed : manager.initLocated qname world = .ok next after) :
    next.Located ∧ next.basedir = manager.basedir := by
  rcases bind_eq_ok completed with ⟨admitted, middle, entered, rest⟩
  rcases locate_cases entered with same | same
  · rw [same] at rest
    cases rest
    exact ⟨located, rfl⟩
  · rw [same] at rest
    apply (follows_recover rest).located_of_names (recover_names rest)
    exact @placed_register (MessageMapper.located · manager.basedir) _ _ _ rfl located

theorem located_destroyQueueMessage (located : manager.Located)
    (completed : manager.destroyQueueMessage qname world = .ok next after) : next.Located := by
  refine (follows_destroyQueueMessage completed).located (fun other reference found => ?_) located
  unfold destroyQueueMessage withdraw at completed
  cases named : manager.queueMsgs.find qname with
  | none =>
      rw [named] at completed
      cases completed
      exact found
  | some withdrawn =>
      rw [named] at completed
      have erased := (congrArg (AList.lookup other) (clearStore_names completed)).symm.trans found
      have lookup := (Registry.find_unregister manager.queueMsgs qname other).symm.trans erased
      by_cases same : other = qname
      · rw [if_pos same] at lookup
        cases lookup
      · rw [if_neg same] at lookup
        exact lookup

theorem front_basedir (manager : MessageManager) (qname : Bytes) :
    (manager.front qname).2.basedir = manager.basedir := by
  unfold front
  cases manager.queueMsgs.find qname with
  | none => rfl
  | some reference =>
      simp only
      unfold frontOf
      cases manager.queueMsgs.object reference <;> rfl

theorem located_front (located : manager.Located) (qname : Bytes) :
    (manager.front qname).2.Located := by
  unfold front
  cases manager.queueMsgs.find qname with
  | none => exact located
  | some reference =>
      simp only
      unfold frontOf
      cases there : manager.queueMsgs.object reference with
      | none => exact located
      | some store =>
          have mapper : store.front.2.mapper = store.mapper := by
            rcases store.front_cases with ⟨_, result⟩ | ⟨pointer, rest, _, result⟩
            all_goals rw [result]
          exact placed_update there mapper located

end Managing

end MessageManager

namespace VirtualHost

section Operating

variable [Protobuf] {host next : VirtualHost} {world after : World}

/-- Where the paths lead to themselves, `declareLocated` is `declareQueue`. -/
theorem declareLocated_eq {sql : SqlOutcome} {queue : MsgQueue}
    (plain : MessageMapper.located queue.name host.mmptr.basedir =
      MessageMapper.ofNames queue.name host.mmptr.basedir) :
    host.declareLocated sql queue = host.declareQueue sql queue := by
  rw [declareLocated, declareQueue, MessageManager.initLocated_eq plain]

/-- An operation works on the files of its queue. -/
theorem confined_operate (located : host.mmptr.Located) (operation : Operation) :
    Confined (MessageMapper.located operation.qname host.mmptr.basedir).files
      (host.operate operation) := by
  cases operation with
  | initQueueMessage qname =>
      exact confined_bind (host.mmptr.confined_initLocated qname) fun _ => confined_pure _
  | declareQueue sql queue =>
      exact confined_bind (confined_bind (host.mmptr.confined_initLocated queue.name)
        fun _ => confined_pure _) fun _ => confined_pure _
  | basicPublish qname properties uuid body =>
      refine confined_bind ?_ fun _ => confined_pure _
      unfold basicPublish
      cases host.qmptr.selectQueue qname with
      | none => exact confined_pure _
      | some queue =>
          exact confined_bind (MessageManager.confined_insert located qname properties uuid body _)
            fun _ => confined_pure _
  | basicConsume qname => exact confined_pure _
  | basicAck qname msgId =>
      exact confined_bind (MessageManager.confined_ack located qname msgId) fun _ => confined_pure _
  | deleteQueue sql name =>
      exact confined_bind (confined_bind (MessageManager.confined_destroyQueueMessage located name)
        fun _ => confined_pure _) fun _ => confined_pure _

/-- After an operation the stores are still where they belong. -/
theorem located_operate {operation : Operation} (located : host.mmptr.Located)
    (completed : host.operate operation world = .ok next after) :
    next.mmptr.Located ∧ next.mmptr.basedir = host.mmptr.basedir := by
  cases operation with
  | initQueueMessage qname =>
      rcases bind_eq_ok completed with ⟨mmptr, middle, initialised, rest⟩
      cases rest
      exact MessageManager.located_initLocated located initialised
  | declareQueue sql queue =>
      rcases bind_eq_ok completed with ⟨declared, middle, called, rest⟩
      rcases bind_eq_ok called with ⟨mmptr, _, initialised, result⟩
      cases result
      cases rest
      exact MessageManager.located_initLocated located initialised
  | basicPublish qname properties uuid body =>
      rcases bind_eq_ok completed with ⟨published, middle, called, rest⟩
      cases rest
      rcases basicPublish_ok called with ⟨_, same, _⟩ | ⟨queue, inserted, _, stored, same⟩
      all_goals rw [same]
      · exact ⟨located, rfl⟩
      · exact (MessageManager.follows_insert stored).located_of_names
          (MessageManager.insert_names stored) located
  | basicConsume qname =>
      cases completed
      exact ⟨MessageManager.located_front located qname, MessageManager.front_basedir _ qname⟩
  | basicAck qname msgId =>
      rcases bind_eq_ok completed with ⟨mmptr, middle, called, rest⟩
      cases rest
      exact (MessageManager.follows_ack called).located_of_names
        (MessageManager.ack_names called) located
  | deleteQueue sql name =>
      rcases bind_eq_ok completed with ⟨deleted, middle, called, rest⟩
      rcases deleteQueue_ok called with ⟨mmptr, destroyed, _, same⟩
      cases rest
      rw [same]
      exact ⟨MessageManager.located_destroyQueueMessage located destroyed,
        (MessageManager.follows_destroyQueueMessage destroyed).basedir⟩

end Operating

end VirtualHost

namespace Storage

section Isolating

variable [Protobuf] {basedir first second : Bytes} {storage next : Storage} {event : Event}

/-- Every store is where it belongs under the directory. -/
def Settled (basedir : Bytes) (storage : Storage) : Prop :=
  storage.host.mmptr.Located ∧ storage.host.mmptr.basedir = basedir

omit [Protobuf] in
theorem settled_start (database : Database) (basedir : Bytes) (disk : Disk) :
    (start database basedir disk).Settled basedir :=
  ⟨fun _ _ _ found => (nomatch found), rfl⟩

theorem settled_step (settled : storage.Settled basedir)
    (stepped : storage.perform event = .ok next) : next.Settled basedir := by
  rcases except_map_eq_ok stepped with ⟨done, ran, rfl⟩
  rcases performed_eq_ok ran with ⟨world, completed, _⟩
  rcases VirtualHost.located_operate settled.1 completed with ⟨located, same⟩
  exact ⟨located, same.trans settled.2⟩

/-- An operation changes no file of a queue that has no file with its own. -/
theorem spares_of_disjoint (settled : storage.Settled basedir)
    (disjoint : ∀ file ∈ (MessageMapper.located second basedir).files,
      file ∉ (MessageMapper.located first basedir).files) :
    storage.Spares basedir first second event := by
  intro named
  refine QueueMessage.recoverable_congr fun file member => ?_
  have confined := VirtualHost.confined_operate settled.1 event.operation
  rw [named, settled.2] at confined
  exact (confined.frame (disjoint file member) ⟨storage.disk, event.script⟩).symm

theorem isolates_of_apart (settled : storage.Settled basedir) (apart : Apart basedir first second) :
    storage.Isolates basedir first second event :=
  ⟨spares_of_disjoint settled fun file member elsewhere => apart file elsewhere member,
    spares_of_disjoint settled apart⟩

end Isolating

end Storage

/-! ## Operations on a shared file -/

section Calm

variable {disk : Disk}

theorem removeFile_calm (name : Bytes) (disk : Disk) :
    FileHelper.removeFile name ⟨disk, []⟩ =
      .ok (disk name).isSome ⟨Function.update disk name none, []⟩ := by
  cases stored : disk name with
  | some content => exact removeFile_done stored (undisturbed_nil 1)
  | none =>
      have unchanged : Function.update disk name none = disk := by
        rw [← stored, Function.update_eq_self]
      rw [unchanged, FileHelper.removeFile, bind_ok (attempt_done (undisturbed_nil 1))]
      simp only
      rw [bind_ok (fileExists_run _)]
      simp only [stored, Option.isSome_none, Bool.false_eq_true, if_false]
      rfl

theorem rename_calm (name newName : Bytes) (disk : Disk) :
    ∃ renamed left, FileHelper.rename name newName ⟨disk, []⟩ = .ok renamed ⟨left, []⟩ := by
  have tried := @attempt_done disk [] (undisturbed_nil 1)
  cases stored : disk name with
  | some content => exact ⟨true, _, rename_moved tried stored⟩
  | none => exact ⟨false, disk, rename_missing tried stored⟩

theorem MessageMapper.insertAll_calm {file content : Bytes} (stored : disk file = some content)
    (messages : List Message) :
    ∃ written, insertAll file messages ⟨disk, []⟩ =
      .ok (true, placedFrom content.length messages) ⟨written, []⟩ := by
  have done := insertAll_done stored messages (undisturbed_nil _)
  rw [List.drop_nil] at done
  exact ⟨_, done⟩

variable [Protobuf]

/-- A collection of records completes, also when both paths of the mapper lead to
the same file. -/
theorem MessageMapper.gc_completes {mapper : MessageMapper} {records : List Record}
    (stored : disk mapper.datafile = some (Record.file records)) :
    ∃ messages left, mapper.gc ⟨disk, []⟩ = .ok messages ⟨left, []⟩ ∧
      messages.map (·.payload) = Record.livePayloads records := by
  have loaded := @MessageMapper.load_records _ mapper ⟨disk, []⟩ records stored
  have created := @createFile_done disk [] mapper.tmpfile (undisturbed_nil _)
  have present : Function.update disk mapper.tmpfile (some ((disk mapper.tmpfile).getD []))
      mapper.tmpfile = some ((disk mapper.tmpfile).getD []) := Function.update_self ..
  rcases insertAll_calm present ((Record.livePayloads records).map fun payload =>
    { payload := payload }) with ⟨written, copied⟩
  have payloads : (placedFrom ((disk mapper.tmpfile).getD []).length
      ((Record.livePayloads records).map fun payload => { payload := payload })).map (·.payload) =
        Record.livePayloads records := collected_payloads _ records
  rw [List.drop_nil] at created
  rw [gc, bind_ok loaded]
  simp only [if_true]
  rw [bind_ok created, bind_ok copied]
  simp only [if_true]
  rw [bind_ok (removeFile_calm mapper.datafile written)]
  cases (written mapper.datafile).isSome with
  | false => exact ⟨_, _, rfl, payloads⟩
  | true =>
      rcases rename_calm mapper.tmpfile mapper.datafile
        (Function.update written mapper.datafile none) with ⟨renamed, left, moved⟩
      simp only [if_true]
      rw [bind_ok moved]
      exact ⟨_, _, rfl, payloads⟩

end Calm

namespace QueueMessage

section Recovering

variable {qname basedir : Bytes} {disk : Disk}

theorem locate_calm (qname basedir : Bytes) (disk : Disk) :
    locate qname basedir ⟨disk, []⟩ =
      .ok { mapper := MessageMapper.located qname basedir }
        ⟨Function.update disk (MessageMapper.located qname basedir).datafile
          (some ((disk (MessageMapper.located qname basedir).datafile).getD [])), []⟩ := by
  have created := @createFile_done disk [] (MessageMapper.located qname basedir).datafile
    (undisturbed_nil _)
  rw [List.drop_nil] at created
  exact bind_ok created

variable [Protobuf] {records : List Record}

/-- A store that finds records recovers their live payloads. -/
theorem recovery_calm {store : QueueMessage}
    (stored : disk store.mapper.datafile = some (Record.file records)) :
    ∃ next left, store.recovery ⟨disk, []⟩ = .ok next ⟨left, []⟩ ∧
      next.msgs.map (·.message.payload) = Record.livePayloads records := by
  rcases MessageMapper.gc_completes stored with ⟨messages, left, collected, payloads⟩
  exact ⟨store.holding messages, left, bind_ok collected,
    (store.holding_payloads messages).trans payloads⟩

/-- What recovery would return for records, or without a data file. -/
theorem recoverable_records (content : (disk (MessageMapper.located qname basedir).datafile).getD [] =
    Record.file records) :
    ∃ store, recoverable qname basedir disk = .ok store ∧
      store.msgs.map (·.message.payload) = Record.livePayloads records := by
  have made := locate_calm qname basedir disk
  rw [content] at made
  have stored : Function.update disk (MessageMapper.located qname basedir).datafile
      (some (Record.file records)) (MessageMapper.located qname basedir).datafile =
        some (Record.file records) := Function.update_self ..
  rcases @recovery_calm _ _ _ { mapper := MessageMapper.located qname basedir } stored with
    ⟨store, left, recovered, payloads⟩
  refine ⟨store, ?_, payloads⟩
  rw [recoverable, calmly_ok ((bind_ok made).trans recovered)]
  rfl

end Recovering

end QueueMessage

namespace MessageManager

section Calm

variable {manager : MessageManager} {qname : Bytes} {disk : Disk}

/-- A queue without a store gets one that holds what its data file holds. -/
theorem initLocated_calm [Protobuf] {records : List Record}
    (missing : manager.queueMsgs.find qname = none)
    (content : (disk (MessageMapper.located qname manager.basedir).datafile).getD [] =
      Record.file records) :
    ∃ next left reference store, manager.initLocated qname ⟨disk, []⟩ = .ok next ⟨left, []⟩ ∧
      next.queueMsgs.find qname = some reference ∧
      next.queueMsgs.object reference = some store := by
  have made := QueueMessage.locate_calm qname manager.basedir disk
  rw [content] at made
  rcases @QueueMessage.recovery_calm _ _ _ { mapper := MessageMapper.located qname manager.basedir }
    (Function.update_self ..) with ⟨store, left, recovered, _⟩
  let admitted : MessageManager := { manager with
    queueMsgs := manager.queueMsgs.register qname
      { mapper := MessageMapper.located qname manager.basedir } }
  have entered : manager.locate qname ⟨disk, []⟩ = .ok (some manager.queueMsgs.next, admitted)
      ⟨Function.update disk (MessageMapper.located qname manager.basedir).datafile
        (some (Record.file records)), []⟩ := by
    rw [locate, missing]
    exact bind_ok made
  have there : admitted.queueMsgs.object manager.queueMsgs.next =
      some { mapper := MessageMapper.located qname manager.basedir } :=
    (Registry.object_register ..).trans (if_pos rfl)
  have filled : admitted.recover manager.queueMsgs.next
      ⟨Function.update disk (MessageMapper.located qname manager.basedir).datafile
        (some (Record.file records)), []⟩ = .ok { admitted with
          queueMsgs := admitted.queueMsgs.update manager.queueMsgs.next store } ⟨left, []⟩ :=
    bind_ok (onStore_done there (bind_ok recovered))
  refine ⟨_, left, manager.queueMsgs.next, store, (bind_ok entered).trans filled, ?_, ?_⟩
  · change admitted.queueMsgs.find qname = some manager.queueMsgs.next
    rw [Registry.find_register, if_pos rfl]
  · rw [Registry.object_update, if_pos rfl, there]
    rfl

/-- Destroying the messages of a queue removes the files of its store. -/
theorem destroyQueueMessage_calm (disk : Disk) {reference : Nat} {store : QueueMessage}
    (found : manager.queueMsgs.find qname = some reference)
    (there : manager.queueMsgs.object reference = some store) :
    ∃ next, manager.destroyQueueMessage qname ⟨disk, []⟩ = .ok next
      ⟨Function.update (Function.update disk store.mapper.datafile none)
        store.mapper.tmpfile none, []⟩ := by
  have cleared : store.clear ⟨disk, []⟩ = .ok _ ⟨Function.update (Function.update
      disk store.mapper.datafile none) store.mapper.tmpfile none, []⟩ :=
    bind_ok ((bind_ok (removeFile_calm _ _)).trans (bind_ok (removeFile_calm _ _)))
  let withdrawn : MessageManager :=
    { manager with queueMsgs := manager.queueMsgs.unregister qname }
  have still : withdrawn.queueMsgs.object reference = some store := there
  have destroyed : withdrawn.clearStore reference ⟨disk, []⟩ = .ok _ ⟨Function.update
      (Function.update disk store.mapper.datafile none) store.mapper.tmpfile none, []⟩ :=
    bind_ok (onStore_done still (bind_ok cleared))
  refine ⟨_, Eq.trans ?_ destroyed⟩
  rw [destroyQueueMessage, withdraw, found]

end Calm

end MessageManager

namespace Storage

/-- A queue that is not durable is declared. -/
def declaring (qname : Bytes) : Event where
  operation := .declareQueue {} ⟨qname, false, false, false, ∅⟩

/-- A queue is deleted. -/
def deleting (qname : Bytes) : Event where
  operation := .deleteQueue {} qname

section Sharing

variable [Protobuf] {basedir qname other : Bytes} {disk : Disk} {storage next : Storage}

/-- An operation that completes leaves the disk of the next state. -/
theorem disk_of_perform {event : Event} (stepped : storage.perform event = .ok next) :
    next.disk = storage.leaves event := by
  rcases except_map_eq_ok stepped with ⟨done, ran, rfl⟩
  rcases performed_eq_ok ran with ⟨world, completed, same⟩
  rw [leaves, completed]
  exact same.symm

/-- The first declaration gives a queue its store. -/
theorem declaring_completes {records : List Record}
    (content : (disk (MessageMapper.located qname basedir).datafile).getD [] = Record.file records) :
    ∃ next reference store, (start {} basedir disk).perform (declaring qname) = .ok next ∧
      next.host.mmptr.queueMsgs.find qname = some reference ∧
      next.host.mmptr.queueMsgs.object reference = some store := by
  rcases @MessageManager.initLocated_calm { basedir := basedir } _ _ _ _ rfl content with
    ⟨mmptr, left, reference, store, initialised, found, there⟩
  have declared : (start {} basedir disk).host.operate (declaring qname).operation ⟨disk, []⟩ =
      .ok _ ⟨left, []⟩ := bind_ok (bind_ok initialised)
  exact ⟨_, reference, store, congrArg (Except.map _) (performed_ok declared), found, there⟩

/-- Deleting a queue removes its files. -/
theorem deleting_clears (settled : storage.Settled basedir) {reference : Nat} {store : QueueMessage}
    (found : storage.host.mmptr.queueMsgs.find qname = some reference)
    (there : storage.host.mmptr.queueMsgs.object reference = some store) :
    ∀ file ∈ (MessageMapper.located qname basedir).files,
      storage.leaves (deleting qname) file = none := by
  have mapper : store.mapper = MessageMapper.located qname basedir :=
    settled.2 ▸ settled.1 qname reference store found there
  rcases MessageManager.destroyQueueMessage_calm storage.disk found there with ⟨mmptr, destroyed⟩
  have deleted : storage.host.operate (deleting qname).operation ⟨storage.disk, []⟩ =
      .ok _ ⟨Function.update (Function.update storage.disk store.mapper.datafile none)
        store.mapper.tmpfile none, []⟩ := bind_ok (bind_ok destroyed)
  intro file member
  change leftDisk (storage.host.operate (deleting qname).operation ⟨storage.disk, []⟩) file = none
  rw [deleted, mapper]
  change Function.update (Function.update storage.disk _ none) _ none file = none
  rcases List.mem_cons.mp member with data | last
  · rw [data]
    by_cases same : (MessageMapper.located qname basedir).datafile =
        (MessageMapper.located qname basedir).tmpfile
    · rw [same, Function.update_self]
    · rw [Function.update_of_ne same, Function.update_self]
  · rw [List.mem_singleton.mp last, Function.update_self]

/-- A payload that counts. -/
def counted : Payload := { valid := validMark }

/-- If the data file of a queue is a file of another one, its messages are gone
when that one has been declared and deleted. -/
theorem not_spares_of_shared (undoes : Undoes) (shared :
      (MessageMapper.located other basedir).datafile ∈ (MessageMapper.located qname basedir).files) :
    ∃ disk, ¬ Along perform (Spares basedir qname other) (start {} basedir disk)
      [declaring qname, deleting qname] := by
  let record := Record.ofPayload undoes counted (Payload.sound_of_ascii (by decide) (by decide))
  let disk : Disk := Function.update (fun _ => none)
    (MessageMapper.located other basedir).datafile (some (Record.file [record]))
  have stored : disk (MessageMapper.located other basedir).datafile =
      some (Record.file [record]) := Function.update_self ..
  have filled : (disk (MessageMapper.located other basedir).datafile).getD [] =
      Record.file [record] := by
    rw [stored, Option.getD_some]
  have contents : ∀ file, ∃ records, (disk file).getD [] = Record.file records := by
    intro file
    by_cases same : file = (MessageMapper.located other basedir).datafile
    · exact ⟨[record], same ▸ filled⟩
    · have missing : disk file = none := Function.update_of_ne same _ _
      exact ⟨[], by rw [missing]; rfl⟩
  refine ⟨disk, fun spared => ?_⟩
  rcases contents (MessageMapper.located qname basedir).datafile with ⟨records, content⟩
  rcases declaring_completes content with ⟨next, reference, store, declared, found, there⟩
  have settled := settled_step (settled_start {} basedir disk) declared
  have first := spared.1 rfl
  have second := (spared.2 next declared).1 rfl
  rw [disk_of_perform declared, first] at second
  -- so after the deletion recovery would still return the message
  have emptied : (next.leaves (deleting qname)
      (MessageMapper.located other basedir).datafile).getD [] = Record.file [] := by
    rw [deleting_clears settled found there _ shared]
    rfl
  rcases QueueMessage.recoverable_records emptied with ⟨left, recoveredLeft, nothing⟩
  rcases QueueMessage.recoverable_records filled with ⟨held, recoveredHeld, message⟩
  change _ = QueueMessage.recoverable other basedir disk at second
  rw [recoveredLeft, recoveredHeld] at second
  cases second
  rw [nothing] at message
  cases message

end Sharing

/-- The temporary file has the path of the data file and a suffix, or it is the
data file itself, when a NUL ends both paths before their suffixes. -/
theorem located_tmpfile (qname basedir : Bytes) :
    (MessageMapper.located qname basedir).tmpfile = (MessageMapper.located qname basedir).datafile ∨
    (MessageMapper.located qname basedir).tmpfile =
      (MessageMapper.located qname basedir).datafile ++ ascii ".tmp" := by
  rcases MessageMapper.exists_directory basedir with ⟨directory, closed, _, names⟩
  unfold MessageMapper.located MessageMapper.resolved
  rw [names]
  by_cases ends : 0 ∈ directory ++ qname
  · refine Or.inl ?_
    rw [List.append_assoc _ (ascii ".mqd"), resolve, resolve, Path.cStr_append ends,
      Path.cStr_append ends]
  · refine Or.inr ?_
    exact @Path.resolve_append (directory ++ qname) (ascii ".mqd") (ascii ".tmp") ends
      (List.mem_append_left _ (List.mem_of_getLast? closed)) (by decide) (by decide)
      (by decide) (by decide) (by decide)

/-- Plain names give files in one directory. -/
theorem exists_place {basedir : Bytes} (clean : 0 ∉ basedir) :
    ∃ place, ∀ qname, 0 ∉ qname → Path.slash ∉ qname → MessageMapper.located qname basedir =
      ⟨place ++ (qname ++ ascii ".mqd"), place ++ (qname ++ ascii ".mqd" ++ ascii ".tmp")⟩ := by
  rcases MessageMapper.exists_directory basedir with ⟨directory, closed, unbroken, names⟩
  rcases Path.resolve_in_directory (unbroken clean) closed with ⟨place, stays⟩
  refine ⟨place, fun qname qnameClean single => ?_⟩
  have dataClean : 0 ∉ qname ++ ascii ".mqd" := List.not_mem_append qnameClean (by decide)
  have dataSingle : Path.slash ∉ qname ++ ascii ".mqd" := List.not_mem_append single (by decide)
  have long : 2 ≤ (qname ++ ascii ".mqd").length := by
    rw [List.length_append]
    exact Nat.le_add_left_of_le (by decide)
  have data := stays _ dataClean dataSingle (Path.leads_of_long long)
  have tmp := stays (qname ++ ascii ".mqd" ++ ascii ".tmp")
    (List.not_mem_append dataClean (by decide)) (List.not_mem_append dataSingle (by decide))
    (Path.leads_of_long (by rw [List.length_append]; exact Nat.le_add_right_of_le long))
  rw [MessageMapper.located, names, MessageMapper.resolved, List.append_assoc directory,
    List.append_assoc directory, data, tmp]

/-- Different names without a slash and without a NUL have no file in common. -/
theorem apart_of_plain {basedir first second : Bytes} (clean : 0 ∉ basedir)
    (firstClean : 0 ∉ first) (firstSingle : Path.slash ∉ first)
    (secondClean : 0 ∉ second) (secondSingle : Path.slash ∉ second) (distinct : first ≠ second) :
    Apart basedir first second := by
  rcases exists_place clean with ⟨place, files⟩
  -- a data file and a temporary file end differently
  have ends : ∀ one two : Bytes, one ++ ascii ".mqd" ≠ two ++ ascii ".mqd" ++ ascii ".tmp" := by
    intro one two same
    have last := congrArg List.getLast? same
    rw [List.getLast?_append_of_ne_nil _ (by decide),
      List.getLast?_append_of_ne_nil _ (by decide)] at last
    revert last
    decide
  intro file member elsewhere
  rw [files first firstClean firstSingle] at member
  rw [files second secondClean secondSingle] at elsewhere
  rcases List.mem_cons.mp member with isData | isTmp
  · rcases List.mem_cons.mp elsewhere with otherData | otherTmp
    · exact distinct (List.append_cancel_right (List.append_cancel_left
        (isData.symm.trans otherData)))
    · exact ends first second (List.append_cancel_left
        (isData.symm.trans (List.mem_singleton.mp otherTmp)))
  · have tmp := List.mem_singleton.mp isTmp
    rcases List.mem_cons.mp elsewhere with otherData | otherTmp
    · exact ends second first (List.append_cancel_left (otherData.symm.trans tmp))
    · exact distinct (List.append_cancel_right (List.append_cancel_right (List.append_cancel_left
        (tmp.symm.trans (List.mem_singleton.mp otherTmp)))))

/-- A durable queue. -/
def durably (qname : Bytes) : MsgQueue :=
  ⟨qname, true, false, false, ∅⟩

/-- A durable message for a queue. -/
def publishing (qname : Bytes) : Event where
  operation := .basicPublish qname (some { id := ascii "m", deliverMode := .durable }) [] (ascii "x")

/-- Two queues are declared, and the first one gets a message. -/
def appearing (qname other : Bytes) : List Event :=
  [⟨.declareQueue {} (durably qname), []⟩, publishing qname, ⟨.declareQueue {} (durably other), []⟩]

section Main

variable [Protobuf]

/-- Queues that no operation on the other one touches have no file in common. -/
theorem apart_of_isolates (undoes : Undoes) {basedir first second : Bytes}
    (isolated : ∀ disk events,
      Along perform (Isolates basedir first second) (start {} basedir disk) events) :
    Apart basedir first second := by
  have data : ∀ one two, (∀ disk events, Along perform (Spares basedir two one)
      (start {} basedir disk) events) →
      (MessageMapper.located one basedir).datafile ∉ (MessageMapper.located two basedir).files := by
    intro one two spared shared
    rcases not_spares_of_shared undoes shared with ⟨disk, changed⟩
    exact changed (spared disk _)
  have firstApart := data first second fun disk events =>
    (isolated disk events).mono fun _ _ isolates => isolates.2
  have secondApart := data second first fun disk events =>
    (isolated disk events).mono fun _ _ isolates => isolates.1
  intro file member elsewhere
  rcases List.mem_cons.mp member with isData | isTmp
  · exact firstApart (isData ▸ elsewhere)
  · rcases List.mem_cons.mp elsewhere with otherData | otherTmp
    · exact secondApart (otherData ▸ member)
    · -- a temporary file in common is a data file, or says that the data files are the same
      have same := (List.mem_singleton.mp isTmp).symm.trans (List.mem_singleton.mp otherTmp)
      rcases located_tmpfile first basedir with itself | suffixed
      · exact firstApart (itself ▸ same ▸ MessageMapper.tmpfile_mem _)
      · rcases located_tmpfile second basedir with otherItself | otherSuffixed
        · exact secondApart (otherItself ▸ same ▸ MessageMapper.tmpfile_mem _)
        · rw [suffixed, otherSuffixed] at same
          exact firstApart (List.append_cancel_right same ▸ MessageMapper.datafile_mem _)

/-- In every sequence of operations on any queues, each operation on one of two
queues leaves what recovery would return for the other, if and only if the two
queues have no file in common. -/
theorem isolates_iff (undoes : Undoes) (basedir first second : Bytes) :
    (∀ database disk events,
      Along perform (Isolates basedir first second) (start database basedir disk) events) ↔
      Apart basedir first second := by
  constructor
  · exact fun isolated => apart_of_isolates undoes fun disk events => isolated {} disk events
  · intro apart database disk events
    refine @along_of_along _ _ _ perform _ (Settled basedir) _
      (fun storage event settled _ => ?_) (fun storage event next settled _ stepped => ?_) _ _
      (settled_start database basedir disk) (along_trivial perform _ events)
    · exact isolates_of_apart settled apart
    · exact settled_step settled stepped

end Main

/-- Two plain names. -/
theorem plain_names_isolated :
    Along (@perform wireFormat) (@Isolates wireFormat (ascii "data") (ascii "q") (ascii "r"))
      (start {} (ascii "data") fun _ => none)
      (appearing (ascii "q") (ascii "r") ++ [deleting (ascii "r")]) :=
  (@isolates_iff wireFormat wireFormat_undoes (ascii "data") (ascii "q") (ascii "r")).mpr
    (apart_of_plain (by decide) (by decide) (by decide) (by decide) (by decide) (by decide)) {} _ _

/-- Two names that a host accepts, and of which the one queue has the messages of
the other in its data file; when it is deleted, they are gone. -/
theorem dot_name_shares_file :
    ascii "q" ≠ ascii "./q" ∧
    (∀ qname ∈ [ascii "q", ascii "./q"],
      ((MsgQueueManager.new {}).declareQueue true (durably qname)).1 = true) ∧
    ¬ Along (@perform wireFormat) (@Isolates wireFormat (ascii "data") (ascii "q") (ascii "./q"))
      (start {} (ascii "data") fun _ => none)
      (appearing (ascii "q") (ascii "./q") ++ [deleting (ascii "./q")]) := by
  refine ⟨by decide, by decide, fun isolated => ?_⟩
  have spared := (isolated.last rfl).2 rfl
  have bodies := congrArg (fun result => result.toOption.map fun store : QueueMessage =>
    store.msgs.map (·.message.payload.body)) spared
  revert bodies
  decide +kernel

end Storage

end ProtobufMq
