import ProtobufMq.Server.Broker

namespace ProtobufMq

open Foundation

/-!
# What may stop a request

A request stops the program in few ways.  Whatever changes a file may be killed
while it does, a write may be stopped by the log of its failure, and a length
that is read from a data file may be too long for a string.  Beside these there
are three mistakes of the server itself, each in one function: an id that is not
waiting in `QueueMessage::remove`, a queue without a unit in
`ConsumerManager::remove`, and a binding key without a word in the router.

The sections go through the code once, for any kind of faults that has those
that the code can meet.
-/

variable {kind : Fault → Prop}

/-! ## The files of a queue -/

namespace MessageMapper

theorem stopsBy_insertInto (writes : WriteFaults kind) (file : Bytes) (message : Message) :
    StopsBy kind (insertInto file message) := by
  refine stopsBy_bind (stopsBy_size file) fun offset => ?_
  refine stopsBy_bind (stopsBy_write writes file _ offset) fun headed => ?_
  refine stopsBy_ite ?_ (stopsBy_pure _)
  exact stopsBy_bind (stopsBy_write writes file _ _) fun written =>
    stopsBy_ite (stopsBy_pure _) (stopsBy_pure _)

theorem stopsBy_remove (writes : WriteFaults kind) (mapper : MessageMapper) (message : Message) :
    StopsBy kind (mapper.remove message) :=
  stopsBy_ite (stopsBy_pure false) (stopsBy_write writes _ _ _)

theorem stopsBy_new (killed : kind .killed) (qname basedir : Bytes) :
    StopsBy kind (new qname basedir) :=
  stopsBy_bind (stopsBy_createFile killed _) fun _ => stopsBy_pure _

theorem stopsBy_removeMsgFile (killed : kind .killed) (mapper : MessageMapper) :
    StopsBy kind mapper.removeMsgFile :=
  stopsBy_bind (stopsBy_removeFile killed _) fun _ =>
    stopsBy_bind (stopsBy_removeFile killed _) fun _ => stopsBy_pure ()

theorem stopsBy_insertAll (writes : WriteFaults kind) (file : Bytes) (messages : List Message) :
    StopsBy kind (insertAll file messages) := by
  induction messages with
  | nil => exact stopsBy_pure _
  | cons message rest inductionHypothesis =>
      exact stopsBy_bind (stopsBy_insertInto writes file message) fun inserted =>
        stopsBy_ite (stopsBy_bind inductionHypothesis fun later => stopsBy_pure _) (stopsBy_pure _)

variable [Protobuf]

theorem stopsBy_loadLoop (tooLong : kind .lengthError) (file : Bytes) (fuel offset : Nat)
    (result : List Message) : StopsBy kind (loadLoop file fuel offset result) := by
  induction fuel generalizing offset result with
  | zero => exact stopsBy_pure _
  | succ fuel inductionHypothesis =>
      refine stopsBy_bind (stopsBy_size file) fun size => stopsBy_ite ?_ (stopsBy_pure _)
      refine stopsBy_bind (stopsBy_read file offset sizeOfSize) fun header => ?_
      cases header with
      | none => exact stopsBy_pure _
      | some header =>
          refine stopsBy_ite (stopsBy_throw tooLong) ?_
          refine stopsBy_bind (stopsBy_read file _ _) fun body => ?_
          cases body with
          | none => exact stopsBy_pure _
          | some body => exact stopsBy_ite (inductionHypothesis _ _) (inductionHypothesis _ _)

theorem stopsBy_gc (writes : WriteFaults kind) (tooLong : kind .lengthError) (mapper : MessageMapper) :
    StopsBy kind mapper.gc := by
  refine stopsBy_bind (stopsBy_bind (stopsBy_size _) fun size => stopsBy_loadLoop tooLong _ _ _ _)
    fun loaded => stopsBy_ite ?_ (stopsBy_pure _)
  refine stopsBy_bind (stopsBy_createFile writes.killed _) fun created => ?_
  refine stopsBy_bind (stopsBy_insertAll writes _ _) fun copied => stopsBy_ite ?_ (stopsBy_pure _)
  refine stopsBy_bind (stopsBy_removeFile writes.killed _) fun removed => stopsBy_ite ?_ (stopsBy_pure _)
  exact stopsBy_bind (stopsBy_rename writes.killed _ _) fun renamed => stopsBy_pure _

end MessageMapper

/-! ## A message store -/

namespace QueueMessage

theorem stopsBy_new (killed : kind .killed) (qname basedir : Bytes) :
    StopsBy kind (new qname basedir) :=
  stopsBy_bind (MessageMapper.stopsBy_new killed qname basedir) fun _ => stopsBy_pure _

theorem stopsBy_insert (writes : WriteFaults kind) (queue : QueueMessage)
    (properties : Option BasecProperties) (uuid body : Bytes) (queueIsDurable : Bool) :
    StopsBy kind (queue.insert properties uuid body queueIsDurable) :=
  stopsBy_ite (stopsBy_bind (MessageMapper.stopsBy_insertInto writes _ _) fun _ =>
    stopsBy_ite (stopsBy_pure _) (stopsBy_pure _)) (stopsBy_pure _)

theorem stopsBy_clear (killed : kind .killed) (queue : QueueMessage) : StopsBy kind queue.clear :=
  stopsBy_bind (MessageMapper.stopsBy_removeMsgFile killed _) fun _ => stopsBy_pure _

variable [Protobuf]

theorem stopsBy_recovery (writes : WriteFaults kind) (tooLong : kind .lengthError)
    (queue : QueueMessage) : StopsBy kind queue.recovery :=
  stopsBy_bind (MessageMapper.stopsBy_gc writes tooLong _) fun _ => stopsBy_pure _

theorem stopsBy_removeDurable (writes : WriteFaults kind) (tooLong : kind .lengthError)
    (queue : QueueMessage) (msgId : Bytes) (pointer : MessagePtr) :
    StopsBy kind (queue.removeDurable msgId pointer) :=
  stopsBy_bind (MessageMapper.stopsBy_remove writes _ _) fun _ =>
    stopsBy_ite (stopsBy_bind (MessageMapper.stopsBy_gc writes tooLong _) fun _ => stopsBy_pure _)
      (stopsBy_pure _)

/-- Removing an id that is waiting is like that, and one that is not uses the
end iterator. -/
theorem stopsBy_remove (writes : WriteFaults kind) (tooLong : kind .lengthError) {queue : QueueMessage}
    {msgId : Bytes} (waiting : msgId ∈ queue.waitackMsgs ∨ kind .waitackEnd) :
    StopsBy kind (queue.remove msgId) := by
  unfold remove
  cases found : queue.waitackMsgs.lookup msgId with
  | none =>
      exact stopsBy_throw (waiting.resolve_left (AList.lookup_eq_none.mp found))
  | some pointer =>
      exact stopsBy_ite (stopsBy_bind (stopsBy_removeDurable writes tooLong queue msgId pointer)
        fun _ => stopsBy_pure _) (stopsBy_bind (stopsBy_pure queue) fun _ => stopsBy_pure _)

end QueueMessage

/-! ## The message stores -/

namespace MessageManager

theorem stopsBy_onStore {α : Type} {manager : MessageManager} {reference : Nat} {absent : α}
    {code : QueueMessage → FileM (α × QueueMessage)}
    (stops : ∀ store, manager.queueMsgs.object reference = some store → StopsBy kind (code store)) :
    StopsBy kind (manager.onStore reference absent code) := by
  unfold onStore
  cases there : manager.queueMsgs.object reference with
  | none => exact stopsBy_pure _
  | some store => exact stopsBy_bind (stops store there) fun _ => stopsBy_pure _

theorem stopsBy_introduce (killed : kind .killed) (manager : MessageManager) (qname : Bytes) :
    StopsBy kind (manager.introduce qname) := by
  unfold introduce
  cases manager.queueMsgs.find qname with
  | some reference => exact stopsBy_pure _
  | none => exact stopsBy_bind (QueueMessage.stopsBy_new killed _ _) fun _ => stopsBy_pure _

theorem stopsBy_clearStore (killed : kind .killed) (manager : MessageManager) (reference : Nat) :
    StopsBy kind (manager.clearStore reference) :=
  stopsBy_bind (stopsBy_onStore fun store _ =>
    stopsBy_bind (store.stopsBy_clear killed) fun _ => stopsBy_pure _) fun _ => stopsBy_pure _

theorem stopsBy_insert (writes : WriteFaults kind) (manager : MessageManager) (qname : Bytes)
    (properties : Option BasecProperties) (uuid body : Bytes) (queueIsDurable : Bool) :
    StopsBy kind (manager.insert qname properties uuid body queueIsDurable) := by
  unfold insert
  cases manager.queueMsgs.find qname with
  | none => exact stopsBy_pure _
  | some reference => exact stopsBy_onStore fun store _ => store.stopsBy_insert writes _ _ _ _

theorem stopsBy_destroyQueueMessage (killed : kind .killed) (manager : MessageManager)
    (qname : Bytes) : StopsBy kind (manager.destroyQueueMessage qname) := by
  unfold destroyQueueMessage
  cases withdrawn : (manager.withdraw qname).1 with
  | none =>
      simp only [withdrawn]
      exact stopsBy_pure _
  | some reference =>
      simp only [withdrawn]
      exact stopsBy_clearStore killed _ reference

variable [Protobuf]

theorem stopsBy_recover (writes : WriteFaults kind) (tooLong : kind .lengthError)
    (manager : MessageManager) (reference : Nat) : StopsBy kind (manager.recover reference) :=
  stopsBy_bind (stopsBy_onStore fun store _ =>
    stopsBy_bind (store.stopsBy_recovery writes tooLong) fun _ => stopsBy_pure _)
      fun _ => stopsBy_pure _

theorem stopsBy_initQueueMessage (writes : WriteFaults kind) (tooLong : kind .lengthError)
    (manager : MessageManager) (qname : Bytes) : StopsBy kind (manager.initQueueMessage qname) := by
  refine stopsBy_bind (manager.stopsBy_introduce writes.killed qname) fun admitted => ?_
  cases admitted.1 with
  | none => exact stopsBy_pure _
  | some reference => exact stopsBy_recover writes tooLong _ reference

theorem stopsBy_removeFrom (writes : WriteFaults kind) (tooLong : kind .lengthError)
    {manager : MessageManager} {reference : Nat} {msgId : Bytes}
    (waiting : ∀ store, manager.queueMsgs.object reference = some store →
      msgId ∈ store.waitackMsgs ∨ kind .waitackEnd) :
    StopsBy kind (manager.removeFrom reference msgId) :=
  stopsBy_bind (stopsBy_onStore fun store there =>
    stopsBy_bind (QueueMessage.stopsBy_remove writes tooLong (waiting store there))
      fun _ => stopsBy_pure _) fun _ => stopsBy_pure _

end MessageManager

/-! ## The requests -/

namespace ConsumerManager

/-- Removing a consumer fails for a queue without a unit only. -/
theorem remove_eq_error {manager : ConsumerManager} {ctag queueName : Bytes} {fault : Fault}
    (stopped : manager.remove ctag queueName = .error fault) :
    fault = .consumersEnd ∧ manager.qconsumers.select queueName = none := by
  unfold remove at stopped
  cases found : manager.qconsumers.find queueName with
  | none =>
      rw [found] at stopped
      cases stopped
      exact ⟨rfl, Registry.select_eq_none.mpr found⟩
  | some reference =>
      rcases Registry.object_of_find found with ⟨unit, there⟩
      rw [found] at stopped
      simp only [there] at stopped
      cases stopped

end ConsumerManager

namespace Channel

theorem destroy_eq_error {shared : Shared} {channel : Channel} {fault : Fault}
    (stopped : destroy shared channel = .error fault) : fault = .consumersEnd := by
  unfold destroy at stopped
  cases subscribed : channel.consumer with
  | none =>
      rw [subscribed] at stopped
      cases stopped
  | some consumer =>
      rw [subscribed] at stopped
      exact (ConsumerManager.remove_eq_error (except_map_eq_error stopped)).1

theorem basicCancel_eq_error {channel : Channel} {shared : Shared} {consumerTag queueName : Bytes}
    {fault : Fault} (stopped : basicCancel channel shared consumerTag queueName = .error fault) :
    fault = .consumersEnd := by
  unfold basicCancel at stopped
  cases removed : shared.cmptr.remove consumerTag queueName with
  | ok cmptr =>
      rw [removed] at stopped
      cases stopped
  | error other =>
      rw [removed] at stopped
      cases stopped
      exact (ConsumerManager.remove_eq_error removed).1

theorem stopsBy_insertTurn (writes : WriteFaults kind) (wordless : kind .wordsEnd)
    (publication : Publication) (shared : Shared) (mqb : Bytes × Binding) :
    StopsBy kind (insertTurn publication shared mqb) := by
  refine stopsBy_bind (stopsBy_ofExcept fun fault stopped => ?_) fun accepted =>
    stopsBy_ite (stopsBy_bind ?_ fun _ => stopsBy_pure _) (stopsBy_pure _)
  · rw [((Router.route_error_iff _ _ _ _).mp stopped).1]
    exact wordless
  · unfold VirtualHost.basicPublish
    cases shared.host.qmptr.selectQueue mqb.1 with
    | none => exact stopsBy_pure _
    | some queue =>
        exact stopsBy_bind (shared.host.mmptr.stopsBy_insert writes _ _ _ _ _)
          fun _ => stopsBy_pure _

theorem stopsBy_publishTurn (writes : WriteFaults kind) (wordless : kind .wordsEnd) (address : Nat)
    (publication : Publication) (shared : Shared) (mqb : Bytes × Binding) :
    StopsBy kind (publishTurn address publication shared mqb) :=
  stopsBy_bind (stopsBy_insertTurn writes wordless publication shared mqb) fun _ => stopsBy_pure _

variable [Protobuf]

/-- `basicAck` reaches the store that has the queue's name. -/
theorem stopsBy_basicAck (writes : WriteFaults kind) (tooLong : kind .lengthError) {shared : Shared}
    {queueName messageId : Bytes}
    (waiting : ∀ reference store,
      shared.host.mmptr.queueMsgs.find queueName = some reference →
      shared.host.mmptr.queueMsgs.object reference = some store →
      messageId ∈ store.waitackMsgs ∨ kind .waitackEnd) :
    StopsBy kind (basicAck shared queueName messageId) := by
  refine stopsBy_bind (stopsBy_bind ?_ fun _ => stopsBy_pure _) fun _ => stopsBy_pure _
  unfold MessageManager.ack
  cases found : shared.host.mmptr.queueMsgs.find queueName with
  | none => exact stopsBy_pure _
  | some reference =>
      exact MessageManager.stopsBy_removeFrom writes tooLong (waiting reference · found)

/-- What stops a request, given what stops `basicAck` and `basicCancel`. -/
theorem stopsBy_handle (writes : WriteFaults kind) (tooLong : kind .lengthError)
    (wordless : kind .wordsEnd) (channel : Channel) (shared : Shared) (chance : Chance)
    {request : Request}
    (acks : ∀ queueName messageId, request = .basicAck queueName messageId →
      StopsBy kind (basicAck shared queueName messageId))
    (cancels : ∀ consumerTag queueName, request = .basicCancel consumerTag queueName →
      ∀ fault, basicCancel channel shared consumerTag queueName = .error fault → kind fault) :
    StopsBy kind (channel.handle shared chance request) := by
  cases request with
  | declareExchange exchange => exact stopsBy_pure _
  | deleteExchange exchangeName => exact stopsBy_pure _
  | declareQueue queue =>
      refine stopsBy_bind (stopsBy_bind (stopsBy_bind ?_ fun _ => stopsBy_pure _) fun _ =>
        stopsBy_ite (stopsBy_pure _) (stopsBy_pure _)) fun _ => stopsBy_pure _
      exact MessageManager.stopsBy_initQueueMessage writes tooLong _ _
  | deleteQueue queueName =>
      refine stopsBy_bind (stopsBy_bind (stopsBy_bind ?_ fun _ => stopsBy_pure _) fun _ =>
        stopsBy_ite (stopsBy_pure _) (stopsBy_pure _)) fun _ => stopsBy_pure _
      exact MessageManager.stopsBy_destroyQueueMessage writes.killed _ _
  | queueBind exchangeName queueName bindingKey => exact stopsBy_pure _
  | queueUnbind exchangeName queueName => exact stopsBy_pure _
  | basicPublish exchangeName properties body =>
      refine stopsBy_bind ?_ fun _ => stopsBy_pure _
      unfold basicPublish
      cases shared.host.selectExchange exchangeName with
      | none => exact stopsBy_pure _
      | some exchange =>
          exact stopsBy_bind (stopsBy_foldlM (stopsBy_publishTurn writes wordless _ _) _ _)
            fun _ => stopsBy_pure _
  | basicAck queueName messageId =>
      exact stopsBy_bind (acks queueName messageId rfl) fun _ => stopsBy_pure _
  | basicConsume consumerTag queueName autoAck => exact stopsBy_pure _
  | basicCancel consumerTag queueName =>
      exact stopsBy_bind (stopsBy_ofExcept (cancels consumerTag queueName rfl))
        fun _ => stopsBy_pure _

end Channel

namespace Server

theorem closeChannel_eq_error {server : Server} {conn : Nat} {connection : Connection} {cid : Bytes}
    {fault : Fault} (stopped : server.closeChannel conn connection cid = .error fault) :
    fault = .consumersEnd := by
  unfold closeChannel at stopped
  cases opened : connection.channels.lookup cid with
  | none =>
      rw [opened] at stopped
      cases stopped
  | some channel =>
      rw [opened] at stopped
      exact Channel.destroy_eq_error (except_map_eq_error stopped)

/-- What stops a packet, given what stops the closing of a channel and the
request to a channel. -/
theorem stopsBy_handle [Protobuf] (server : Server) (conn : Nat) (chance : Chance) {packet : Packet}
    (closes : ∀ rid cid connection, packet = .closeChannel rid cid →
      server.connections.lookup conn = some connection →
      ∀ fault, server.closeChannel conn connection cid = .error fault → kind fault)
    (request : ∀ rid cid request channel, packet = .request rid cid request →
      server.channelAt conn cid = some channel →
      StopsBy kind (channel.handle server.shared chance request)) :
    StopsBy kind (server.handle conn chance packet) := by
  unfold handle
  cases connected : server.connections.lookup conn with
  | none => exact stopsBy_pure _
  | some connection =>
      cases packet with
      | openChannel rid cid => exact stopsBy_pure _
      | closeChannel rid cid =>
          exact stopsBy_bind (stopsBy_ofExcept (closes rid cid connection rfl connected))
            fun _ => stopsBy_pure _
      | request rid cid asked =>
          simp only
          cases opened : connection.channels.lookup cid with
          | none => exact stopsBy_pure _
          | some channel =>
              have there := (channelAt_eq connected cid).trans opened
              exact stopsBy_bind (request rid cid asked channel rfl there) fun _ => stopsBy_pure _

end Server

end ProtobufMq
