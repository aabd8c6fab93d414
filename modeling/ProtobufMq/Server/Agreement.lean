import ProtobufMq.Server.Broker

namespace ProtobufMq

open Foundation

/-!
# The managers agree on what exists

Declaring and deleting a queue goes through three maps in three managers, each
with returns of its own, and a binding refers to entries of two more.  As long
as the statements on `queue_table` take effect, the maps stay together: no
declaration is refused, because a row that is in the way would belong to a
queue in the map, and deleting removes bindings before anything else.
-/

/-- The three maps of queues have the same keys, and both ends of every binding
are there. -/
structure Agreed (shared : Shared) : Prop where
  stores : ∀ qname, qname ∈ shared.host.mmptr.queueMsgs.names ↔
    qname ∈ shared.host.qmptr.msgQueues
  units : ∀ qname, qname ∈ shared.cmptr.qconsumers.names ↔ qname ∈ shared.host.qmptr.msgQueues
  bindings : ∀ ename qname binding, shared.host.bmptr.getBinding ename qname = some binding →
    ename ∈ shared.host.emptr.exchanges ∧ qname ∈ shared.host.qmptr.msgQueues

/-- The invariant: the table of queues is the map of queues, too. -/
structure Joined (shared : Shared) : Prop where
  agreed : Agreed shared
  queues : shared.host.qmptr.Tracked

namespace Joined

section Maps

variable {manager : MsgQueueManager}

/-- With its statement taking effect, a declaration is accepted. -/
theorem mem_declareQueue (tracked : manager.Tracked) (queue : MsgQueue) :
    (manager.declareQueue true queue).1 = true ∧
      ∀ qname, qname ∈ (manager.declareQueue true queue).2.msgQueues ↔
        qname = queue.name ∨ qname ∈ manager.msgQueues := by
  rcases manager.declareQueue_cases true queue with ⟨present, result⟩ | ⟨_, _, result⟩ |
    ⟨_, _, result⟩ | ⟨absent, _, refused, _⟩
  · rw [result]
    exact ⟨rfl, fun qname => ⟨Or.inr, fun either => either.elim (fun same => same ▸ present) id⟩⟩
  · rw [result]
    exact ⟨rfl, fun qname => AList.mem_insert _⟩
  · rw [result]
    exact ⟨rfl, fun qname => AList.mem_insert _⟩
  · rcases refused with failed | stored
    · cases failed
    · rcases (tracked.mem_table_iff queue.name).mp stored with ⟨queue, found, _⟩
      exact absurd (Dictionary.lookup_eq_some_mem found) absent

/-- With its statement taking effect, a deletion is accepted. -/
theorem mem_deleteQueue (manager : MsgQueueManager) (name : Bytes) :
    (manager.deleteQueue true name).1 = true ∧
      ∀ qname, qname ∈ (manager.deleteQueue true name).2.msgQueues ↔
        qname ≠ name ∧ qname ∈ manager.msgQueues := by
  rcases manager.deleteQueue_cases true name with ⟨absent, result⟩ |
    ⟨queue, _, ⟨_, result⟩ | ⟨_, _, result⟩ | ⟨_, failed, _⟩⟩
  · rw [result]
    have missing : name ∉ manager.msgQueues := AList.lookup_eq_none.mp absent
    exact ⟨rfl, fun qname => ⟨fun member => ⟨fun same => missing (same ▸ member), member⟩,
      And.right⟩⟩
  · rw [result]
    exact ⟨rfl, fun qname => AList.mem_erase⟩
  · rw [result]
    exact ⟨rfl, fun qname => AList.mem_erase⟩
  · cases failed

/-- Declaring an exchange removes none. -/
theorem mem_declareExchange {manager : ExchangeManager} {takesEffect : Bool} {exchange : Exchange}
    {ename : Bytes} (present : ename ∈ manager.exchanges) :
    ename ∈ (manager.declareExchange takesEffect exchange).2.exchanges := by
  rcases manager.declareExchange_cases takesEffect exchange with ⟨_, result⟩ | ⟨_, _, result⟩ |
    ⟨_, _, result⟩ | ⟨_, _, _, result⟩
  all_goals rw [result]
  · exact present
  · exact (AList.mem_insert _).mpr (Or.inr present)
  · exact (AList.mem_insert _).mpr (Or.inr present)
  · exact present

/-- Deleting an exchange removes no other. -/
theorem mem_deleteExchange {manager : ExchangeManager} {takesEffect : Bool} {name ename : Bytes}
    (other : ename ≠ name) (present : ename ∈ manager.exchanges) :
    ename ∈ (manager.deleteExchange takesEffect name).2.exchanges := by
  rcases manager.deleteExchange_cases takesEffect name with ⟨_, result⟩ |
    ⟨exchange, _, ⟨_, result⟩ | ⟨_, result⟩ | ⟨_, _, result⟩⟩
  all_goals rw [result]
  · exact present
  · exact AList.mem_erase.mpr ⟨other, present⟩
  · exact AList.mem_erase.mpr ⟨other, present⟩
  · exact present

end Maps

section Units

variable (manager : ConsumerManager)

theorem mem_initQueueConsumer (queueName other : Bytes) :
    other ∈ (manager.initQueueConsumer queueName).qconsumers.names ↔
      other = queueName ∨ other ∈ manager.qconsumers.names := by
  unfold ConsumerManager.initQueueConsumer
  cases found : manager.qconsumers.find queueName with
  | none => exact AList.mem_insert _
  | some reference =>
      have present : queueName ∈ manager.qconsumers.names := Dictionary.lookup_eq_some_mem found
      exact ⟨Or.inr, fun either => either.elim (fun same => same ▸ present) id⟩

theorem mem_destroyQueueConsumer (queueName other : Bytes) :
    other ∈ (manager.destroyQueueConsumer queueName).qconsumers.names ↔
      other ≠ queueName ∧ other ∈ manager.qconsumers.names :=
  AList.mem_erase

/-- Subscribing changes no name. -/
theorem create_names (consumer : Consumer) :
    (manager.create consumer).2.qconsumers.names = manager.qconsumers.names := by
  unfold ConsumerManager.create
  cases manager.qconsumers.find consumer.qname with
  | none => rfl
  | some reference =>
      simp only
      cases manager.qconsumers.object reference <;> rfl

/-- Choosing changes no name. -/
theorem chooseFrom_names (reference : Nat) :
    (manager.chooseFrom reference).2.qconsumers.names = manager.qconsumers.names := by
  unfold ConsumerManager.chooseFrom
  cases manager.qconsumers.object reference <;> rfl

/-- Unsubscribing changes no name. -/
theorem remove_names {ctag queueName : Bytes} {next : ConsumerManager}
    (removed : manager.remove ctag queueName = .ok next) :
    next.qconsumers.names = manager.qconsumers.names := by
  rcases ConsumerManager.remove_ok removed with ⟨reference, unit, _, _, same⟩
  rw [same]
  rfl

end Units

/-! ## One request -/

section Requests

variable {shared next : Shared} {sql : SqlOutcome} {world after : World} {accepted : Bool}

theorem declareExchange (joined : Joined shared) (exchange : Exchange) :
    Joined (Channel.declareExchange shared sql exchange).2 :=
  ⟨⟨joined.agreed.stores, joined.agreed.units, fun ename qname binding found =>
    ⟨mem_declareExchange (joined.agreed.bindings ename qname binding found).1,
      (joined.agreed.bindings ename qname binding found).2⟩⟩, joined.queues⟩

theorem deleteExchange (joined : Joined shared) (exchangeName : Bytes) :
    Joined (Channel.deleteExchange shared sql exchangeName).2 := by
  refine ⟨⟨joined.agreed.stores, joined.agreed.units, fun ename qname binding found => ?_⟩,
    joined.queues⟩
  change (shared.host.bmptr.removeExchangeBindings sql.bindingTable exchangeName).getBinding
    ename qname = some binding at found
  rw [BindingManager.getBinding_removeExchangeBindings] at found
  by_cases same : ename = exchangeName
  · rw [if_pos same] at found
    cases found
  · rw [if_neg same] at found
    exact ⟨mem_deleteExchange same (joined.agreed.bindings ename qname binding found).1,
      (joined.agreed.bindings ename qname binding found).2⟩

theorem declareQueue [Protobuf] (joined : Joined shared) {queue : MsgQueue}
    (effective : sql.queueTable = true)
    (completed : Channel.declareQueue shared sql queue world = .ok (accepted, next) after) :
    Joined next := by
  rcases Channel.declareQueue_ok completed with ⟨mmptr, initialised, acceptedEq, result⟩
  have stores := MessageManager.mem_initQueueMessage initialised
  rw [effective] at acceptedEq result
  rcases mem_declareQueue joined.queues queue with ⟨accepts, members⟩
  rw [acceptedEq.trans accepts, if_pos rfl] at result
  rw [result]
  refine ⟨⟨fun qname => ?_, fun qname => ?_, fun ename qname binding found => ?_⟩,
    MsgQueueManager.tracked_declareQueue joined.queues queue⟩
  · rw [stores, members, joined.agreed.stores]
  · rw [mem_initQueueConsumer, members, joined.agreed.units]
  · rw [members]
    exact ⟨(joined.agreed.bindings ename qname binding found).1,
      Or.inr (joined.agreed.bindings ename qname binding found).2⟩

theorem deleteQueue (joined : Joined shared) {queueName : Bytes}
    (effective : sql.queueTable = true)
    (completed : Channel.deleteQueue shared sql queueName world = .ok (accepted, next) after) :
    Joined next := by
  rcases Channel.deleteQueue_ok completed with ⟨mmptr, destroyed, acceptedEq, result⟩
  have stores := MessageManager.mem_destroyQueueMessage destroyed
  rw [effective] at acceptedEq result
  rcases mem_deleteQueue shared.host.qmptr queueName with ⟨accepts, members⟩
  rw [acceptedEq.trans accepts, if_pos rfl] at result
  rw [result]
  refine ⟨⟨fun qname => ?_, fun qname => ?_, fun ename qname binding found => ?_⟩,
    MsgQueueManager.tracked_deleteQueue joined.queues queueName⟩
  · rw [stores, members, joined.agreed.stores]
  · rw [mem_destroyQueueConsumer, members, joined.agreed.units]
  · rw [BindingManager.getBinding_removeMsgQueueBindings] at found
    by_cases same : qname = queueName
    · rw [if_pos same] at found
      cases found
    · rw [if_neg same] at found
      rw [members]
      exact ⟨(joined.agreed.bindings ename qname binding found).1, same,
        (joined.agreed.bindings ename qname binding found).2⟩

theorem queueBind (joined : Joined shared) (exchangeName queueName bindingKey : Bytes) :
    Joined (Channel.queueBind shared sql exchangeName queueName bindingKey).2 := by
  unfold Channel.queueBind
  rcases shared.host.bind_cases sql exchangeName queueName bindingKey with ⟨_, result⟩ |
    ⟨exchange, queue, exchangeFound, queueFound, result⟩
  all_goals rw [result]
  · exact joined
  · refine ⟨⟨joined.agreed.stores, joined.agreed.units, fun ename qname binding found => ?_⟩,
      joined.queues⟩
    rcases BindingManager.getBinding_bind _ _ _ _ _ found with old | ⟨sameE, sameQ⟩
    · exact joined.agreed.bindings ename qname binding old
    · rw [sameE, sameQ]
      exact ⟨Dictionary.lookup_eq_some_mem exchangeFound, Dictionary.lookup_eq_some_mem queueFound⟩

theorem queueUnbind (joined : Joined shared) (exchangeName queueName : Bytes) :
    Joined (Channel.queueUnbind shared sql exchangeName queueName) := by
  refine ⟨⟨joined.agreed.stores, joined.agreed.units, fun ename qname binding found => ?_⟩,
    joined.queues⟩
  change (shared.host.bmptr.unBind sql.bindingTable exchangeName queueName).getBinding
    ename qname = some binding at found
  rw [BindingManager.getBinding_unBind] at found
  by_cases same : ename = exchangeName ∧ qname = queueName
  · rw [if_pos same] at found
    cases found
  · rw [if_neg same] at found
    exact joined.agreed.bindings ename qname binding found

/-- The maps are the same if the stores keep their names and the units theirs. -/
theorem of_names (joined : Joined shared) {mmptr : MessageManager} {cmptr : ConsumerManager}
    {pool : List Task} {allocated : Nat}
    (stores : mmptr.queueMsgs.names = shared.host.mmptr.queueMsgs.names)
    (units : cmptr.qconsumers.names = shared.cmptr.qconsumers.names) :
    Joined ⟨{ shared.host with mmptr := mmptr }, cmptr, pool, allocated⟩ := by
  refine ⟨⟨fun qname => ?_, fun qname => ?_, joined.agreed.bindings⟩, joined.queues⟩
  · change qname ∈ mmptr.queueMsgs.names ↔ _
    rw [stores]
    exact joined.agreed.stores qname
  · change qname ∈ cmptr.qconsumers.names ↔ _
    rw [units]
    exact joined.agreed.units qname

theorem publishTurn (joined : Joined shared) {address : Nat} {publication : Channel.Publication}
    {mqb : Bytes × Binding}
    (completed : Channel.publishTurn address publication shared mqb world = .ok next after) :
    Joined next := by
  rcases Channel.publishTurn_ok completed with ⟨_, result, _⟩ | ⟨_, published, called, result⟩
  all_goals rw [result]
  · exact joined
  · rcases VirtualHost.basicPublish_ok called with ⟨_, kept, _⟩ | ⟨queue, inserted, _, stored, kept⟩
    all_goals rw [kept]
    · exact joined.of_names rfl rfl
    · exact joined.of_names (MessageManager.insert_names stored) rfl

theorem basicPublish (joined : Joined shared) {address : Nat} {chance : Chance}
    {exchangeName body : Bytes} {properties : Option BasecProperties}
    (completed : Channel.basicPublish address shared chance exchangeName properties body world =
      .ok (accepted, next) after) : Joined next :=
  Channel.basicPublish_invariant joined (fun held turned => held.publishTurn turned) completed

theorem basicAck [Protobuf] (joined : Joined shared) {queueName messageId : Bytes}
    (completed : Channel.basicAck shared queueName messageId world = .ok next after) :
    Joined next := by
  rcases bind_eq_ok completed with ⟨host, middle, called, rest⟩
  cases rest
  rcases bind_eq_ok called with ⟨mmptr, middle, acked, rest⟩
  cases rest
  exact joined.of_names (MessageManager.ack_names acked) rfl

theorem basicConsume (joined : Joined shared) (channel : Channel) (consumerTag queueName : Bytes)
    (autoAck : Bool) :
    Joined (Channel.basicConsume channel shared consumerTag queueName autoAck).2.2 := by
  unfold Channel.basicConsume
  cases shared.host.existsQueue queueName with
  | false => exact joined
  | true => exact joined.of_names rfl (create_names _ _)

theorem basicCancel (joined : Joined shared) {channel : Channel} {consumerTag queueName : Bytes}
    {result : Channel × Shared}
    (completed : Channel.basicCancel channel shared consumerTag queueName = .ok result) :
    Joined result.2 := by
  rcases Channel.basicCancel_ok completed with ⟨cmptr, removed, same⟩
  rw [same]
  exact joined.of_names rfl (remove_names _ removed)

theorem destroy (joined : Joined shared) {channel : Channel}
    (completed : Channel.destroy shared channel = .ok next) : Joined next := by
  rcases Channel.destroy_ok completed with ⟨_, same⟩ | ⟨consumer, cmptr, _, removed, same⟩
  all_goals rw [same]
  · exact joined
  · exact joined.of_names rfl (remove_names _ removed)

/-- Every request keeps the invariant, with its statement on `queue_table`
taking effect. -/
theorem handle [Protobuf] (joined : Joined shared) {channel : Channel} {chance : Chance}
    {request : Request} {result : Bool × Channel × Shared}
    (effective : chance.sql.queueTable = true)
    (completed : channel.handle shared chance request world = .ok result after) :
    Joined result.2.2 := by
  cases request with
  | declareExchange exchange =>
      cases completed
      exact joined.declareExchange exchange
  | deleteExchange exchangeName =>
      cases completed
      exact joined.deleteExchange exchangeName
  | declareQueue queue =>
      rcases bind_eq_ok completed with ⟨done, middle, called, rest⟩
      cases rest
      exact joined.declareQueue effective called
  | deleteQueue queueName =>
      rcases bind_eq_ok completed with ⟨done, middle, called, rest⟩
      cases rest
      exact joined.deleteQueue effective called
  | queueBind exchangeName queueName bindingKey =>
      cases completed
      exact joined.queueBind exchangeName queueName bindingKey
  | queueUnbind exchangeName queueName =>
      cases completed
      exact joined.queueUnbind exchangeName queueName
  | basicPublish exchangeName properties body =>
      rcases bind_eq_ok completed with ⟨done, middle, called, rest⟩
      cases rest
      exact joined.basicPublish called
  | basicAck queueName messageId =>
      rcases bind_eq_ok completed with ⟨done, middle, called, rest⟩
      cases rest
      exact joined.basicAck called
  | basicConsume consumerTag queueName autoAck =>
      cases completed
      exact joined.basicConsume channel consumerTag queueName autoAck
  | basicCancel consumerTag queueName =>
      rcases bind_eq_ok completed with ⟨done, middle, called, rest⟩
      cases rest
      exact joined.basicCancel (ofExcept_eq_ok called).1

end Requests

end Joined

namespace Server

/-- The statements on `queue_table` take effect. -/
def Event.QueueTableEffective (event : Event) : Prop :=
  match event.action with
  | .packet _ chance _ => chance.sql.queueTable = true
  | _ => True

theorem joined_step [Protobuf] {site next : Site} {event : Event}
    (joined : Joined site.server.shared) (effective : event.QueueTableEffective)
    (stepped : perform site event = .ok next) : Joined next.server.shared := by
  rcases event with ⟨action, script⟩
  cases action with
  | connect conn =>
      cases stepped
      exact joined
  | disconnect conn =>
      rcases except_map_eq_ok stepped with ⟨server, completed, same⟩
      rw [← same]
      exact deleteConnection_keeps (fun _ _ _ held destroyed => held.destroy destroyed) joined
        completed
  | packet conn chance packet =>
      rcases except_map_eq_ok stepped with ⟨done, completed, same⟩
      rcases performed_eq_ok completed with ⟨world, ran, _⟩
      rw [← same]
      exact handle_keeps (fun _ held => held.of_names rfl rfl)
        (fun _ _ _ held destroyed => held.destroy destroyed)
        (fun _ _ _ held handled => held.handle effective handled) joined ran

/-- From an empty database on, the managers agree after every request. -/
theorem agreed_throughout [Protobuf] (basedir : Bytes) (disk : Disk) (events : List Event)
    (effective : ∀ event ∈ events, event.QueueTableEffective) :
    Throughout perform (fun site => Agreed site.server.shared) ⟨fresh basedir, disk⟩ events := by
  have start : Joined (fresh basedir).shared := by
    refine ⟨⟨fun qname => ?_, fun qname => ?_, fun ename qname binding found => (nomatch found)⟩,
      MsgQueueManager.tracked_new fun name row stored => (nomatch stored)⟩
    · exact ⟨fun member => (nomatch member), fun member => (nomatch member)⟩
    · exact ⟨fun member => (nomatch member), fun member => (nomatch member)⟩
  have sound : ∀ site : Site, Joined site.server.shared → Agreed site.server.shared :=
    fun site joined => joined.agreed
  apply throughout_of_along sound
    (fun _ _ _ joined meets stepped => joined_step joined meets stepped) start
  exact along_of_forall effective

/-- A client declares an exchange and a queue, binds them, with the statement on
`binding_table` failing, and deletes the queue. -/
def declaringAndDeleting : List Event :=
  [⟨.connect 0, []⟩, ⟨.packet 0 {} (.openChannel [] (ascii "c")), []⟩,
    ⟨.packet 0 {} (.request [] (ascii "c") (.declareQueue ⟨ascii "q", true, false, false, ∅⟩)), []⟩,
    ⟨.packet 0 {} (.request [] (ascii "c")
      (.declareExchange ⟨ascii "e", .direct, .durable, false, ∅⟩)), []⟩,
    ⟨.packet 0 { sql := { bindingTable := false } } (.request [] (ascii "c")
      (.queueBind (ascii "e") (ascii "q") (ascii "k"))), []⟩,
    ⟨.packet 0 {} (.request [] (ascii "c") (.deleteQueue (ascii "q"))), []⟩]

theorem agreed_while_declaring :
    Throughout (@perform wireFormat) (fun site => Agreed site.server.shared)
      ⟨fresh [], fun _ => none⟩ declaringAndDeleting := by
  refine @agreed_throughout wireFormat [] (fun _ => none) declaringAndDeleting ?_
  intro event member
  simp only [declaringAndDeleting, List.mem_cons, List.not_mem_nil, or_false] at member
  rcases member with rfl | rfl | rfl | rfl | rfl | rfl <;> trivial

end Server

end ProtobufMq
