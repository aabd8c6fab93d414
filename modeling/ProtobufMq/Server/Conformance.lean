import ProtobufMq.Foundation.Specification
import ProtobufMq.Server.Publish
import ProtobufMq.Server.View

namespace ProtobufMq

open Foundation

/-!
# The server shows what its specification allows

Every request changes the maps of the managers, and the open channels, as the
specification says, and is answered as it says; and so does a restart.  This
holds whatever statements and file operations fail, unless the program stops.
-/

/-! ## Requests -/

namespace VirtualHost

/-- The host as its clients may know it. -/
def broker (host : VirtualHost) (sessions : Nat → Option (Bytes → Bool)) : Broker :=
  ⟨host.emptr.view, host.qmptr.view, host.bmptr.view, host.bmptr.grouped, sessions⟩

section Calls

variable {host : VirtualHost} (sql : SqlOutcome) (sessions : Nat → Option (Bytes → Bool))

theorem broker_deleteExchange (name : Bytes) :
    (host.broker sessions).deleteExchange sql name =
      ((host.deleteExchange sql name).1, (host.deleteExchange sql name).2.broker sessions) := by
  have ungrouped : (host.broker sessions).ungrouped sql.bindingTable name =
      { host with bmptr := host.bmptr.removeExchangeBindings sql.bindingTable name }.broker
        sessions :=
    Broker.ext rfl rfl (BindingManager.view_removeExchangeBindings name).symm
      (BindingManager.grouped_removeExchangeBindings name).symm rfl
  rw [Broker.deleteExchange, ungrouped]
  exact ExchangeManager.view_delete
    ({ host with bmptr := host.bmptr.removeExchangeBindings sql.bindingTable name }.broker sessions)
    host.emptr name

theorem broker_unbound (name : Bytes) (mmptr : MessageManager) :
    (host.broker sessions).unbound (fun pair => pair.2 = name) sql.bindingTable =
      { host with
        bmptr := host.bmptr.removeMsgQueueBindings sql.bindingTable name
        mmptr := mmptr }.broker sessions :=
  Broker.ext rfl rfl (BindingManager.view_removeMsgQueueBindings name).symm
    (BindingManager.grouped_removeMsgQueueBindings name).symm rfl

theorem broker_deleteQueue (tracked : host.qmptr.Tracked) (name : Bytes) (mmptr : MessageManager) :
    (host.broker sessions).deleteQueue sql name =
      ((host.qmptr.deleteQueue sql.queueTable name).1,
        { host with
          qmptr := (host.qmptr.deleteQueue sql.queueTable name).2
          bmptr := host.bmptr.removeMsgQueueBindings sql.bindingTable name
          mmptr := mmptr }.broker sessions) := by
  rw [Broker.deleteQueue, broker_unbound sql sessions name mmptr]
  exact MsgQueueManager.view_delete
    ({ host with
      bmptr := host.bmptr.removeMsgQueueBindings sql.bindingTable name
      mmptr := mmptr }.broker sessions) tracked name

theorem broker_unBind (ename qname : Bytes) :
    (host.broker sessions).queueUnbind sql.bindingTable ename qname =
      (host.unBind sql ename qname).broker sessions :=
  Broker.ext rfl rfl (BindingManager.view_unBind ename qname).symm
    (BindingManager.grouped_unBind ename qname).symm rfl

theorem broker_bind (ename qname key : Bytes) :
    (host.broker sessions).queueBind sql.bindingTable ename qname key =
      ((host.bind sql ename qname key).1, (host.bind sql ename qname key).2.broker sessions) := by
  have exchanges : (host.broker sessions).exchanges.current ename =
      host.emptr.exchanges.lookup ename := rfl
  have queues : (host.broker sessions).queues.current qname =
      host.qmptr.msgQueues.lookup qname := rfl
  have bindings : (host.broker sessions).bindings = host.bmptr.view := rfl
  simp only [Broker.queueBind, exchanges, queues, bindings]
  rcases host.bind_cases sql ename qname key with ⟨missing, same⟩ |
    ⟨exchange, queue, exchangeFound, queueFound, same⟩
  · rw [same]
    rcases missing with noExchange | noQueue
    · rw [AList.lookup_eq_none.mpr noExchange]
    · rw [AList.lookup_eq_none.mpr noQueue]
      cases host.emptr.exchanges.lookup ename <;> rfl
  · have bound := @BindingManager.view_bind host.bmptr sql.bindingTable ename qname key
      (bindsDurably exchange queue)
    rw [same, exchangeFound, queueFound]
    simp only
    split_ifs at bound ⊢
    all_goals
      rw [Prod.ext_iff, Prod.ext_iff] at bound
      exact Prod.ext bound.1.symm (Broker.ext rfl rfl bound.2.1.symm bound.2.2.symm rfl)

/-- The constructor finds what lasts. -/
theorem broker_new [Protobuf] {basedir : Bytes} {world after : World} {next : VirtualHost}
    (tracked : host.qmptr.Tracked) (completed : new host.database basedir world = .ok next after) :
    next.qmptr.Tracked ∧ next.broker (fun _ => none) = (host.broker sessions).restart := by
  rcases new_ok completed with ⟨mmptr, _, same⟩
  rw [same]
  refine ⟨MsgQueueManager.tracked_new fun name row stored => (tracked.row name row stored).1, ?_⟩
  exact Broker.ext (Recoverable.ofTable_restart _ _ _) (Recoverable.ofTable_restart _ _ _)
    (BindingManager.view_new _) (BindingManager.grouped_new _) rfl

end Calls

end VirtualHost

namespace Channel

/-- The maps and the tables are what they were. -/
structure Unchanged (shared next : Shared) : Prop where
  exchanges : next.host.emptr = shared.host.emptr
  queues : next.host.qmptr = shared.host.qmptr
  bindings : next.host.bmptr = shared.host.bmptr

namespace Unchanged

variable {shared middle next : Shared}

theorem trans (first : Unchanged shared middle) (second : Unchanged middle next) :
    Unchanged shared next :=
  ⟨second.exchanges.trans first.exchanges, second.queues.trans first.queues,
    second.bindings.trans first.bindings⟩

theorem tracked (unchanged : Unchanged shared next) (tracked : shared.host.qmptr.Tracked) :
    next.host.qmptr.Tracked := by
  rw [unchanged.queues]
  exact tracked

theorem broker (unchanged : Unchanged shared next) (sessions : Nat → Option (Bytes → Bool)) :
    next.host.broker sessions = shared.host.broker sessions := by
  rw [VirtualHost.broker, unchanged.exchanges, unchanged.queues, unchanged.bindings,
    VirtualHost.broker]

end Unchanged

section Loop

variable {address : Nat} {publication : Publication} {shared next : Shared} {world after : World}

/-- Putting a message into a queue does not concern them. -/
theorem unchanged_basicPublish {qname uuid body : Bytes} {properties : Option BasecProperties}
    {published : Bool × VirtualHost}
    (called : shared.host.basicPublish qname properties uuid body world = .ok published after) :
    Unchanged shared { shared with host := published.2 } := by
  rcases VirtualHost.basicPublish_ok called with ⟨_, nothing, _⟩ | ⟨queue, inserted, _, _, stored⟩
  · rw [nothing]
    exact ⟨rfl, rfl, rfl⟩
  · rw [stored]
    exact ⟨rfl, rfl, rfl⟩

/-- A turn pushes a task if the router accepts the binding. -/
theorem publishTurn_pushes {mqb : Bytes × Binding}
    (completed : publishTurn address publication shared mqb world = .ok next after) :
    Unchanged shared next ∧ next.pool =
      shared.pool ++ if publication.selects mqb.2 then [⟨address, mqb.1⟩] else [] := by
  rcases publishTurn_ok completed with ⟨routed, same, _⟩ | ⟨routed, published, called, same⟩
  · have skipped : publication.selects mqb.2 = false := by rw [Publication.selects, routed]
    rw [same, skipped, if_neg Bool.false_ne_true, List.append_nil]
    exact ⟨⟨rfl, rfl, rfl⟩, rfl⟩
  · have selected : publication.selects mqb.2 = true := by rw [Publication.selects, routed]
    rw [same, selected, if_pos rfl]
    have unchanged := unchanged_basicPublish called
    exact ⟨⟨unchanged.exchanges, unchanged.queues, unchanged.bindings⟩, rfl⟩

/-- The loop pushes a task for every binding that the router accepts, in its order. -/
theorem publishLoop_pushes {mqbs : List (Bytes × Binding)}
    (completed : mqbs.foldlM (publishTurn address publication) shared world = .ok next after) :
    Unchanged shared next ∧ next.pool = shared.pool ++
      (mqbs.filter fun mqb => publication.selects mqb.2).map fun mqb => ⟨address, mqb.1⟩ := by
  induction mqbs generalizing shared world with
  | nil =>
      cases completed
      exact ⟨⟨rfl, rfl, rfl⟩, (List.append_nil _).symm⟩
  | cons mqb rest inductionHypothesis =>
      rw [List.foldlM_cons] at completed
      rcases bind_eq_ok completed with ⟨turned, middle, first, continued⟩
      rcases publishTurn_pushes first with ⟨unchanged, pushed⟩
      rcases inductionHypothesis continued with ⟨later, onward⟩
      refine ⟨unchanged.trans later, ?_⟩
      rw [onward, pushed, List.append_assoc, List.filter_cons]
      by_cases selected : publication.selects mqb.2 = true
      · rw [if_pos selected, if_pos selected, List.map_cons, List.singleton_append]
      · rw [if_neg selected, if_neg selected, List.nil_append]

end Loop

namespace Publication

variable (publication : Publication)

theorem selects_iff {binding : Binding} : publication.selects binding = true ↔
    Router.route publication.type binding.bindingKey (rotingKeyOf publication.properties) =
      .ok true := by
  unfold selects
  cases Router.route publication.type binding.bindingKey (rotingKeyOf publication.properties) with
  | error fault => exact iff_of_false Bool.false_ne_true (fun impossible => (nomatch impossible))
  | ok accepted => exact ⟨fun yes => congrArg Except.ok yes, Except.ok.inj⟩

variable (traversal : Traversal) (bound : MsgQueueBindingMap)

/-- The queues whose bindings the router accepts, in the order of the loop. -/
def selected : List Bytes :=
  ((traversal.order (MsgQueueBindingMap.pairs bound)).filter fun mqb =>
    publication.selects mqb.2).map Prod.fst

theorem selected_nodup : (publication.selected traversal bound).Nodup := by
  have perm := traversal.perm (MsgQueueBindingMap.pairs bound)
  have nodup := (perm.map Prod.fst).nodup_iff.mpr (MsgQueueBindingMap.pairs_names_nodup bound)
  exact nodup.sublist (List.filter_sublist.map Prod.fst)

theorem mem_selected {qname : Bytes} : qname ∈ publication.selected traversal bound ↔
    ∃ binding, bound.lookup qname = some binding ∧ publication.selects binding = true := by
  have perm := traversal.perm (MsgQueueBindingMap.pairs bound)
  rw [selected, List.mem_map]
  constructor
  · rintro ⟨⟨name, binding⟩, member, same⟩
    rcases List.mem_filter.mp member with ⟨listed, accepted⟩
    cases same
    exact ⟨binding, MsgQueueBindingMap.mem_pairs.mp (perm.mem_iff.mp listed), accepted⟩
  · rintro ⟨binding, found, accepted⟩
    refine ⟨(qname, binding), List.mem_filter.mpr ⟨?_, accepted⟩, rfl⟩
    exact perm.mem_iff.mpr (MsgQueueBindingMap.mem_pairs.mpr found)

end Publication

section Requests

variable {channel : Channel} {shared : Shared} {chance : Chance} {world after : World}

/-- A publish is answered by whether its exchange is there. -/
theorem basicPublish_answers {exchangeName body : Bytes} {properties : Option BasecProperties}
    {done : Bool × Shared} (completed : basicPublish channel.address shared chance exchangeName
      properties body world = .ok done after) :
    Unchanged shared done.2 ∧ done.1 = (shared.host.selectExchange exchangeName).isSome := by
  rcases done with ⟨accepted, next⟩
  rcases basicPublish_ok completed with ⟨absent, refused, same, _⟩ |
    ⟨exchange, selected, confirmed, looped⟩
  · rw [same, refused, absent]
    exact ⟨⟨rfl, rfl, rfl⟩, rfl⟩
  · rw [confirmed, selected]
    exact ⟨(publishLoop_pushes looped).1, rfl⟩

/-- Every request is answered as it is specified. -/
theorem answers [Protobuf] {request : Request} {result : Bool × Channel × Shared}
    (sessions : Nat → Option (Bytes → Bool)) (tracked : shared.host.qmptr.Tracked)
    (handled : channel.handle shared chance request world = .ok result after) :
    result.2.2.host.qmptr.Tracked ∧ (shared.host.broker sessions).answer chance.sql request =
      (result.1, result.2.2.host.broker sessions) := by
  cases request with
  | declareExchange exchange =>
      cases handled
      exact ⟨tracked,
        ExchangeManager.view_declare (shared.host.broker sessions) shared.host.emptr exchange⟩
  | deleteExchange exchangeName =>
      cases handled
      exact ⟨tracked, VirtualHost.broker_deleteExchange chance.sql sessions exchangeName⟩
  | declareQueue queue =>
      rcases bind_eq_ok handled with ⟨⟨accepted, next⟩, middle, called, returned⟩
      cases returned
      rcases declareQueue_ok called with ⟨mmptr, _, answered, same⟩
      rw [answered, same]
      exact ⟨MsgQueueManager.tracked_declareQueue tracked queue,
        MsgQueueManager.view_declare (shared.host.broker sessions) tracked queue⟩
  | deleteQueue queueName =>
      rcases bind_eq_ok handled with ⟨⟨accepted, next⟩, middle, called, returned⟩
      cases returned
      rcases deleteQueue_ok called with ⟨mmptr, _, answered, same⟩
      rw [answered, same]
      exact ⟨MsgQueueManager.tracked_deleteQueue tracked queueName,
        VirtualHost.broker_deleteQueue chance.sql sessions tracked queueName mmptr⟩
  | queueBind exchangeName queueName bindingKey =>
      cases handled
      refine ⟨?_, VirtualHost.broker_bind chance.sql sessions exchangeName queueName bindingKey⟩
      rcases shared.host.bind_cases chance.sql exchangeName queueName bindingKey with
        ⟨_, same⟩ | ⟨exchange, queue, _, _, same⟩
      · simp only [queueBind, same]
        exact tracked
      · simp only [queueBind, same]
        exact tracked
  | queueUnbind exchangeName queueName =>
      cases handled
      exact ⟨tracked, Prod.ext rfl
        (VirtualHost.broker_unBind chance.sql sessions exchangeName queueName)⟩
  | basicPublish exchangeName properties body =>
      rcases bind_eq_ok handled with ⟨done, middle, called, returned⟩
      cases returned
      rcases basicPublish_answers called with ⟨unchanged, answered⟩
      refine ⟨unchanged.tracked tracked, ?_⟩
      rw [unchanged.broker, answered]
      rfl
  | basicAck queueName messageId =>
      rcases bind_eq_ok handled with ⟨next, middle, called, returned⟩
      rcases bind_eq_ok called with ⟨host, last, acknowledged, rest⟩
      rcases bind_eq_ok acknowledged with ⟨mmptr, left, removed, made⟩
      cases returned
      cases rest
      cases made
      exact ⟨tracked, rfl⟩
  | basicConsume consumerTag queueName autoAck =>
      cases handled
      have answered : (shared.host.broker sessions).answer chance.sql
          (.basicConsume consumerTag queueName autoAck) =
            (shared.host.existsQueue queueName, shared.host.broker sessions) := rfl
      rw [answered, basicConsume]
      cases shared.host.existsQueue queueName with
      | true => exact ⟨tracked, rfl⟩
      | false => exact ⟨tracked, rfl⟩
  | basicCancel consumerTag queueName =>
      rcases bind_eq_ok handled with ⟨done, middle, called, returned⟩
      cases returned
      rcases basicCancel_ok (ofExcept_eq_ok called).1 with ⟨cmptr, _, same⟩
      rw [same]
      exact ⟨tracked, rfl⟩

/-- The loop pushes for the queues that a publish reaches. -/
theorem mem_selected_iff {exchangeName body : Bytes} {properties : Option BasecProperties}
    {exchange : Exchange} (sessions : Nat → Option (Bytes → Bool))
    (found : shared.host.selectExchange exchangeName = some exchange) (qname : Bytes) :
    qname ∈ Publication.selected ⟨exchange.type, properties, body, chance.uuid⟩ chance.traversal
        (shared.host.exchangeBindings exchangeName) ↔
      (shared.host.broker sessions).Reaches qname (.basicPublish exchangeName properties body) := by
  have there : (shared.host.broker sessions).exchanges.current exchangeName = some exchange := found
  have bound : (shared.host.broker sessions).bindings.current (exchangeName, qname) =
      ((shared.host.exchangeBindings exchangeName).lookup qname).map Binding.bindingKey :=
    congrArg (Option.map Binding.bindingKey) (BindingManager.getBinding_eq _ _ _)
  rw [Publication.mem_selected]
  constructor
  · rintro ⟨binding, stored, accepted⟩
    exact ⟨exchange, binding.bindingKey, there, by rw [bound, stored]; rfl,
      (Publication.selects_iff _).mp accepted⟩
  · rintro ⟨other, bindingKey, otherFound, boundTo, routed⟩
    cases there.symm.trans otherFound
    rcases Option.map_eq_some_iff.mp (bound.symm.trans boundTo) with ⟨binding, stored, same⟩
    rw [← same] at routed
    exact ⟨binding, stored, (Publication.selects_iff _).mpr routed⟩

/-- A publish to an exchange that is not there reaches no queue. -/
theorem not_reaches {exchangeName body : Bytes} {properties : Option BasecProperties}
    (sessions : Nat → Option (Bytes → Bool))
    (absent : shared.host.selectExchange exchangeName = none) (qname : Bytes) :
    ¬ (shared.host.broker sessions).Reaches qname (.basicPublish exchangeName properties body) := by
  have nothing : (shared.host.broker sessions).exchanges.current exchangeName = none := absent
  rintro ⟨exchange, bindingKey, found, _⟩
  cases nothing.symm.trans found

/-- Every request pushes a task for each queue that it reaches, and for no other. -/
theorem pushes [Protobuf] {request : Request} {result : Bool × Channel × Shared}
    (sessions : Nat → Option (Bytes → Bool))
    (handled : channel.handle shared chance request world = .ok result after) :
    ∃ names : List Bytes, names.Nodup ∧
      result.2.2.pool = shared.pool ++ names.map (⟨channel.address, ·⟩) ∧
      ∀ qname, qname ∈ names ↔ (shared.host.broker sessions).Reaches qname request := by
  have quiet : ∀ next : Shared, next.pool = shared.pool →
      (∀ qname, ¬ (shared.host.broker sessions).Reaches qname request) →
      ∃ names : List Bytes, names.Nodup ∧
        next.pool = shared.pool ++ names.map (⟨channel.address, ·⟩) ∧
        ∀ qname, qname ∈ names ↔ (shared.host.broker sessions).Reaches qname request :=
    fun next same reaches => ⟨[], List.nodup_nil, by rw [same, List.map_nil, List.append_nil],
      fun qname => iff_of_false List.not_mem_nil (reaches qname)⟩
  cases request with
  | declareExchange exchange =>
      cases handled
      exact quiet _ rfl fun _ => id
  | deleteExchange exchangeName =>
      cases handled
      exact quiet _ rfl fun _ => id
  | declareQueue queue =>
      rcases bind_eq_ok handled with ⟨⟨accepted, next⟩, middle, called, returned⟩
      cases returned
      rcases declareQueue_ok called with ⟨mmptr, _, _, same⟩
      exact quiet next (by rw [same]) fun _ => id
  | deleteQueue queueName =>
      rcases bind_eq_ok handled with ⟨⟨accepted, next⟩, middle, called, returned⟩
      cases returned
      rcases deleteQueue_ok called with ⟨mmptr, _, _, same⟩
      exact quiet next (by rw [same]) fun _ => id
  | queueBind exchangeName queueName bindingKey =>
      cases handled
      exact quiet _ rfl fun _ => id
  | queueUnbind exchangeName queueName =>
      cases handled
      exact quiet _ rfl fun _ => id
  | basicPublish exchangeName properties body =>
      rcases bind_eq_ok handled with ⟨⟨accepted, next⟩, middle, called, returned⟩
      cases returned
      rcases basicPublish_ok called with ⟨absent, _, same, _⟩ | ⟨exchange, selected, _, looped⟩
      · exact quiet next (by rw [same]) (not_reaches sessions absent)
      · let publication : Publication := ⟨exchange.type, properties, body, chance.uuid⟩
        refine ⟨publication.selected chance.traversal (shared.host.exchangeBindings exchangeName),
          publication.selected_nodup _ _, ?_, mem_selected_iff sessions selected⟩
        rw [Publication.selected, List.map_map]
        exact (publishLoop_pushes looped).2
  | basicAck queueName messageId =>
      rcases bind_eq_ok handled with ⟨next, middle, called, returned⟩
      rcases bind_eq_ok called with ⟨host, last, acknowledged, rest⟩
      cases returned
      cases rest
      exact quiet _ rfl fun _ => id
  | basicConsume consumerTag queueName autoAck =>
      cases handled
      refine quiet _ ?_ fun _ => id
      rw [basicConsume]
      cases shared.host.existsQueue queueName <;> rfl
  | basicCancel consumerTag queueName =>
      rcases bind_eq_ok handled with ⟨done, middle, called, returned⟩
      cases returned
      rcases basicCancel_ok (ofExcept_eq_ok called).1 with ⟨cmptr, _, same⟩
      rw [same]
      exact quiet _ rfl fun _ => id

end Requests

end Channel

/-! ## Channels and connections -/

namespace Connection

/-- A channel is open under this id. -/
def isOpen (connection : Connection) (cid : Bytes) : Bool :=
  (connection.channels.lookup cid).isSome

variable (connection : Connection) (cid : Bytes) (channel : Channel)

theorem isOpen_insert : isOpen ⟨connection.channels.insert cid channel⟩ =
    Function.update connection.isOpen cid true := by
  funext other
  rw [isOpen, Dictionary.lookup_insert, Function.update_apply]
  by_cases same : other = cid
  · rw [if_pos same, if_pos same, Option.isSome_some]
  · rw [if_neg same, if_neg same, isOpen]

theorem isOpen_erase : isOpen ⟨connection.channels.erase cid⟩ =
    Function.update connection.isOpen cid false := by
  funext other
  rw [isOpen, Dictionary.lookup_erase, Function.update_apply]
  by_cases same : other = cid
  · rw [if_pos same, if_pos same, Option.isSome_none]
  · rw [if_neg same, if_neg same, isOpen]

/-- Writing a channel back opens none. -/
theorem isOpen_assign {before : Channel} (opened : connection.channels.lookup cid = some before) :
    isOpen ⟨Dictionary.assign cid channel connection.channels⟩ = connection.isOpen := by
  funext other
  rw [isOpen, Dictionary.lookup_assign, isOpen]
  by_cases same : other = cid
  · rw [if_pos same, same, opened, Option.isSome_some, Option.isSome_some]
  · rw [if_neg same]

end Connection

namespace Server

/-- The open channels of each connection. -/
def sessions (server : Server) (conn : Nat) : Option (Bytes → Bool) :=
  (server.connections.lookup conn).map Connection.isOpen

/-- The server as its clients may know it. -/
def broker (server : Server) : Broker :=
  server.shared.host.broker server.sessions

section Sessions

variable {server : Server} {conn : Nat} {connection : Connection} {shared : Shared}

theorem sessions_assign (server : Server) (conn : Nat) (connection : Connection) (shared : Shared) :
    sessions ⟨shared, Dictionary.assign conn connection server.connections⟩ =
      Function.update server.sessions conn (some connection.isOpen) := by
  funext other
  rw [sessions, Dictionary.lookup_assign, Function.update_apply]
  by_cases same : other = conn
  · rw [if_pos same, if_pos same, Option.map_some]
  · rw [if_neg same, if_neg same, sessions]

theorem sessions_erase (server : Server) (conn : Nat) (shared : Shared) :
    sessions ⟨shared, server.connections.erase conn⟩ =
      Function.update server.sessions conn none := by
  funext other
  rw [sessions, Dictionary.lookup_erase, Function.update_apply]
  by_cases same : other = conn
  · rw [if_pos same, if_pos same, Option.map_none]
  · rw [if_neg same, if_neg same, sessions]

/-- A new connection has no channel; a known one keeps its channels. -/
theorem broker_newConnection (server : Server) (conn : Nat) :
    (server.newConnection conn).broker = server.broker.connect conn := by
  refine Broker.ext rfl rfl rfl rfl ?_
  funext other
  change ((Dictionary.insertNew conn {} server.connections).lookup other).map Connection.isOpen =
    Function.update server.sessions conn (some ((server.sessions conn).getD fun _ => false)) other
  rw [Dictionary.lookup_insertNew, Function.update_apply, sessions]
  by_cases same : other = conn
  · rw [if_pos same, if_pos same, Option.map_some]
    cases server.connections.lookup conn <;> rfl
  · rw [if_neg same, if_neg same, sessions]

/-- Destroying a channel changes no map. -/
theorem destroy_unchanged {channel : Channel} {next : Shared}
    (destroyed : Channel.destroy shared channel = .ok next) :
    Channel.Unchanged shared next ∧ next.pool = shared.pool := by
  rcases Channel.destroy_ok destroyed with ⟨_, same⟩ | ⟨consumer, cmptr, _, _, same⟩
  · rw [same]
    exact ⟨⟨rfl, rfl, rfl⟩, rfl⟩
  · rw [same]
    exact ⟨⟨rfl, rfl, rfl⟩, rfl⟩

/-- A connection that is not there has no session to end. -/
theorem broker_withSession_none (absent : server.connections.lookup conn = none) :
    server.broker.withSession conn none = server.broker := by
  refine Broker.ext rfl rfl rfl rfl (Function.update_eq_self_iff.mpr ?_)
  change none = server.sessions conn
  rw [sessions, absent, Option.map_none]

end Sessions

section Packets

variable {server : Server} {conn : Nat} {connection : Connection} {cid : Bytes}

theorem broker_withSession_self (connected : server.connections.lookup conn = some connection) :
    server.broker.withSession conn (some connection.isOpen) = server.broker := by
  refine Broker.ext rfl rfl rfl rfl (Function.update_eq_self_iff.mpr ?_)
  change some connection.isOpen = server.sessions conn
  rw [sessions, connected, Option.map_some]

/-- The open channels of the specification are those of the server. -/
theorem session_iff (server : Server) (conn : Nat) (cid : Bytes) :
    (∃ isOpen, server.broker.sessions conn = some isOpen ∧ isOpen cid = true) ↔
      ∃ channel, server.channelAt conn cid = some channel := by
  have session : server.broker.sessions conn =
      (server.connections.lookup conn).map Connection.isOpen := rfl
  rw [session, channelAt]
  cases server.connections.lookup conn with
  | none =>
      constructor
      · rintro ⟨isOpen, absent, opened⟩
        cases absent
      · rintro ⟨channel, absent⟩
        cases absent
  | some connection =>
      rw [Option.map_some, Option.bind_some, ← Option.isSome_iff_exists]
      constructor
      · rintro ⟨isOpen, same, opened⟩
        cases same
        exact opened
      · exact fun opened => ⟨connection.isOpen, rfl, opened⟩

/-- A request for an open channel gets the answer of the specification. -/
theorem reply_request {channel : Channel} (opened : server.channelAt conn cid = some channel)
    (sql : SqlOutcome) (rid : Bytes) (request : Request) :
    server.broker.reply conn sql (.request rid cid request) =
      (.response rid cid (server.broker.answer sql request).1,
        (server.broker.answer sql request).2) := by
  rcases (session_iff server conn cid).mpr ⟨channel, opened⟩ with ⟨isOpen, session, there⟩
  simp only [Broker.reply, session, there, if_true]

theorem broker_openChannel (connected : server.connections.lookup conn = some connection)
    (cid : Bytes) :
    Channel.Unchanged server.shared (server.openChannel conn connection cid).2.shared ∧
      (server.openChannel conn connection cid).2.shared.pool = server.shared.pool ∧
      (server.openChannel conn connection cid).1 = !connection.isOpen cid ∧
      (server.openChannel conn connection cid).2.broker =
        server.broker.withSession conn (some (Function.update connection.isOpen cid true)) := by
  unfold openChannel
  cases opened : connection.channels.lookup cid with
  | some channel =>
      have isOpen : connection.isOpen cid = true := by
        rw [Connection.isOpen, opened, Option.isSome_some]
      rw [Function.update_eq_self_iff.mpr isOpen.symm, broker_withSession_self connected, isOpen]
      exact ⟨⟨rfl, rfl, rfl⟩, rfl, rfl, rfl⟩
  | none =>
      have isClosed : connection.isOpen cid = false := by
        rw [Connection.isOpen, opened, Option.isSome_none]
      rw [broker, sessions_assign, Connection.isOpen_insert, isClosed]
      exact ⟨⟨rfl, rfl, rfl⟩, rfl, rfl, rfl⟩

theorem broker_closeChannel (connected : server.connections.lookup conn = some connection)
    {closed : Bool × Server} (closes : server.closeChannel conn connection cid = .ok closed) :
    Channel.Unchanged server.shared closed.2.shared ∧
      closed.2.shared.pool = server.shared.pool ∧ closed.1 = connection.isOpen cid ∧
      closed.2.broker =
        server.broker.withSession conn (some (Function.update connection.isOpen cid false)) := by
  unfold closeChannel at closes
  cases opened : connection.channels.lookup cid with
  | none =>
      have isClosed : connection.isOpen cid = false := by
        rw [Connection.isOpen, opened, Option.isSome_none]
      rw [opened] at closes
      cases closes
      rw [Function.update_eq_self_iff.mpr isClosed.symm, broker_withSession_self connected,
        isClosed]
      exact ⟨⟨rfl, rfl, rfl⟩, rfl, rfl, rfl⟩
  | some channel =>
      have isOpen : connection.isOpen cid = true := by
        rw [Connection.isOpen, opened, Option.isSome_some]
      rw [opened] at closes
      rcases except_map_eq_ok closes with ⟨shared, destroyed, same⟩
      rcases destroy_unchanged destroyed with ⟨unchanged, pool⟩
      rw [← same, isOpen]
      refine ⟨unchanged, pool, rfl, ?_⟩
      rw [broker, sessions_assign, Connection.isOpen_erase, unchanged.broker]
      rfl

variable [Protobuf] {chance : Chance} {packet : Packet} {world after : World}
  {done : Reply × Server}

/-- Every packet gets the reply that is specified. -/
theorem replies (tracked : server.shared.host.qmptr.Tracked)
    (handled : server.handle conn chance packet world = .ok done after) :
    done.2.shared.host.qmptr.Tracked ∧
      server.broker.reply conn chance.sql packet = (done.1, done.2.broker) := by
  have session : server.broker.sessions conn =
      (server.connections.lookup conn).map Connection.isOpen := rfl
  unfold handle at handled
  cases connected : server.connections.lookup conn with
  | none =>
      rw [connected] at handled session
      cases handled
      refine ⟨tracked, ?_⟩
      rw [Broker.reply, session, Option.map_none]
  | some connection =>
      rw [connected, Option.map_some] at session
      rw [connected] at handled
      cases packet with
      | openChannel rid cid =>
          rcases broker_openChannel connected cid with ⟨unchanged, _, answered, opened⟩
          cases handled
          refine ⟨unchanged.tracked tracked, ?_⟩
          simp only [Broker.reply, session, ← answered, ← opened]
      | closeChannel rid cid =>
          rcases bind_eq_ok handled with ⟨closed, middle, closes, returned⟩
          cases returned
          rcases broker_closeChannel connected (ofExcept_eq_ok closes).1 with
            ⟨unchanged, _, answered, left⟩
          refine ⟨unchanged.tracked tracked, ?_⟩
          simp only [Broker.reply, session, ← answered, ← left]
      | request rid cid request =>
          simp only at handled
          cases opened : connection.channels.lookup cid with
          | none =>
              rw [opened] at handled
              cases handled
              refine ⟨tracked, ?_⟩
              simp only [Broker.reply, session, Connection.isOpen, opened, Option.isSome_none,
                Bool.false_eq_true, if_false]
          | some channel =>
              rw [opened] at handled
              rcases bind_eq_ok handled with ⟨result, middle, called, returned⟩
              cases returned
              rcases Channel.answers server.sessions tracked called with ⟨kept, answered⟩
              have same : sessions ⟨result.2.2, Dictionary.assign conn
                  ⟨Dictionary.assign cid result.2.1 connection.channels⟩ server.connections⟩ =
                    server.sessions := by
                rw [sessions_assign, Connection.isOpen_assign _ _ _ opened]
                refine Function.update_eq_self_iff.mpr ?_
                rw [sessions, connected, Option.map_some]
              refine ⟨kept, ?_⟩
              rw [reply_request ((channelAt_eq connected cid).trans opened), broker, answered,
                broker, same]

/-- A packet has messages pushed from the queues that it reaches, and from no other. -/
theorem shows (handled : server.handle conn chance packet world = .ok done after) :
    ∃ tasks, done.2.shared.pool = server.shared.pool ++ tasks ∧
      (tasks.map Task.queueName).Nodup ∧
      ∀ qname, qname ∈ tasks.map Task.queueName ↔ server.broker.Pushes conn qname packet := by
  have quiet : done.2.shared.pool = server.shared.pool →
      (∀ qname, ¬ server.broker.Pushes conn qname packet) →
      ∃ tasks, done.2.shared.pool = server.shared.pool ++ tasks ∧
        (tasks.map Task.queueName).Nodup ∧
        ∀ qname, qname ∈ tasks.map Task.queueName ↔ server.broker.Pushes conn qname packet :=
    fun same pushes => ⟨[], by rw [same, List.append_nil], List.nodup_nil,
      fun qname => iff_of_false List.not_mem_nil (pushes qname)⟩
  cases packet with
  | openChannel rid cid =>
      refine quiet ?_ fun _ => id
      rcases openChannel_ok handled with same | ⟨connection, connected, same⟩
      · rw [same]
      · rw [same]
        exact (broker_openChannel connected cid).2.1
  | closeChannel rid cid =>
      refine quiet ?_ fun _ => id
      rcases closeChannel_ok handled with same | ⟨connection, accepted, connected, closes⟩
      · rw [same]
      · exact (broker_closeChannel connected closes).2.1
  | request rid cid request =>
      rcases request_ok handled with ⟨absent, same, _⟩ |
        ⟨connection, channel, result, connected, opened, called, same⟩
      · refine quiet (by rw [same]) fun qname pushes => ?_
        rcases (session_iff server conn cid).mp pushes.1 with ⟨channel, opened⟩
        cases absent.symm.trans opened
      · rcases Channel.pushes server.sessions called with ⟨names, nodup, pool, reached⟩
        have listed : (names.map fun name => (⟨channel.address, name⟩ : Task)).map Task.queueName =
            names := by
          rw [List.map_map]
          exact List.map_id names
        refine ⟨_, ?_, listed.symm ▸ nodup, fun qname => ?_⟩
        · rw [same]
          exact pool
        · rw [listed, reached]
          refine (and_iff_right ?_).symm
          exact (session_iff server conn cid).mpr ⟨channel, (channelAt_eq connected cid).trans opened⟩

end Packets

/-! ## Whatever happens -/

section Runs

/-- Nothing is there at first. -/
theorem broker_fresh (basedir : Bytes) :
    (fresh basedir).shared.host.qmptr.Tracked ∧ (fresh basedir).broker = {} := by
  refine ⟨MsgQueueManager.tracked_new fun name row stored => (nomatch stored), ?_⟩
  refine Broker.ext rfl rfl rfl ?_ rfl
  ext ename
  exact iff_of_false (AList.notMem_empty ename) (Set.notMem_empty ename)

variable [Protobuf]

/-- The program that is started again keeps what lasts, and has no tasks. -/
theorem restarts {server : Server} {basedir : Bytes} {disk : Disk} {script : List Outcome}
    {done : Server × Disk} (tracked : server.shared.host.qmptr.Tracked)
    (started : performed (new server.shared.host.database basedir) disk script = .ok done) :
    done.1.shared.host.qmptr.Tracked ∧ done.1.broker = server.broker.restart ∧
      done.1.shared.pool = [] := by
  rcases done with ⟨again, left⟩
  rcases performed_eq_ok started with ⟨world, completed, _⟩
  rcases bind_eq_ok completed with ⟨host, middle, recovered, made⟩
  rcases VirtualHost.broker_new server.sessions tracked recovered with ⟨kept, restarted⟩
  cases made
  exact ⟨kept, restarted, rfl⟩

end Runs

end Server

end ProtobufMq
