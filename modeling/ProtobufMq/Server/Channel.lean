import ProtobufMq.Server.Consumer
import ProtobufMq.Server.Route
import ProtobufMq.Server.VirtualHost

namespace ProtobufMq

open Foundation

/-!
# `Channel`: the requests of a client

A channel carries out the requests of one client on the managers that all
channels share.  Its own state is the consumer it subscribed with, if any.

Publishing goes through the bindings of the exchange and pushes a task to the
pool for every queue that the router accepts; the task, when a worker of the
pool runs it, takes one message from the queue and gives it to one consumer.
The lambda of the task captures the `this` of the publishing channel, and the
callback of a consumer that of the subscribing one, so a channel has an address.
-/

/-- A task in the pool: `consume` for a queue, on the channel that pushed it. -/
structure Task where
  channel : Nat
  queueName : Bytes
  deriving DecidableEq, Repr

/-- What all channels share.  `pool` lists every task pushed so far, and
`allocated` gives the next channel or consumer its address. -/
structure Shared where
  host : VirtualHost
  cmptr : ConsumerManager := {}
  pool : List Task := []
  allocated : Nat := 0

/-- `Channel`. -/
structure Channel where
  address : Nat
  cid : Bytes
  consumer : Option Consumer := none
  deriving DecidableEq, Repr

/-- The requests that a channel carries out, without their ids. -/
inductive Request where
  | declareExchange (exchange : Exchange)
  | deleteExchange (exchangeName : Bytes)
  | declareQueue (queue : MsgQueue)
  | deleteQueue (queueName : Bytes)
  | queueBind (exchangeName queueName bindingKey : Bytes)
  | queueUnbind (exchangeName queueName : Bytes)
  | basicPublish (exchangeName : Bytes) (properties : Option BasecProperties) (body : Bytes)
  | basicAck (queueName messageId : Bytes)
  | basicConsume (consumerTag queueName : Bytes) (autoAck : Bool)
  | basicCancel (consumerTag queueName : Bytes)

/-- The order in which a map of bindings is iterated. -/
structure Traversal where
  order : List (Bytes × Binding) → List (Bytes × Binding)
  perm : ∀ bound, (order bound).Perm bound

/-- The bindings as they are listed. -/
def Traversal.listed : Traversal :=
  ⟨id, fun bound => List.Perm.refl bound⟩

/-- What a request does not decide itself: the statements that take effect, the
ids that are generated, the order of a map. -/
structure Chance where
  sql : SqlOutcome := {}
  uuid : Bytes → Bytes := fun _ => []
  traversal : Traversal := .listed

namespace MsgQueueBindingMap

/-- The pairs of a map of bindings. -/
def pairs (bound : MsgQueueBindingMap) : List (Bytes × Binding) :=
  bound.entries.map fun entry => (entry.1, entry.2)

theorem mem_pairs {bound : MsgQueueBindingMap} {qname : Bytes} {binding : Binding} :
    (qname, binding) ∈ pairs bound ↔ bound.lookup qname = some binding := by
  rw [pairs, List.mem_map]
  constructor
  · rintro ⟨⟨key, value⟩, member, same⟩
    cases same
    exact AList.mem_lookup_iff.mpr member
  · intro found
    exact ⟨⟨qname, binding⟩, AList.mem_lookup_iff.mp found, rfl⟩

theorem pairs_names_nodup (bound : MsgQueueBindingMap) : ((pairs bound).map Prod.fst).Nodup := by
  rw [pairs, List.map_map]
  exact bound.keys_nodup

end MsgQueueBindingMap

namespace Channel

/-- `Channel::declareExchange`. -/
def declareExchange (shared : Shared) (sql : SqlOutcome) (exchange : Exchange) : Bool × Shared :=
  let declared := shared.host.declareExchange sql exchange
  (declared.1, { shared with host := declared.2 })

/-- `Channel::deleteExchange`. -/
def deleteExchange (shared : Shared) (sql : SqlOutcome) (exchangeName : Bytes) : Bool × Shared :=
  let deleted := shared.host.deleteExchange sql exchangeName
  (deleted.1, { shared with host := deleted.2 })

/-- `Channel::declareQueue`. -/
def declareQueue [Protobuf] (shared : Shared) (sql : SqlOutcome) (queue : MsgQueue) :
    FileM (Bool × Shared) := do
  let declared ← shared.host.declareQueue sql queue
  if declared.1 then
    return (true, { shared with
      host := declared.2, cmptr := shared.cmptr.initQueueConsumer queue.name })
  else
    return (false, { shared with host := declared.2 })

/-- `Channel::deleteQueue`. -/
def deleteQueue (shared : Shared) (sql : SqlOutcome) (queueName : Bytes) :
    FileM (Bool × Shared) := do
  let deleted ← shared.host.deleteQueue sql queueName
  if deleted.1 then
    return (true, { shared with
      host := deleted.2, cmptr := shared.cmptr.destroyQueueConsumer queueName })
  else
    return (false, { shared with host := deleted.2 })

/-- `Channel::queueBind`. -/
def queueBind (shared : Shared) (sql : SqlOutcome) (exchangeName queueName bindingKey : Bytes) :
    Bool × Shared :=
  let bound := shared.host.bind sql exchangeName queueName bindingKey
  (bound.1, { shared with host := bound.2 })

/-- `Channel::queueUnbind`. -/
def queueUnbind (shared : Shared) (sql : SqlOutcome) (exchangeName queueName : Bytes) : Shared :=
  { shared with host := shared.host.unBind sql exchangeName queueName }

/-- The routing key of a published message. -/
def rotingKeyOf (properties : Option BasecProperties) : Bytes :=
  (properties.map BasecProperties.rotingKey).getD []

/-- What a publish request tells the loop over the bindings. -/
structure Publication where
  type : ExchangeType
  properties : Option BasecProperties
  body : Bytes
  uuid : Bytes → Bytes

/-- The first part of a turn of the loop of `basicPublish`: whether the router
accepts, and the message put into the queue if it does.  The result of the
insertion is not looked at. -/
def insertTurn (publication : Publication) (shared : Shared) (mqb : Bytes × Binding) :
    FileM (Bool × Shared) := do
  let accepted ← ofExcept (Router.route publication.type mqb.2.bindingKey
    (rotingKeyOf publication.properties))
  if accepted then
    let published ← shared.host.basicPublish mqb.1 publication.properties
      (publication.uuid mqb.1) publication.body
    return (true, { shared with host := published.2 })
  else
    return (false, shared)

/-- The second part of the turn, if the router accepted. -/
def pushTask (address : Nat) (shared : Shared) (queueName : Bytes) : Shared :=
  { shared with pool := shared.pool ++ [⟨address, queueName⟩] }

/-- One turn of the loop of `basicPublish`, when nothing else happens in between. -/
def publishTurn (address : Nat) (publication : Publication) (shared : Shared)
    (mqb : Bytes × Binding) : FileM Shared := do
  let inserted ← insertTurn publication shared mqb
  return if inserted.1 then pushTask address inserted.2 mqb.1 else inserted.2

/-- `Channel::basicPublish`. -/
def basicPublish (address : Nat) (shared : Shared) (chance : Chance) (exchangeName : Bytes)
    (properties : Option BasecProperties) (body : Bytes) : FileM (Bool × Shared) :=
  match shared.host.selectExchange exchangeName with
  | none => return (false, shared)
  | some exchange => do
      let shared ← (chance.traversal.order
          (MsgQueueBindingMap.pairs (shared.host.exchangeBindings exchangeName))).foldlM
        (publishTurn address ⟨exchange.type, properties, body, chance.uuid⟩) shared
      return (true, shared)

/-- `Channel::basicAck`. -/
def basicAck [Protobuf] (shared : Shared) (queueName messageId : Bytes) : FileM Shared := do
  let host ← shared.host.basicAck queueName messageId
  return { shared with host := host }

/-- `Channel::basicConsume`.  The consumer of before, if any, is overwritten. -/
def basicConsume (channel : Channel) (shared : Shared) (consumerTag queueName : Bytes)
    (autoAck : Bool) : Bool × Channel × Shared :=
  if shared.host.existsQueue queueName then
    let created := shared.cmptr.create
      ⟨shared.allocated, consumerTag, queueName, autoAck, channel.address⟩
    (true, { channel with consumer := created.1 },
      { shared with cmptr := created.2, allocated := shared.allocated + 1 })
  else
    (false, channel, shared)

/-- `Channel::basicCancel`.  The tag and the queue are those of the request. -/
def basicCancel (channel : Channel) (shared : Shared) (consumerTag queueName : Bytes) :
    Except Fault (Channel × Shared) := do
  let cmptr ← shared.cmptr.remove consumerTag queueName
  return ({ channel with consumer := none }, { shared with cmptr := cmptr })

/-- `Channel::~Channel`. -/
def destroy (shared : Shared) (channel : Channel) : Except Fault Shared :=
  match channel.consumer with
  | none => .ok shared
  | some consumer =>
      (shared.cmptr.remove consumer.tag consumer.qname).map fun cmptr =>
        { shared with cmptr := cmptr }

/-- `Channel::consume`, when nothing else happens in between: the message that
was taken, and the consumer that it was given to. -/
def consume [Protobuf] (shared : Shared) (queueName : Bytes) :
    FileM (Option (MessagePtr × Option Consumer) × Shared) := do
  let taken := shared.host.basicConsume queueName
  match taken.1 with
  | none => return (none, { shared with host := taken.2 })
  | some pointer =>
      let chosen := shared.cmptr.choose queueName
      let shared := { shared with host := taken.2, cmptr := chosen.2 }
      match chosen.1 with
      | none => return (some (pointer, none), shared)
      | some consumer =>
          if consumer.autoAck then
            let shared ← basicAck shared queueName pointer.id
            return (some (pointer, some consumer), shared)
          else
            return (some (pointer, some consumer), shared)

/-- Carry out a request: the reply, the channel and the managers afterwards. -/
def handle [Protobuf] (channel : Channel) (shared : Shared) (chance : Chance) :
    Request → FileM (Bool × Channel × Shared)
  | .declareExchange exchange =>
      let done := declareExchange shared chance.sql exchange
      return (done.1, channel, done.2)
  | .deleteExchange exchangeName =>
      let done := deleteExchange shared chance.sql exchangeName
      return (done.1, channel, done.2)
  | .declareQueue queue => do
      let done ← declareQueue shared chance.sql queue
      return (done.1, channel, done.2)
  | .deleteQueue queueName => do
      let done ← deleteQueue shared chance.sql queueName
      return (done.1, channel, done.2)
  | .queueBind exchangeName queueName bindingKey =>
      let done := queueBind shared chance.sql exchangeName queueName bindingKey
      return (done.1, channel, done.2)
  | .queueUnbind exchangeName queueName =>
      return (true, channel, queueUnbind shared chance.sql exchangeName queueName)
  | .basicPublish exchangeName properties body => do
      let done ← basicPublish channel.address shared chance exchangeName properties body
      return (done.1, channel, done.2)
  | .basicAck queueName messageId => do
      let shared ← basicAck shared queueName messageId
      return (true, channel, shared)
  | .basicConsume consumerTag queueName autoAck =>
      return basicConsume channel shared consumerTag queueName autoAck
  | .basicCancel consumerTag queueName => do
      let done ← ofExcept (basicCancel channel shared consumerTag queueName)
      return (true, done.1, done.2)

/-! ## What the requests can do -/

section Results

variable {shared next : Shared} {sql : SqlOutcome} {world after : World} {accepted : Bool}

/-- A declared queue has a unit if the declaration was accepted. -/
theorem declareQueue_ok [Protobuf] {queue : MsgQueue}
    (completed : declareQueue shared sql queue world = .ok (accepted, next) after) :
    ∃ mmptr, shared.host.mmptr.initQueueMessage queue.name world = .ok mmptr after ∧
      accepted = (shared.host.qmptr.declareQueue sql.queueTable queue).1 ∧
      next = { shared with
        host := { shared.host with
          qmptr := (shared.host.qmptr.declareQueue sql.queueTable queue).2, mmptr := mmptr }
        cmptr := if accepted then shared.cmptr.initQueueConsumer queue.name else shared.cmptr } := by
  rcases bind_eq_ok completed with ⟨⟨declared, host⟩, middle, called, rest⟩
  rcases VirtualHost.declareQueue_ok called with ⟨mmptr, initialised, declaredEq, hostEq⟩
  refine ⟨mmptr, ?_⟩
  cases declared with
  | true =>
      cases rest
      exact ⟨initialised, declaredEq, by rw [hostEq]; rfl⟩
  | false =>
      cases rest
      exact ⟨initialised, declaredEq, by rw [hostEq]; rfl⟩

/-- A deleted queue loses its unit if the deletion was accepted. -/
theorem deleteQueue_ok {queueName : Bytes}
    (completed : deleteQueue shared sql queueName world = .ok (accepted, next) after) :
    ∃ mmptr, shared.host.mmptr.destroyQueueMessage queueName world = .ok mmptr after ∧
      accepted = (shared.host.qmptr.deleteQueue sql.queueTable queueName).1 ∧
      next = { shared with
        host := { shared.host with
          qmptr := (shared.host.qmptr.deleteQueue sql.queueTable queueName).2
          bmptr := shared.host.bmptr.removeMsgQueueBindings sql.bindingTable queueName
          mmptr := mmptr }
        cmptr :=
          if accepted then shared.cmptr.destroyQueueConsumer queueName else shared.cmptr } := by
  rcases bind_eq_ok completed with ⟨⟨deleted, host⟩, middle, called, rest⟩
  rcases VirtualHost.deleteQueue_ok called with ⟨mmptr, destroyed, deletedEq, hostEq⟩
  refine ⟨mmptr, ?_⟩
  cases deleted with
  | true =>
      cases rest
      exact ⟨destroyed, deletedEq, by rw [hostEq]; rfl⟩
  | false =>
      cases rest
      exact ⟨destroyed, deletedEq, by rw [hostEq]; rfl⟩

/-- The first part of a turn leaves everything alone, or publishes to the queue of
the binding. -/
theorem insertTurn_ok {publication : Publication} {mqb : Bytes × Binding}
    {inserted : Bool × Shared}
    (completed : insertTurn publication shared mqb world = .ok inserted after) :
    (Router.route publication.type mqb.2.bindingKey (rotingKeyOf publication.properties) =
      .ok false ∧ inserted = (false, shared) ∧ after = world) ∨
    (Router.route publication.type mqb.2.bindingKey (rotingKeyOf publication.properties) =
      .ok true ∧ ∃ published, shared.host.basicPublish mqb.1 publication.properties
        (publication.uuid mqb.1) publication.body world = .ok published after ∧
      inserted = (true, { shared with host := published.2 })) := by
  rcases bind_eq_ok completed with ⟨routed, middle, routing, rest⟩
  rcases ofExcept_eq_ok routing with ⟨outcome, same⟩
  cases routed with
  | false =>
      cases rest
      exact Or.inl ⟨outcome, rfl, same⟩
  | true =>
      rcases bind_eq_ok rest with ⟨published, last, called, rest⟩
      cases rest
      rw [same] at called
      exact Or.inr ⟨outcome, published, called, rfl⟩

/-- A turn leaves everything alone, or publishes to the queue of the binding and
pushes a task for it. -/
theorem publishTurn_ok {address : Nat} {publication : Publication} {mqb : Bytes × Binding}
    (completed : publishTurn address publication shared mqb world = .ok next after) :
    (Router.route publication.type mqb.2.bindingKey (rotingKeyOf publication.properties) =
      .ok false ∧ next = shared ∧ after = world) ∨
    (Router.route publication.type mqb.2.bindingKey (rotingKeyOf publication.properties) =
      .ok true ∧ ∃ published, shared.host.basicPublish mqb.1 publication.properties
        (publication.uuid mqb.1) publication.body world = .ok published after ∧
      next = { shared with
        host := published.2, pool := shared.pool ++ [⟨address, mqb.1⟩] }) := by
  rcases bind_eq_ok completed with ⟨inserted, middle, called, rest⟩
  cases rest
  rcases insertTurn_ok called with ⟨routed, same, unchanged⟩ | ⟨routed, published, called, same⟩
  · rw [same]
    exact Or.inl ⟨routed, rfl, unchanged⟩
  · rw [same]
    exact Or.inr ⟨routed, published, called, rfl⟩

/-- A publish does nothing when its exchange is not there, and goes through the
bindings of the exchange otherwise. -/
theorem basicPublish_ok {address : Nat} {chance : Chance} {exchangeName body : Bytes}
    {properties : Option BasecProperties}
    (completed : basicPublish address shared chance exchangeName properties body world =
      .ok (accepted, next) after) :
    (shared.host.selectExchange exchangeName = none ∧ accepted = false ∧ next = shared ∧
      after = world) ∨
    (∃ exchange, shared.host.selectExchange exchangeName = some exchange ∧ accepted = true ∧
      (chance.traversal.order
        (MsgQueueBindingMap.pairs (shared.host.exchangeBindings exchangeName))).foldlM
          (publishTurn address ⟨exchange.type, properties, body, chance.uuid⟩) shared world =
            .ok next after) := by
  unfold basicPublish at completed
  cases selected : shared.host.selectExchange exchangeName with
  | none =>
      rw [selected] at completed
      cases completed
      exact Or.inl ⟨rfl, rfl, rfl, rfl⟩
  | some exchange =>
      rw [selected] at completed
      rcases bind_eq_ok completed with ⟨final, ended, looped, returned⟩
      cases returned
      exact Or.inr ⟨exchange, rfl, rfl, looped⟩

/-- A publish keeps what every turn of its loop keeps. -/
theorem basicPublish_invariant {holds : Shared → Prop} {address : Nat} {chance : Chance}
    {exchangeName body : Bytes} {properties : Option BasecProperties} (held : holds shared)
    (preserved : ∀ {publication state mqb later world after}, holds state →
      publishTurn address publication state mqb world = .ok later after → holds later)
    (completed : basicPublish address shared chance exchangeName properties body world =
      .ok (accepted, next) after) : holds next := by
  rcases basicPublish_ok completed with ⟨_, _, same, _⟩ | ⟨exchange, _, _, looped⟩
  · rw [same]
    exact held
  · exact foldlM_invariant (fun _ _ _ _ _ => preserved) held looped

/-- The consumer leaves the unit of the queue that the request names. -/
theorem basicCancel_ok {channel : Channel} {consumerTag queueName : Bytes}
    {result : Channel × Shared}
    (completed : basicCancel channel shared consumerTag queueName = .ok result) :
    ∃ cmptr, shared.cmptr.remove consumerTag queueName = .ok cmptr ∧
      result = ({ channel with consumer := none }, { shared with cmptr := cmptr }) := by
  unfold basicCancel at completed
  cases removed : shared.cmptr.remove consumerTag queueName with
  | error fault =>
      rw [removed] at completed
      cases completed
  | ok cmptr =>
      rw [removed] at completed
      cases completed
      exact ⟨cmptr, rfl, rfl⟩

/-- A destroyed channel takes the consumer of its own tag out of its own queue. -/
theorem destroy_ok {channel : Channel} (completed : destroy shared channel = .ok next) :
    (channel.consumer = none ∧ next = shared) ∨
    (∃ consumer cmptr, channel.consumer = some consumer ∧
      shared.cmptr.remove consumer.tag consumer.qname = .ok cmptr ∧
      next = { shared with cmptr := cmptr }) := by
  unfold destroy at completed
  cases subscribed : channel.consumer with
  | none =>
      rw [subscribed] at completed
      cases completed
      exact Or.inl ⟨rfl, rfl⟩
  | some consumer =>
      rw [subscribed] at completed
      rcases except_map_eq_ok completed with ⟨cmptr, removed, same⟩
      exact Or.inr ⟨consumer, cmptr, rfl, removed, same.symm⟩

end Results

end Channel

end ProtobufMq
