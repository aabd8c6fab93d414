import ProtobufMq.Foundation.Recoverable
import ProtobufMq.Server.Broker

namespace ProtobufMq

open Foundation

/-!
# What the clients of a server can know

A client learns of the server by the replies to its requests, and by the messages
that the tasks of the pool push to it.  The replies, and the queues that tasks are
pushed for, are told here from four maps: the exchanges, the queues and the
bindings, each with what a restart makes of it, and the open channels.  Rows,
stores, files, consumers and threads do not occur, and of a statement only
whether it takes effect.

Some of it may seem strange.  A `DURABLE` exchange that was deleted comes back
with the next restart, and until then its name cannot be given to another
`DURABLE` exchange.  A binding lasts if its queue does and the mode of its
exchange is any but `UNKNOWNMODE`.  A binding whose removal fails on the disk
comes back with its old key, even if the pair was bound again with another, and
removing the bindings of an exchange once more does not reach the disk.
-/

/-- What a queue is after a restart: its args went through their text. -/
def MsgQueue.restored (queue : MsgQueue) : MsgQueue :=
  { queue with args := Args.setArgs ∅ queue.args.getArgs }

/-- The state of a server as its clients may know it. -/
@[ext] structure Broker where
  exchanges : Recoverable Bytes Exchange := .empty
  queues : Recoverable Bytes MsgQueue := .empty
  /-- The key of the binding of an exchange and a queue. -/
  bindings : Recoverable (Bytes × Bytes) Bytes := .empty
  /-- The exchanges that have bindings, or had some since the start. -/
  grouped : Set Bytes := ∅
  /-- The ids of the open channels of each connection. -/
  sessions : Nat → Option (Bytes → Bool) := fun _ => none

namespace Broker

/-! ## The requests that change the maps -/

def declareExchange (broker : Broker) (takesEffect : Bool) (exchange : Exchange) : Bool × Broker :=
  if (broker.exchanges.current exchange.name).isSome then (true, broker)
  else if exchange.durable ≠ .durable then
    (true, { broker with exchanges := broker.exchanges.enter exchange.name exchange none })
  else if takesEffect && (broker.exchanges.lasting exchange.name).isNone then
    (true, { broker with
      exchanges := broker.exchanges.enter exchange.name exchange (some exchange.restored) })
  else (false, broker)

/-- The broker without the bindings that are selected by their exchange and queue. -/
def unbound (broker : Broker) (selects : Bytes × Bytes → Bool) (lastingly : Bool) : Broker :=
  { broker with bindings := broker.bindings.remove selects lastingly }

open Classical in
/-- The broker without the bindings of an exchange, which are looked for on the disk
if the exchange has some or had some. -/
noncomputable def ungrouped (broker : Broker) (takesEffect : Bool) (name : Bytes) : Broker :=
  { broker.unbound (fun pair => pair.1 = name) (takesEffect && decide (name ∈ broker.grouped)) with
    grouped := broker.grouped \ {name} }

def dropExchange (broker : Broker) (takesEffect : Bool) (name : Bytes) : Bool × Broker :=
  match broker.exchanges.current name with
  | none => (true, broker)
  | some exchange =>
      if exchange.durable ≠ .undurable then
        -- also of a `DURABLE` exchange, which therefore comes back
        (true, { broker with exchanges := broker.exchanges.remove (· = name) false })
      else if takesEffect then
        (true, { broker with exchanges := broker.exchanges.remove (· = name) true })
      else (false, broker)

/-- The bindings of the exchange go in any case. -/
noncomputable def deleteExchange (broker : Broker) (sql : SqlOutcome) (name : Bytes) :
    Bool × Broker :=
  (broker.ungrouped sql.bindingTable name).dropExchange sql.exchangeTable name

def declareQueue (broker : Broker) (takesEffect : Bool) (queue : MsgQueue) : Bool × Broker :=
  if (broker.queues.current queue.name).isSome then (true, broker)
  else if queue.durable = false then
    (true, { broker with queues := broker.queues.enter queue.name queue none })
  else if takesEffect then
    (true, { broker with queues := broker.queues.enter queue.name queue (some queue.restored) })
  else (false, broker)

def dropQueue (broker : Broker) (takesEffect : Bool) (name : Bytes) : Bool × Broker :=
  match broker.queues.current name with
  | none => (true, broker)
  | some queue =>
      if queue.durable && !takesEffect then (false, broker)
      else (true, { broker with queues := broker.queues.remove (· = name) true })

/-- The bindings of the queue go in any case. -/
def deleteQueue (broker : Broker) (sql : SqlOutcome) (name : Bytes) : Bool × Broker :=
  (broker.unbound (fun pair => pair.2 = name) sql.bindingTable).dropQueue sql.queueTable name

def queueBind (broker : Broker) (takesEffect : Bool) (exchangeName queueName bindingKey : Bytes) :
    Bool × Broker :=
  match broker.exchanges.current exchangeName, broker.queues.current queueName with
  | some exchange, some queue =>
      let lasts := VirtualHost.bindsDurably exchange queue
      if (broker.bindings.current (exchangeName, queueName)).isSome then (true, broker)
      else if lasts && !takesEffect then (false, broker)
      else
        let later := if lasts then some bindingKey else none
        (true, { broker with
          bindings := broker.bindings.enter (exchangeName, queueName) bindingKey later
          grouped := insert exchangeName broker.grouped })
  | _, _ => (false, broker)

/-- Nothing is tried for a pair that is not bound. -/
def queueUnbind (broker : Broker) (takesEffect : Bool) (exchangeName queueName : Bytes) : Broker :=
  let bound := (broker.bindings.current (exchangeName, queueName)).isSome
  broker.unbound (fun pair => pair.1 = exchangeName && pair.2 = queueName) (takesEffect && bound)

/-! ## All requests -/

/-- The answer to a request on an open channel, and the broker after it. -/
noncomputable def answer (broker : Broker) (sql : SqlOutcome) : Request → Bool × Broker
  | .declareExchange exchange => broker.declareExchange sql.exchangeTable exchange
  | .deleteExchange exchangeName => broker.deleteExchange sql exchangeName
  | .declareQueue queue => broker.declareQueue sql.queueTable queue
  | .deleteQueue queueName => broker.deleteQueue sql queueName
  | .queueBind exchangeName queueName bindingKey =>
      broker.queueBind sql.bindingTable exchangeName queueName bindingKey
  | .queueUnbind exchangeName queueName =>
      (true, broker.queueUnbind sql.bindingTable exchangeName queueName)
  | .basicPublish exchangeName _ _ => ((broker.exchanges.current exchangeName).isSome, broker)
  | .basicAck _ _ => (true, broker)
  | .basicConsume _ queueName _ => ((broker.queues.current queueName).isSome, broker)
  | .basicCancel _ _ => (true, broker)

/-- A request has a task pushed for this queue: it publishes to an exchange that is
bound to the queue with a key that the router accepts. -/
def Reaches (broker : Broker) (qname : Bytes) : Request → Prop
  | .basicPublish exchangeName properties _ => ∃ exchange bindingKey,
      broker.exchanges.current exchangeName = some exchange ∧
      broker.bindings.current (exchangeName, qname) = some bindingKey ∧
      Router.route exchange.type bindingKey (Channel.rotingKeyOf properties) = .ok true
  | _ => False

/-- The broker with other open channels of a connection. -/
def withSession (broker : Broker) (conn : Nat) (session : Option (Bytes → Bool)) : Broker :=
  { broker with sessions := Function.update broker.sessions conn session }

/-- The reply to a packet, and the broker after it. -/
noncomputable def reply (broker : Broker) (conn : Nat) (sql : SqlOutcome) (packet : Packet) :
    Reply × Broker :=
  match broker.sessions conn with
  | none => (.shutdown, broker)
  | some isOpen =>
      match packet with
      | .openChannel rid cid =>
          (.response rid cid (!isOpen cid),
            broker.withSession conn (some (Function.update isOpen cid true)))
      | .closeChannel rid cid =>
          (.response rid cid (isOpen cid),
            broker.withSession conn (some (Function.update isOpen cid false)))
      | .request rid cid request =>
          if isOpen cid then
            let answered := broker.answer sql request
            (.response rid cid answered.1, answered.2)
          else (.nothing, broker)

/-- A packet has a task pushed for this queue. -/
def Pushes (broker : Broker) (conn : Nat) (qname : Bytes) : Packet → Prop
  | .request _ cid request =>
      (∃ isOpen, broker.sessions conn = some isOpen ∧ isOpen cid = true) ∧
        broker.Reaches qname request
  | _ => False

/-- A new connection has no channel; a known one keeps its channels. -/
def connect (broker : Broker) (conn : Nat) : Broker :=
  broker.withSession conn (some ((broker.sessions conn).getD fun _ => false))

/-- Start again: what lasts is there, and nobody is connected. -/
def restart (broker : Broker) : Broker where
  exchanges := broker.exchanges.restart
  queues := broker.queues.restart
  bindings := broker.bindings.restart
  grouped := {exchangeName | ∃ queueName,
    broker.bindings.lasting (exchangeName, queueName) ≠ none}

end Broker

/-! ## What happens to a server, and what it shows -/

namespace Server

/-- The server serves, or the program is started again. -/
inductive Happening where
  | serve (event : Event)
  | restart (script : List Outcome)

/-- What can be seen of something that happens: the reply, and the queues that tasks
are pushed for. -/
structure Shown where
  reply : Option Reply := none
  queues : List Bytes := []
  deriving DecidableEq

end Server

/-- What the server may show when something happens, and the broker afterwards. -/
def Broker.Allows (broker : Broker) : Server.Happening → Server.Shown → Broker → Prop
  | .serve ⟨.connect conn, _⟩, shown, next => shown = {} ∧ next = broker.connect conn
  | .serve ⟨.disconnect conn, _⟩, shown, next => shown = {} ∧ next = broker.withSession conn none
  | .serve ⟨.packet conn chance packet, _⟩, shown, next =>
      shown.reply = some (broker.reply conn chance.sql packet).1 ∧
        shown.queues.Nodup ∧ (∀ qname, qname ∈ shown.queues ↔ broker.Pushes conn qname packet) ∧
        next = (broker.reply conn chance.sql packet).2
  | .restart _, shown, next => shown = {} ∧ next = broker.restart

end ProtobufMq
