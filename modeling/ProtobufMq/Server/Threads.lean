import ProtobufMq.Server.Broker

namespace ProtobufMq

open Foundation

/-!
# The event loop and the pool at work together

The thread of the event loop serves the requests, and the workers of the pool
run the tasks that publishing pushed.  A machine takes one step of one of them
at a time.  A step is what happens under one lock of something that both sides
use: the map of message stores, a message store, the map of consumer units, a
consumer unit, the pool.  What a task has in hand between two of its steps is
its phase; what the event loop has in hand is its `Loop`.

Most requests need one step.  Publishing takes two for each binding that the
router accepts: the message goes into its queue, and a task is pushed to the
pool, and workers may run in between.  Declaring a queue makes its
store under the lock of the manager and fills it after that; deleting one takes
the name away and empties the store after that; and both touch the consumer
units last.  A connection that goes down destroys its channels one by one.

A task may be started at any time after it was pushed, in any order, by any
number of workers; the pool of the source hands out tasks in fewer orders.
-/

/-- A message that a task took, and the store it took it from. -/
structure Taken where
  store : Nat
  pointer : MessagePtr
  deriving DecidableEq, Repr

/-- The consumer that a task chose, and those that were registered on the queue
at that moment. -/
structure Choice where
  consumer : Consumer
  candidates : List Consumer
  deriving DecidableEq, Repr

/-- How far a task has come. -/
inductive Phase where
  | ready
  /-- `MessageManager::front` has found the store. -/
  | looked (store : Nat)
  | taken (taken : Taken)
  /-- `ConsumerManager::choose` has found the unit. -/
  | asking (taken : Taken) (unit : Nat)
  | chosen (taken : Taken) (choice : Choice)
  /-- The callback has returned. -/
  | delivered (taken : Taken) (choice : Choice)
  /-- `MessageManager::ack` has found the store. -/
  | acking (taken : Taken) (choice : Choice) (store : Nat)
  | ended (outcome : Option (Taken × Option Choice))
  deriving DecidableEq, Repr

/-- What the event loop has in hand. -/
inductive Loop where
  | idle
  | publishing (address : Nat) (publication : Channel.Publication) (rest : List (Bytes × Binding))
  /-- The message is in the queue, and its task is about to be pushed. -/
  | pushing (address : Nat) (publication : Channel.Publication) (queueName : Bytes)
      (rest : List (Bytes × Binding))
  | recovering (store : Nat) (sql : SqlOutcome) (queue : MsgQueue)
  | declaring (sql : SqlOutcome) (queue : MsgQueue)
  | clearing (store : Nat) (sql : SqlOutcome) (queueName : Bytes)
  | deleting (sql : SqlOutcome) (queueName : Bytes)
  | closing (rest : List Channel)

/-- A call of a callback by a task. -/
structure Delivery where
  task : Nat
  taken : Taken
  choice : Choice
  deriving DecidableEq, Repr

/-- The server with its threads.  `sent` lists the calls of callbacks so far. -/
structure Machine where
  server : Server
  disk : Disk
  loop : Loop := .idle
  phase : Nat → Phase := fun _ => .ready
  sent : List Delivery := []

namespace Machine

/-- The channels that the event loop is about to destroy. -/
def closing (machine : Machine) : List Channel :=
  match machine.loop with
  | .closing rest => rest
  | _ => []

/-- The channels that exist. -/
def channels (machine : Machine) : List Channel :=
  machine.closing ++ (Dictionary.values machine.server.connections).flatMap
    fun connection => Dictionary.values connection.channels

/-- The channel at an address exists. -/
def isOpen (machine : Machine) (address : Nat) : Bool :=
  machine.channels.any fun channel => channel.address = address

/-- The machine with other managers. -/
def withShared (machine : Machine) (shared : Shared) : Machine :=
  { machine with server := { machine.server with shared := shared } }

/-- The machine with other message stores. -/
def withMessages (machine : Machine) (mmptr : MessageManager) : Machine :=
  machine.withShared { machine.server.shared with
    host := { machine.server.shared.host with mmptr := mmptr } }

/-- The machine with a task in another phase. -/
def withPhase (machine : Machine) (index : Nat) (phase : Phase) : Machine :=
  { machine with phase := Function.update machine.phase index phase }

/-! ## The event loop -/

/-- The first step of a request. -/
def accept [Protobuf] (machine : Machine) (conn : Nat) (chance : Chance) (packet : Packet) :
    FileM Machine :=
  let host := machine.server.shared.host
  match packet with
  | .request rid cid request =>
      match machine.server.channelAt conn cid, request with
      | some channel, .basicPublish exchangeName properties body =>
          match host.selectExchange exchangeName with
          | none => return machine
          | some exchange =>
              return { machine with
                loop := .publishing channel.address ⟨exchange.type, properties, body, chance.uuid⟩
                  (chance.traversal.order
                    (MsgQueueBindingMap.pairs (host.exchangeBindings exchangeName))) }
      | some _, .declareQueue queue => do
          let admitted ← host.mmptr.introduce queue.name
          return { machine.withMessages admitted.2 with
            loop := match admitted.1 with
              | none => .declaring chance.sql queue
              | some store => .recovering store chance.sql queue }
      | some _, .deleteQueue queueName =>
          let withdrawn := host.mmptr.withdraw queueName
          return { machine.withShared { machine.server.shared with
              host := { host with
                bmptr := host.bmptr.removeMsgQueueBindings chance.sql.bindingTable queueName
                mmptr := withdrawn.2 } } with
            loop := match withdrawn.1 with
              | none => .deleting chance.sql queueName
              | some store => .clearing store chance.sql queueName }
      | _, request => do
          let done ← machine.server.handle conn chance (.request rid cid request)
          return { machine with server := done.2 }
  | packet => do
      let done ← machine.server.handle conn chance packet
      return { machine with server := done.2 }

/-- The last step of `declareQueue`. -/
def declare (shared : Shared) (sql : SqlOutcome) (queue : MsgQueue) : Shared :=
  let declared := shared.host.qmptr.declareQueue sql.queueTable queue
  { shared with
    host := { shared.host with qmptr := declared.2 }
    cmptr := if declared.1 then shared.cmptr.initQueueConsumer queue.name else shared.cmptr }

/-- The last step of `deleteQueue`. -/
def delete (shared : Shared) (sql : SqlOutcome) (queueName : Bytes) : Shared :=
  let deleted := shared.host.qmptr.deleteQueue sql.queueTable queueName
  { shared with
    host := { shared.host with qmptr := deleted.2 }
    cmptr := if deleted.1 then shared.cmptr.destroyQueueConsumer queueName else shared.cmptr }

/-- A further step of the request in hand. -/
def proceed [Protobuf] (machine : Machine) : FileM Machine :=
  let shared := machine.server.shared
  match machine.loop with
  | .idle => return machine
  | .publishing _ _ [] => return { machine with loop := .idle }
  | .publishing address publication (mqb :: rest) => do
      let inserted ← Channel.insertTurn publication shared mqb
      return { machine.withShared inserted.2 with
        loop := if inserted.1 then .pushing address publication mqb.1 rest
          else .publishing address publication rest }
  | .pushing address publication queueName rest =>
      return { machine.withShared (Channel.pushTask address shared queueName) with
        loop := .publishing address publication rest }
  | .recovering store sql queue => do
      let mmptr ← shared.host.mmptr.recover store
      return { machine.withMessages mmptr with loop := .declaring sql queue }
  | .declaring sql queue =>
      return { machine.withShared (declare shared sql queue) with loop := .idle }
  | .clearing store sql queueName => do
      let mmptr ← shared.host.mmptr.clearStore store
      return { machine.withMessages mmptr with loop := .deleting sql queueName }
  | .deleting sql queueName =>
      return { machine.withShared (delete shared sql queueName) with loop := .idle }
  | .closing [] => return { machine with loop := .idle }
  | .closing (channel :: rest) => do
      let shared ← ofExcept (Channel.destroy shared channel)
      return { machine.withShared shared with loop := .closing rest }

/-- A connection goes down. -/
def disconnect (machine : Machine) (conn : Nat) : Machine :=
  match machine.server.connections.lookup conn with
  | none => machine
  | some connection => { machine with
      server := { machine.server with connections := machine.server.connections.erase conn }
      loop := .closing (Dictionary.values connection.channels) }

/-! ## The pool -/

/-- The next step of `Channel::consume` in a task.  Where the function reads a
member of the channel, the channel must still be there. -/
def consume [Protobuf] (machine : Machine) (index : Nat) (task : Task) : FileM Machine :=
  let shared := machine.server.shared
  match machine.phase index with
  | .ready =>
      if machine.isOpen task.channel then
        return machine.withPhase index (match shared.host.mmptr.queueMsgs.find task.queueName with
          | none => .ended none
          | some store => .looked store)
      else throw .channelGone
  | .looked store =>
      let front := shared.host.mmptr.frontOf store
      return (machine.withMessages front.2).withPhase index (match front.1 with
        | none => .ended none
        | some pointer => .taken ⟨store, pointer⟩)
  | .taken taken =>
      if machine.isOpen task.channel then
        return machine.withPhase index (match shared.cmptr.qconsumers.find task.queueName with
          | none => .ended (some (taken, none))
          | some unit => .asking taken unit)
      else throw .channelGone
  | .asking taken unit =>
      let choice := shared.cmptr.chooseFrom unit
      return (machine.withShared { shared with cmptr := choice.2 }).withPhase index
        (match choice.1 with
          | none => .ended (some (taken, none))
          | some consumer => .chosen taken ⟨consumer, shared.cmptr.registered task.queueName⟩)
  | .chosen taken choice =>
      -- the callback is a member function of the channel that subscribed
      if machine.isOpen choice.consumer.channel then
        return { machine.withPhase index (.delivered taken choice) with
          sent := machine.sent ++ [⟨index, taken, choice⟩] }
      else throw .channelGone
  | .delivered taken choice =>
      if choice.consumer.autoAck then
        if machine.isOpen task.channel then
          return machine.withPhase index
            (match shared.host.mmptr.queueMsgs.find task.queueName with
              | none => .ended (some (taken, some choice))
              | some store => .acking taken choice store)
        else throw .channelGone
      else return machine.withPhase index (.ended (some (taken, some choice)))
  | .acking taken choice store => do
      let mmptr ← shared.host.mmptr.removeFrom store taken.pointer.id
      return (machine.withMessages mmptr).withPhase index (.ended (some (taken, some choice)))
  | .ended _ => return machine

/-- The next step of a task, if there is such a task. -/
def work [Protobuf] (machine : Machine) (index : Nat) : FileM Machine :=
  match machine.server.shared.pool[index]? with
  | none => return machine
  | some task => machine.consume index task

/-! ## Steps of either side -/

/-- Who takes the next step.  The event loop takes up something new only when
it has nothing in hand. -/
inductive Move where
  | connect (conn : Nat)
  | disconnect (conn : Nat)
  | packet (conn : Nat) (chance : Chance) (packet : Packet)
  | proceed
  | work (index : Nat)

/-- A move with the outcomes of its file operations. -/
structure Event where
  move : Move
  script : List Outcome := []

/-- The machine has nothing in hand. -/
def isIdle (machine : Machine) : Bool :=
  match machine.loop with
  | .idle => true
  | _ => false

/-- The code of a move. -/
def step [Protobuf] (machine : Machine) : Move → FileM Machine
  | .connect conn =>
      return if machine.isIdle then { machine with server := machine.server.newConnection conn }
        else machine
  | .disconnect conn => return if machine.isIdle then machine.disconnect conn else machine
  | .packet conn chance packet =>
      if machine.isIdle then machine.accept conn chance packet else return machine
  | .proceed => machine.proceed
  | .work index => machine.work index

/-- Perform one step. -/
def perform [Protobuf] (machine : Machine) (event : Event) : Except Fault Machine :=
  (performed (machine.step event.move) machine.disk event.script).map
    fun done => { done.1 with disk := done.2 }

end Machine

end ProtobufMq
