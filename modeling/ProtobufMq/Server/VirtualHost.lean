import ProtobufMq.Server.Binding
import ProtobufMq.Server.Exchange
import ProtobufMq.Server.MessageManager
import ProtobufMq.Server.Queue

namespace ProtobufMq

open Foundation

/-!
# `VirtualHost`: the four managers together

The host owns the managers of exchanges, queues, bindings and messages, and
its functions call them one after another.  No function executes more than one
statement on the same table, so three Booleans say what becomes of the
statements of a call.
-/

/-- Which of the statements of a call take effect. -/
structure SqlOutcome where
  exchangeTable : Bool := true
  bindingTable : Bool := true
  queueTable : Bool := true
  deriving DecidableEq, Repr

/-- The database. -/
structure Database where
  exchangeMapper : ExchangeMapper := {}
  queueMapper : MsgQueueMapper := {}
  bindingMapper : BindingMapper := {}

/-- `VirtualHost`. -/
structure VirtualHost where
  emptr : ExchangeManager
  qmptr : MsgQueueManager
  bmptr : BindingManager
  mmptr : MessageManager

namespace VirtualHost

/-- The database as the host leaves it. -/
def database (host : VirtualHost) : Database :=
  ⟨host.emptr.mapper, host.qmptr.mapper, host.bmptr.mapper⟩

/-- The loop of the constructor. -/
def initAll [Protobuf] (manager : MessageManager) (qnames : List Bytes) : FileM MessageManager :=
  qnames.foldlM MessageManager.initQueueMessage manager

/-- The constructor: every recovered queue gets its messages back. -/
def new [Protobuf] (database : Database) (basedir : Bytes) : FileM VirtualHost := do
  let qmptr := MsgQueueManager.new database.queueMapper
  let mmptr ← initAll { basedir := basedir } qmptr.msgQueues.keys
  return ⟨ExchangeManager.new database.exchangeMapper, qmptr,
    BindingManager.new database.bindingMapper, mmptr⟩

/-- `VirtualHost::declareExchange`. -/
def declareExchange (host : VirtualHost) (sql : SqlOutcome) (exchange : Exchange) :
    Bool × VirtualHost :=
  let declared := host.emptr.declareExchange sql.exchangeTable exchange
  (declared.1, { host with emptr := declared.2 })

/-- `VirtualHost::deleteExchange`. -/
def deleteExchange (host : VirtualHost) (sql : SqlOutcome) (name : Bytes) : Bool × VirtualHost :=
  let bmptr := host.bmptr.removeExchangeBindings sql.bindingTable name
  let deleted := host.emptr.deleteExchange sql.exchangeTable name
  (deleted.1, { host with emptr := deleted.2, bmptr := bmptr })

/-- `VirtualHost::selectExchange`. -/
def selectExchange (host : VirtualHost) (name : Bytes) : Option Exchange :=
  host.emptr.selectExchange name

/-- `VirtualHost::declareQueue`. -/
def declareQueue [Protobuf] (host : VirtualHost) (sql : SqlOutcome) (queue : MsgQueue) :
    FileM (Bool × VirtualHost) := do
  let mmptr ← host.mmptr.initQueueMessage queue.name
  let declared := host.qmptr.declareQueue sql.queueTable queue
  return (declared.1, { host with qmptr := declared.2, mmptr := mmptr })

/-- `VirtualHost::deleteQueue`. -/
def deleteQueue (host : VirtualHost) (sql : SqlOutcome) (name : Bytes) :
    FileM (Bool × VirtualHost) := do
  let bmptr := host.bmptr.removeMsgQueueBindings sql.bindingTable name
  let mmptr ← host.mmptr.destroyQueueMessage name
  let deleted := host.qmptr.deleteQueue sql.queueTable name
  return (deleted.1, { host with qmptr := deleted.2, bmptr := bmptr, mmptr := mmptr })

/-- `VirtualHost::existsQueue`. -/
def existsQueue (host : VirtualHost) (name : Bytes) : Bool :=
  host.qmptr.existsQueue name

/-- `eptr->durable && qptr->durable`: a mode counts as true when its number is
not zero. -/
def bindsDurably (exchange : Exchange) (queue : MsgQueue) : Bool :=
  exchange.durable.code ≠ 0 && queue.durable

/-- `VirtualHost::bind`. -/
def bind (host : VirtualHost) (sql : SqlOutcome) (ename qname key : Bytes) : Bool × VirtualHost :=
  match host.emptr.selectExchange ename with
  | none => (false, host)
  | some exchange =>
      match host.qmptr.selectQueue qname with
      | none => (false, host)
      | some queue =>
          let bound := host.bmptr.bind sql.bindingTable ename qname key
            (bindsDurably exchange queue)
          (bound.1, { host with bmptr := bound.2 })

/-- `VirtualHost::unBind`. -/
def unBind (host : VirtualHost) (sql : SqlOutcome) (ename qname : Bytes) : VirtualHost :=
  { host with bmptr := host.bmptr.unBind sql.bindingTable ename qname }

/-- `VirtualHost::exchangeBindings`. -/
def exchangeBindings (host : VirtualHost) (ename : Bytes) : MsgQueueBindingMap :=
  host.bmptr.getExchangeBindings ename

/-- `VirtualHost::basicPublish`. -/
def basicPublish (host : VirtualHost) (qname : Bytes) (properties : Option BasecProperties)
    (uuid body : Bytes) : FileM (Bool × VirtualHost) :=
  match host.qmptr.selectQueue qname with
  | none => return (false, host)
  | some queue => do
      let inserted ← host.mmptr.insert qname properties uuid body queue.durable
      return (inserted.1, { host with mmptr := inserted.2 })

/-- `VirtualHost::basicConsume`. -/
def basicConsume (host : VirtualHost) (qname : Bytes) : Option MessagePtr × VirtualHost :=
  let taken := host.mmptr.front qname
  (taken.1, { host with mmptr := taken.2 })

/-- `VirtualHost::basicAck`. -/
def basicAck [Protobuf] (host : VirtualHost) (qname msgId : Bytes) : FileM VirtualHost := do
  let mmptr ← host.mmptr.ack qname msgId
  return { host with mmptr := mmptr }

/-- The host over an empty database. -/
def fresh (basedir : Bytes) : VirtualHost :=
  ⟨ExchangeManager.new {}, MsgQueueManager.new {}, BindingManager.new {}, { basedir := basedir }⟩

/-- The constructor finds nothing to do for an empty database. -/
theorem new_empty [Protobuf] (basedir : Bytes) (world : World) :
    new {} basedir world = .ok (fresh basedir) world := rfl

/-! ## What the calls can do -/

section Cases

variable {host next : VirtualHost} {sql : SqlOutcome} {world after : World} {accepted : Bool}

/-- Binding needs both ends. -/
theorem bind_cases (host : VirtualHost) (sql : SqlOutcome) (ename qname key : Bytes) :
    ((ename ∉ host.emptr.exchanges ∨ qname ∉ host.qmptr.msgQueues) ∧
      host.bind sql ename qname key = (false, host)) ∨
    (∃ exchange queue, host.emptr.exchanges.lookup ename = some exchange ∧
      host.qmptr.msgQueues.lookup qname = some queue ∧
      host.bind sql ename qname key =
        ((host.bmptr.bind sql.bindingTable ename qname key (bindsDurably exchange queue)).1,
          { host with bmptr := (host.bmptr.bind sql.bindingTable ename qname key
              (bindsDurably exchange queue)).2 })) := by
  unfold bind ExchangeManager.selectExchange MsgQueueManager.selectQueue
  cases exchangeFound : host.emptr.exchanges.lookup ename with
  | none => exact Or.inl ⟨Or.inl (AList.lookup_eq_none.mp exchangeFound), rfl⟩
  | some exchange =>
      cases queueFound : host.qmptr.msgQueues.lookup qname with
      | none => exact Or.inl ⟨Or.inr (AList.lookup_eq_none.mp queueFound), rfl⟩
      | some queue => exact Or.inr ⟨exchange, queue, rfl, rfl, rfl⟩

theorem declareQueue_ok [Protobuf] {queue : MsgQueue}
    (completed : host.declareQueue sql queue world = .ok (accepted, next) after) :
    ∃ mmptr, host.mmptr.initQueueMessage queue.name world = .ok mmptr after ∧
      accepted = (host.qmptr.declareQueue sql.queueTable queue).1 ∧
      next = { host with
        qmptr := (host.qmptr.declareQueue sql.queueTable queue).2, mmptr := mmptr } := by
  rcases bind_eq_ok completed with ⟨mmptr, middle, initialised, rest⟩
  cases rest
  exact ⟨mmptr, initialised, rfl, rfl⟩

theorem deleteQueue_ok {name : Bytes}
    (completed : host.deleteQueue sql name world = .ok (accepted, next) after) :
    ∃ mmptr, host.mmptr.destroyQueueMessage name world = .ok mmptr after ∧
      accepted = (host.qmptr.deleteQueue sql.queueTable name).1 ∧
      next = { host with
        qmptr := (host.qmptr.deleteQueue sql.queueTable name).2
        bmptr := host.bmptr.removeMsgQueueBindings sql.bindingTable name
        mmptr := mmptr } := by
  rcases bind_eq_ok completed with ⟨mmptr, middle, destroyed, rest⟩
  cases rest
  exact ⟨mmptr, destroyed, rfl, rfl⟩

/-- A message is published to a queue that is there. -/
theorem basicPublish_ok {qname uuid body : Bytes} {properties : Option BasecProperties}
    {done : Bool × VirtualHost}
    (completed : host.basicPublish qname properties uuid body world = .ok done after) :
    (host.qmptr.selectQueue qname = none ∧ done = (false, host) ∧ after = world) ∨
    (∃ queue inserted, host.qmptr.selectQueue qname = some queue ∧
      host.mmptr.insert qname properties uuid body queue.durable world = .ok inserted after ∧
      done = (inserted.1, { host with mmptr := inserted.2 })) := by
  unfold basicPublish at completed
  cases selected : host.qmptr.selectQueue qname with
  | none =>
      rw [selected] at completed
      cases completed
      exact Or.inl ⟨rfl, rfl, rfl⟩
  | some queue =>
      rw [selected] at completed
      rcases bind_eq_ok completed with ⟨inserted, middle, called, rest⟩
      cases rest
      exact Or.inr ⟨queue, inserted, rfl, called, rfl⟩

/-- A new host has recovered the three tables. -/
theorem new_ok [Protobuf] {database : Database} {basedir : Bytes}
    (completed : new database basedir world = .ok host after) :
    ∃ mmptr, initAll { basedir := basedir }
        (MsgQueueManager.new database.queueMapper).msgQueues.keys world = .ok mmptr after ∧
      host = ⟨ExchangeManager.new database.exchangeMapper,
        MsgQueueManager.new database.queueMapper, BindingManager.new database.bindingMapper,
        mmptr⟩ := by
  rcases bind_eq_ok completed with ⟨mmptr, middle, initialised, rest⟩
  cases rest
  exact ⟨mmptr, initialised, rfl⟩

end Cases

end VirtualHost

end ProtobufMq
