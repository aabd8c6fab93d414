import ProtobufMq.Server.Persistence

namespace ProtobufMq

open Foundation

/-!
# Calls on the host that are refused

Declaring or deleting a queue and deleting an exchange end with a statement
that may fail, and by then the other managers have done their part: a store was
made and filled, or bindings and a store were taken away, in memory and on
disk.  Nothing undoes that, so a refused call changes nothing only if there was
nothing to do before its last statement.
-/

namespace BindingMapper

theorem deleteWhere_eq_self (mapper : BindingMapper) (takesEffect : Bool)
    (selects : Binding → Bool) : mapper.deleteWhere takesEffect selects = mapper ↔
      takesEffect = false ∨ ∀ row ∈ mapper.bindingTable, selects row = false := by
  cases takesEffect with
  | false => exact ⟨fun _ => Or.inl rfl, fun _ => rfl⟩
  | true =>
      have rows : mapper.deleteWhere true selects = mapper ↔
          mapper.bindingTable.filter (fun row => !selects row) = mapper.bindingTable :=
        ⟨congrArg BindingMapper.bindingTable, congrArg BindingMapper.mk⟩
      rw [rows, List.filter_eq_self]
      simp only [Bool.not_eq_true', Bool.true_eq_false, false_or]

end BindingMapper

namespace VirtualHost

/-- The calls that go through several managers and report a failure. -/
inductive Alteration where
  | declareQueue (queue : MsgQueue)
  | deleteQueue (name : Bytes)
  | deleteExchange (name : Bytes)

/-- Perform such a call. -/
def alter [Protobuf] (host : VirtualHost) (sql : SqlOutcome) :
    Alteration → FileM (Bool × VirtualHost)
  | .declareQueue queue => host.declareQueue sql queue
  | .deleteQueue name => host.deleteQueue sql name
  | .deleteExchange name => return host.deleteExchange sql name

/-- Any call on the host, and the restart. -/
inductive Use where
  | alter (alteration : Alteration)
  | declareExchange (exchange : Exchange)
  | bind (ename qname key : Bytes)
  | unBind (ename qname : Bytes)
  | basicPublish (qname : Bytes) (properties : Option BasecProperties) (uuid body : Bytes)
  | basicConsume (qname : Bytes)
  | basicAck (qname msgId : Bytes)
  | restart

/-- A call with what becomes of its statements and file operations. -/
structure Occasion where
  use : Use
  sql : SqlOutcome := {}
  script : List Outcome := []

/-- The host after a call. -/
def used [Protobuf] (host : VirtualHost) (sql : SqlOutcome) : Use → FileM VirtualHost
  | .alter alteration => do
      let altered ← host.alter sql alteration
      return altered.2
  | .declareExchange exchange => return (host.declareExchange sql exchange).2
  | .bind ename qname key => return (host.bind sql ename qname key).2
  | .unBind ename qname => return host.unBind sql ename qname
  | .basicPublish qname properties uuid body => do
      let published ← host.basicPublish qname properties uuid body
      return published.2
  | .basicConsume qname => return (host.basicConsume qname).2
  | .basicAck qname msgId => host.basicAck qname msgId
  | .restart => new host.database host.mmptr.basedir

/-- Perform one call. -/
def proceed [Protobuf] (site : Site) (occasion : Occasion) : Except Fault Site :=
  (performed (site.host.used occasion.sql occasion.use) site.disk occasion.script).map
    fun done => ⟨done.1, done.2⟩

/-- The same exchanges, queues, bindings and stores, the same files and the same
rows. -/
structure Unchanged (before after : Site) : Prop where
  exchanges : ∀ name, after.host.emptr.exchanges.lookup name =
    before.host.emptr.exchanges.lookup name
  queues : ∀ name, after.host.qmptr.msgQueues.lookup name =
    before.host.qmptr.msgQueues.lookup name
  bindings : ∀ ename qname, after.host.bmptr.getBinding ename qname =
    before.host.bmptr.getBinding ename qname
  stores : ∀ name, after.host.mmptr.queueMsgs.select name =
    before.host.mmptr.queueMsgs.select name
  files : after.disk = before.disk
  database : after.host.database = before.host.database

/-- The managers that are called first have nothing to do: the queue to declare
has a store already; the queue to delete has no store, no binding and no row
that is deleted; the exchange to delete has no binding and no such row. -/
def Alteration.Idle (host : VirtualHost) (sql : SqlOutcome) : Alteration → Prop
  | .declareQueue queue => queue.name ∈ host.mmptr.queueMsgs.names
  | .deleteQueue name => name ∉ host.mmptr.queueMsgs.names ∧
      (∀ ename, host.bmptr.getBinding ename name = none) ∧
      (sql.bindingTable = false ∨
        ∀ row ∈ host.bmptr.mapper.bindingTable, row.msgqueueName ≠ name)
  | .deleteExchange name => (∀ qname, host.bmptr.getBinding name qname = none) ∧
      (name ∉ host.bmptr.bindings ∨ sql.bindingTable = false ∨
        ∀ row ∈ host.bmptr.mapper.bindingTable, row.exchangeName ≠ name)

/-! ## A store that comes or goes -/

section Stores

variable {manager next : MessageManager} {world after : World} {qname : Bytes}

theorem mem_names_of_select (same : next.queueMsgs.select qname = manager.queueMsgs.select qname) :
    qname ∈ next.queueMsgs.names ↔ qname ∈ manager.queueMsgs.names := by
  have lookups : next.queueMsgs.find qname = none ↔ manager.queueMsgs.find qname = none := by
    rw [← Registry.select_eq_none, ← Registry.select_eq_none, same]
  exact not_iff_not.mp (AList.lookup_eq_none.symm.trans (lookups.trans AList.lookup_eq_none))

/-- Nothing is done for a name that has a store. -/
theorem initQueueMessage_present [Protobuf] (present : qname ∈ manager.queueMsgs.names)
    (completed : manager.initQueueMessage qname world = .ok next after) :
    next = manager ∧ after = world := by
  rcases bind_eq_ok completed with ⟨admitted, middle, entered, rest⟩
  rcases MessageManager.introduce_cases entered with ⟨_, result, same⟩ | ⟨absent, _⟩
  · rw [result] at rest
    cases rest
    exact ⟨rfl, same⟩
  · exact absurd present (AList.lookup_eq_none.mp absent)

/-- Nothing is done for a name that has no store. -/
theorem destroyQueueMessage_absent (absent : qname ∉ manager.queueMsgs.names)
    (completed : manager.destroyQueueMessage qname world = .ok next after) :
    next = manager ∧ after = world := by
  have found : manager.queueMsgs.find qname = none := AList.lookup_eq_none.mpr absent
  unfold MessageManager.destroyQueueMessage MessageManager.withdraw at completed
  rw [found] at completed
  cases completed
  exact ⟨rfl, rfl⟩

end Stores

/-! ## Each call -/

section Refused

variable {host next : VirtualHost} {sql : SqlOutcome} {disk : Disk} {world after : World}

theorem declareQueue_unchanged_iff [Protobuf] {queue : MsgQueue}
    (refused : host.declareQueue sql queue world = .ok (false, next) after) :
    Unchanged ⟨host, world.disk⟩ ⟨next, after.disk⟩ ↔
      (Alteration.declareQueue queue).Idle host sql := by
  rcases declareQueue_ok refused with ⟨mmptr, initialised, answer, rfl⟩
  have kept : (host.qmptr.declareQueue sql.queueTable queue).2 = host.qmptr :=
    host.qmptr.refusesCleanly (.declareQueue sql.queueTable queue) answer.symm
  rw [kept]
  constructor
  · intro unchanged
    exact (mem_names_of_select (unchanged.stores queue.name)).mp
      ((MessageManager.mem_initQueueMessage initialised queue.name).mpr (Or.inl rfl))
  · intro present
    rcases initQueueMessage_present present initialised with ⟨rfl, rfl⟩
    exact ⟨fun _ => rfl, fun _ => rfl, fun _ _ => rfl, fun _ => rfl, rfl, rfl⟩

theorem deleteQueue_unchanged_iff {name : Bytes}
    (refused : host.deleteQueue sql name world = .ok (false, next) after) :
    Unchanged ⟨host, world.disk⟩ ⟨next, after.disk⟩ ↔
      (Alteration.deleteQueue name).Idle host sql := by
  rcases deleteQueue_ok refused with ⟨mmptr, destroyed, answer, rfl⟩
  have kept : (host.qmptr.deleteQueue sql.queueTable name).2 = host.qmptr :=
    host.qmptr.refusesCleanly (.deleteQueue sql.queueTable name) answer.symm
  have rows : host.bmptr.mapper.removeMsgQueueBinding sql.bindingTable name = host.bmptr.mapper ↔
      sql.bindingTable = false ∨
        ∀ row ∈ host.bmptr.mapper.bindingTable, row.msgqueueName ≠ name := by
    rw [BindingMapper.removeMsgQueueBinding, BindingMapper.deleteWhere_eq_self]
    simp only [decide_eq_false_iff_not]
  rw [kept]
  constructor
  · intro unchanged
    refine ⟨?_, fun ename => ?_, rows.mp (congrArg Database.bindingMapper unchanged.database)⟩
    · rw [← mem_names_of_select (unchanged.stores name),
        MessageManager.mem_destroyQueueMessage destroyed]
      exact fun both => both.1 rfl
    · rw [← unchanged.bindings ename name]
      exact (BindingManager.getBinding_removeMsgQueueBindings ..).trans (if_pos rfl)
  · rintro ⟨absent, unbound, idle⟩
    rcases destroyQueueMessage_absent absent destroyed with ⟨rfl, rfl⟩
    refine ⟨fun _ => rfl, fun _ => rfl, fun ename qname => ?_, fun _ => rfl, rfl, ?_⟩
    · refine (BindingManager.getBinding_removeMsgQueueBindings ..).trans ?_
      by_cases same : qname = name
      · rw [if_pos same, same]
        exact (unbound ename).symm
      · exact if_neg same
    · exact congrArg (Database.mk host.emptr.mapper host.qmptr.mapper) (rows.mpr idle)

theorem deleteExchange_unchanged_iff {name : Bytes}
    (refused : host.deleteExchange sql name = (false, next)) :
    Unchanged ⟨host, disk⟩ ⟨next, disk⟩ ↔ (Alteration.deleteExchange name).Idle host sql := by
  have answer : (host.emptr.deleteExchange sql.exchangeTable name).1 = false :=
    congrArg Prod.fst refused
  have result : next = { host with
      emptr := (host.emptr.deleteExchange sql.exchangeTable name).2
      bmptr := host.bmptr.removeExchangeBindings sql.bindingTable name } :=
    (congrArg Prod.snd refused).symm
  have kept : (host.emptr.deleteExchange sql.exchangeTable name).2 = host.emptr := by
    rcases host.emptr.deleteExchange_cases sql.exchangeTable name with ⟨_, result⟩ |
      ⟨_, _, ⟨_, result⟩ | ⟨_, result⟩ | ⟨_, _, result⟩⟩
    all_goals rw [result] at answer ⊢
    · cases answer
    · cases answer
  have rows : (host.bmptr.removeExchangeBindings sql.bindingTable name).mapper =
      host.bmptr.mapper ↔ name ∉ host.bmptr.bindings ∨ sql.bindingTable = false ∨
        ∀ row ∈ host.bmptr.mapper.bindingTable, row.exchangeName ≠ name := by
    unfold BindingManager.removeExchangeBindings
    cases found : host.bmptr.bindings.lookup name with
    | none => exact ⟨fun _ => Or.inl (AList.lookup_eq_none.mp found), fun _ => rfl⟩
    | some bound =>
        have present : name ∈ host.bmptr.bindings := Dictionary.lookup_eq_some_mem found
        change host.bmptr.mapper.removeExchangeBinding sql.bindingTable name = _ ↔ _
        rw [BindingMapper.removeExchangeBinding, BindingMapper.deleteWhere_eq_self]
        simp only [decide_eq_false_iff_not, present, not_true_eq_false, false_or, ne_eq]
  rw [result, kept]
  constructor
  · intro unchanged
    refine ⟨fun qname => ?_, rows.mp (congrArg Database.bindingMapper unchanged.database)⟩
    rw [← unchanged.bindings name qname]
    exact (BindingManager.getBinding_removeExchangeBindings ..).trans (if_pos rfl)
  · rintro ⟨unbound, idle⟩
    refine ⟨fun _ => rfl, fun _ => rfl, fun ename qname => ?_, fun _ => rfl, rfl, ?_⟩
    · refine (BindingManager.getBinding_removeExchangeBindings ..).trans ?_
      by_cases same : ename = name
      · rw [if_pos same, same]
        exact (unbound qname).symm
      · exact if_neg same
    · exact congrArg (Database.mk host.emptr.mapper host.qmptr.mapper) (rows.mpr idle)

/-- A refused call changes nothing exactly if the managers that are called
first have nothing to do. -/
theorem alter_unchanged_iff [Protobuf] {alteration : Alteration} {script : List Outcome}
    {left : Disk} (refused : performed (host.alter sql alteration) disk script =
      .ok ((false, next), left)) :
    Unchanged ⟨host, disk⟩ ⟨next, left⟩ ↔ alteration.Idle host sql := by
  rcases performed_eq_ok refused with ⟨after, completed, rfl⟩
  cases alteration with
  | declareQueue queue => exact declareQueue_unchanged_iff completed
  | deleteQueue name => exact deleteQueue_unchanged_iff completed
  | deleteExchange name =>
      have answer : host.deleteExchange sql name = (false, next) ∧ ⟨disk, script⟩ = after := by
        rw [alter] at completed
        injection completed with value world
        exact ⟨value, world⟩
      rw [← answer.2]
      exact deleteExchange_unchanged_iff answer.1

end Refused

/-- A call that is refused, and the site after it. -/
def Refuses [Protobuf] (site : Site) (occasion : Occasion) (alteration : Alteration)
    (after : Site) : Prop :=
  occasion.use = .alter alteration ∧
    performed (site.host.alter occasion.sql alteration) site.disk occasion.script =
      .ok ((false, after.host), after.disk)

/-- In every run of calls, each call that is refused changes nothing exactly if
the managers that are called first have nothing to do. -/
theorem refusals_unchanged_iff [Protobuf] (site : Site) (occasions : List Occasion) :
    Along proceed (fun site occasion => ∀ alteration after,
      Refuses site occasion alteration after →
        (Unchanged site after ↔ alteration.Idle site.host occasion.sql)) site occasions :=
  (along_trivial proceed site occasions).mono
    fun _ _ _ _ _ refuses => alter_unchanged_iff refuses.2

/-- A durable queue is declared, and its deletion is refused. -/
def refusedDeletion : List Occasion :=
  [{ use := .alter (.declareQueue ⟨ascii "q", true, false, false, ∅⟩) },
    { use := .alter (.deleteQueue (ascii "q")), sql := { queueTable := false } }]

/-- The store of a queue is gone after its deletion was refused. -/
theorem refusal_takes_the_store :
    ¬ ∀ occasions : List Occasion, Along (@proceed wireFormat) (fun site occasion =>
      ∀ alteration after, @Refuses wireFormat site occasion alteration after →
        Unchanged site after) ⟨fresh (ascii "data"), fun _ => none⟩ occasions := by
  intro always
  rcases always refusedDeletion with ⟨_, later⟩
  rcases later _ rfl with ⟨refused, _⟩
  have unchanged := refused (.deleteQueue (ascii "q")) ⟨_, _⟩ ⟨rfl, rfl⟩
  have same := congrArg Option.isSome (unchanged.stores (ascii "q"))
  exact absurd same (by decide)

end VirtualHost

end ProtobufMq
