import ProtobufMq.Server.VirtualHost

namespace ProtobufMq

open Foundation

/-!
# Bindings in the database

A binding is stored when both its ends are durable, so that a restart should
find both ends of every stored binding.  The two ends are asked in one
expression, `eptr->durable && qptr->durable`, in which the mode of the exchange
is a number: a mode that is not `DURABLE`, but not zero either, counts as true.
Such an exchange has no row, unless a row of an earlier exchange with its name
was left behind.

The invariant names what the delete functions rely on: a stored binding is in
the map, where removing the bindings of an exchange looks first.
-/

namespace VirtualHost

/-- The calls on the host that change tables, and the restart. -/
inductive Call where
  | declareExchange (exchange : Exchange)
  | deleteExchange (name : Bytes)
  | declareQueue (queue : MsgQueue)
  | deleteQueue (name : Bytes)
  | bind (ename qname key : Bytes)
  | unBind (ename qname : Bytes)
  | restart

/-- A call with what it meets: statements on `exchange_table` may fail, and file
operations too. -/
structure Event where
  call : Call
  exchangeEffect : Bool := true
  script : List Outcome := []

namespace Event

/-- The statements on the two other tables take effect. -/
def sql (event : Event) : SqlOutcome :=
  { exchangeTable := event.exchangeEffect }

end Event

/-- A host together with the disk. -/
structure Site where
  host : VirtualHost
  disk : Disk

/-- Perform one call. -/
def perform [Protobuf] (site : Site) (event : Event) : Except Fault Site :=
  match event.call with
  | .declareExchange exchange =>
      .ok { site with host := (site.host.declareExchange event.sql exchange).2 }
  | .deleteExchange name => .ok { site with host := (site.host.deleteExchange event.sql name).2 }
  | .declareQueue queue =>
      (performed (site.host.declareQueue event.sql queue) site.disk event.script).map
        fun done => ⟨done.1.2, done.2⟩
  | .deleteQueue name =>
      (performed (site.host.deleteQueue event.sql name) site.disk event.script).map
        fun done => ⟨done.1.2, done.2⟩
  | .bind ename qname key => .ok { site with host := (site.host.bind event.sql ename qname key).2 }
  | .unBind ename qname => .ok { site with host := site.host.unBind event.sql ename qname }
  | .restart =>
      (performed (new site.host.database site.host.mmptr.basedir) site.disk event.script).map
        fun done => ⟨done.1, done.2⟩

/-! ## The property and the condition -/

/-- An exchange is stored as `DURABLE`. -/
def StoredDurable (mapper : ExchangeMapper) (ename : Bytes) : Prop :=
  ∃ row, mapper.exchangeTable.lookup ename = some row ∧ row.durable = DeliveryMode.durable.code

/-- Every stored binding names a stored exchange and a stored queue, and a
restart recovers only bindings between an exchange and a queue that are there. -/
structure NoDangling (host : VirtualHost) : Prop where
  rows : ∀ row ∈ host.bmptr.mapper.bindingTable,
    StoredDurable host.emptr.mapper row.exchangeName ∧
      row.msgqueueName ∈ host.qmptr.mapper.queueTable
  restart : ∀ ename qname binding,
    (BindingManager.new host.bmptr.mapper).getBinding ename qname = some binding →
      ename ∈ (ExchangeManager.new host.emptr.mapper).exchanges ∧
        qname ∈ (MsgQueueManager.new host.qmptr.mapper).msgQueues

/-- The condition on a call: an exchange whose binding is going to be stored is
stored as `DURABLE` itself. -/
def StoresBothEnds (site : Site) (event : Event) : Prop :=
  match event.call with
  | .bind ename qname _ => ∀ exchange queue,
      site.host.emptr.exchanges.lookup ename = some exchange →
      site.host.qmptr.msgQueues.lookup qname = some queue →
      site.host.bmptr.getBinding ename qname = none →
      exchange.durable.code ≠ 0 → queue.durable = true →
      StoredDurable site.host.emptr.mapper ename
  | _ => True

/-- The invariant. -/
structure Consistent (host : VirtualHost) : Prop where
  queues : host.qmptr.Tracked
  bound : ∀ row ∈ host.bmptr.mapper.bindingTable,
    ∃ binding, host.bmptr.getBinding row.exchangeName row.msgqueueName = some binding
  rows : ∀ row ∈ host.bmptr.mapper.bindingTable,
    StoredDurable host.emptr.mapper row.exchangeName ∧
      row.msgqueueName ∈ host.qmptr.mapper.queueTable

theorem noDangling_of_consistent {host : VirtualHost} (consistent : Consistent host) :
    NoDangling host := by
  refine ⟨consistent.rows, fun ename qname binding found => ?_⟩
  rcases BindingMapper.boundIn_foldl found with nothing | ⟨member, sameE, sameQ⟩
  · cases nothing
  · rcases consistent.rows binding member with ⟨⟨row, stored, _⟩, queueStored⟩
    rw [sameE] at stored
    rw [sameQ] at queueStored
    exact ⟨(Dictionary.mem_mapValues _ _ _).mpr (Dictionary.lookup_eq_some_mem stored),
      (Dictionary.mem_mapValues _ _ _).mpr queueStored⟩

/-! ## What one call does to the tables -/

section Steps

variable {host : VirtualHost} {sql : SqlOutcome}

/-- A row of `exchange_table` outlives every declaration. -/
theorem storedDurable_declareExchange {manager : ExchangeManager} {takesEffect : Bool}
    {exchange : Exchange} {ename : Bytes} (stored : StoredDurable manager.mapper ename) :
    StoredDurable (manager.declareExchange takesEffect exchange).2.mapper ename := by
  rcases manager.declareExchange_cases takesEffect exchange with ⟨_, result⟩ | ⟨_, _, result⟩ |
    ⟨_, _, result⟩ | ⟨_, _, _, result⟩
  all_goals rw [result]
  · exact stored
  · exact stored
  · rcases stored with ⟨row, found, durable⟩
    unfold StoredDurable
    rw [Dictionary.lookup_insert]
    by_cases same : ename = exchange.name
    · rw [if_pos same]
      exact ⟨exchange.row, rfl, exchange.row_durable_eq.mpr (by assumption)⟩
    · rw [if_neg same]
      exact ⟨row, found, durable⟩
  · exact stored

/-- Deleting an exchange removes no row but its own. -/
theorem storedDurable_deleteExchange {manager : ExchangeManager} {takesEffect : Bool}
    {name ename : Bytes} (other : ename ≠ name) (stored : StoredDurable manager.mapper ename) :
    StoredDurable (manager.deleteExchange takesEffect name).2.mapper ename := by
  rcases manager.deleteExchange_cases takesEffect name with ⟨_, result⟩ |
    ⟨exchange, _, ⟨_, result⟩ | ⟨_, result⟩ | ⟨_, _, result⟩⟩
  all_goals rw [result]
  · exact stored
  · exact stored
  · rcases stored with ⟨row, found, durable⟩
    refine ⟨row, ?_, durable⟩
    change (manager.mapper.exchangeTable.erase name).lookup ename = some row
    rw [Dictionary.lookup_erase, if_neg other]
    exact found
  · exact stored

/-- A row of `queue_table` outlives every declaration. -/
theorem stored_declareQueue {manager : MsgQueueManager} {takesEffect : Bool} {queue : MsgQueue}
    {qname : Bytes} (stored : qname ∈ manager.mapper.queueTable) :
    qname ∈ (manager.declareQueue takesEffect queue).2.mapper.queueTable := by
  rcases manager.declareQueue_cases takesEffect queue with ⟨_, result⟩ | ⟨_, _, result⟩ |
    ⟨_, _, result⟩ | ⟨_, _, _, result⟩
  all_goals rw [result]
  · exact stored
  · exact stored
  · exact (AList.mem_insert _).mpr (Or.inr stored)
  · exact stored

/-- Deleting a queue removes no row but its own. -/
theorem stored_deleteQueue {manager : MsgQueueManager} {takesEffect : Bool} {name qname : Bytes}
    (other : qname ≠ name) (stored : qname ∈ manager.mapper.queueTable) :
    qname ∈ (manager.deleteQueue takesEffect name).2.mapper.queueTable := by
  rcases manager.deleteQueue_cases takesEffect name with ⟨_, result⟩ |
    ⟨queue, _, ⟨_, result⟩ | ⟨_, _, result⟩ | ⟨_, _, result⟩⟩
  all_goals rw [result]
  · exact stored
  · exact stored
  · exact AList.mem_erase.mpr ⟨other, stored⟩
  · exact stored

theorem consistent_declareExchange (consistent : Consistent host) (exchange : Exchange) :
    Consistent (host.declareExchange sql exchange).2 :=
  ⟨consistent.queues, consistent.bound, fun row member =>
    ⟨storedDurable_declareExchange (consistent.rows row member).1,
      (consistent.rows row member).2⟩⟩

/-- The bindings of a deleted exchange leave the table before its row does. -/
theorem consistent_deleteExchange (consistent : Consistent host) (name : Bytes)
    (bindingEffect : sql.bindingTable = true) :
    Consistent (host.deleteExchange sql name).2 := by
  have left : ∀ row ∈ (host.bmptr.removeExchangeBindings sql.bindingTable name).mapper.bindingTable,
      row ∈ host.bmptr.mapper.bindingTable ∧ row.exchangeName ≠ name := by
    intro row member
    unfold BindingManager.removeExchangeBindings at member
    cases found : host.bmptr.bindings.lookup name with
    | none =>
        rw [found] at member
        refine ⟨member, fun same => ?_⟩
        rcases consistent.bound row member with ⟨binding, bound⟩
        rw [same, BindingManager.getBinding, BindingMapper.boundIn, found] at bound
        cases bound
    | some bound =>
        rw [found] at member
        rcases BindingMapper.mem_deleteWhere member with ⟨old, unselected⟩
        exact ⟨old, fun same => by simpa [same] using unselected bindingEffect⟩
  refine ⟨consistent.queues, fun row member => ?_, fun row member => ?_⟩
  · rcases left row member with ⟨old, other⟩
    rcases consistent.bound row old with ⟨binding, bound⟩
    refine ⟨binding, ?_⟩
    change (host.bmptr.removeExchangeBindings sql.bindingTable name).getBinding _ _ = _
    rw [BindingManager.getBinding_removeExchangeBindings, if_neg other]
    exact bound
  · rcases left row member with ⟨old, other⟩
    exact ⟨storedDurable_deleteExchange other (consistent.rows row old).1,
      (consistent.rows row old).2⟩

theorem consistent_declareQueue [Protobuf] {queue : MsgQueue} {world after : World}
    {accepted : Bool} {next : VirtualHost} (consistent : Consistent host)
    (completed : host.declareQueue sql queue world = .ok (accepted, next) after) :
    Consistent next := by
  rcases declareQueue_ok completed with ⟨mmptr, _, _, result⟩
  rw [result]
  exact ⟨MsgQueueManager.tracked_declareQueue consistent.queues queue, consistent.bound,
    fun row member => ⟨(consistent.rows row member).1,
      stored_declareQueue (consistent.rows row member).2⟩⟩

/-- The bindings of a deleted queue leave the table before its row does. -/
theorem consistent_deleteQueue {name : Bytes} {world after : World} {accepted : Bool}
    {next : VirtualHost} (consistent : Consistent host) (bindingEffect : sql.bindingTable = true)
    (completed : host.deleteQueue sql name world = .ok (accepted, next) after) :
    Consistent next := by
  rcases deleteQueue_ok completed with ⟨mmptr, _, _, result⟩
  rw [result]
  have left : ∀ row ∈ (host.bmptr.removeMsgQueueBindings sql.bindingTable name).mapper.bindingTable,
      row ∈ host.bmptr.mapper.bindingTable ∧ row.msgqueueName ≠ name := by
    intro row member
    rcases BindingMapper.mem_deleteWhere member with ⟨old, unselected⟩
    exact ⟨old, fun same => by simpa [same] using unselected bindingEffect⟩
  refine ⟨MsgQueueManager.tracked_deleteQueue consistent.queues name, fun row member => ?_,
    fun row member => ?_⟩
  · rcases left row member with ⟨old, other⟩
    rcases consistent.bound row old with ⟨binding, bound⟩
    refine ⟨binding, ?_⟩
    rw [BindingManager.getBinding_removeMsgQueueBindings, if_neg other]
    exact bound
  · rcases left row member with ⟨old, other⟩
    exact ⟨(consistent.rows row old).1, stored_deleteQueue other (consistent.rows row old).2⟩

/-- What a bind stores. -/
theorem mem_bind {manager : BindingManager} {takesEffect durable : Bool} {ename qname key : Bytes}
    {row : Binding}
    (member : row ∈ (manager.bind takesEffect ename qname key durable).2.mapper.bindingTable) :
    row ∈ manager.mapper.bindingTable ∨
      (row = ⟨ename, qname, key⟩ ∧ durable = true ∧ manager.getBinding ename qname = none) := by
  rcases manager.bind_cases takesEffect ename qname key durable with ⟨_, result⟩ |
    ⟨_, _, result⟩ | ⟨absent, durable, _, result⟩ | ⟨_, _, _, result⟩
  all_goals rw [result] at member
  · exact Or.inl member
  · exact Or.inl member
  · rcases List.mem_append.mp member with old | new
    · exact Or.inl old
    · exact Or.inr ⟨List.mem_singleton.mp new, durable, absent⟩
  · exact Or.inl member

/-- What is bound stays bound, and so is the pair of a bind that stores it. -/
theorem bound_bind {manager : BindingManager} {takesEffect durable : Bool} {ename qname key : Bytes}
    (bound : ∀ row ∈ manager.mapper.bindingTable,
      ∃ binding, manager.getBinding row.exchangeName row.msgqueueName = some binding) :
    ∀ row ∈ (manager.bind takesEffect ename qname key durable).2.mapper.bindingTable,
      ∃ binding, (manager.bind takesEffect ename qname key durable).2.getBinding
        row.exchangeName row.msgqueueName = some binding := by
  have kept : ∀ otherE otherQ, (∃ binding, manager.getBinding otherE otherQ = some binding) ∨
      (otherE = ename ∧ otherQ = qname) → ∃ binding,
        (if otherE = ename then
          ((manager.getExchangeBindings ename).insert qname ⟨ename, qname, key⟩).lookup otherQ
          else manager.getBinding otherE otherQ) = some binding := by
    intro otherE otherQ either
    by_cases sameE : otherE = ename
    · rw [if_pos sameE, Dictionary.lookup_insert]
      by_cases sameQ : otherQ = qname
      · exact ⟨_, if_pos sameQ⟩
      · rw [if_neg sameQ, ← BindingManager.getBinding_eq, ← sameE]
        exact either.elim id fun both => absurd both.2 sameQ
    · rw [if_neg sameE]
      exact either.elim id fun both => absurd both.1 sameE
  intro row member
  have origin := mem_bind member
  rcases manager.bind_cases takesEffect ename qname key durable with ⟨_, result⟩ |
    ⟨_, _, result⟩ | ⟨_, _, _, result⟩ | ⟨_, _, _, result⟩
  all_goals rw [result] at member ⊢
  · exact bound row member
  · rw [BindingManager.getBinding_withBindings]
    exact kept _ _ (Or.inl (bound row member))
  · rw [BindingManager.getBinding_withBindings]
    apply kept
    rcases origin with old | ⟨same, _, _⟩
    · exact Or.inl (bound row old)
    · rw [same]
      exact Or.inr ⟨rfl, rfl⟩
  · exact bound row member

theorem consistent_bind (consistent : Consistent host) {ename qname key : Bytes}
    (meets : ∀ exchange queue, host.emptr.exchanges.lookup ename = some exchange →
      host.qmptr.msgQueues.lookup qname = some queue → host.bmptr.getBinding ename qname = none →
      exchange.durable.code ≠ 0 → queue.durable = true → StoredDurable host.emptr.mapper ename) :
    Consistent (host.bind sql ename qname key).2 := by
  rcases host.bind_cases sql ename qname key with ⟨_, result⟩ |
    ⟨exchange, queue, exchangeFound, queueFound, result⟩
  all_goals rw [result]
  · exact consistent
  · refine ⟨consistent.queues, bound_bind consistent.bound, fun row member => ?_⟩
    rcases mem_bind member with old | ⟨same, durable, absent⟩
    · exact consistent.rows row old
    · unfold bindsDurably at durable
      rw [Bool.and_eq_true, decide_eq_true_iff] at durable
      rw [same]
      exact ⟨meets exchange queue exchangeFound queueFound absent durable.1 durable.2,
        consistent.queues.durable qname queue queueFound durable.2⟩

theorem consistent_unBind (consistent : Consistent host) (ename qname : Bytes)
    (bindingEffect : sql.bindingTable = true) :
    Consistent (host.unBind sql ename qname) := by
  have left : ∀ row ∈ (host.bmptr.unBind sql.bindingTable ename qname).mapper.bindingTable,
      row ∈ host.bmptr.mapper.bindingTable ∧
        ¬ (row.exchangeName = ename ∧ row.msgqueueName = qname) := by
    intro row member
    unfold BindingManager.unBind at member
    cases found : host.bmptr.getBinding ename qname with
    | none =>
        rw [found] at member
        refine ⟨member, fun same => ?_⟩
        rcases consistent.bound row member with ⟨binding, bound⟩
        rw [same.1, same.2, found] at bound
        cases bound
    | some binding =>
        rw [found] at member
        rcases BindingMapper.mem_deleteWhere member with ⟨old, unselected⟩
        exact ⟨old, fun same => by simpa [same.1, same.2] using unselected bindingEffect⟩
  refine ⟨consistent.queues, fun row member => ?_, fun row member => ?_⟩
  · rcases left row member with ⟨old, other⟩
    rcases consistent.bound row old with ⟨binding, bound⟩
    refine ⟨binding, ?_⟩
    change (host.bmptr.unBind sql.bindingTable ename qname).getBinding _ _ = _
    rw [BindingManager.getBinding_unBind, if_neg other]
    exact bound
  · exact consistent.rows row (left row member).1

/-- A restart keeps the tables. -/
theorem consistent_new [Protobuf] {basedir : Bytes} {world after : World} {next : VirtualHost}
    (consistent : Consistent host)
    (completed : new host.database basedir world = .ok next after) : Consistent next := by
  rcases new_ok completed with ⟨mmptr, _, result⟩
  rw [result]
  exact ⟨MsgQueueManager.tracked_new fun name row stored => (consistent.queues.row name row stored).1,
    fun row member => BindingMapper.boundIn_recovery member, consistent.rows⟩

end Steps

/-! ## Runs -/

theorem consistent_step [Protobuf] {site next : Site} {event : Event}
    (consistent : Consistent site.host) (meets : StoresBothEnds site event)
    (stepped : perform site event = .ok next) : Consistent next.host := by
  rcases event with ⟨call, exchangeEffect, script⟩
  cases call with
  | declareExchange exchange =>
      cases stepped
      exact consistent_declareExchange consistent exchange
  | deleteExchange name =>
      cases stepped
      exact consistent_deleteExchange consistent name rfl
  | declareQueue queue =>
      rcases except_map_eq_ok stepped with ⟨done, completed, same⟩
      rcases performed_eq_ok completed with ⟨world, ran, _⟩
      rw [← same]
      exact consistent_declareQueue consistent ran
  | deleteQueue name =>
      rcases except_map_eq_ok stepped with ⟨done, completed, same⟩
      rcases performed_eq_ok completed with ⟨world, ran, _⟩
      rw [← same]
      exact consistent_deleteQueue consistent rfl ran
  | bind ename qname key =>
      cases stepped
      exact consistent_bind consistent meets
  | unBind ename qname =>
      cases stepped
      exact consistent_unBind consistent ename qname rfl
  | restart =>
      rcases except_map_eq_ok stepped with ⟨done, completed, same⟩
      rcases performed_eq_ok completed with ⟨world, ran, _⟩
      rw [← same]
      exact consistent_new consistent ran

/-- A stored binding of an exchange that is not stored dangles at once. -/
theorem storesBothEnds_of_noDangling [Protobuf] {site : Site} {event : Event}
    (holds : ∀ next, perform site event = .ok next → NoDangling next.host) :
    StoresBothEnds site event := by
  rcases event with ⟨call, exchangeEffect, script⟩
  cases call with
  | bind ename qname key =>
      intro exchange queue exchangeFound queueFound absent counts durable
      have noDangling := holds _ rfl
      rcases site.host.bind_cases { exchangeTable := exchangeEffect } ename qname key with
        ⟨missing, _⟩ | ⟨otherE, otherQ, otherEFound, otherQFound, result⟩
      · rcases missing with noExchange | noQueue
        · exact absurd (Dictionary.lookup_eq_some_mem exchangeFound) noExchange
        · exact absurd (Dictionary.lookup_eq_some_mem queueFound) noQueue
      · cases exchangeFound.symm.trans otherEFound
        cases queueFound.symm.trans otherQFound
        have stores : bindsDurably exchange queue = true := by
          rw [bindsDurably, durable, Bool.and_true]
          exact decide_eq_true counts
        rcases site.host.bmptr.bind_cases true ename qname key (bindsDurably exchange queue) with
          ⟨⟨binding, found⟩, _⟩ | ⟨_, transient, _⟩ | ⟨_, _, _, bound⟩ | ⟨_, _, refused, _⟩
        · rw [absent] at found
          cases found
        · rw [stores] at transient
          cases transient
        · have table := noDangling.rows ⟨ename, qname, key⟩
          change _ ∈ (site.host.bind { exchangeTable := exchangeEffect } ename qname
            key).2.bmptr.mapper.bindingTable →
            StoredDurable (site.host.bind { exchangeTable := exchangeEffect } ename qname
              key).2.emptr.mapper ename ∧ _ at table
          rw [result] at table
          simp only [bound] at table
          exact (table (List.mem_append_right _ (List.mem_singleton.mpr rfl))).1
        · cases refused
  | declareExchange exchange => exact trivial
  | deleteExchange name => exact trivial
  | declareQueue queue => exact trivial
  | deleteQueue name => exact trivial
  | unBind ename qname => exact trivial
  | restart => exact trivial

/-- In every run from an empty database, no binding dangles in any state, if and
only if no binding is stored for an exchange that is not stored as `DURABLE`. -/
theorem no_dangling_throughout_iff [Protobuf] (basedir : Bytes) (disk : Disk)
    (events : List Event) :
    Throughout perform (fun site => NoDangling site.host) ⟨fresh basedir, disk⟩ events ↔
      Along perform StoresBothEnds ⟨fresh basedir, disk⟩ events := by
  have start : Consistent (fresh basedir) := by
    refine ⟨MsgQueueManager.tracked_new fun name row stored => (nomatch stored), ?_, ?_⟩
    · intro row member
      cases member
    · intro row member
      cases member
  have sound : ∀ site : Site, Consistent site.host → NoDangling site.host :=
    fun site => noDangling_of_consistent
  exact throughout_iff_along_of_stopping sound
    (fun _ _ _ consistent meets stepped => consistent_step consistent meets stepped)
    (fun _ _ _ holds => storesBothEnds_of_noDangling holds) start

/-- An exchange declared with mode `UNDURABLE`, which is 1, has its binding
stored and is gone after a restart. -/
theorem undurable_exchange_leaves_a_binding :
    ¬ ∀ events : List Event, Throughout (@perform wireFormat)
      (fun site => NoDangling site.host) ⟨fresh [], fun _ => none⟩ events := by
  intro always
  have everywhere := always
    [{ call := .declareExchange ⟨ascii "e", .direct, .undurable, false, ∅⟩ },
      { call := .declareQueue ⟨ascii "q", true, false, false, ∅⟩ },
      { call := .bind (ascii "e") (ascii "q") (ascii "k") }]
  have noDangling := everywhere.last rfl
  rcases (noDangling.rows ⟨ascii "e", ascii "q", ascii "k"⟩ (List.mem_singleton.mpr rfl)).1 with
    ⟨row, stored, _⟩
  cases stored

end VirtualHost

end ProtobufMq
