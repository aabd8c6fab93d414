import ProtobufMq.Common.Args
import ProtobufMq.Foundation.Mirror
import ProtobufMq.Foundation.Run

namespace ProtobufMq

open Foundation

/-!
# `MsgQueueManager`: queues in memory and in the database

A queue is kept in a map and, when it is durable, also in a row of
`queue_table`.  The mode of a queue is a Boolean, so that the two functions
that look at it agree, and the rows are the durable queues after every call,
whether or not its statement takes effect.
-/

/-! ## The classes -/

/-- `struct MsgQueue`. -/
structure MsgQueue where
  name : Bytes
  durable : Bool
  exclusive : Bool
  autoDelete : Bool
  args : Args := ∅

/-- The columns of `queue_table` next to the name, which is its primary key. -/
structure QueueRow where
  durable : Nat
  exclusive : Nat
  autoDelete : Nat
  args : Bytes
  deriving DecidableEq, Repr

namespace MsgQueue

/-- `MsgQueue::getArgs`. -/
def getArgs (queue : MsgQueue) : Bytes :=
  queue.args.getArgs

/-- `MsgQueue::setArgs`. -/
def setArgs (queue : MsgQueue) (text : Bytes) : MsgQueue :=
  { queue with args := queue.args.setArgs text }

/-- The values of the insert statement for a queue. -/
def row (queue : MsgQueue) : QueueRow :=
  ⟨queue.durable.toNat, queue.exclusive.toNat, queue.autoDelete.toNat, queue.args.getArgs⟩

/-- `MsgQueueMapper::selectCallback`: the queue of a row. -/
def ofRow (name : Bytes) (row : QueueRow) : MsgQueue :=
  ⟨name, row.durable ≠ 0, row.exclusive ≠ 0, row.autoDelete ≠ 0, Args.setArgs ∅ row.args⟩

/-- A row brings the flags of its queue back. -/
theorem ofRow_row (queue : MsgQueue) :
    ofRow queue.name queue.row =
      { queue with args := Args.setArgs ∅ queue.args.getArgs } := by
  rcases queue with ⟨name, durable, exclusive, autoDelete, args⟩
  cases durable <;> cases exclusive <;> cases autoDelete <;> rfl

end MsgQueue

/-- `MsgQueueMapper`: the table. -/
structure MsgQueueMapper where
  queueTable : Dictionary Bytes QueueRow := ∅

namespace MsgQueueMapper

/-- `MsgQueueMapper::insert`. -/
def insert (mapper : MsgQueueMapper) (takesEffect : Bool) (queue : MsgQueue) :
    Bool × MsgQueueMapper :=
  if takesEffect ∧ queue.name ∉ mapper.queueTable then
    (true, ⟨mapper.queueTable.insert queue.name queue.row⟩)
  else
    (false, mapper)

/-- `MsgQueueMapper::remove`. -/
def remove (mapper : MsgQueueMapper) (takesEffect : Bool) (name : Bytes) : Bool × MsgQueueMapper :=
  if takesEffect then (true, ⟨mapper.queueTable.erase name⟩) else (false, mapper)

/-- `MsgQueueMapper::recovery`. -/
def recovery (mapper : MsgQueueMapper) : Dictionary Bytes MsgQueue :=
  Dictionary.mapValues MsgQueue.ofRow mapper.queueTable

end MsgQueueMapper

/-- `MsgQueueManager`. -/
structure MsgQueueManager where
  mapper : MsgQueueMapper := {}
  msgQueues : Dictionary Bytes MsgQueue := ∅

namespace MsgQueueManager

/-- The constructor, over a database. -/
def new (mapper : MsgQueueMapper) : MsgQueueManager :=
  ⟨mapper, mapper.recovery⟩

/-- `MsgQueueManager::declareQueue`. -/
def declareQueue (manager : MsgQueueManager) (takesEffect : Bool) (queue : MsgQueue) :
    Bool × MsgQueueManager :=
  match manager.msgQueues.lookup queue.name with
  | some _ => (true, manager)
  | none =>
      if queue.durable = true then
        let inserted := manager.mapper.insert takesEffect queue
        if inserted.1 then
          (true, ⟨inserted.2, manager.msgQueues.insert queue.name queue⟩)
        else
          (false, ⟨inserted.2, manager.msgQueues⟩)
      else
        (true, { manager with msgQueues := manager.msgQueues.insert queue.name queue })

/-- `MsgQueueManager::deleteQueue`. -/
def deleteQueue (manager : MsgQueueManager) (takesEffect : Bool) (name : Bytes) :
    Bool × MsgQueueManager :=
  match manager.msgQueues.lookup name with
  | none => (true, manager)
  | some queue =>
      if queue.durable = true then
        let removed := manager.mapper.remove takesEffect name
        if removed.1 then
          (true, ⟨removed.2, manager.msgQueues.erase name⟩)
        else
          (false, ⟨removed.2, manager.msgQueues⟩)
      else
        (true, { manager with msgQueues := manager.msgQueues.erase name })

/-- `MsgQueueManager::selectQueue`. -/
def selectQueue (manager : MsgQueueManager) (name : Bytes) : Option MsgQueue :=
  manager.msgQueues.lookup name

/-- `MsgQueueManager::exists`. -/
def existsQueue (manager : MsgQueueManager) (name : Bytes) : Bool :=
  (manager.msgQueues.lookup name).isSome

/-! ## What the calls can do -/

/-- Declaring finds the name, or adds the queue to the map and, if it is
durable, to the table, or is refused by the table. -/
theorem declareQueue_cases (manager : MsgQueueManager) (takesEffect : Bool) (queue : MsgQueue) :
    (queue.name ∈ manager.msgQueues ∧
      manager.declareQueue takesEffect queue = (true, manager)) ∨
    (queue.name ∉ manager.msgQueues ∧ queue.durable = false ∧
      manager.declareQueue takesEffect queue =
        (true, ⟨manager.mapper, manager.msgQueues.insert queue.name queue⟩)) ∨
    (queue.name ∉ manager.msgQueues ∧ queue.durable = true ∧
      manager.declareQueue takesEffect queue =
        (true, ⟨⟨manager.mapper.queueTable.insert queue.name queue.row⟩,
          manager.msgQueues.insert queue.name queue⟩)) ∨
    (queue.name ∉ manager.msgQueues ∧ queue.durable = true ∧
      (takesEffect = false ∨ queue.name ∈ manager.mapper.queueTable) ∧
      manager.declareQueue takesEffect queue = (false, manager)) := by
  unfold declareQueue
  cases found : manager.msgQueues.lookup queue.name with
  | some present => exact Or.inl ⟨Dictionary.lookup_eq_some_mem found, rfl⟩
  | none =>
      have absent := AList.lookup_eq_none.mp found
      cases durable : queue.durable with
      | false =>
          refine Or.inr (Or.inl ⟨absent, rfl, ?_⟩)
          simp only [Bool.false_eq_true, if_false]
      | true =>
          by_cases inserts : takesEffect = true ∧ queue.name ∉ manager.mapper.queueTable
          · refine Or.inr (Or.inr (Or.inl ⟨absent, rfl, ?_⟩))
            simp only [MsgQueueMapper.insert, inserts, if_true, and_self, not_false_eq_true]
          · refine Or.inr (Or.inr (Or.inr ⟨absent, rfl, ?_, ?_⟩))
            · by_cases effect : takesEffect = true
              · exact Or.inr (not_not.mp fun missing => inserts ⟨effect, missing⟩)
              · exact Or.inl (Bool.not_eq_true _ ▸ effect)
            · simp only [MsgQueueMapper.insert, inserts, if_true, if_false, Bool.false_eq_true]

/-- Deleting finds nothing, or takes the queue out of the map and, when it is
durable, its row out of the table, or is refused by the table. -/
theorem deleteQueue_cases (manager : MsgQueueManager) (takesEffect : Bool) (name : Bytes) :
    (manager.msgQueues.lookup name = none ∧
      manager.deleteQueue takesEffect name = (true, manager)) ∨
    (∃ queue, manager.msgQueues.lookup name = some queue ∧
      ((queue.durable = false ∧ manager.deleteQueue takesEffect name =
        (true, ⟨manager.mapper, manager.msgQueues.erase name⟩)) ∨
      (queue.durable = true ∧ takesEffect = true ∧ manager.deleteQueue takesEffect name =
        (true, ⟨⟨manager.mapper.queueTable.erase name⟩, manager.msgQueues.erase name⟩)) ∨
      (queue.durable = true ∧ takesEffect = false ∧
        manager.deleteQueue takesEffect name = (false, manager)))) := by
  unfold deleteQueue
  cases found : manager.msgQueues.lookup name with
  | none => exact Or.inl ⟨rfl, rfl⟩
  | some queue =>
      refine Or.inr ⟨queue, rfl, ?_⟩
      cases durable : queue.durable with
      | false =>
          refine Or.inl ⟨rfl, ?_⟩
          simp only [durable, Bool.false_eq_true, if_false]
      | true =>
          cases takesEffect with
          | true =>
              refine Or.inr (Or.inl ⟨rfl, rfl, ?_⟩)
              simp only [durable, MsgQueueMapper.remove, if_true]
          | false =>
              refine Or.inr (Or.inr ⟨rfl, rfl, ?_⟩)
              simp only [durable, MsgQueueMapper.remove, if_true, Bool.false_eq_true, if_false]

/-! ## The table and the map -/

/-- The rows are the durable queues of the map. -/
structure Tracked (manager : MsgQueueManager) : Prop where
  row : ∀ name row, manager.mapper.queueTable.lookup name = some row →
    row.durable = 1 ∧ ∃ queue, manager.msgQueues.lookup name = some queue ∧ queue.durable = true
  durable : ∀ name queue, manager.msgQueues.lookup name = some queue → queue.durable = true →
    name ∈ manager.mapper.queueTable

variable {manager : MsgQueueManager} {takesEffect : Bool}

/-- A durable queue is in the map exactly when it is in the table. -/
theorem Tracked.mem_table_iff (tracked : Tracked manager) (name : Bytes) :
    name ∈ manager.mapper.queueTable ↔
      ∃ queue, manager.msgQueues.lookup name = some queue ∧ queue.durable = true := by
  constructor
  · intro member
    rcases Dictionary.mem_iff_lookup.mp member with ⟨row, stored⟩
    exact (tracked.row name row stored).2
  · rintro ⟨queue, found, durable⟩
    exact tracked.durable name queue found durable

/-- A restart keeps the two together. -/
theorem tracked_new {mapper : MsgQueueMapper}
    (rows : ∀ name row, mapper.queueTable.lookup name = some row → row.durable = 1) :
    Tracked (new mapper) := by
  have lookup : ∀ name, (new mapper).msgQueues.lookup name =
      (mapper.queueTable.lookup name).map (MsgQueue.ofRow name) :=
    Dictionary.lookup_mapValues _ _
  constructor
  · intro name row stored
    change mapper.queueTable.lookup name = some row at stored
    have one := rows name row stored
    refine ⟨one, MsgQueue.ofRow name row, ?_, ?_⟩
    · rw [lookup, stored]
      rfl
    · rw [MsgQueue.ofRow, one]
      rfl
  · intro name queue found _
    rw [lookup, Option.map_eq_some_iff] at found
    rcases found with ⟨row, stored, _⟩
    exact Dictionary.lookup_eq_some_mem stored

/-- A new entry comes with its row if it is durable. -/
private theorem tracked_insert (tracked : Tracked manager) {queue : MsgQueue}
    {table : Dictionary Bytes QueueRow} (absent : queue.name ∉ manager.msgQueues)
    (table_eq : ∀ name, table.lookup name =
      if name = queue.name ∧ queue.durable = true then some queue.row
      else manager.mapper.queueTable.lookup name) :
    Tracked ⟨⟨table⟩, manager.msgQueues.insert queue.name queue⟩ := by
  constructor
  · intro name row stored
    change table.lookup name = some row at stored
    rw [table_eq] at stored
    simp only [Dictionary.lookup_insert]
    by_cases added : name = queue.name ∧ queue.durable = true
    · rw [if_pos added] at stored
      cases stored
      rw [if_pos added.1]
      refine ⟨?_, queue, rfl, added.2⟩
      rw [MsgQueue.row, added.2]
      rfl
    · rw [if_neg added] at stored
      rcases tracked.row name row stored with ⟨one, found, lookup, durable⟩
      have other : name ≠ queue.name := by
        intro same
        rw [same] at lookup
        exact absent (Dictionary.lookup_eq_some_mem lookup)
      rw [if_neg other]
      exact ⟨one, found, lookup, durable⟩
  · intro name found lookup durable
    simp only [Dictionary.lookup_insert] at lookup
    rw [Dictionary.mem_iff_lookup]
    change ∃ row, table.lookup name = some row
    rw [table_eq]
    by_cases same : name = queue.name
    · rw [if_pos same] at lookup
      cases lookup
      exact ⟨queue.row, if_pos ⟨same, durable⟩⟩
    · rw [if_neg same] at lookup
      rw [if_neg fun both => same both.1]
      exact Dictionary.mem_iff_lookup.mp (tracked.durable name found lookup durable)

theorem tracked_declareQueue (tracked : Tracked manager) (queue : MsgQueue) :
    Tracked (manager.declareQueue takesEffect queue).2 := by
  rcases manager.declareQueue_cases takesEffect queue with ⟨_, result⟩ |
    ⟨absent, transient, result⟩ | ⟨absent, durable, result⟩ | ⟨_, _, _, result⟩
  all_goals rw [result]
  · exact tracked
  · apply tracked_insert tracked absent
    intro name
    rw [if_neg fun both => by rw [transient] at both; cases both.2]
  · apply tracked_insert tracked absent
    intro name
    rw [Dictionary.lookup_insert]
    by_cases same : name = queue.name
    · rw [if_pos same, if_pos ⟨same, durable⟩]
    · rw [if_neg same, if_neg fun both => same both.1]
  · exact tracked

/-- An entry leaves the map together with its row, if it has one. -/
private theorem tracked_erase (tracked : Tracked manager) {name : Bytes}
    {table : Dictionary Bytes QueueRow} (table_eq : ∀ other, table.lookup other =
      if other = name then none else manager.mapper.queueTable.lookup other) :
    Tracked ⟨⟨table⟩, manager.msgQueues.erase name⟩ := by
  constructor
  · intro other row stored
    change table.lookup other = some row at stored
    rw [table_eq] at stored
    simp only [Dictionary.lookup_erase]
    by_cases same : other = name
    · rw [if_pos same] at stored
      cases stored
    · rw [if_neg same] at stored ⊢
      exact tracked.row other row stored
  · intro other queue found durable
    simp only [Dictionary.lookup_erase] at found
    rw [Dictionary.mem_iff_lookup]
    change ∃ row, table.lookup other = some row
    rw [table_eq]
    by_cases same : other = name
    · rw [if_pos same] at found
      cases found
    · rw [if_neg same] at found ⊢
      exact Dictionary.mem_iff_lookup.mp (tracked.durable other queue found durable)

theorem tracked_deleteQueue (tracked : Tracked manager) (name : Bytes) :
    Tracked (manager.deleteQueue takesEffect name).2 := by
  rcases manager.deleteQueue_cases takesEffect name with ⟨_, result⟩ |
    ⟨queue, found, ⟨transient, result⟩ | ⟨_, _, result⟩ | ⟨_, _, result⟩⟩
  all_goals rw [result]
  · exact tracked
  · -- the entry is not durable, so there was no row to remove
    apply tracked_erase tracked
    intro other
    by_cases same : other = name
    · rw [if_pos same, same]
      cases stored : manager.mapper.queueTable.lookup name with
      | none => rfl
      | some row =>
          rcases (tracked.row name row stored).2 with ⟨entry, lookup, durable⟩
          cases found.symm.trans lookup
          rw [transient] at durable
          cases durable
    · rw [if_neg same]
  · apply tracked_erase tracked
    intro other
    rw [Dictionary.lookup_erase]
  · exact tracked

/-! ## The rows, column by column -/

/-- A call, with what becomes of its statement. -/
inductive Call where
  | declareQueue (takesEffect : Bool) (queue : MsgQueue)
  | deleteQueue (takesEffect : Bool) (name : Bytes)

/-- The answer to a call, and the manager after it. -/
def answer (manager : MsgQueueManager) : Call → Bool × MsgQueueManager
  | .declareQueue takesEffect queue => manager.declareQueue takesEffect queue
  | .deleteQueue takesEffect name => manager.deleteQueue takesEffect name

/-- Perform a call. -/
def perform (manager : MsgQueueManager) (call : Call) : Except Empty MsgQueueManager :=
  .ok (manager.answer call).2

/-- The rows are exactly the durable queues with their columns, and no row is in
the way of an insertion. -/
structure Mirrored (manager : MsgQueueManager) : Prop where
  rows : ∀ name row, manager.mapper.queueTable.lookup name = some row ↔
    ∃ queue, manager.msgQueues.lookup name = some queue ∧ queue.durable = true ∧ queue.row = row
  inserts : ∀ queue, manager.msgQueues.lookup queue.name = none →
    (manager.mapper.insert true queue).1 = true

/-- A call that is answered with `false` changes neither the map nor the table. -/
def RefusesCleanly (manager : MsgQueueManager) (call : Call) : Prop :=
  (manager.answer call).1 = false → (manager.answer call).2 = manager

/-- The rows decide whether an insertion is refused. -/
theorem mirrored_of_rows (mirrors : Mirrors (fun queue : MsgQueue => queue.durable = true)
    MsgQueue.row manager.msgQueues manager.mapper.queueTable) : Mirrored manager := by
  refine ⟨mirrors, fun queue absent => ?_⟩
  have free : queue.name ∉ manager.mapper.queueTable :=
    AList.lookup_eq_none.mp (mirrors.lookup_none absent)
  simp only [MsgQueueMapper.insert, free, not_false_eq_true, and_self, if_true]

theorem refusesCleanly (manager : MsgQueueManager) (call : Call) :
    RefusesCleanly manager call := by
  intro refused
  cases call with
  | declareQueue takesEffect queue =>
      rcases manager.declareQueue_cases takesEffect queue with ⟨_, result⟩ | ⟨_, _, result⟩ |
        ⟨_, _, result⟩ | ⟨_, _, _, result⟩
      all_goals rw [answer, result] at refused
      · cases refused
      · cases refused
      · cases refused
      · exact congrArg Prod.snd result
  | deleteQueue takesEffect name =>
      rcases manager.deleteQueue_cases takesEffect name with ⟨_, result⟩ |
        ⟨_, _, ⟨_, result⟩ | ⟨_, _, result⟩ | ⟨_, _, result⟩⟩
      all_goals rw [answer, result] at refused
      · cases refused
      · cases refused
      · cases refused
      · exact congrArg Prod.snd result

/-- Every call keeps the table in step with the map, whether or not its
statement takes effect. -/
theorem mirrored_step {call : Call} {next : MsgQueueManager} (mirrored : Mirrored manager)
    (stepped : perform manager call = .ok next) : Mirrored next := by
  have mirrors : Mirrors (fun queue : MsgQueue => queue.durable = true) MsgQueue.row
    manager.msgQueues manager.mapper.queueTable := mirrored.rows
  cases stepped
  apply mirrored_of_rows
  cases call with
  | declareQueue takesEffect queue =>
      rw [answer]
      rcases manager.declareQueue_cases takesEffect queue with ⟨_, result⟩ |
        ⟨absent, transient, result⟩ | ⟨_, durable, result⟩ | ⟨_, _, _, result⟩
      all_goals rw [result]
      · exact mirrors
      · apply mirrors.insert_unkept (AList.lookup_eq_none.mpr absent)
        rw [transient]
        exact Bool.false_ne_true
      · exact mirrors.insert durable
      · exact mirrors
  | deleteQueue takesEffect name =>
      rw [answer]
      rcases manager.deleteQueue_cases takesEffect name with ⟨_, result⟩ |
        ⟨queue, found, ⟨transient, result⟩ | ⟨_, _, result⟩ | ⟨_, _, result⟩⟩
      all_goals rw [result]
      · exact mirrors
      · -- the entry is not durable, so there was no row to remove
        apply mirrors.erase_unkept found
        rw [transient]
        exact Bool.false_ne_true
      · exact mirrors.erase name
      · exact mirrors

/-- In every run over an empty database the table mirrors the durable queues in
every state, and a refused call changes nothing. -/
theorem mirrored_throughout (calls : List Call) :
    Throughout perform Mirrored (new {}) calls ∧ Along perform RefusesCleanly (new {}) calls := by
  have start : Mirrored (new {}) := mirrored_of_rows (Mirrors.empty _ _)
  constructor
  · exact throughout_of_along (fun _ mirrored => mirrored)
      (fun _ _ _ mirrored _ stepped => mirrored_step mirrored stepped) start
      (along_trivial perform (new {}) calls)
  · exact (along_trivial perform (new {}) calls).mono
      fun manager call _ => refusesCleanly manager call

end MsgQueueManager

end ProtobufMq
