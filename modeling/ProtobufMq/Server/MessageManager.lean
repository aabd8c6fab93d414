import ProtobufMq.Foundation.Registry
import ProtobufMq.Server.QueueMessage

namespace ProtobufMq

open Foundation

/-!
# `MessageManager`: the message stores of all queues

The manager maps the name of a queue to its `QueueMessage`.  Every function
looks the name up under the lock of the manager and then works on the object
it found, under the lock of that object; in between the name may be taken away
or given to another object.  Where more than one thread is at work, the two
halves of a function are separate steps, so each has a definition of its own,
and the function of the source is the one after the other.
-/

/-- `MessageManager`. -/
structure MessageManager where
  basedir : Bytes
  queueMsgs : Registry Bytes QueueMessage := .empty

namespace MessageManager

/-- Run code on the store behind a reference. -/
def onStore {α : Type} (manager : MessageManager) (reference : Nat) (absent : α)
    (code : QueueMessage → FileM (α × QueueMessage)) : FileM (α × MessageManager) :=
  match manager.queueMsgs.object reference with
  | none => return (absent, manager)
  | some store => do
      let done ← code store
      return (done.1, { manager with queueMsgs := manager.queueMsgs.update reference done.2 })

/-- The part of `initQueueMessage` under the lock: make a store for a name that
has none. -/
def introduce (manager : MessageManager) (qname : Bytes) : FileM (Option Nat × MessageManager) :=
  match manager.queueMsgs.find qname with
  | some _ => return (none, manager)
  | none => do
      let store ← QueueMessage.new qname manager.basedir
      return (some manager.queueMsgs.next,
        { manager with queueMsgs := manager.queueMsgs.register qname store })

/-- The rest of `initQueueMessage`: fill the new store from its file. -/
def recover [Protobuf] (manager : MessageManager) (reference : Nat) : FileM MessageManager := do
  let done ← manager.onStore reference () fun store => do
    let store ← store.recovery
    return ((), store)
  return done.2

/-- `MessageManager::initQueueMessage`. -/
def initQueueMessage [Protobuf] (manager : MessageManager) (qname : Bytes) :
    FileM MessageManager := do
  let admitted ← manager.introduce qname
  match admitted.1 with
  | none => return admitted.2
  | some reference => admitted.2.recover reference

/-- The part of `destroyQueueMessage` under the lock: take the name away. -/
def withdraw (manager : MessageManager) (qname : Bytes) : Option Nat × MessageManager :=
  match manager.queueMsgs.find qname with
  | none => (none, manager)
  | some reference =>
      (some reference, { manager with queueMsgs := manager.queueMsgs.unregister qname })

/-- The rest of `destroyQueueMessage`: empty the store that had the name. -/
def clearStore (manager : MessageManager) (reference : Nat) : FileM MessageManager := do
  let done ← manager.onStore reference () fun store => do
    let store ← store.clear
    return ((), store)
  return done.2

/-- `MessageManager::destroyQueueMessage`. -/
def destroyQueueMessage (manager : MessageManager) (qname : Bytes) : FileM MessageManager :=
  let withdrawn := manager.withdraw qname
  match withdrawn.1 with
  | none => return withdrawn.2
  | some reference => withdrawn.2.clearStore reference

/-- `MessageManager::insert`. -/
def insert (manager : MessageManager) (qname : Bytes) (properties : Option BasecProperties)
    (uuid body : Bytes) (queueIsDurable : Bool) : FileM (Bool × MessageManager) :=
  match manager.queueMsgs.find qname with
  | none => return (false, manager)
  | some reference => manager.onStore reference false fun store =>
      store.insert properties uuid body queueIsDurable

/-- `QueueMessage::front` on the store behind a reference. -/
def frontOf (manager : MessageManager) (reference : Nat) : Option MessagePtr × MessageManager :=
  match manager.queueMsgs.object reference with
  | none => (none, manager)
  | some store =>
      (store.front.1,
        { manager with queueMsgs := manager.queueMsgs.update reference store.front.2 })

/-- `MessageManager::front`. -/
def front (manager : MessageManager) (qname : Bytes) : Option MessagePtr × MessageManager :=
  match manager.queueMsgs.find qname with
  | none => (none, manager)
  | some reference => manager.frontOf reference

/-- `QueueMessage::remove` on the store behind a reference. -/
def removeFrom [Protobuf] (manager : MessageManager) (reference : Nat) (msgId : Bytes) :
    FileM MessageManager := do
  let done ← manager.onStore reference () fun store => do
    let store ← store.remove msgId
    return ((), store)
  return done.2

/-- `MessageManager::ack`. -/
def ack [Protobuf] (manager : MessageManager) (qname msgId : Bytes) : FileM MessageManager :=
  match manager.queueMsgs.find qname with
  | none => return manager
  | some reference => manager.removeFrom reference msgId

/-! ## What became of the stores -/

section Results

variable {α : Type} {manager : MessageManager} {reference : Nat} {absent : α}
  {code : QueueMessage → FileM (α × QueueMessage)} {world after : World}

/-- Code that completes ran on the object behind the reference and put its
result back there. -/
theorem onStore_cases {done : α × MessageManager}
    (completed : manager.onStore reference absent code world = .ok done after) :
    (manager.queueMsgs.object reference = none ∧ done = (absent, manager) ∧ after = world) ∨
    (∃ store next, manager.queueMsgs.object reference = some store ∧
      code store world = .ok (done.1, next) after ∧
      done.2 = { manager with queueMsgs := manager.queueMsgs.update reference next }) := by
  unfold onStore at completed
  cases there : manager.queueMsgs.object reference with
  | none =>
      rw [there] at completed
      cases completed
      exact Or.inl ⟨rfl, rfl, rfl⟩
  | some store =>
      rw [there] at completed
      rcases bind_eq_ok completed with ⟨value, middle, ran, rest⟩
      cases rest
      exact Or.inr ⟨store, value.2, rfl, ran, rfl⟩

theorem onStore_done {store changed : QueueMessage} {value : α}
    (there : manager.queueMsgs.object reference = some store)
    (ran : code store world = .ok (value, changed) after) :
    manager.onStore reference absent code world = .ok (value,
      { manager with queueMsgs := manager.queueMsgs.update reference changed }) after := by
  rw [onStore, there]
  exact bind_ok ran

theorem onStore_error {store : QueueMessage} {fault : Fault}
    (there : manager.queueMsgs.object reference = some store)
    (ran : code store world = .error fault after) :
    manager.onStore reference absent code world = .error fault after := by
  rw [onStore, there]
  exact bind_error ran

/-- A new store gets a name that had none. -/
theorem introduce_cases {qname : Bytes} {admitted : Option Nat × MessageManager}
    (completed : manager.introduce qname world = .ok admitted after) :
    (qname ∈ manager.queueMsgs.names ∧ admitted = (none, manager) ∧ after = world) ∨
    (manager.queueMsgs.find qname = none ∧ ∃ store,
      QueueMessage.new qname manager.basedir world = .ok store after ∧
      admitted = (some manager.queueMsgs.next,
        { manager with queueMsgs := manager.queueMsgs.register qname store })) := by
  unfold introduce at completed
  cases found : manager.queueMsgs.find qname with
  | some reference =>
      rw [found] at completed
      cases completed
      exact Or.inl ⟨Dictionary.lookup_eq_some_mem found, rfl, rfl⟩
  | none =>
      rw [found] at completed
      rcases bind_eq_ok completed with ⟨store, middle, made, rest⟩
      cases rest
      exact Or.inr ⟨rfl, store, made, rfl⟩

/-- `frontOf` finds nothing and changes nothing, or takes the first pending
message of the store. -/
theorem frontOf_cases (manager : MessageManager) (reference : Nat) :
    ((∀ store, manager.queueMsgs.object reference = some store → store.msgs = []) ∧
      manager.frontOf reference = (none, manager)) ∨
    (∃ store pointer rest, manager.queueMsgs.object reference = some store ∧
      store.msgs = pointer :: rest ∧
      manager.frontOf reference = (some pointer, { manager with
        queueMsgs := manager.queueMsgs.update reference { store with
          msgs := rest
          waitackMsgs := Dictionary.insertNew pointer.id pointer store.waitackMsgs } })) := by
  unfold frontOf
  cases there : manager.queueMsgs.object reference with
  | none => exact Or.inl ⟨fun _ => nofun, rfl⟩
  | some store =>
      simp only
      rcases store.front_cases with ⟨empty, result⟩ | ⟨pointer, rest, pending, result⟩
      · rw [result, Registry.update_same there]
        exact Or.inl ⟨fun other same => Option.some.inj same ▸ empty, rfl⟩
      · rw [result]
        exact Or.inr ⟨store, pointer, rest, rfl, pending, rfl⟩

theorem frontOf_of_empty (nothing : ∀ store, manager.queueMsgs.object reference = some store →
    store.msgs = []) : manager.frontOf reference = (none, manager) := by
  rcases manager.frontOf_cases reference with ⟨_, result⟩ | ⟨store, _, _, there, pending, _⟩
  · exact result
  · cases pending.symm.trans (nothing store there)

/-- A message is inserted into the store that has the name. -/
theorem insert_ok {qname uuid body : Bytes} {properties : Option BasecProperties}
    {queueIsDurable : Bool} {done : Bool × MessageManager}
    (completed : manager.insert qname properties uuid body queueIsDurable world = .ok done after) :
    (manager.queueMsgs.find qname = none ∧ done = (false, manager) ∧ after = world) ∨
    (∃ reference, manager.queueMsgs.find qname = some reference ∧
      manager.onStore reference false (fun store =>
        store.insert properties uuid body queueIsDurable) world = .ok done after) := by
  unfold insert at completed
  cases found : manager.queueMsgs.find qname with
  | none =>
      rw [found] at completed
      cases completed
      exact Or.inl ⟨rfl, rfl, rfl⟩
  | some reference =>
      rw [found] at completed
      exact Or.inr ⟨reference, rfl, completed⟩

/-- A message is removed from the store that has the name. -/
theorem ack_ok [Protobuf] {qname msgId : Bytes} {next : MessageManager}
    (completed : manager.ack qname msgId world = .ok next after) :
    (manager.queueMsgs.find qname = none ∧ next = manager ∧ after = world) ∨
    (∃ reference, manager.queueMsgs.find qname = some reference ∧
      manager.removeFrom reference msgId world = .ok next after) := by
  unfold ack at completed
  cases found : manager.queueMsgs.find qname with
  | none =>
      rw [found] at completed
      cases completed
      exact Or.inl ⟨rfl, rfl, rfl⟩
  | some reference =>
      rw [found] at completed
      exact Or.inr ⟨reference, rfl, completed⟩

end Results

/-! ## The names in use -/

section Names

variable {manager next : MessageManager} {world after : World}

theorem onStore_names {α : Type} {reference : Nat} {absent : α}
    {code : QueueMessage → FileM (α × QueueMessage)} {done : α × MessageManager}
    (completed : manager.onStore reference absent code world = .ok done after) :
    done.2.queueMsgs.names = manager.queueMsgs.names := by
  rcases onStore_cases completed with ⟨_, result, _⟩ | ⟨store, changed, _, _, result⟩
  all_goals rw [result]
  rfl

theorem recover_names [Protobuf] {reference : Nat}
    (completed : manager.recover reference world = .ok next after) :
    next.queueMsgs.names = manager.queueMsgs.names := by
  rcases bind_eq_ok completed with ⟨done, middle, ran, rest⟩
  cases rest
  exact onStore_names ran

theorem clearStore_names {reference : Nat}
    (completed : manager.clearStore reference world = .ok next after) :
    next.queueMsgs.names = manager.queueMsgs.names := by
  rcases bind_eq_ok completed with ⟨done, middle, ran, rest⟩
  cases rest
  exact onStore_names ran

theorem insert_names {qname uuid body : Bytes} {properties : Option BasecProperties}
    {queueIsDurable : Bool} {done : Bool × MessageManager}
    (completed : manager.insert qname properties uuid body queueIsDurable world = .ok done after) :
    done.2.queueMsgs.names = manager.queueMsgs.names := by
  rcases insert_ok completed with ⟨_, same, _⟩ | ⟨reference, _, ran⟩
  · rw [same]
  · exact onStore_names ran

theorem ack_names [Protobuf] {qname msgId : Bytes}
    (completed : manager.ack qname msgId world = .ok next after) :
    next.queueMsgs.names = manager.queueMsgs.names := by
  rcases ack_ok completed with ⟨_, same, _⟩ | ⟨reference, _, removed⟩
  · rw [same]
  · rcases bind_eq_ok removed with ⟨done, middle, ran, rest⟩
    cases rest
    exact onStore_names ran

/-- Initialising a queue adds its name. -/
theorem mem_initQueueMessage [Protobuf] {qname : Bytes}
    (completed : manager.initQueueMessage qname world = .ok next after) (other : Bytes) :
    other ∈ next.queueMsgs.names ↔ other = qname ∨ other ∈ manager.queueMsgs.names := by
  rcases bind_eq_ok completed with ⟨admitted, middle, entered, rest⟩
  rcases introduce_cases entered with ⟨present, result, _⟩ | ⟨_, store, _, result⟩
  · rw [result] at rest
    cases rest
    exact ⟨Or.inr, fun either => either.elim (fun same => same ▸ present) id⟩
  · rw [result] at rest
    rw [recover_names rest]
    exact AList.mem_insert _

/-- Destroying a queue takes its name away. -/
theorem mem_destroyQueueMessage {qname : Bytes}
    (completed : manager.destroyQueueMessage qname world = .ok next after) (other : Bytes) :
    other ∈ next.queueMsgs.names ↔ other ≠ qname ∧ other ∈ manager.queueMsgs.names := by
  unfold destroyQueueMessage withdraw at completed
  cases found : manager.queueMsgs.find qname with
  | none =>
      rw [found] at completed
      cases completed
      have absent : qname ∉ manager.queueMsgs.names := AList.lookup_eq_none.mp found
      exact ⟨fun member => ⟨fun same => absent (same ▸ member), member⟩, And.right⟩
  | some reference =>
      rw [found] at completed
      rw [clearStore_names completed]
      exact AList.mem_erase

end Names

end MessageManager

end ProtobufMq
