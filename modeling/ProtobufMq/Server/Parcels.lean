import Mathlib.Algebra.Order.Group.Multiset
import ProtobufMq.Foundation.Balance
import ProtobufMq.Server.Stores

namespace ProtobufMq

open Foundation

/-!
# Parcels

A message that waits in a store has a queue to whose consumers it will go, and
these will see its properties and its body: this is the parcel.  The files of a
store stand for its queue, since no two queues have the same files, and a store
keeps them even after its name was taken away.

Each call of the message stores is described by what it does to the parcels in
all of them together.
-/

/-- A message on its way to the consumers of a queue, which is known by its files. -/
structure Parcel where
  place : MessageMapper
  properties : BasecProperties
  body : Bytes
  deriving DecidableEq, Repr

/-- The parcel that a message in a store of these files is. -/
def MessagePtr.parcel (place : MessageMapper) (pointer : MessagePtr) : Parcel :=
  ⟨place, pointer.message.payload.properties, pointer.message.payload.body⟩

/-! ## A message store -/

namespace QueueMessage

/-- The parcels of the pending messages. -/
def parcels (queue : QueueMessage) : Multiset Parcel :=
  queue.msgs.map (MessagePtr.parcel queue.mapper)

section Calls

variable {queue next : QueueMessage} {world after : World}

theorem parcels_of_empty (empty : queue.msgs = []) : queue.parcels = 0 := by
  rw [parcels, empty]
  rfl

/-- An insert that is not refused adds one parcel. -/
theorem parcels_insert {properties : Option BasecProperties} {uuid body : Bytes}
    {queueIsDurable accepted : Bool}
    (done : queue.insert properties uuid body queueIsDurable world = .ok (accepted, next) after) :
    next.parcels = queue.parcels +
      if accepted then {⟨queue.mapper, composed properties uuid queueIsDurable, body⟩} else 0 := by
  rcases insert_cases done with ⟨refused, same⟩ |
    ⟨stored, message, totalCount, durableMsgs, propertiesEq, bodyEq, same⟩
  · rw [same, refused]
    exact (add_zero _).symm
  · rw [same, stored, parcels, List.map_append, ← Multiset.coe_add]
    refine congrArg (queue.parcels + ·) ?_
    change ({⟨queue.mapper, message.payload.properties, message.payload.body⟩} : Multiset Parcel) = _
    rw [propertiesEq, bodyEq]
    rfl

theorem parcels_remove [Protobuf] {msgId : Bytes}
    (done : queue.remove msgId world = .ok next after) : next.parcels = queue.parcels := by
  rcases remove_cases done with ⟨pointer, totalCount, durableMsgs, _, same⟩
  rw [same]
  rfl

theorem parcels_clear (done : queue.clear world = .ok next after) : next.parcels = 0 := by
  rcases bind_eq_ok done with ⟨removed, middle, _, rest⟩
  cases rest
  rfl

end Calls

end QueueMessage

/-! ## The message stores -/

namespace MessageManager

/-- The parcels in all stores, with those that have lost their names. -/
def parcels (manager : MessageManager) : Multiset Parcel :=
  manager.queueMsgs.total QueueMessage.parcels

/-- The parcels in one store. -/
def parcelsIn (manager : MessageManager) (reference : Nat) : Multiset Parcel :=
  manager.queueMsgs.part QueueMessage.parcels reference

section Calls

variable {manager next : MessageManager} {world after : World}

theorem parcels_update {reference : Nat} {store later : QueueMessage}
    (there : manager.queueMsgs.object reference = some store) :
    ({ manager with queueMsgs := manager.queueMsgs.update reference later } :
      MessageManager).parcels + store.parcels = manager.parcels + later.parcels :=
  Registry.total_update there later

/-- Code that works on one store changes what is in that one. -/
theorem parcels_onStore {α : Type} {reference : Nat} {absent : α}
    {code : QueueMessage → FileM (α × QueueMessage)} {done : α × MessageManager}
    (completed : manager.onStore reference absent code world = .ok done after) :
    done.2.parcels + manager.parcelsIn reference =
      manager.parcels + done.2.parcelsIn reference := by
  rcases onStore_cases completed with ⟨_, result, _⟩ | ⟨store, changed, there, _, result⟩
  · rw [result]
  · have laterThere : done.2.queueMsgs.object reference = some changed := by
      rw [result, Registry.object_update, if_pos rfl, there]
      rfl
    rw [parcelsIn, parcelsIn, Registry.part_of_object there, Registry.part_of_object laterThere,
      result]
    exact parcels_update there

/-- Code that adds to the pending messages of its store, as its result tells. -/
theorem parcels_onStore_gains {α : Type} {reference : Nat} {absent : α}
    {code : QueueMessage → FileM (α × QueueMessage)} {done : α × MessageManager}
    {gain : α → Multiset Parcel} (nothing : gain absent = 0)
    (gains : ∀ store value changed, manager.queueMsgs.object reference = some store →
      code store world = .ok (value, changed) after → changed.parcels = store.parcels + gain value)
    (completed : manager.onStore reference absent code world = .ok done after) :
    done.2.parcels = manager.parcels + gain done.1 := by
  rcases onStore_cases completed with ⟨_, result, _⟩ | ⟨store, changed, there, ran, result⟩
  · rw [result, nothing]
    exact (add_zero _).symm
  · have balance := @parcels_update manager reference store changed there
    rw [gains store _ changed there ran, add_comm store.parcels, ← add_assoc] at balance
    rw [result]
    exact add_right_cancel balance

/-- A store that is made is empty. -/
theorem parcels_introduce {qname : Bytes} {admitted : Option Nat × MessageManager}
    (completed : manager.introduce qname world = .ok admitted after) :
    admitted.2.parcels = manager.parcels ∧
      ∀ reference, admitted.1 = some reference → admitted.2.parcelsIn reference = 0 := by
  rcases introduce_cases completed with ⟨_, result, _⟩ | ⟨_, store, made, result⟩
  · rw [result]
    exact ⟨rfl, fun reference impossible => nomatch impossible⟩
  · cases QueueMessage.new_ok made
    rw [result]
    refine ⟨?_, fun reference named => ?_⟩
    · exact (@Registry.total_register _ _ _ _ _ manager.queueMsgs QueueMessage.parcels qname _).trans
        (add_zero _)
    · cases named
      have there := Registry.object_register manager.queueMsgs qname
        { mapper := MessageMapper.ofNames qname manager.basedir } manager.queueMsgs.next
      rw [if_pos rfl] at there
      rw [parcelsIn, Registry.part_of_object there]
      rfl

theorem parcels_withdraw (manager : MessageManager) (qname : Bytes) :
    (manager.withdraw qname).2.parcels = manager.parcels := by
  unfold withdraw
  cases manager.queueMsgs.find qname with
  | none => rfl
  | some reference => rfl

/-- What a recovery finds takes the place of what is in the store. -/
theorem parcels_recover [Protobuf] {reference : Nat}
    (completed : manager.recover reference world = .ok next after) :
    next.parcels + manager.parcelsIn reference = manager.parcels + next.parcelsIn reference := by
  rcases bind_eq_ok completed with ⟨done, middle, ran, rest⟩
  cases rest
  exact parcels_onStore ran

/-- What is in a store that is emptied is lost. -/
theorem parcels_clearStore {reference : Nat}
    (completed : manager.clearStore reference world = .ok next after) :
    next.parcels + manager.parcelsIn reference = manager.parcels := by
  rcases bind_eq_ok completed with ⟨done, middle, ran, rest⟩
  cases rest
  rcases onStore_cases ran with ⟨absent, result, _⟩ | ⟨store, changed, there, cleared, result⟩
  · rw [result, parcelsIn, Registry.part, absent]
    exact add_zero _
  · rcases bind_eq_ok cleared with ⟨_, last, emptied, rest⟩
    cases rest
    have balance := @parcels_update manager reference store changed there
    rw [QueueMessage.parcels_clear emptied, add_zero] at balance
    rw [parcelsIn, Registry.part_of_object there, result]
    exact balance

/-- An insert that is not refused adds a parcel to the queue of its name. -/
theorem parcels_insert {qname uuid body : Bytes} {properties : Option BasecProperties}
    {queueIsDurable : Bool} {done : Bool × MessageManager} (named : manager.Named)
    (completed : manager.insert qname properties uuid body queueIsDurable world = .ok done after) :
    done.2.parcels = manager.parcels +
      if done.1 then {⟨MessageMapper.ofNames qname manager.basedir,
        QueueMessage.composed properties uuid queueIsDurable, body⟩} else 0 := by
  rcases insert_ok completed with ⟨_, result, _⟩ | ⟨reference, found, called⟩
  · rw [result]
    exact (add_zero _).symm
  · let gain (accepted : Bool) : Multiset Parcel :=
      if accepted then {⟨MessageMapper.ofNames qname manager.basedir,
        QueueMessage.composed properties uuid queueIsDurable, body⟩} else 0
    have nothing : gain false = 0 := rfl
    refine parcels_onStore_gains nothing (fun store accepted changed there ran => ?_) called
    rw [QueueMessage.parcels_insert ran, named qname reference store found there]

theorem parcels_removeFrom [Protobuf] {reference : Nat} {msgId : Bytes}
    (completed : manager.removeFrom reference msgId world = .ok next after) :
    next.parcels = manager.parcels := by
  rcases bind_eq_ok completed with ⟨done, middle, ran, rest⟩
  cases rest
  refine (@parcels_onStore_gains _ _ _ _ _ _ _ _ (fun _ => 0) rfl
    (fun store value changed there removed => ?_) ran).trans (add_zero _)
  rcases bind_eq_ok removed with ⟨_, last, struck, rest⟩
  cases rest
  exact (QueueMessage.parcels_remove struck).trans (add_zero _).symm

theorem parcels_ack [Protobuf] {qname msgId : Bytes}
    (completed : manager.ack qname msgId world = .ok next after) :
    next.parcels = manager.parcels := by
  rcases ack_ok completed with ⟨_, same, _⟩ | ⟨reference, _, removed⟩
  · rw [same]
  · exact parcels_removeFrom removed

end Calls

end MessageManager

end ProtobufMq
