import ProtobufMq.Common.FileHelper
import ProtobufMq.Foundation.Registry

namespace ProtobufMq

open Foundation

/-!
# `ConsumerManager`: who receives the messages of a queue

Each queue has a unit with its consumers, of which one is chosen in turn for
each message.  A consumer is shared by the unit and by the channel that
subscribed; its callback is bound to that channel.  Objects are told apart by
their addresses, and the address of a channel is all that is kept of it here.

Looking up the unit of a queue and working on it happen under different locks,
so a unit may lose its name in between, as a message store may.
-/

/-- `struct Consumer`.  `channel` is the object that the callback is bound to. -/
structure Consumer where
  address : Nat
  tag : Bytes
  qname : Bytes
  autoAck : Bool
  channel : Nat
  deriving DecidableEq, Repr

/-- `QueueConsumer`. -/
structure QueueConsumer where
  qname : Bytes
  rrSeq : Nat := 0
  consumers : List Consumer := []
  deriving DecidableEq, Repr

namespace QueueConsumer

/-- `QueueConsumer::create`: nothing for a tag that is taken. -/
def create (unit : QueueConsumer) (consumer : Consumer) : Option Consumer × QueueConsumer :=
  if unit.consumers.any fun other => other.tag = consumer.tag then (none, unit)
  else (some consumer, { unit with consumers := unit.consumers ++ [consumer] })

/-- `QueueConsumer::remove`: the first consumer with the tag leaves. -/
def remove (unit : QueueConsumer) (ctag : Bytes) : QueueConsumer :=
  { unit with consumers := unit.consumers.eraseP fun consumer => consumer.tag = ctag }

/-- `QueueConsumer::choose`.  The turn is a number of 64 bits; the index is an
`int`, which holds every position of a vector of fewer than 2^31 consumers. -/
def choose (unit : QueueConsumer) : Option Consumer × QueueConsumer :=
  if unit.consumers.length = 0 then (none, unit)
  else
    (unit.consumers[unit.rrSeq % unit.consumers.length]?,
      { unit with rrSeq := (unit.rrSeq + 1) % 2 ^ 64 })

/-- `QueueConsumer::clear`. -/
def clear (unit : QueueConsumer) : QueueConsumer :=
  { unit with rrSeq := 0, consumers := [] }

/-- There is a consumer to choose when there is one at all. -/
theorem choose_eq_some {unit : QueueConsumer} (some_there : unit.consumers ≠ []) :
    ∃ consumer, unit.choose.1 = some consumer ∧ consumer ∈ unit.consumers := by
  have positive : 0 < unit.consumers.length := List.length_pos_iff.mpr some_there
  have within : unit.rrSeq % unit.consumers.length < unit.consumers.length :=
    Nat.mod_lt _ positive
  refine ⟨unit.consumers[unit.rrSeq % unit.consumers.length], ?_, List.getElem_mem within⟩
  rw [choose, if_neg (Nat.ne_of_gt positive)]
  exact List.getElem?_eq_getElem within

theorem choose_of_empty {unit : QueueConsumer} (nobody : unit.consumers = []) :
    unit.choose = (none, unit) := by
  rw [choose, nobody]
  rfl

/-- Choosing takes nobody away. -/
@[simp] theorem choose_consumers (unit : QueueConsumer) :
    unit.choose.2.consumers = unit.consumers := by
  unfold choose
  by_cases nobody : unit.consumers.length = 0
  · rw [if_pos nobody]
  · rw [if_neg nobody]

theorem choose_mem {unit : QueueConsumer} {consumer : Consumer}
    (chosen : unit.choose.1 = some consumer) : consumer ∈ unit.consumers := by
  by_cases nobody : unit.consumers = []
  · rw [choose_of_empty nobody] at chosen
    cases chosen
  · rcases choose_eq_some nobody with ⟨other, otherChosen, member⟩
    cases otherChosen.symm.trans chosen
    exact member

/-- A new consumer joins if nobody has its tag. -/
theorem create_cases (unit : QueueConsumer) (consumer : Consumer) :
    (∃ other ∈ unit.consumers, other.tag = consumer.tag ∧
      unit.create consumer = (none, unit)) ∨
    ((∀ other ∈ unit.consumers, other.tag ≠ consumer.tag) ∧
      unit.create consumer =
        (some consumer, { unit with consumers := unit.consumers ++ [consumer] })) := by
  unfold create
  by_cases taken : ∃ other ∈ unit.consumers, other.tag = consumer.tag
  · rcases taken with ⟨other, member, same⟩
    have found : (unit.consumers.any fun other => other.tag = consumer.tag) = true :=
      List.any_eq_true.mpr ⟨other, member, decide_eq_true same⟩
    rw [if_pos found]
    exact Or.inl ⟨other, member, same, rfl⟩
  · have missing : ¬ (unit.consumers.any fun other => other.tag = consumer.tag) = true := by
      intro found
      rcases List.any_eq_true.mp found with ⟨other, member, same⟩
      exact taken ⟨other, member, of_decide_eq_true same⟩
    rw [if_neg missing]
    exact Or.inr ⟨fun other member same => taken ⟨other, member, same⟩, rfl⟩

end QueueConsumer

/-- `ConsumerManager`. -/
structure ConsumerManager where
  qconsumers : Registry Bytes QueueConsumer := .empty

namespace ConsumerManager

/-- `ConsumerManager::initQueueConsumer`. -/
def initQueueConsumer (manager : ConsumerManager) (queueName : Bytes) : ConsumerManager :=
  match manager.qconsumers.find queueName with
  | some _ => manager
  | none => ⟨manager.qconsumers.register queueName { qname := queueName }⟩

/-- `ConsumerManager::destroyQueueConsumer`. -/
def destroyQueueConsumer (manager : ConsumerManager) (queueName : Bytes) : ConsumerManager :=
  ⟨manager.qconsumers.unregister queueName⟩

/-- `ConsumerManager::create`: the unit is the one of the queue that the consumer
names. -/
def create (manager : ConsumerManager) (consumer : Consumer) :
    Option Consumer × ConsumerManager :=
  match manager.qconsumers.find consumer.qname with
  | none => (none, manager)
  | some reference =>
      match manager.qconsumers.object reference with
      | none => (none, manager)
      | some unit =>
          let created := unit.create consumer
          (created.1, ⟨manager.qconsumers.update reference created.2⟩)

/-- `ConsumerManager::remove`.  When the queue has no unit, a line is logged and
the end iterator is used all the same. -/
def remove (manager : ConsumerManager) (ctag queueName : Bytes) : Except Fault ConsumerManager :=
  match manager.qconsumers.find queueName with
  | none => .error .consumersEnd
  | some reference =>
      match manager.qconsumers.object reference with
      | none => .ok manager
      | some unit => .ok ⟨manager.qconsumers.update reference (unit.remove ctag)⟩

/-- `QueueConsumer::choose` on the unit behind a reference. -/
def chooseFrom (manager : ConsumerManager) (reference : Nat) :
    Option Consumer × ConsumerManager :=
  match manager.qconsumers.object reference with
  | none => (none, manager)
  | some unit => (unit.choose.1, ⟨manager.qconsumers.update reference unit.choose.2⟩)

/-- `ConsumerManager::choose`. -/
def choose (manager : ConsumerManager) (queueName : Bytes) : Option Consumer × ConsumerManager :=
  match manager.qconsumers.find queueName with
  | none => (none, manager)
  | some reference => manager.chooseFrom reference

/-- The consumers registered on a queue. -/
def registered (manager : ConsumerManager) (queueName : Bytes) : List Consumer :=
  ((manager.qconsumers.select queueName).map QueueConsumer.consumers).getD []

/-! ## Who is registered and who is chosen -/

section Registered

variable {manager : ConsumerManager} {queueName : Bytes} {reference : Nat} {consumer : Consumer}

theorem mem_registered : consumer ∈ manager.registered queueName ↔
    ∃ unit, manager.qconsumers.select queueName = some unit ∧ consumer ∈ unit.consumers := by
  unfold registered
  cases manager.qconsumers.select queueName with
  | none =>
      constructor
      · intro impossible
        cases impossible
      · rintro ⟨unit, nothing, _⟩
        cases nothing
  | some unit =>
      constructor
      · exact fun member => ⟨unit, rfl, member⟩
      · rintro ⟨other, same, member⟩
        cases same
        exact member

/-- Whom a unit gives is one of its consumers. -/
theorem chooseFrom_mem (chosen : (manager.chooseFrom reference).1 = some consumer) :
    ∃ unit, manager.qconsumers.object reference = some unit ∧ consumer ∈ unit.consumers := by
  unfold chooseFrom at chosen
  cases there : manager.qconsumers.object reference with
  | none =>
      rw [there] at chosen
      cases chosen
  | some unit =>
      rw [there] at chosen
      exact ⟨unit, rfl, QueueConsumer.choose_mem chosen⟩

/-- The unit of a queue with consumers gives one of them. -/
theorem chooseFrom_registered (found : manager.qconsumers.find queueName = some reference)
    (somebody : manager.registered queueName ≠ []) :
    ∃ chosen, (manager.chooseFrom reference).1 = some chosen ∧
      chosen ∈ manager.registered queueName := by
  rcases Registry.object_of_find found with ⟨unit, there⟩
  have consumers : manager.registered queueName = unit.consumers := by
    rw [registered, Registry.select_of_find found, there]
    rfl
  rw [consumers] at somebody ⊢
  rcases QueueConsumer.choose_eq_some somebody with ⟨chosen, result, member⟩
  refine ⟨chosen, ?_, member⟩
  rw [chooseFrom, there]
  exact result

end Registered

/-! ## The units after a call -/

/-- A consumer is removed from the unit that the queue has. -/
theorem remove_ok {manager next : ConsumerManager} {ctag queueName : Bytes}
    (removed : manager.remove ctag queueName = .ok next) :
    ∃ reference unit, manager.qconsumers.find queueName = some reference ∧
      manager.qconsumers.object reference = some unit ∧
      next = ⟨manager.qconsumers.update reference (unit.remove ctag)⟩ := by
  unfold remove at removed
  cases found : manager.qconsumers.find queueName with
  | none =>
      rw [found] at removed
      cases removed
  | some reference =>
      rcases Registry.object_of_find found with ⟨unit, there⟩
      rw [found] at removed
      simp only [there] at removed
      cases removed
      exact ⟨reference, unit, rfl, there, rfl⟩

section Units

variable (manager : ConsumerManager)

theorem select_initQueueConsumer (queueName other : Bytes) :
    (manager.initQueueConsumer queueName).qconsumers.select other =
      if other = queueName then
        some ((manager.qconsumers.select queueName).getD { qname := queueName })
      else manager.qconsumers.select other := by
  unfold initQueueConsumer
  cases found : manager.qconsumers.find queueName with
  | none =>
      rw [Registry.select_register, Registry.select_eq_none.mpr found, Option.getD_none]
  | some reference =>
      rcases Registry.object_of_find found with ⟨unit, there⟩
      have selected : manager.qconsumers.select queueName = some unit :=
        (Registry.select_of_find found).trans there
      by_cases same : other = queueName
      · rw [if_pos same, same, selected, Option.getD_some]
      · rw [if_neg same]

theorem select_destroyQueueConsumer (queueName other : Bytes) :
    (manager.destroyQueueConsumer queueName).qconsumers.select other =
      if other = queueName then none else manager.qconsumers.select other :=
  Registry.select_unregister ..

/-- Creating a consumer needs a unit and a free tag; nothing else changes. -/
theorem create_cases (consumer : Consumer) :
    (manager.create consumer = (none, manager) ∧
      manager.qconsumers.select consumer.qname = none) ∨
    (∃ unit created, manager.qconsumers.select consumer.qname = some unit ∧
      manager.create consumer = ((unit.create consumer).1, created) ∧
      ∀ other, created.qconsumers.select other =
        if other = consumer.qname then some (unit.create consumer).2
        else manager.qconsumers.select other) := by
  unfold create
  cases found : manager.qconsumers.find consumer.qname with
  | none => exact Or.inl ⟨rfl, Registry.select_eq_none.mpr found⟩
  | some reference =>
      rcases Registry.object_of_find found with ⟨unit, there⟩
      refine Or.inr ⟨unit, ⟨manager.qconsumers.update reference (unit.create consumer).2⟩,
        (Registry.select_of_find found).trans there, ?_, fun other => ?_⟩
      · simp only [there]
      · exact Registry.select_update found _ other

/-- Removing a consumer needs a unit; nothing else changes. -/
theorem remove_cases {ctag queueName : Bytes} {next : ConsumerManager}
    (removed : manager.remove ctag queueName = .ok next) :
    ∃ unit, manager.qconsumers.select queueName = some unit ∧
      ∀ other, next.qconsumers.select other =
        if other = queueName then some (unit.remove ctag)
        else manager.qconsumers.select other := by
  rcases remove_ok removed with ⟨reference, unit, found, there, same⟩
  rw [same]
  exact ⟨unit, (Registry.select_of_find found).trans there, Registry.select_update found _⟩

/-- The unit of a queue is there whenever the end iterator is not used. -/
theorem remove_ok_iff (ctag queueName : Bytes) :
    (∃ next, manager.remove ctag queueName = .ok next) ↔
      ∃ unit, manager.qconsumers.select queueName = some unit := by
  constructor
  · rintro ⟨next, removed⟩
    rcases manager.remove_cases removed with ⟨unit, selected, _⟩
    exact ⟨unit, selected⟩
  · rintro ⟨unit, selected⟩
    rcases Registry.select_eq_some.mp selected with ⟨reference, found, there⟩
    refine ⟨⟨manager.qconsumers.update reference (unit.remove ctag)⟩, ?_⟩
    rw [remove, found]
    simp only [there]

end Units

end ConsumerManager

end ProtobufMq
