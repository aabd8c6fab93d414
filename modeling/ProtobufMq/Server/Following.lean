import ProtobufMq.Server.Threads

namespace ProtobufMq

open Foundation

/-!
# What can become of the managers

Whatever a request does, a message store that exists goes on existing behind
its reference, even without its name.  Only `front` takes a message from the
pending list and puts one among the waiting ones; for everything else the
pending messages are old ones or objects that did not exist before, and the
waiting ones are old.  These facts, with a few that ride along, form a
relation between the managers before and after, which every request and every
step of the event loop satisfies.
-/

/-! ## A message store -/

namespace QueueMessage

/-- The pending messages are different objects, all of them made here. -/
structure Sound (queue : QueueMessage) : Prop where
  addresses : ∀ pointer ∈ queue.msgs, pointer.addr < queue.allocated
  distinct : (queue.msgs.map MessagePtr.addr).Nodup

/-- A store after calls other than `front`. -/
structure Follows (queue next : QueueMessage) : Prop where
  mapper : next.mapper = queue.mapper
  allocated : queue.allocated ≤ next.allocated
  pending : ∀ pointer ∈ next.msgs, pointer ∈ queue.msgs ∨ queue.allocated ≤ pointer.addr
  waiting : ∀ msgId pointer, next.waitackMsgs.lookup msgId = some pointer →
    queue.waitackMsgs.lookup msgId = some pointer
  sound : queue.Sound → next.Sound

/-- A store from which nothing was taken. -/
structure Untouched (queue : QueueMessage) : Prop where
  sound : queue.Sound
  nothingWaits : ∀ msgId, queue.waitackMsgs.lookup msgId = none

theorem follows_refl (queue : QueueMessage) : queue.Follows queue :=
  ⟨rfl, Nat.le_refl _, fun _ member => Or.inl member, fun _ _ found => found, id⟩

theorem Follows.trans {first second third : QueueMessage} (earlier : first.Follows second)
    (later : second.Follows third) : first.Follows third := by
  refine ⟨later.mapper.trans earlier.mapper, Nat.le_trans earlier.allocated later.allocated,
    fun pointer member => ?_,
    fun msgId pointer found => earlier.waiting msgId pointer (later.waiting msgId pointer found),
    fun sound => later.sound (earlier.sound sound)⟩
  rcases later.pending pointer member with old | young
  · exact earlier.pending pointer old
  · exact Or.inr (Nat.le_trans earlier.allocated young)

theorem Untouched.follows {queue next : QueueMessage} (untouched : queue.Untouched)
    (followed : queue.Follows next) : next.Untouched := by
  refine ⟨followed.sound untouched.sound, fun msgId => ?_⟩
  cases found : next.waitackMsgs.lookup msgId with
  | none => rfl
  | some pointer =>
      have old := followed.waiting msgId pointer found
      rw [untouched.nothingWaits msgId] at old
      cases old

section Calls

variable {queue next : QueueMessage} {world after : World}

/-- A new store has the files of its queue. -/
theorem new_ok {qname basedir : Bytes} (made : new qname basedir world = .ok next after) :
    next = { mapper := MessageMapper.ofNames qname basedir } := by
  rcases bind_eq_ok made with ⟨mapper, middle, named, rest⟩
  cases rest
  rcases bind_eq_ok named with ⟨created, middle, _, rest⟩
  cases rest
  rfl

theorem untouched_new (mapper : MessageMapper) : ({ mapper := mapper } : QueueMessage).Untouched :=
  ⟨⟨fun _ member => (nomatch member), List.nodup_nil⟩, fun _ => rfl⟩

theorem share_addresses (first : Nat) (messages : List Message) :
    (share first messages).map MessagePtr.addr = List.range' first messages.length := by
  have positions : (messages.zipIdx.map Prod.snd).map (first + ·) =
      List.range' first messages.length := by
    rw [List.zipIdx_map_snd, List.map_add_range']
    rfl
  rw [share, List.map_map, ← positions, List.map_map]
  rfl

theorem follows_holding (queue : QueueMessage) (messages : List Message) :
    queue.Follows (queue.holding messages) := by
  have addresses := share_addresses queue.allocated messages
  have within : ∀ pointer ∈ share queue.allocated messages,
      queue.allocated ≤ pointer.addr ∧ pointer.addr < queue.allocated + messages.length := by
    intro pointer member
    have listed : pointer.addr ∈ (share queue.allocated messages).map MessagePtr.addr :=
      List.mem_map_of_mem member
    rw [addresses, List.mem_range'_1] at listed
    exact listed
  refine ⟨rfl, Nat.le_add_right _ _, fun pointer member => Or.inr (within pointer member).1,
    fun _ _ found => found, fun _ => ⟨fun pointer member => (within pointer member).2, ?_⟩⟩
  change ((share queue.allocated messages).map MessagePtr.addr).Nodup
  rw [addresses]
  exact List.nodup_range'

theorem follows_recovery [Protobuf] (done : queue.recovery world = .ok next after) :
    queue.Follows next := by
  rcases bind_eq_ok done with ⟨messages, middle, _, rest⟩
  cases rest
  exact queue.follows_holding messages

theorem follows_insert {properties : Option BasecProperties} {uuid body : Bytes}
    {queueIsDurable accepted : Bool}
    (done : queue.insert properties uuid body queueIsDurable world = .ok (accepted, next) after) :
    queue.Follows next := by
  rcases insert_cases done with ⟨_, same⟩ | ⟨_, message, totalCount, durableMsgs, _, _, same⟩
  · rw [same]
    exact queue.follows_refl
  · rw [same]
    refine ⟨rfl, Nat.le_succ _, fun pointer member => ?_, fun _ _ found => found,
      fun sound => ⟨fun pointer member => ?_, ?_⟩⟩
    · rcases List.mem_append.mp member with old | new
      · exact Or.inl old
      · cases List.mem_singleton.mp new
        exact Or.inr (Nat.le_refl _)
    · rcases List.mem_append.mp member with old | new
      · exact Nat.lt_succ_of_lt (sound.addresses pointer old)
      · cases List.mem_singleton.mp new
        exact Nat.lt_succ_self _
    · rw [List.map_append]
      refine List.Nodup.append sound.distinct (List.nodup_singleton _) ?_
      intro address old new
      rcases List.mem_map.mp old with ⟨pointer, member, rfl⟩
      have last : pointer.addr = queue.allocated := List.mem_singleton.mp new
      exact Nat.lt_irrefl _ (last ▸ sound.addresses pointer member)

theorem follows_remove [Protobuf] {msgId : Bytes}
    (done : queue.remove msgId world = .ok next after) : queue.Follows next := by
  rcases remove_cases done with ⟨pointer, totalCount, durableMsgs, _, same⟩
  rw [same]
  refine ⟨rfl, Nat.le_refl _, fun _ member => Or.inl member, fun other stored found => ?_,
    fun sound => ⟨sound.addresses, sound.distinct⟩⟩
  rw [Dictionary.lookup_erase] at found
  by_cases struck : other = msgId
  · rw [if_pos struck] at found
    cases found
  · rw [if_neg struck] at found
    exact found

theorem follows_clear (done : queue.clear world = .ok next after) : queue.Follows next := by
  rcases bind_eq_ok done with ⟨removed, middle, _, rest⟩
  cases rest
  exact ⟨rfl, Nat.le_refl _, fun _ member => (nomatch member), fun _ _ found => (nomatch found),
    fun _ => ⟨fun _ member => (nomatch member), List.nodup_nil⟩⟩

end Calls

end QueueMessage

/-! ## The message stores -/

namespace MessageManager

/-- Every store has the files of the queue that it belongs to. -/
def Named (manager : MessageManager) : Prop :=
  ∀ qname reference store, manager.queueMsgs.find qname = some reference →
    manager.queueMsgs.object reference = some store →
    store.mapper = MessageMapper.ofNames qname manager.basedir

/-- The stores after calls other than `front`. -/
structure Follows (manager next : MessageManager) : Prop where
  basedir : next.basedir = manager.basedir
  stores : manager.queueMsgs.Evolves QueueMessage.Follows QueueMessage.Untouched next.queueMsgs
  named : manager.Named → next.Named

theorem follows_refl (manager : MessageManager) : manager.Follows manager :=
  ⟨rfl, Registry.evolves_refl QueueMessage.follows_refl _, id⟩

theorem Follows.trans {first second third : MessageManager} (earlier : first.Follows second)
    (later : second.Follows third) : first.Follows third :=
  ⟨later.basedir.trans earlier.basedir,
    earlier.stores.trans (fun _ _ _ one two => one.trans two)
      (fun _ _ young followed => young.follows followed) later.stores,
    fun named => later.named (earlier.named named)⟩

/-- Every store that has a name has the files of the place for it. -/
def Placed (place : Bytes → MessageMapper) (stores : Registry Bytes QueueMessage) : Prop :=
  ∀ qname reference store, stores.find qname = some reference →
    stores.object reference = some store → store.mapper = place qname

section Placing

variable {place : Bytes → MessageMapper} {stores : Registry Bytes QueueMessage}

/-- A store may change as long as its files stay the same. -/
theorem placed_update {reference : Nat} {store next : QueueMessage}
    (there : stores.object reference = some store) (mapper : next.mapper = store.mapper)
    (placed : Placed place stores) : Placed place (stores.update reference next) := by
  intro qname other stored found otherThere
  rw [Registry.object_update] at otherThere
  by_cases same : other = reference
  · subst same
    rw [if_pos rfl, there] at otherThere
    cases otherThere
    exact mapper.trans (placed qname other store found there)
  · rw [if_neg same] at otherThere
    exact placed qname other stored found otherThere

/-- A new store has the files of its place. -/
theorem placed_register {qname : Bytes} {store : QueueMessage} (mapper : store.mapper = place qname)
    (placed : Placed place stores) : Placed place (stores.register qname store) := by
  intro other reference stored found there
  rw [Registry.find_register] at found
  rw [Registry.object_register] at there
  by_cases same : other = qname
  · rw [if_pos same] at found
    cases found
    rw [if_pos rfl] at there
    cases there
    exact same.symm ▸ mapper
  · rw [if_neg same] at found
    have old : reference ≠ stores.next := Nat.ne_of_lt (stores.bound other reference found)
    rw [if_neg old] at there
    exact placed other reference stored found there

theorem placed_unregister (qname : Bytes) (placed : Placed place stores) :
    Placed place (stores.unregister qname) := by
  intro other reference stored found there
  rw [Registry.find_unregister] at found
  by_cases same : other = qname
  · rw [if_pos same] at found
    cases found
  · rw [if_neg same] at found
    exact placed other reference stored found there

end Placing

theorem named_update {manager : MessageManager} {reference : Nat} {store next : QueueMessage}
    (there : manager.queueMsgs.object reference = some store) (mapper : next.mapper = store.mapper)
    (named : manager.Named) :
    ({ manager with queueMsgs := manager.queueMsgs.update reference next } :
      MessageManager).Named :=
  @placed_update (MessageMapper.ofNames · manager.basedir) _ _ _ _ there mapper named

theorem follows_update {manager : MessageManager} {reference : Nat} {store next : QueueMessage}
    (there : manager.queueMsgs.object reference = some store) (followed : store.Follows next) :
    manager.Follows { manager with queueMsgs := manager.queueMsgs.update reference next } :=
  ⟨rfl, Registry.evolves_update QueueMessage.follows_refl there followed,
    named_update there followed.mapper⟩

section Calls

variable {manager next : MessageManager} {world after : World}

theorem follows_onStore {α : Type} {reference : Nat} {absent : α}
    {code : QueueMessage → FileM (α × QueueMessage)} {done : α × MessageManager}
    (follows : ∀ store value changed, code store world = .ok (value, changed) after →
      store.Follows changed)
    (completed : manager.onStore reference absent code world = .ok done after) :
    manager.Follows done.2 := by
  rcases onStore_cases completed with ⟨_, result, _⟩ | ⟨store, changed, there, ran, result⟩
  · rw [result]
    exact manager.follows_refl
  · rw [result]
    exact follows_update there (follows store done.1 changed ran)

theorem follows_introduce {qname : Bytes} {admitted : Option Nat × MessageManager}
    (completed : manager.introduce qname world = .ok admitted after) : manager.Follows admitted.2 := by
  rcases introduce_cases completed with ⟨_, result, _⟩ | ⟨_, store, made, result⟩
  · rw [result]
    exact manager.follows_refl
  · rw [result]
    cases QueueMessage.new_ok made
    exact ⟨rfl, Registry.evolves_register QueueMessage.follows_refl _ _
      (QueueMessage.untouched_new _), fun named =>
        @placed_register (MessageMapper.ofNames · manager.basedir) _ _ _ rfl named⟩

theorem follows_recover [Protobuf] {reference : Nat}
    (completed : manager.recover reference world = .ok next after) : manager.Follows next := by
  rcases bind_eq_ok completed with ⟨done, middle, ran, rest⟩
  cases rest
  refine follows_onStore (fun store value changed recovered => ?_) ran
  rcases bind_eq_ok recovered with ⟨_, last, filled, rest⟩
  cases rest
  exact QueueMessage.follows_recovery filled

theorem follows_initQueueMessage [Protobuf] {qname : Bytes}
    (completed : manager.initQueueMessage qname world = .ok next after) : manager.Follows next := by
  rcases bind_eq_ok completed with ⟨⟨found, admitted⟩, middle, entered, rest⟩
  have first := follows_introduce entered
  cases found with
  | none =>
      cases rest
      exact first
  | some reference => exact first.trans (follows_recover rest)

theorem follows_withdraw (manager : MessageManager) (qname : Bytes) :
    manager.Follows (manager.withdraw qname).2 := by
  unfold withdraw
  cases manager.queueMsgs.find qname with
  | none => exact manager.follows_refl
  | some reference =>
      exact ⟨rfl, Registry.evolves_unregister QueueMessage.follows_refl _ _, fun named =>
        @placed_unregister (MessageMapper.ofNames · manager.basedir) _ qname named⟩

theorem follows_clearStore {reference : Nat}
    (completed : manager.clearStore reference world = .ok next after) : manager.Follows next := by
  rcases bind_eq_ok completed with ⟨done, middle, ran, rest⟩
  cases rest
  refine follows_onStore (fun store value changed cleared => ?_) ran
  rcases bind_eq_ok cleared with ⟨_, last, emptied, rest⟩
  cases rest
  exact QueueMessage.follows_clear emptied

theorem follows_destroyQueueMessage {qname : Bytes}
    (completed : manager.destroyQueueMessage qname world = .ok next after) :
    manager.Follows next := by
  unfold destroyQueueMessage at completed
  have first := manager.follows_withdraw qname
  cases withdrawn : (manager.withdraw qname).1 with
  | none =>
      simp only [withdrawn] at completed
      cases completed
      exact first
  | some reference =>
      simp only [withdrawn] at completed
      exact first.trans (follows_clearStore completed)

theorem follows_insert {qname uuid body : Bytes} {properties : Option BasecProperties}
    {queueIsDurable : Bool} {done : Bool × MessageManager}
    (completed : manager.insert qname properties uuid body queueIsDurable world = .ok done after) :
    manager.Follows done.2 := by
  rcases insert_ok completed with ⟨_, same, _⟩ | ⟨reference, _, ran⟩
  · rw [same]
    exact manager.follows_refl
  · exact follows_onStore (fun _ _ _ inserted => QueueMessage.follows_insert inserted) ran

theorem follows_removeFrom [Protobuf] {reference : Nat} {msgId : Bytes}
    (completed : manager.removeFrom reference msgId world = .ok next after) :
    manager.Follows next := by
  rcases bind_eq_ok completed with ⟨done, middle, ran, rest⟩
  cases rest
  refine follows_onStore (fun store value changed removed => ?_) ran
  rcases bind_eq_ok removed with ⟨_, last, struck, rest⟩
  cases rest
  exact QueueMessage.follows_remove struck

theorem follows_ack [Protobuf] {qname msgId : Bytes}
    (completed : manager.ack qname msgId world = .ok next after) : manager.Follows next := by
  rcases ack_ok completed with ⟨_, same, _⟩ | ⟨reference, _, removed⟩
  · rw [same]
    exact manager.follows_refl
  · exact follows_removeFrom removed

end Calls

end MessageManager

/-! ## The consumer units -/

namespace ConsumerManager

/-- No consumer is in two units, named or not, and the addresses given so far are
below the bound. -/
structure Apart (manager : ConsumerManager) (bound : Nat) : Prop where
  addresses : ∀ reference unit, manager.qconsumers.object reference = some unit →
    ∀ consumer ∈ unit.consumers, consumer.address < bound
  single : ∀ first second one two consumer, manager.qconsumers.object first = some one →
    manager.qconsumers.object second = some two → consumer ∈ one.consumers →
    consumer ∈ two.consumers → first = second

section Calls

variable {manager : ConsumerManager} {bound later : Nat}

theorem Apart.mono (apart : manager.Apart bound) (grows : bound ≤ later) : manager.Apart later :=
  ⟨fun reference unit there consumer member =>
    Nat.lt_of_lt_of_le (apart.addresses reference unit there consumer member) grows, apart.single⟩

/-- The members of a changed unit are old members or consumers with new
addresses. -/
theorem Apart.update (apart : manager.Apart bound) {reference : Nat} {unit next : QueueConsumer}
    (there : manager.qconsumers.object reference = some unit) (grows : bound ≤ later)
    (members : ∀ consumer ∈ next.consumers, consumer ∈ unit.consumers ∨
      bound ≤ consumer.address ∧ consumer.address < later) :
    (⟨manager.qconsumers.update reference next⟩ : ConsumerManager).Apart later := by
  have after : ∀ other stored, (manager.qconsumers.update reference next).object other =
      some stored → (other = reference ∧ stored = next) ∨
        (other ≠ reference ∧ manager.qconsumers.object other = some stored) := by
    intro other stored found
    rw [Registry.object_update] at found
    by_cases same : other = reference
    · rw [if_pos same, there] at found
      cases found
      exact Or.inl ⟨same, rfl⟩
    · rw [if_neg same] at found
      exact Or.inr ⟨same, found⟩
  -- a member of the changed unit is in no other unit
  have alone : ∀ other stored consumer, other ≠ reference →
      manager.qconsumers.object other = some stored → consumer ∈ next.consumers →
      consumer ∉ stored.consumers := by
    intro other stored consumer distinct found member elsewhere
    rcases members consumer member with old | ⟨young, _⟩
    · exact distinct (apart.single other reference stored unit consumer found there elsewhere old)
    · exact Nat.not_le_of_lt (apart.addresses other stored found consumer elsewhere) young
  refine ⟨fun other stored found consumer member => ?_,
    fun first second one two consumer firstThere secondThere inOne inTwo => ?_⟩
  · rcases after other stored found with ⟨_, changed⟩ | ⟨_, old⟩
    · rw [changed] at member
      rcases members consumer member with known | ⟨_, young⟩
      · exact Nat.lt_of_lt_of_le (apart.addresses reference unit there consumer known) grows
      · exact young
    · exact Nat.lt_of_lt_of_le (apart.addresses other stored old consumer member) grows
  · rcases after first one firstThere with ⟨firstSame, oneSame⟩ | ⟨firstOther, oneOld⟩
    · rcases after second two secondThere with ⟨secondSame, _⟩ | ⟨secondOther, twoOld⟩
      · exact firstSame.trans secondSame.symm
      · exact absurd inTwo (alone second two consumer secondOther twoOld (oneSame ▸ inOne))
    · rcases after second two secondThere with ⟨_, twoSame⟩ | ⟨_, twoOld⟩
      · exact absurd inOne (alone first one consumer firstOther oneOld (twoSame ▸ inTwo))
      · exact apart.single first second one two consumer oneOld twoOld inOne inTwo

theorem Apart.initQueueConsumer (apart : manager.Apart bound) (queueName : Bytes) :
    (manager.initQueueConsumer queueName).Apart bound := by
  unfold ConsumerManager.initQueueConsumer
  cases manager.qconsumers.find queueName with
  | some reference => exact apart
  | none =>
      have after : ∀ other stored consumer,
          (manager.qconsumers.register queueName { qname := queueName }).object other =
            some stored → consumer ∈ stored.consumers →
          manager.qconsumers.object other = some stored := by
        intro other stored consumer found member
        rw [Registry.object_register] at found
        by_cases last : other = manager.qconsumers.next
        · rw [if_pos last] at found
          cases found
          cases member
        · rw [if_neg last] at found
          exact found
      refine ⟨fun other stored found consumer member => ?_,
        fun first second one two consumer firstThere secondThere inOne inTwo => ?_⟩
      · exact apart.addresses other stored (after other stored consumer found member) consumer
          member
      · exact apart.single first second one two consumer (after first one consumer firstThere inOne)
          (after second two consumer secondThere inTwo) inOne inTwo

theorem Apart.destroyQueueConsumer (apart : manager.Apart bound) (queueName : Bytes) :
    (manager.destroyQueueConsumer queueName).Apart bound :=
  ⟨apart.addresses, apart.single⟩

theorem Apart.create (apart : manager.Apart bound) {consumer : Consumer}
    (young : consumer.address = bound) : (manager.create consumer).2.Apart (bound + 1) := by
  unfold ConsumerManager.create
  cases found : manager.qconsumers.find consumer.qname with
  | none => exact apart.mono (Nat.le_succ bound)
  | some reference =>
      rcases Registry.object_of_find found with ⟨unit, there⟩
      simp only [there]
      refine apart.update there (Nat.le_succ bound) fun member joined => ?_
      rcases unit.create_cases consumer with ⟨_, _, _, result⟩ | ⟨_, result⟩
      · rw [result] at joined
        exact Or.inl joined
      · rw [result] at joined
        rcases List.mem_append.mp joined with old | new
        · exact Or.inl old
        · cases List.mem_singleton.mp new
          exact Or.inr ⟨Nat.le_of_eq young.symm, young ▸ Nat.lt_succ_self _⟩

theorem Apart.remove (apart : manager.Apart bound) {ctag queueName : Bytes}
    {next : ConsumerManager} (removed : manager.remove ctag queueName = .ok next) :
    next.Apart bound := by
  rcases ConsumerManager.remove_ok removed with ⟨reference, unit, _, there, same⟩
  rw [same]
  exact apart.update there (Nat.le_refl bound) fun _ member => Or.inl (List.mem_of_mem_eraseP member)

theorem Apart.chooseFrom (apart : manager.Apart bound) (reference : Nat) :
    (manager.chooseFrom reference).2.Apart bound := by
  unfold ConsumerManager.chooseFrom
  cases there : manager.qconsumers.object reference with
  | none => exact apart
  | some unit =>
      refine apart.update there (Nat.le_refl bound) fun consumer member => Or.inl ?_
      rwa [QueueConsumer.choose_consumers] at member

end Calls

end ConsumerManager

/-! ## What the channels share -/

/-- The requests that touch no store, or only the waiting messages of one. -/
def Shared.Storeless : Request → Prop
  | .declareQueue _ => False
  | .deleteQueue _ => False
  | .basicPublish _ _ _ => False
  | _ => True

/-- The managers after requests, or after steps of the event loop. -/
structure Shared.Follows (shared next : Shared) : Prop where
  messages : shared.host.mmptr.Follows next.host.mmptr
  pool : shared.pool <+: next.pool
  units : shared.cmptr.Apart shared.allocated → next.cmptr.Apart next.allocated

namespace Shared

theorem follows_refl (shared : Shared) : shared.Follows shared :=
  ⟨shared.host.mmptr.follows_refl, List.prefix_rfl, id⟩

theorem Follows.trans {first second third : Shared} (earlier : first.Follows second)
    (later : second.Follows third) : first.Follows third :=
  ⟨earlier.messages.trans later.messages, earlier.pool.trans later.pool,
    fun apart => later.units (earlier.units apart)⟩

/-- Other managers of the host, and other units, do not matter. -/
theorem follows_of_messages {shared next : Shared}
    (messages : shared.host.mmptr.Follows next.host.mmptr) (pool : next.pool = shared.pool)
    (units : shared.cmptr.Apart shared.allocated → next.cmptr.Apart next.allocated) :
    shared.Follows next :=
  ⟨messages, pool ▸ List.prefix_rfl, units⟩

section Requests

variable {shared next : Shared} {sql : SqlOutcome} {world after : World}

theorem follows_declareQueue [Protobuf] {queue : MsgQueue} {accepted : Bool}
    (completed : Channel.declareQueue shared sql queue world = .ok (accepted, next) after) :
    shared.Follows next := by
  rcases Channel.declareQueue_ok completed with ⟨mmptr, initialised, _, same⟩
  rw [same]
  refine follows_of_messages (MessageManager.follows_initQueueMessage initialised) rfl
    fun apart => ?_
  cases accepted with
  | true => exact apart.initQueueConsumer queue.name
  | false => exact apart

theorem follows_deleteQueue {queueName : Bytes} {accepted : Bool}
    (completed : Channel.deleteQueue shared sql queueName world = .ok (accepted, next) after) :
    shared.Follows next := by
  rcases Channel.deleteQueue_ok completed with ⟨mmptr, destroyed, _, same⟩
  rw [same]
  refine follows_of_messages (MessageManager.follows_destroyQueueMessage destroyed) rfl
    fun apart => ?_
  cases accepted with
  | true => exact apart.destroyQueueConsumer queueName
  | false => exact apart

/-- A message goes into its queue. -/
theorem follows_basicPublish {qname uuid body : Bytes} {properties : Option BasecProperties}
    {published : Bool × VirtualHost}
    (called : shared.host.basicPublish qname properties uuid body world = .ok published after) :
    shared.Follows { shared with host := published.2 } := by
  rcases VirtualHost.basicPublish_ok called with ⟨_, idle, _⟩ | ⟨queue, inserted, _, stored, kept⟩
  · rw [idle]
    exact shared.follows_refl
  · rw [kept]
    exact follows_of_messages (MessageManager.follows_insert stored) rfl id

/-- A task is pushed. -/
theorem follows_pushTask (shared : Shared) (address : Nat) (queueName : Bytes) :
    shared.Follows (Channel.pushTask address shared queueName) :=
  ⟨shared.host.mmptr.follows_refl, List.prefix_append _ _, id⟩

theorem follows_publishTurn {address : Nat} {publication : Channel.Publication}
    {mqb : Bytes × Binding}
    (completed : Channel.publishTurn address publication shared mqb world = .ok next after) :
    shared.Follows next := by
  rcases Channel.publishTurn_ok completed with ⟨_, same, _⟩ | ⟨_, published, called, same⟩
  · rw [same]
    exact shared.follows_refl
  · rw [same]
    exact (follows_basicPublish called).trans (follows_pushTask _ address mqb.1)

theorem follows_basicAck [Protobuf] {queueName messageId : Bytes}
    (completed : Channel.basicAck shared queueName messageId world = .ok next after) :
    shared.Follows next := by
  rcases bind_eq_ok completed with ⟨host, middle, called, rest⟩
  cases rest
  rcases bind_eq_ok called with ⟨mmptr, last, acknowledged, rest⟩
  cases rest
  exact follows_of_messages (MessageManager.follows_ack acknowledged) rfl id

theorem follows_destroy {channel : Channel} (completed : Channel.destroy shared channel = .ok next) :
    shared.Follows next := by
  rcases Channel.destroy_ok completed with ⟨_, same⟩ | ⟨consumer, cmptr, _, removed, same⟩
  · rw [same]
    exact shared.follows_refl
  · rw [same]
    exact follows_of_messages shared.host.mmptr.follows_refl rfl fun apart => apart.remove removed

/-- Every request of a channel. -/
theorem follows_handle [Protobuf] {channel : Channel} {chance : Chance} {request : Request}
    {result : Bool × Channel × Shared}
    (completed : Channel.handle channel shared chance request world = .ok result after) :
    shared.Follows result.2.2 := by
  have untouched := shared.host.mmptr.follows_refl
  cases request with
  | declareExchange exchange =>
      cases completed
      exact follows_of_messages untouched rfl id
  | deleteExchange exchangeName =>
      cases completed
      exact follows_of_messages untouched rfl id
  | declareQueue queue =>
      rcases bind_eq_ok completed with ⟨done, middle, called, rest⟩
      cases rest
      exact follows_declareQueue called
  | deleteQueue queueName =>
      rcases bind_eq_ok completed with ⟨done, middle, called, rest⟩
      cases rest
      exact follows_deleteQueue called
  | queueBind exchangeName queueName bindingKey =>
      cases completed
      rcases shared.host.bind_cases chance.sql exchangeName queueName bindingKey with
        ⟨_, result⟩ | ⟨exchange, queue, _, _, result⟩
      · simp only [Channel.queueBind, result]
        exact shared.follows_refl
      · simp only [Channel.queueBind, result]
        exact follows_of_messages untouched rfl id
  | queueUnbind exchangeName queueName =>
      cases completed
      exact follows_of_messages untouched rfl id
  | basicPublish exchangeName properties body =>
      rcases bind_eq_ok completed with ⟨done, middle, called, rest⟩
      cases rest
      exact Channel.basicPublish_invariant shared.follows_refl
        (fun held turned => held.trans (follows_publishTurn turned)) called
  | basicAck queueName messageId =>
      rcases bind_eq_ok completed with ⟨done, middle, called, rest⟩
      cases rest
      exact follows_basicAck called
  | basicConsume consumerTag queueName autoAck =>
      cases completed
      unfold Channel.basicConsume
      cases shared.host.existsQueue queueName with
      | false => exact shared.follows_refl
      | true => exact follows_of_messages untouched rfl fun apart => apart.create rfl
  | basicCancel consumerTag queueName =>
      rcases bind_eq_ok completed with ⟨done, middle, called, rest⟩
      cases rest
      rcases Channel.basicCancel_ok (ofExcept_eq_ok called).1 with ⟨cmptr, removed, same⟩
      rw [same]
      exact follows_of_messages untouched rfl fun apart => apart.remove removed

/-- Every packet. -/
theorem follows_packet [Protobuf] {server : Server} {conn : Nat} {chance : Chance}
    {packet : Packet} {done : Reply × Server}
    (completed : server.handle conn chance packet world = .ok done after) :
    server.shared.Follows done.2.shared :=
  Server.handle_keeps
    (fun _ held => ⟨held.messages, held.pool, fun apart => (held.units apart).mono (Nat.le_succ _)⟩)
    (fun _ _ _ held destroyed => held.trans (follows_destroy destroyed))
    (fun _ _ _ _ handled => follows_handle handled) server.shared.follows_refl completed

end Requests

end Shared

/-! ## A new server -/

/-- The units that the constructor makes are empty. -/
theorem ConsumerManager.Apart.initAll {manager : ConsumerManager} {bound : Nat}
    (apart : manager.Apart bound) (queueNames : List Bytes) :
    (queueNames.foldl ConsumerManager.initQueueConsumer manager).Apart bound := by
  induction queueNames generalizing manager with
  | nil => exact apart
  | cons queueName rest inductionHypothesis =>
      exact inductionHypothesis (apart.initQueueConsumer queueName)

/-- The stores of a new server were filled and nothing else, and nobody has
subscribed. -/
theorem Server.new_follows [Protobuf] {database : Database} {basedir : Bytes}
    {world after : World} {server : Server}
    (started : Server.new database basedir world = .ok server after) :
    ({ basedir := basedir } : MessageManager).Follows server.shared.host.mmptr ∧
      server.shared.cmptr.Apart server.shared.allocated := by
  rcases bind_eq_ok started with ⟨host, middle, made, rest⟩
  rcases VirtualHost.new_ok made with ⟨mmptr, initialised, same⟩
  cases rest
  constructor
  · rw [same]
    exact foldlM_invariant (fun _ _ _ _ _ held filled =>
      held.trans (MessageManager.follows_initQueueMessage filled))
      (MessageManager.follows_refl _) initialised
  · apply ConsumerManager.Apart.initAll
    exact ⟨fun _ _ there => (nomatch there), fun _ _ _ _ _ there => (nomatch there)⟩

/-! ## The machine -/

namespace Machine

/-- The machine after a step of the event loop. -/
structure Follows (machine next : Machine) : Prop where
  phase : next.phase = machine.phase
  sent : next.sent = machine.sent
  shared : machine.server.shared.Follows next.server.shared

theorem follows_refl (machine : Machine) : machine.Follows machine :=
  ⟨rfl, rfl, machine.server.shared.follows_refl⟩

theorem follows_declare (shared : Shared) (sql : SqlOutcome) (queue : MsgQueue) :
    shared.Follows (declare shared sql queue) := by
  refine Shared.follows_of_messages shared.host.mmptr.follows_refl rfl fun apart => ?_
  simp only [declare]
  cases (shared.host.qmptr.declareQueue sql.queueTable queue).1 with
  | true => exact apart.initQueueConsumer queue.name
  | false => exact apart

theorem follows_delete (shared : Shared) (sql : SqlOutcome) (queueName : Bytes) :
    shared.Follows (delete shared sql queueName) := by
  refine Shared.follows_of_messages shared.host.mmptr.follows_refl rfl fun apart => ?_
  simp only [delete]
  cases (shared.host.qmptr.deleteQueue sql.queueTable queueName).1 with
  | true => exact apart.destroyQueueConsumer queueName
  | false => exact apart

section Steps

variable [Protobuf] {machine next : Machine} {world after : World}

theorem perform_eq_ok {event : Event} (stepped : perform machine event = .ok next) :
    ∃ result world, machine.step event.move ⟨machine.disk, event.script⟩ = .ok result world ∧
      next = { result with disk := world.disk } := by
  rcases except_map_eq_ok stepped with ⟨done, completed, same⟩
  rcases performed_eq_ok completed with ⟨world, ran, left⟩
  exact ⟨done.1, world, ran, same ▸ left ▸ rfl⟩

/-- The first step of a request, by what it does. -/
inductive Accepts (machine : Machine) (conn : Nat) (chance : Chance) (world after : World) :
    Packet → Machine → Prop where
  | handles {packet : Packet} {done : Reply × Server}
      (storeless : ∀ rid cid channel request, packet = .request rid cid request →
        machine.server.channelAt conn cid = some channel → Shared.Storeless request)
      (handled : machine.server.handle conn chance packet world = .ok done after) :
      Accepts machine conn chance world after packet { machine with server := done.2 }
  | refuses {rid cid exchangeName body : Bytes} {properties : Option BasecProperties} :
      Accepts machine conn chance world after
        (.request rid cid (.basicPublish exchangeName properties body)) machine
  | publishes {rid cid exchangeName body : Bytes} {properties : Option BasecProperties}
      {channel : Channel} {publication : Channel.Publication} {rest : List (Bytes × Binding)}
      (opened : machine.server.channelAt conn cid = some channel) :
      Accepts machine conn chance world after
        (.request rid cid (.basicPublish exchangeName properties body))
        { machine with loop := .publishing channel.address publication rest }
  | recovers {rid cid : Bytes} {queue : MsgQueue} {admitted : Option Nat × MessageManager}
      {store : Nat}
      (introduced : machine.server.shared.host.mmptr.introduce queue.name world =
        .ok admitted after) :
      Accepts machine conn chance world after (.request rid cid (.declareQueue queue))
        { machine.withMessages admitted.2 with loop := .recovering store chance.sql queue }
  | declares {rid cid : Bytes} {queue : MsgQueue} {admitted : Option Nat × MessageManager}
      (introduced : machine.server.shared.host.mmptr.introduce queue.name world =
        .ok admitted after) :
      Accepts machine conn chance world after (.request rid cid (.declareQueue queue))
        { machine.withMessages admitted.2 with loop := .declaring chance.sql queue }
  | deletes {rid cid queueName : Bytes} {loop : Loop}
      (onward : loop = .deleting chance.sql queueName ∨
        ∃ store, loop = .clearing store chance.sql queueName) :
      Accepts machine conn chance world after (.request rid cid (.deleteQueue queueName))
        { machine.withShared { machine.server.shared with
            host := { machine.server.shared.host with
              bmptr := machine.server.shared.host.bmptr.removeMsgQueueBindings
                chance.sql.bindingTable queueName
              mmptr := (machine.server.shared.host.mmptr.withdraw queueName).2 } } with
          loop := loop }

theorem accept_cases {conn : Nat} {chance : Chance} {packet : Packet}
    (completed : machine.accept conn chance packet world = .ok next after) :
    machine.Accepts conn chance world after packet next := by
  have handles : ∀ {packet : Packet},
      (∀ rid cid channel request, packet = .request rid cid request →
        machine.server.channelAt conn cid = some channel → Shared.Storeless request) →
      (do
        let done ← machine.server.handle conn chance packet
        return { machine with server := done.2 } : FileM Machine) world = .ok next after →
      machine.Accepts conn chance world after packet next := by
    intro packet storeless completed
    rcases bind_eq_ok completed with ⟨done, middle, handled, rest⟩
    cases rest
    exact .handles storeless handled
  cases packet with
  | openChannel rid cid => exact @handles (.openChannel rid cid) (fun _ _ _ _ => nofun) completed
  | closeChannel rid cid => exact @handles (.closeChannel rid cid) (fun _ _ _ _ => nofun) completed
  | request rid cid request =>
      unfold accept at completed
      simp only at completed
      cases found : machine.server.channelAt conn cid with
      | none =>
          rw [found] at completed
          have nobody : ∀ rid' cid' channel request', Packet.request rid cid request =
              .request rid' cid' request' → machine.server.channelAt conn cid' = some channel →
              Shared.Storeless request' := by
            intro rid' cid' channel request' same opened
            cases same
            exact nomatch found.symm.trans opened
          cases request <;> exact handles nobody completed
      | some channel =>
          rw [found] at completed
          have storeless : Shared.Storeless request → ∀ rid' cid' channel request',
              Packet.request rid cid request = .request rid' cid' request' →
              machine.server.channelAt conn cid' = some channel → Shared.Storeless request' := by
            intro storeless rid' cid' channel request' same _
            cases same
            exact storeless
          cases request with
          | basicPublish exchangeName properties body =>
              simp only at completed
              cases selected : machine.server.shared.host.selectExchange exchangeName with
              | none =>
                  rw [selected] at completed
                  cases completed
                  exact .refuses
              | some exchange =>
                  rw [selected] at completed
                  cases completed
                  exact .publishes found
          | declareQueue queue =>
              rcases bind_eq_ok completed with ⟨⟨store, mmptr⟩, middle, entered, rest⟩
              cases rest
              cases store with
              | none => exact .declares entered
              | some store => exact .recovers entered
          | deleteQueue queueName =>
              cases completed
              refine .deletes ?_
              cases (machine.server.shared.host.mmptr.withdraw queueName).1 with
              | none => exact Or.inl rfl
              | some store => exact Or.inr ⟨store, rfl⟩
          | declareExchange exchange => exact handles (storeless trivial) completed
          | deleteExchange exchangeName => exact handles (storeless trivial) completed
          | queueBind exchangeName queueName bindingKey =>
              exact handles (storeless trivial) completed
          | queueUnbind exchangeName queueName => exact handles (storeless trivial) completed
          | basicAck queueName messageId => exact handles (storeless trivial) completed
          | basicConsume consumerTag queueName autoAck =>
              exact handles (storeless trivial) completed
          | basicCancel consumerTag queueName => exact handles (storeless trivial) completed

theorem Accepts.follows {conn : Nat} {chance : Chance} {packet : Packet}
    (accepts : machine.Accepts conn chance world after packet next) : machine.Follows next := by
  cases accepts with
  | handles storeless handled => exact ⟨rfl, rfl, Shared.follows_packet handled⟩
  | refuses => exact machine.follows_refl
  | publishes opened => exact ⟨rfl, rfl, machine.server.shared.follows_refl⟩
  | recovers introduced =>
      exact ⟨rfl, rfl, Shared.follows_of_messages (MessageManager.follows_introduce introduced)
        rfl id⟩
  | declares introduced =>
      exact ⟨rfl, rfl, Shared.follows_of_messages (MessageManager.follows_introduce introduced)
        rfl id⟩
  | deletes onward =>
      exact ⟨rfl, rfl, Shared.follows_of_messages (MessageManager.follows_withdraw _ _) rfl id⟩

/-- A further step of the request in hand, by what was in hand. -/
inductive Proceeds (machine : Machine) (world after : World) : Machine → Prop where
  | rests (idle : machine.loop = .idle) : Proceeds machine world after machine
  | finishes (inHand : (∃ address publication, machine.loop = .publishing address publication []) ∨
        machine.loop = .closing []) :
      Proceeds machine world after { machine with loop := .idle }
  | skips {address : Nat} {publication : Channel.Publication} {mqb : Bytes × Binding}
      {rest : List (Bytes × Binding)}
      (inHand : machine.loop = .publishing address publication (mqb :: rest))
      (routed : Router.route publication.type mqb.2.bindingKey
        (Channel.rotingKeyOf publication.properties) = .ok false) :
      Proceeds machine world after
        { machine with loop := .publishing address publication rest }
  | inserts {address : Nat} {publication : Channel.Publication} {mqb : Bytes × Binding}
      {rest : List (Bytes × Binding)} {published : Bool × VirtualHost}
      (inHand : machine.loop = .publishing address publication (mqb :: rest))
      (routed : Router.route publication.type mqb.2.bindingKey
        (Channel.rotingKeyOf publication.properties) = .ok true)
      (called : machine.server.shared.host.basicPublish mqb.1 publication.properties
        (publication.uuid mqb.1) publication.body world = .ok published after) :
      Proceeds machine world after
        { machine.withShared { machine.server.shared with host := published.2 } with
          loop := .pushing address publication mqb.1 rest }
  | pushes {address : Nat} {publication : Channel.Publication} {queueName : Bytes}
      {rest : List (Bytes × Binding)}
      (inHand : machine.loop = .pushing address publication queueName rest) :
      Proceeds machine world after
        { machine.withShared (Channel.pushTask address machine.server.shared queueName) with
          loop := .publishing address publication rest }
  | recovers {store : Nat} {sql : SqlOutcome} {queue : MsgQueue} {mmptr : MessageManager}
      (inHand : machine.loop = .recovering store sql queue)
      (recovered : machine.server.shared.host.mmptr.recover store world = .ok mmptr after) :
      Proceeds machine world after
        { machine.withMessages mmptr with loop := .declaring sql queue }
  | declares {sql : SqlOutcome} {queue : MsgQueue} (inHand : machine.loop = .declaring sql queue) :
      Proceeds machine world after
        { machine.withShared (declare machine.server.shared sql queue) with loop := .idle }
  | clears {store : Nat} {sql : SqlOutcome} {queueName : Bytes} {mmptr : MessageManager}
      (inHand : machine.loop = .clearing store sql queueName)
      (cleared : machine.server.shared.host.mmptr.clearStore store world = .ok mmptr after) :
      Proceeds machine world after
        { machine.withMessages mmptr with loop := .deleting sql queueName }
  | deletes {sql : SqlOutcome} {queueName : Bytes} (inHand : machine.loop = .deleting sql queueName) :
      Proceeds machine world after
        { machine.withShared (delete machine.server.shared sql queueName) with loop := .idle }
  | closes {channel : Channel} {rest : List Channel} {shared : Shared}
      (inHand : machine.loop = .closing (channel :: rest))
      (destroyed : Channel.destroy machine.server.shared channel = .ok shared) :
      Proceeds machine world after { machine.withShared shared with loop := .closing rest }

theorem proceed_cases (completed : machine.proceed world = .ok next after) :
    machine.Proceeds world after next := by
  unfold proceed at completed
  simp only at completed
  cases inHand : machine.loop with
  | idle =>
      rw [inHand] at completed
      cases completed
      exact .rests inHand
  | publishing address publication rest =>
      rw [inHand] at completed
      cases rest with
      | nil =>
          cases completed
          exact .finishes (Or.inl ⟨address, publication, inHand⟩)
      | cons mqb rest =>
          rcases bind_eq_ok completed with ⟨inserted, middle, turned, rest⟩
          cases rest
          rcases Channel.insertTurn_ok turned with ⟨routed, same, _⟩ |
            ⟨routed, published, called, same⟩
          all_goals rw [same]
          · exact .skips inHand routed
          · exact .inserts inHand routed called
  | pushing address publication queueName rest =>
      rw [inHand] at completed
      cases completed
      exact .pushes inHand
  | recovering store sql queue =>
      rw [inHand] at completed
      rcases bind_eq_ok completed with ⟨mmptr, middle, recovered, rest⟩
      cases rest
      exact .recovers inHand recovered
  | declaring sql queue =>
      rw [inHand] at completed
      cases completed
      exact .declares inHand
  | clearing store sql queueName =>
      rw [inHand] at completed
      rcases bind_eq_ok completed with ⟨mmptr, middle, cleared, rest⟩
      cases rest
      exact .clears inHand cleared
  | deleting sql queueName =>
      rw [inHand] at completed
      cases completed
      exact .deletes inHand
  | closing rest =>
      rw [inHand] at completed
      cases rest with
      | nil =>
          cases completed
          exact .finishes (Or.inr inHand)
      | cons channel rest =>
          rcases bind_eq_ok completed with ⟨shared, middle, destroyed, rest⟩
          cases rest
          exact .closes inHand (ofExcept_eq_ok destroyed).1

theorem Proceeds.follows (proceeds : machine.Proceeds world after next) :
    machine.Follows next := by
  cases proceeds with
  | rests idle => exact machine.follows_refl
  | finishes inHand => exact ⟨rfl, rfl, machine.server.shared.follows_refl⟩
  | skips inHand routed => exact ⟨rfl, rfl, machine.server.shared.follows_refl⟩
  | inserts inHand routed called => exact ⟨rfl, rfl, Shared.follows_basicPublish called⟩
  | pushes inHand => exact ⟨rfl, rfl, Shared.follows_pushTask _ _ _⟩
  | recovers inHand recovered =>
      exact ⟨rfl, rfl, Shared.follows_of_messages (MessageManager.follows_recover recovered) rfl id⟩
  | declares inHand => exact ⟨rfl, rfl, follows_declare _ _ _⟩
  | clears inHand cleared =>
      exact ⟨rfl, rfl, Shared.follows_of_messages (MessageManager.follows_clearStore cleared) rfl id⟩
  | deletes inHand => exact ⟨rfl, rfl, follows_delete _ _ _⟩
  | closes inHand destroyed => exact ⟨rfl, rfl, Shared.follows_destroy destroyed⟩

/-- A step of the event loop, by what it takes up. -/
inductive Moves (machine : Machine) (world after : World) : Move → Machine → Prop where
  | stays {move : Move} : Moves machine world after move machine
  | connects {conn : Nat} :
      Moves machine world after (.connect conn)
        { machine with server := machine.server.newConnection conn }
  | disconnects {conn : Nat} {connection : Connection} (idle : machine.isIdle = true)
      (connected : machine.server.connections.lookup conn = some connection) :
      Moves machine world after (.disconnect conn)
        { machine with
          server := { machine.server with connections := machine.server.connections.erase conn }
          loop := .closing (Dictionary.values connection.channels) }
  | accepts {conn : Nat} {chance : Chance} {packet : Packet} {next : Machine}
      (idle : machine.isIdle = true)
      (accepts : machine.Accepts conn chance world after packet next) :
      Moves machine world after (.packet conn chance packet) next
  | proceeds {next : Machine} (proceeds : machine.Proceeds world after next) :
      Moves machine world after .proceed next

/-- A step is one of the event loop, or one of a task that was pushed. -/
theorem perform_cases {event : Event} (stepped : perform machine event = .ok next) :
    ∃ result after, next = { result with disk := after.disk } ∧
      (machine.Moves ⟨machine.disk, event.script⟩ after event.move result ∨
        ∃ index task, event.move = .work index ∧
          machine.server.shared.pool[index]? = some task ∧
          machine.consume index task ⟨machine.disk, event.script⟩ = .ok result after) := by
  rcases perform_eq_ok stepped with ⟨result, after, completed, same⟩
  refine ⟨result, after, same, ?_⟩
  rcases event with ⟨move, script⟩
  cases move with
  | connect conn =>
      cases completed
      cases machine.isIdle with
      | true => exact Or.inl .connects
      | false => exact Or.inl .stays
  | disconnect conn =>
      cases completed
      cases idle : machine.isIdle with
      | false => exact Or.inl .stays
      | true =>
          simp only [if_true, disconnect]
          cases connected : machine.server.connections.lookup conn with
          | none => exact Or.inl .stays
          | some connection => exact Or.inl (.disconnects idle connected)
  | packet conn chance packet =>
      unfold step at completed
      cases idle : machine.isIdle with
      | false =>
          rw [idle] at completed
          cases completed
          exact Or.inl .stays
      | true =>
          rw [idle] at completed
          exact Or.inl (.accepts idle (accept_cases completed))
  | proceed => exact Or.inl (.proceeds (proceed_cases completed))
  | work index =>
      change machine.work index _ = _ at completed
      unfold work at completed
      cases listed : machine.server.shared.pool[index]? with
      | none =>
          rw [listed] at completed
          cases completed
          exact Or.inl .stays
      | some task =>
          rw [listed] at completed
          exact Or.inr ⟨index, task, rfl, listed, completed⟩

/-- Every step of the event loop. -/
theorem Moves.follows {move : Move} (moves : machine.Moves world after move next) :
    machine.Follows next := by
  cases moves with
  | stays => exact machine.follows_refl
  | connects => exact ⟨rfl, rfl, machine.server.shared.follows_refl⟩
  | disconnects idle connected => exact ⟨rfl, rfl, machine.server.shared.follows_refl⟩
  | accepts idle accepts => exact accepts.follows
  | proceeds proceeds => exact proceeds.follows

end Steps

end Machine

end ProtobufMq
