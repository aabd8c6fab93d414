import ProtobufMq.Server.Following

namespace ProtobufMq

open Foundation

/-!
# How messages get into a store

Of the steps of the event loop only two add to the pending messages of a store.
A turn of a publish inserts one message and pushes one task; when a queue is
declared, its new store is filled with what is left in its data file, and
nothing is pushed.  Everything else leaves the pending messages as they are or
drops all of them.
-/

/-! ## A message store -/

namespace QueueMessage

/-- A store to whose pending messages nothing is added. -/
structure Quiet (queue next : QueueMessage) : Prop where
  msgs : next.msgs = queue.msgs ∨ next.msgs = []
  allocated : next.allocated = queue.allocated

theorem quiet_refl (queue : QueueMessage) : queue.Quiet queue :=
  ⟨Or.inl rfl, rfl⟩

/-- The store after a message was put at the end. -/
def withMessage (queue : QueueMessage) (message : Message) (totalCount : Nat)
    (durableMsgs : Dictionary Bytes MessagePtr) : QueueMessage :=
  { queue with
    totalCount := totalCount
    durableMsgs := durableMsgs
    msgs := queue.msgs ++ [⟨queue.allocated, message⟩]
    allocated := queue.allocated + 1 }

section Calls

variable {queue next : QueueMessage} {world after : World}

theorem quiet_remove [Protobuf] {msgId : Bytes}
    (done : queue.remove msgId world = .ok next after) : queue.Quiet next := by
  rcases remove_cases done with ⟨pointer, totalCount, durableMsgs, _, same⟩
  rw [same]
  exact ⟨Or.inl rfl, rfl⟩

theorem quiet_clear (done : queue.clear world = .ok next after) : queue.Quiet next := by
  rcases bind_eq_ok done with ⟨removed, middle, _, rest⟩
  cases rest
  exact ⟨Or.inr rfl, rfl⟩

variable [Protobuf]

/-- How many messages the data file of a store gives back. -/
def loadable (queue : QueueMessage) (world : World) : Nat :=
  match queue.mapper.load world with
  | .ok loaded _ => loaded.2.length
  | .error _ _ => 0

/-- A recovery fills the store with what the data file gives back. -/
theorem recovery_ok (done : queue.recovery world = .ok next after) :
    ∃ messages, next = queue.holding messages ∧ messages.length = queue.loadable world := by
  rcases bind_eq_ok done with ⟨messages, middle, collected, rest⟩
  cases rest
  rcases MessageMapper.gc_payloads collected with ⟨loaded, last, load, payloads⟩
  have length := congrArg List.length payloads
  rw [List.length_map, List.length_map] at length
  refine ⟨messages, rfl, ?_⟩
  rw [length, loadable, load]

end Calls

end QueueMessage

/-! ## The message stores -/

namespace MessageManager

/-- Stores to whose pending messages nothing is added.  A name stands for what it
stood for, or for a new store. -/
structure Quiet (manager next : MessageManager) : Prop where
  stores : manager.queueMsgs.Evolves QueueMessage.Quiet (fun store => store.msgs = [])
    next.queueMsgs
  names : ∀ qname reference, next.queueMsgs.find qname = some reference →
    manager.queueMsgs.find qname = some reference ∨ manager.queueMsgs.object reference = none

section Calls

variable {manager next : MessageManager} {world after : World}

theorem quiet_refl (manager : MessageManager) : manager.Quiet manager :=
  ⟨Registry.evolves_refl QueueMessage.quiet_refl _, fun _ _ found => Or.inl found⟩

theorem quiet_onStore {α : Type} {reference : Nat} {absent : α}
    {code : QueueMessage → FileM (α × QueueMessage)} {done : α × MessageManager}
    (quiet : ∀ store value changed, code store world = .ok (value, changed) after →
      store.Quiet changed)
    (completed : manager.onStore reference absent code world = .ok done after) :
    manager.Quiet done.2 := by
  rcases onStore_cases completed with ⟨_, result, _⟩ | ⟨store, changed, there, ran, result⟩
  · rw [result]
    exact manager.quiet_refl
  · rw [result]
    exact ⟨Registry.evolves_update QueueMessage.quiet_refl there (quiet store done.1 changed ran),
      fun _ _ found => Or.inl found⟩

theorem quiet_introduce {qname : Bytes} {admitted : Option Nat × MessageManager}
    (completed : manager.introduce qname world = .ok admitted after) :
    manager.Quiet admitted.2 := by
  rcases introduce_cases completed with ⟨_, result, _⟩ | ⟨_, store, made, result⟩
  · rw [result]
    exact manager.quiet_refl
  · rw [result]
    cases QueueMessage.new_ok made
    refine ⟨Registry.evolves_register QueueMessage.quiet_refl _ _ rfl,
      fun other reference found => ?_⟩
    rw [Registry.find_register] at found
    by_cases same : other = qname
    · rw [if_pos same] at found
      cases found
      exact Or.inr (List.getElem?_eq_none (Nat.le_refl _))
    · rw [if_neg same] at found
      exact Or.inl found

theorem quiet_withdraw (manager : MessageManager) (qname : Bytes) :
    manager.Quiet (manager.withdraw qname).2 := by
  unfold withdraw
  cases manager.queueMsgs.find qname with
  | none => exact manager.quiet_refl
  | some reference =>
      refine ⟨Registry.evolves_unregister QueueMessage.quiet_refl _ _,
        fun other stored found => ?_⟩
      rw [Registry.find_unregister] at found
      by_cases same : other = qname
      · rw [if_pos same] at found
        cases found
      · rw [if_neg same] at found
        exact Or.inl found

theorem quiet_clearStore {reference : Nat}
    (completed : manager.clearStore reference world = .ok next after) : manager.Quiet next := by
  rcases bind_eq_ok completed with ⟨done, middle, ran, rest⟩
  cases rest
  refine quiet_onStore (fun store value changed cleared => ?_) ran
  rcases bind_eq_ok cleared with ⟨_, last, emptied, rest⟩
  cases rest
  exact QueueMessage.quiet_clear emptied

theorem quiet_removeFrom [Protobuf] {reference : Nat} {msgId : Bytes}
    (completed : manager.removeFrom reference msgId world = .ok next after) :
    manager.Quiet next := by
  rcases bind_eq_ok completed with ⟨done, middle, ran, rest⟩
  cases rest
  refine quiet_onStore (fun store value changed removed => ?_) ran
  rcases bind_eq_ok removed with ⟨_, last, struck, rest⟩
  cases rest
  exact QueueMessage.quiet_remove struck

theorem quiet_ack [Protobuf] {qname msgId : Bytes}
    (completed : manager.ack qname msgId world = .ok next after) : manager.Quiet next := by
  rcases ack_ok completed with ⟨_, same, _⟩ | ⟨reference, _, removed⟩
  · rw [same]
    exact manager.quiet_refl
  · exact quiet_removeFrom removed

/-- An insert refuses, or puts one message at the end of the store of the name. -/
theorem insert_stores {qname uuid body : Bytes} {properties : Option BasecProperties}
    {queueIsDurable : Bool} {done : Bool × MessageManager}
    (completed : manager.insert qname properties uuid body queueIsDurable world = .ok done after) :
    manager.Quiet done.2 ∨
    ∃ reference store message totalCount durableMsgs,
      manager.queueMsgs.find qname = some reference ∧
      manager.queueMsgs.object reference = some store ∧
      done.2 = { manager with
        queueMsgs := manager.queueMsgs.update reference
          (store.withMessage message totalCount durableMsgs) } := by
  rcases insert_ok completed with ⟨_, same, _⟩ | ⟨reference, found, called⟩
  · rw [same]
    exact Or.inl manager.quiet_refl
  · rcases onStore_cases called with ⟨_, result, _⟩ | ⟨store, changed, there, ran, result⟩
    · rw [result]
      exact Or.inl manager.quiet_refl
    · rcases QueueMessage.insert_cases ran with
        ⟨_, same⟩ | ⟨_, message, totalCount, durableMsgs, _, _, same⟩
      · rw [result, same]
        exact Or.inl ⟨Registry.evolves_update QueueMessage.quiet_refl there store.quiet_refl,
          fun _ _ found => Or.inl found⟩
      · exact Or.inr ⟨reference, store, message, totalCount, durableMsgs, found, there,
          by rw [result, same]; rfl⟩

/-- A recovery does nothing, or fills the store from its data file. -/
theorem recover_stores [Protobuf] {reference : Nat}
    (completed : manager.recover reference world = .ok next after) :
    manager.Quiet next ∨
    ∃ store messages, manager.queueMsgs.object reference = some store ∧
      messages.length = store.loadable world ∧
      next = { manager with
        queueMsgs := manager.queueMsgs.update reference (store.holding messages) } := by
  rcases bind_eq_ok completed with ⟨done, middle, ran, rest⟩
  cases rest
  rcases onStore_cases ran with ⟨_, result, _⟩ | ⟨store, changed, there, recovered, result⟩
  · rw [result]
    exact Or.inl manager.quiet_refl
  · rcases bind_eq_ok recovered with ⟨filled, last, done, rest⟩
    cases rest
    rcases QueueMessage.recovery_ok done with ⟨messages, same, length⟩
    exact Or.inr ⟨store, messages, there, length, by rw [result, same]⟩

end Calls

end MessageManager

/-! ## The event loop -/

namespace Shared

/-- The managers after a request that neither publishes nor makes or empties a
store. -/
structure Quiet (shared next : Shared) : Prop where
  stores : shared.host.mmptr.Quiet next.host.mmptr
  pool : next.pool = shared.pool

theorem quiet_refl (shared : Shared) : shared.Quiet shared :=
  ⟨shared.host.mmptr.quiet_refl, rfl⟩

section Requests

variable [Protobuf] {shared next : Shared} {world after : World}

omit [Protobuf] in
/-- A destroyed channel touches no store. -/
theorem destroy_stores {channel : Channel}
    (completed : Channel.destroy shared channel = .ok next) :
    next.host.mmptr = shared.host.mmptr ∧ next.pool = shared.pool := by
  rcases Channel.destroy_ok completed with ⟨_, same⟩ | ⟨consumer, cmptr, _, removed, same⟩
  · rw [same]
    exact ⟨rfl, rfl⟩
  · rw [same]
    exact ⟨rfl, rfl⟩

theorem quiet_handle {channel : Channel} {chance : Chance} {request : Request}
    {result : Bool × Channel × Shared} (storeless : Storeless request)
    (completed : Channel.handle channel shared chance request world = .ok result after) :
    shared.Quiet result.2.2 := by
  have untouched := shared.host.mmptr.quiet_refl
  cases request with
  | declareExchange exchange =>
      cases completed
      exact ⟨untouched, rfl⟩
  | deleteExchange exchangeName =>
      cases completed
      exact ⟨untouched, rfl⟩
  | declareQueue queue => cases storeless
  | deleteQueue queueName => cases storeless
  | queueBind exchangeName queueName bindingKey =>
      cases completed
      rcases shared.host.bind_cases chance.sql exchangeName queueName bindingKey with
        ⟨_, result⟩ | ⟨exchange, queue, _, _, result⟩
      · simp only [Channel.queueBind, result]
        exact shared.quiet_refl
      · simp only [Channel.queueBind, result]
        exact ⟨untouched, rfl⟩
  | queueUnbind exchangeName queueName =>
      cases completed
      exact ⟨untouched, rfl⟩
  | basicPublish exchangeName properties body => cases storeless
  | basicAck queueName messageId =>
      rcases bind_eq_ok completed with ⟨done, middle, called, rest⟩
      cases rest
      rcases bind_eq_ok called with ⟨host, last, acked, rest⟩
      cases rest
      rcases bind_eq_ok acked with ⟨mmptr, last, acknowledged, rest⟩
      cases rest
      exact ⟨MessageManager.quiet_ack acknowledged, rfl⟩
  | basicConsume consumerTag queueName autoAck =>
      cases completed
      unfold Channel.basicConsume
      cases shared.host.existsQueue queueName with
      | false => exact shared.quiet_refl
      | true => exact ⟨untouched, rfl⟩
  | basicCancel consumerTag queueName =>
      rcases bind_eq_ok completed with ⟨done, middle, called, rest⟩
      cases rest
      rcases Channel.basicCancel_ok (ofExcept_eq_ok called).1 with ⟨cmptr, removed, same⟩
      rw [same]
      exact ⟨untouched, rfl⟩

/-- A request for the connection, or one of those, or one whose channel is not open. -/
theorem quiet_packet {server : Server} {conn : Nat} {chance : Chance} {packet : Packet}
    {done : Reply × Server}
    (storeless : ∀ rid cid channel request, packet = .request rid cid request →
      server.channelAt conn cid = some channel → Storeless request)
    (completed : server.handle conn chance packet world = .ok done after) :
    server.shared.Quiet done.2.shared :=
  Server.packet_keeps (fun _ held => ⟨held.stores, held.pool⟩)
    (fun _ _ _ held destroyed =>
      ⟨(destroy_stores destroyed).1 ▸ held.stores, (destroy_stores destroyed).2.trans held.pool⟩)
    (fun rid cid channel request _ same opened handled =>
      quiet_handle (storeless rid cid channel request same opened) handled)
    server.shared.quiet_refl completed

end Requests

end Shared

namespace Machine

/-- What a step of the event loop does to the stores and to the pool. -/
inductive Supplies [Protobuf] (machine : Machine) (world : World) (next : Machine) : Prop where
  | quiet (stores : machine.server.shared.host.mmptr.Quiet next.server.shared.host.mmptr)
      (pool : machine.server.shared.pool <+: next.server.shared.pool)
  | stored {address : Nat} {publication : Channel.Publication} {mqb : Bytes × Binding}
      {rest : List (Bytes × Binding)} {reference : Nat} {store : QueueMessage} {message : Message}
      {totalCount : Nat} {durableMsgs : Dictionary Bytes MessagePtr}
      (inHand : machine.loop = .publishing address publication (mqb :: rest))
      (afterwards : next.loop = .pushing address publication mqb.1 rest)
      (found : machine.server.shared.host.mmptr.queueMsgs.find mqb.1 = some reference)
      (there : machine.server.shared.host.mmptr.queueMsgs.object reference = some store)
      (stores : next.server.shared.host.mmptr = { machine.server.shared.host.mmptr with
        queueMsgs := machine.server.shared.host.mmptr.queueMsgs.update reference
          (store.withMessage message totalCount durableMsgs) })
      (pool : next.server.shared.pool = machine.server.shared.pool)
  | recovered {reference : Nat} {sql : SqlOutcome} {queue : MsgQueue} {store : QueueMessage}
      {messages : List Message} (inHand : machine.loop = .recovering reference sql queue)
      (there : machine.server.shared.host.mmptr.queueMsgs.object reference = some store)
      (length : messages.length = store.loadable world)
      (stores : next.server.shared.host.mmptr = { machine.server.shared.host.mmptr with
        queueMsgs := machine.server.shared.host.mmptr.queueMsgs.update reference
          (store.holding messages) })
      (pool : next.server.shared.pool = machine.server.shared.pool)

section Steps

variable [Protobuf] {machine next : Machine} {world after : World}

theorem Supplies.of_quiet (quiet : machine.server.shared.Quiet next.server.shared) :
    machine.Supplies world next :=
  .quiet quiet.stores (quiet.pool ▸ List.prefix_rfl)

theorem supplies_refl (machine : Machine) (world : World) : machine.Supplies world machine :=
  .of_quiet machine.server.shared.quiet_refl

/-- The first step of a request. -/
theorem Accepts.quiet {conn : Nat} {chance : Chance} {packet : Packet}
    (accepts : machine.Accepts conn chance world after packet next) :
    machine.server.shared.Quiet next.server.shared := by
  cases accepts with
  | handles storeless handled => exact Shared.quiet_packet storeless handled
  | refuses => exact machine.server.shared.quiet_refl
  | publishes opened => exact machine.server.shared.quiet_refl
  | recovers introduced => exact ⟨MessageManager.quiet_introduce introduced, rfl⟩
  | declares introduced => exact ⟨MessageManager.quiet_introduce introduced, rfl⟩
  | deletes onward => exact ⟨MessageManager.quiet_withdraw _ _, rfl⟩

/-- A publish puts a message into a queue. -/
theorem supplies_basicPublish {address : Nat} {publication : Channel.Publication}
    {mqb : Bytes × Binding} {rest : List (Bytes × Binding)} {published : Bool × VirtualHost}
    (inHand : machine.loop = .publishing address publication (mqb :: rest))
    (called : machine.server.shared.host.basicPublish mqb.1 publication.properties
      (publication.uuid mqb.1) publication.body world = .ok published after) :
    machine.Supplies world
      { machine.withShared { machine.server.shared with host := published.2 } with
        loop := .pushing address publication mqb.1 rest } := by
  rcases VirtualHost.basicPublish_ok called with ⟨_, kept, _⟩ | ⟨queue, inserted, _, stored, kept⟩
  all_goals rw [kept]
  · exact .of_quiet machine.server.shared.quiet_refl
  · rcases MessageManager.insert_stores stored with quiet |
      ⟨reference, store, message, totalCount, durableMsgs, name, there, result⟩
    · exact .of_quiet ⟨quiet, rfl⟩
    · exact .stored inHand rfl name there result rfl

theorem Proceeds.supplies (proceeds : machine.Proceeds world after next) :
    machine.Supplies world next := by
  have untouched := machine.server.shared.host.mmptr.quiet_refl
  cases proceeds with
  | rests idle => exact machine.supplies_refl world
  | finishes inHand => exact .of_quiet machine.server.shared.quiet_refl
  | skips inHand routed => exact .of_quiet machine.server.shared.quiet_refl
  | inserts inHand routed called => exact supplies_basicPublish inHand called
  | pushes inHand => exact .quiet untouched (List.prefix_append _ _)
  | recovers inHand recovered =>
      rcases MessageManager.recover_stores recovered with quiet |
        ⟨store, messages, there, length, result⟩
      · exact .of_quiet ⟨quiet, rfl⟩
      · exact .recovered inHand there length result rfl
  | declares inHand => exact .of_quiet ⟨untouched, rfl⟩
  | clears inHand cleared => exact .of_quiet ⟨MessageManager.quiet_clearStore cleared, rfl⟩
  | deletes inHand => exact .of_quiet ⟨untouched, rfl⟩
  | closes inHand destroyed =>
      rcases Shared.destroy_stores destroyed with ⟨stores, pool⟩
      exact .of_quiet ⟨stores.symm ▸ untouched, pool⟩

/-- Every other step of the event loop. -/
theorem Moves.quiet {move : Move} (moves : machine.Moves world after move next)
    (other : move ≠ .proceed) : machine.server.shared.Quiet next.server.shared := by
  cases moves with
  | stays => exact machine.server.shared.quiet_refl
  | connects => exact machine.server.shared.quiet_refl
  | disconnects idle connected => exact machine.server.shared.quiet_refl
  | accepts idle accepts => exact accepts.quiet
  | proceeds proceeds => exact absurd rfl other

theorem Moves.supplies {move : Move} (moves : machine.Moves world after move next) :
    machine.Supplies world next := by
  cases moves with
  | proceeds proceeds => exact proceeds.supplies
  | stays => exact machine.supplies_refl world
  | connects => exact .of_quiet machine.server.shared.quiet_refl
  | disconnects idle connected => exact .of_quiet machine.server.shared.quiet_refl
  | accepts idle accepts => exact .of_quiet accepts.quiet

end Steps

/-! ## The pool -/

/-- The steps of a task, each with what it finds and what it leaves. -/
inductive Works [Protobuf] (machine : Machine) (index : Nat) (task : Task) (world after : World) :
    Machine → Prop where
  | missed (ready : machine.phase index = .ready) (opened : machine.isOpen task.channel = true)
      (unknown : machine.server.shared.host.mmptr.queueMsgs.find task.queueName = none) :
      Works machine index task world after (machine.withPhase index (.ended none))
  | looks {store : Nat} (ready : machine.phase index = .ready)
      (opened : machine.isOpen task.channel = true)
      (found : machine.server.shared.host.mmptr.queueMsgs.find task.queueName = some store) :
      Works machine index task world after (machine.withPhase index (.looked store))
  | findsNothing {reference : Nat} (looked : machine.phase index = .looked reference)
      (nothing : ∀ store, machine.server.shared.host.mmptr.queueMsgs.object reference = some store →
        store.msgs = [])
      (quiet : machine.server.shared.host.mmptr.Quiet
        (machine.server.shared.host.mmptr.frontOf reference).2) :
      Works machine index task world after
        ((machine.withMessages (machine.server.shared.host.mmptr.frontOf reference).2).withPhase
          index (.ended none))
  | takes {reference : Nat} {store : QueueMessage} {pointer : MessagePtr} {rest : List MessagePtr}
      (looked : machine.phase index = .looked reference)
      (there : machine.server.shared.host.mmptr.queueMsgs.object reference = some store)
      (pending : store.msgs = pointer :: rest) :
      Works machine index task world after
        ((machine.withMessages { machine.server.shared.host.mmptr with
          queueMsgs := machine.server.shared.host.mmptr.queueMsgs.update reference { store with
            msgs := rest
            waitackMsgs := Dictionary.insertNew pointer.id pointer store.waitackMsgs } }).withPhase
              index (.taken ⟨reference, pointer⟩))
  | alone {taken : Taken} (holds : machine.phase index = .taken taken)
      (opened : machine.isOpen task.channel = true)
      (nobody : machine.server.shared.cmptr.qconsumers.find task.queueName = none) :
      Works machine index task world after
        (machine.withPhase index (.ended (some (taken, none))))
  | asks {taken : Taken} {unit : Nat} (holds : machine.phase index = .taken taken)
      (found : machine.server.shared.cmptr.qconsumers.find task.queueName = some unit) :
      Works machine index task world after (machine.withPhase index (.asking taken unit))
  | refused {taken : Taken} {unit : Nat} (asking : machine.phase index = .asking taken unit)
      (nobody : (machine.server.shared.cmptr.chooseFrom unit).1 = none) :
      Works machine index task world after ((machine.withShared { machine.server.shared with
        cmptr := (machine.server.shared.cmptr.chooseFrom unit).2 }).withPhase index
          (.ended (some (taken, none))))
  | chooses {taken : Taken} {unit : Nat} {consumer : Consumer}
      (asking : machine.phase index = .asking taken unit)
      (somebody : (machine.server.shared.cmptr.chooseFrom unit).1 = some consumer) :
      Works machine index task world after ((machine.withShared { machine.server.shared with
        cmptr := (machine.server.shared.cmptr.chooseFrom unit).2 }).withPhase index
          (.chosen taken ⟨consumer, machine.server.shared.cmptr.registered task.queueName⟩))
  | delivers {taken : Taken} {choice : Choice} (chosen : machine.phase index = .chosen taken choice)
      (opened : machine.isOpen choice.consumer.channel = true) :
      Works machine index task world after
        { machine.withPhase index (.delivered taken choice) with
          sent := machine.sent ++ [⟨index, taken, choice⟩] }
  | asksAck {taken : Taken} {choice : Choice} {store : Nat}
      (delivered : machine.phase index = .delivered taken choice) :
      Works machine index task world after (machine.withPhase index (.acking taken choice store))
  | leaves {taken : Taken} {choice : Choice}
      (delivered : machine.phase index = .delivered taken choice) :
      Works machine index task world after
        (machine.withPhase index (.ended (some (taken, some choice))))
  | acknowledges {taken : Taken} {choice : Choice} {store : Nat} {mmptr : MessageManager}
      (acking : machine.phase index = .acking taken choice store)
      (removed : machine.server.shared.host.mmptr.removeFrom store taken.pointer.id world =
        .ok mmptr after) :
      Works machine index task world after
        ((machine.withMessages mmptr).withPhase index (.ended (some (taken, some choice))))
  | rests {outcome : Option (Taken × Option Choice)} (ended : machine.phase index = .ended outcome) :
      Works machine index task world after machine

section Tasks

variable [Protobuf] {machine next : Machine} {world after : World}

/-- Every step of a task is one of them. -/
theorem consume_works {index : Nat} {task : Task}
    (completed : machine.consume index task world = .ok next after) :
    machine.Works index task world after next := by
  unfold consume at completed
  simp only at completed
  cases phase : machine.phase index with
  | ready =>
      rw [phase] at completed
      cases opened : machine.isOpen task.channel <;> rw [opened] at completed
      · cases completed
      · cases completed
        cases found : machine.server.shared.host.mmptr.queueMsgs.find task.queueName with
        | none => exact .missed phase opened found
        | some store => exact .looks phase opened found
  | looked reference =>
      rw [phase] at completed
      cases completed
      rcases machine.server.shared.host.mmptr.frontOf_cases reference with
        ⟨nothing, result⟩ | ⟨store, pointer, rest, there, pending, result⟩
      · have quiet : machine.server.shared.host.mmptr.Quiet
            (machine.server.shared.host.mmptr.frontOf reference).2 := by
          rw [result]
          exact machine.server.shared.host.mmptr.quiet_refl
        have none : (machine.server.shared.host.mmptr.frontOf reference).1 = none :=
          congrArg Prod.fst result
        rw [none]
        exact .findsNothing phase nothing quiet
      · rw [result]
        exact .takes phase there pending
  | taken taken =>
      rw [phase] at completed
      cases opened : machine.isOpen task.channel <;> rw [opened] at completed
      · cases completed
      · cases completed
        cases found : machine.server.shared.cmptr.qconsumers.find task.queueName with
        | none => exact .alone phase opened found
        | some unit => exact .asks phase found
  | asking taken unit =>
      rw [phase] at completed
      cases completed
      cases chosen : (machine.server.shared.cmptr.chooseFrom unit).1 with
      | none => exact .refused phase chosen
      | some consumer => exact .chooses phase chosen
  | chosen taken choice =>
      rw [phase] at completed
      cases opened : machine.isOpen choice.consumer.channel <;> simp only [opened] at completed
      · cases completed
      · cases completed
        exact .delivers phase opened
  | delivered taken choice =>
      rw [phase] at completed
      cases acks : choice.consumer.autoAck <;> simp only [acks] at completed
      · cases completed
        exact .leaves phase
      · cases opened : machine.isOpen task.channel <;> simp only [opened] at completed
        · cases completed
        · cases completed
          cases machine.server.shared.host.mmptr.queueMsgs.find task.queueName with
          | none => exact .leaves phase
          | some store => exact .asksAck phase
  | acking taken choice store =>
      rw [phase] at completed
      rcases bind_eq_ok completed with ⟨mmptr, middle, removed, rest⟩
      cases rest
      exact .acknowledges phase removed
  | ended outcome =>
      rw [phase] at completed
      cases completed
      exact .rests phase

/-- A step of a task pushes nothing and leaves the other tasks alone. -/
theorem Works.frame {index : Nat} {task : Task} (works : machine.Works index task world after next) :
    next.server.shared.pool = machine.server.shared.pool ∧
      ∀ other, other ≠ index → next.phase other = machine.phase other := by
  have others : ∀ (changed : Machine) phase other, other ≠ index →
      (changed.withPhase index phase).phase other = changed.phase other :=
    fun _ _ _ distinct => Function.update_of_ne distinct ..
  cases works with
  | rests => exact ⟨rfl, fun _ _ => rfl⟩
  | _ => exact ⟨rfl, others _ _⟩

/-- No task has started that was not pushed. -/
def Unborn (machine : Machine) : Prop :=
  ∀ index, machine.server.shared.pool.length ≤ index → machine.phase index = .ready

theorem unborn_step {event : Event} (unborn : machine.Unborn)
    (stepped : perform machine event = .ok next) : next.Unborn := by
  rcases perform_cases stepped with ⟨result, after, same, moves |
    ⟨index, task, _, listed, completed⟩⟩
  all_goals
    rw [same]
    change result.Unborn
  · intro index beyond
    rw [moves.follows.phase]
    exact unborn index (Nat.le_trans moves.follows.shared.pool.length_le beyond)
  · rcases (consume_works completed).frame with ⟨pool, others⟩
    intro other beyond
    rw [pool] at beyond
    have distinct : other ≠ index := by
      rintro rfl
      exact Nat.not_lt_of_le beyond (List.getElem?_eq_some_iff.mp listed).1
    rw [others other distinct]
    exact unborn other beyond

/-- The stores keep the files of their queues. -/
theorem named_step {event : Event} (named : machine.server.shared.host.mmptr.Named)
    (stepped : perform machine event = .ok next) : next.server.shared.host.mmptr.Named := by
  rcases perform_cases stepped with ⟨result, after, same, moves | ⟨index, task, _, _, completed⟩⟩
  all_goals
    rw [same]
    change result.server.shared.host.mmptr.Named
  · exact moves.follows.shared.messages.named named
  · cases consume_works completed with
    | @findsNothing reference looked nothing quiet =>
        rw [MessageManager.frontOf_of_empty nothing]
        exact named
    | takes looked there pending => exact MessageManager.named_update there rfl named
    | acknowledges acking removed => exact (MessageManager.follows_removeFrom removed).named named
    | _ => exact named

end Tasks

end Machine

end ProtobufMq
