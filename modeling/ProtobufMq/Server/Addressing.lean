import ProtobufMq.Server.Delivery
import ProtobufMq.Server.Parcels

namespace ProtobufMq

open Foundation

/-!
# What belongs to a queue stays with it

A task looks up a message store and, later, a consumer unit by the name of its
queue, and goes on with the references.  By then the names may be gone or stand
for others.  But a store never changes its files, nor a unit its queue, and only
consumers that subscribed to this queue join the unit; so the task still works on
what belongs to the queue it was pushed for.
-/

/-! ## The message stores -/

namespace MessageManager

/-- The stores after a step: those that were there have their files. -/
structure Stays (manager next : MessageManager) : Prop where
  basedir : next.basedir = manager.basedir
  kept : ∀ reference store, manager.queueMsgs.object reference = some store →
    ∃ later, next.queueMsgs.object reference = some later ∧ later.mapper = store.mapper
  named : manager.Named → next.Named

theorem stays_refl (manager : MessageManager) : manager.Stays manager :=
  ⟨rfl, fun _ store there => ⟨store, there, rfl⟩, id⟩

theorem Follows.stays {manager next : MessageManager} (followed : manager.Follows next) :
    manager.Stays next := by
  refine ⟨followed.basedir, fun reference store there => ?_, followed.named⟩
  rcases followed.stores.kept reference store there with ⟨later, laterThere, grown⟩
  exact ⟨later, laterThere, grown.mapper⟩

theorem stays_update {manager : MessageManager} {reference : Nat} {store later : QueueMessage}
    (there : manager.queueMsgs.object reference = some store) (mapper : later.mapper = store.mapper) :
    manager.Stays { manager with queueMsgs := manager.queueMsgs.update reference later } := by
  refine ⟨rfl, fun other stored otherThere => ?_, named_update there mapper⟩
  rw [Registry.object_update]
  by_cases same : other = reference
  · subst same
    cases there.symm.trans otherThere
    exact ⟨later, by rw [if_pos rfl, there]; rfl, mapper⟩
  · exact ⟨stored, by rw [if_neg same, otherThere], rfl⟩

end MessageManager

/-! ## The consumer units -/

/-- All members of a unit subscribed to its queue. -/
def QueueConsumer.Enrolled (unit : QueueConsumer) : Prop :=
  ∀ consumer ∈ unit.consumers, consumer.qname = unit.qname

namespace ConsumerManager

/-- Every unit has the members of its queue, and is found by the name of it. -/
structure Enrolled (manager : ConsumerManager) : Prop where
  members : ∀ reference unit, manager.qconsumers.object reference = some unit → unit.Enrolled
  named : ∀ qname reference unit, manager.qconsumers.find qname = some reference →
    manager.qconsumers.object reference = some unit → unit.qname = qname

/-- The units after calls. -/
structure Enrols (manager next : ConsumerManager) : Prop where
  kept : ∀ reference unit, manager.qconsumers.object reference = some unit →
    ∃ later, next.qconsumers.object reference = some later ∧ later.qname = unit.qname
  enrolled : manager.Enrolled → next.Enrolled

section Calls

variable {manager next : ConsumerManager}

theorem enrols_refl (manager : ConsumerManager) : manager.Enrols manager :=
  ⟨fun _ unit there => ⟨unit, there, rfl⟩, id⟩

theorem Enrols.trans {first second third : ConsumerManager} (earlier : first.Enrols second)
    (later : second.Enrols third) : first.Enrols third := by
  refine ⟨fun reference unit there => ?_, fun enrolled => later.enrolled (earlier.enrolled enrolled)⟩
  rcases earlier.kept reference unit there with ⟨middle, middleThere, same⟩
  rcases later.kept reference middle middleThere with ⟨last, lastThere, lastSame⟩
  exact ⟨last, lastThere, lastSame.trans same⟩

/-- A unit may change as long as its queue and its members are right. -/
theorem enrols_update {reference : Nat} {unit changed : QueueConsumer}
    (there : manager.qconsumers.object reference = some unit) (qname : changed.qname = unit.qname)
    (members : manager.Enrolled → unit.Enrolled → changed.Enrolled) :
    manager.Enrols ⟨manager.qconsumers.update reference changed⟩ := by
  have after : ∀ other stored, (manager.qconsumers.update reference changed).object other =
      some stored → (other = reference ∧ stored = changed) ∨
        manager.qconsumers.object other = some stored := by
    intro other stored found
    rw [Registry.object_update] at found
    by_cases same : other = reference
    · rw [if_pos same, there] at found
      cases found
      exact Or.inl ⟨same, rfl⟩
    · rw [if_neg same] at found
      exact Or.inr found
  refine ⟨fun other stored otherThere => ?_, fun enrolled => ⟨fun other stored found => ?_,
    fun name other stored named found => ?_⟩⟩
  · by_cases same : other = reference
    · subst same
      cases there.symm.trans otherThere
      refine ⟨changed, ?_, qname⟩
      rw [Registry.object_update, if_pos rfl, there]
      rfl
    · exact ⟨stored, by rw [Registry.object_update, if_neg same, otherThere], rfl⟩
  · rcases after other stored found with ⟨_, rfl⟩ | old
    · exact members enrolled (enrolled.members reference unit there)
    · exact enrolled.members other stored old
  · rcases after other stored found with ⟨rfl, rfl⟩ | old
    · exact qname.trans (enrolled.named name other unit named there)
    · exact enrolled.named name other stored named old

/-- A new unit has no members. -/
theorem enrols_initQueueConsumer (manager : ConsumerManager) (queueName : Bytes) :
    manager.Enrols (manager.initQueueConsumer queueName) := by
  unfold initQueueConsumer
  cases manager.qconsumers.find queueName with
  | some reference => exact manager.enrols_refl
  | none =>
      refine ⟨fun reference unit there => ⟨unit, ?_, rfl⟩, fun enrolled =>
        ⟨fun reference unit there => ?_, fun qname reference unit found there => ?_⟩⟩
      · rw [Registry.object_register, if_neg (Nat.ne_of_lt (Registry.object_lt there)), there]
      · rw [Registry.object_register] at there
        by_cases last : reference = manager.qconsumers.next
        · rw [if_pos last] at there
          cases there
          exact fun _ impossible => nomatch impossible
        · rw [if_neg last] at there
          exact enrolled.members reference unit there
      · rw [Registry.find_register] at found
        rw [Registry.object_register] at there
        by_cases same : qname = queueName
        · rw [if_pos same] at found
          cases found
          rw [if_pos rfl] at there
          cases there
          exact same.symm
        · rw [if_neg same] at found
          have old : reference ≠ manager.qconsumers.next :=
            Nat.ne_of_lt (manager.qconsumers.bound qname reference found)
          rw [if_neg old] at there
          exact enrolled.named qname reference unit found there

theorem enrols_destroyQueueConsumer (manager : ConsumerManager) (queueName : Bytes) :
    manager.Enrols (manager.destroyQueueConsumer queueName) := by
  refine ⟨fun _ unit there => ⟨unit, there, rfl⟩, fun enrolled => ⟨enrolled.members,
    fun qname reference unit found there => ?_⟩⟩
  change (manager.qconsumers.unregister queueName).find qname = some reference at found
  rw [Registry.find_unregister] at found
  by_cases same : qname = queueName
  · rw [if_pos same] at found
    cases found
  · rw [if_neg same] at found
    exact enrolled.named qname reference unit found there

/-- Who joins a unit found it by the name of the queue that it subscribes to. -/
theorem enrols_create (manager : ConsumerManager) (consumer : Consumer) :
    manager.Enrols (manager.create consumer).2 := by
  unfold create
  cases found : manager.qconsumers.find consumer.qname with
  | none => exact manager.enrols_refl
  | some reference =>
      rcases Registry.object_of_find found with ⟨unit, there⟩
      simp only [there]
      rcases unit.create_cases consumer with ⟨_, _, _, result⟩ | ⟨_, result⟩
      all_goals rw [result]
      · exact enrols_update there rfl fun _ members => members
      · refine enrols_update there rfl fun enrolled members other joined => ?_
        rcases List.mem_append.mp joined with old | new
        · exact members other old
        · cases List.mem_singleton.mp new
          exact (enrolled.named consumer.qname reference unit found there).symm

theorem enrols_remove {ctag queueName : Bytes}
    (removed : manager.remove ctag queueName = .ok next) : manager.Enrols next := by
  rcases remove_ok removed with ⟨reference, unit, _, there, same⟩
  rw [same]
  exact enrols_update there rfl fun _ members other stays =>
    members other (List.mem_of_mem_eraseP stays)

theorem enrols_chooseFrom (manager : ConsumerManager) (reference : Nat) :
    manager.Enrols (manager.chooseFrom reference).2 := by
  unfold chooseFrom
  cases there : manager.qconsumers.object reference with
  | none => exact manager.enrols_refl
  | some unit =>
      have qname : unit.choose.2.qname = unit.qname := by
        unfold QueueConsumer.choose
        by_cases nobody : unit.consumers.length = 0
        · rw [if_pos nobody]
        · rw [if_neg nobody]
      refine enrols_update there qname fun _ members other stays => ?_
      rw [QueueConsumer.choose_consumers] at stays
      exact (members other stays).trans qname.symm

theorem enrols_initAll (manager : ConsumerManager) (queueNames : List Bytes) :
    manager.Enrols (queueNames.foldl initQueueConsumer manager) := by
  induction queueNames generalizing manager with
  | nil => exact manager.enrols_refl
  | cons queueName rest inductionHypothesis =>
      exact (manager.enrols_initQueueConsumer queueName).trans (inductionHypothesis _)

end Calls

end ConsumerManager

/-! ## Requests that move no message -/

/-- The managers after a request that neither publishes nor makes or ends a queue. -/
structure Shared.Calm (shared next : Shared) : Prop where
  parcels : next.host.mmptr.parcels = shared.host.mmptr.parcels
  pool : next.pool = shared.pool
  units : shared.cmptr.Enrols next.cmptr

namespace Shared

theorem calm_refl (shared : Shared) : shared.Calm shared :=
  ⟨rfl, rfl, shared.cmptr.enrols_refl⟩

section Requests

variable [Protobuf] {shared next : Shared} {world after : World}

omit [Protobuf] in
theorem calm_destroy {channel : Channel} (completed : Channel.destroy shared channel = .ok next) :
    shared.Calm next := by
  rcases Channel.destroy_ok completed with ⟨_, same⟩ | ⟨consumer, cmptr, _, removed, same⟩
  · rw [same]
    exact shared.calm_refl
  · rw [same]
    exact ⟨rfl, rfl, ConsumerManager.enrols_remove removed⟩

theorem calm_handle {channel : Channel} {chance : Chance} {request : Request}
    {result : Bool × Channel × Shared} (storeless : Storeless request)
    (completed : Channel.handle channel shared chance request world = .ok result after) :
    shared.Calm result.2.2 := by
  have untouched := shared.cmptr.enrols_refl
  cases request with
  | declareExchange exchange =>
      cases completed
      exact ⟨rfl, rfl, untouched⟩
  | deleteExchange exchangeName =>
      cases completed
      exact ⟨rfl, rfl, untouched⟩
  | declareQueue queue => cases storeless
  | deleteQueue queueName => cases storeless
  | queueBind exchangeName queueName bindingKey =>
      cases completed
      rcases shared.host.bind_cases chance.sql exchangeName queueName bindingKey with
        ⟨_, result⟩ | ⟨exchange, queue, _, _, result⟩
      · simp only [Channel.queueBind, result]
        exact shared.calm_refl
      · simp only [Channel.queueBind, result]
        exact ⟨rfl, rfl, untouched⟩
  | queueUnbind exchangeName queueName =>
      cases completed
      exact ⟨rfl, rfl, untouched⟩
  | basicPublish exchangeName properties body => cases storeless
  | basicAck queueName messageId =>
      rcases bind_eq_ok completed with ⟨done, middle, called, rest⟩
      cases rest
      rcases bind_eq_ok called with ⟨host, last, acked, rest⟩
      cases rest
      rcases bind_eq_ok acked with ⟨mmptr, last, acknowledged, rest⟩
      cases rest
      exact ⟨MessageManager.parcels_ack acknowledged, rfl, untouched⟩
  | basicConsume consumerTag queueName autoAck =>
      cases completed
      unfold Channel.basicConsume
      cases shared.host.existsQueue queueName with
      | false => exact shared.calm_refl
      | true => exact ⟨rfl, rfl, shared.cmptr.enrols_create _⟩
  | basicCancel consumerTag queueName =>
      rcases bind_eq_ok completed with ⟨done, middle, called, rest⟩
      cases rest
      rcases Channel.basicCancel_ok (ofExcept_eq_ok called).1 with ⟨cmptr, removed, same⟩
      rw [same]
      exact ⟨rfl, rfl, ConsumerManager.enrols_remove removed⟩

theorem calm_packet {server : Server} {conn : Nat} {chance : Chance} {packet : Packet}
    {done : Reply × Server}
    (storeless : ∀ rid cid channel request, packet = .request rid cid request →
      server.channelAt conn cid = some channel → Storeless request)
    (completed : server.handle conn chance packet world = .ok done after) :
    server.shared.Calm done.2.shared :=
  Server.packet_keeps (fun _ held => ⟨held.parcels, held.pool, held.units⟩)
    (fun _ _ _ held destroyed => ⟨(calm_destroy destroyed).parcels.trans held.parcels,
      (calm_destroy destroyed).pool.trans held.pool, held.units.trans (calm_destroy destroyed).units⟩)
    (fun rid cid channel request _ same opened handled =>
      calm_handle (storeless rid cid channel request same opened) handled)
    server.shared.calm_refl completed

end Requests

end Shared

/-! ## The tasks -/

namespace Machine

/-- What a task goes on with belongs to the queue that it was pushed for. -/
def Directs (machine : Machine) (task : Task) : Phase → Prop
  | .looked reference => ∃ store,
      machine.server.shared.host.mmptr.queueMsgs.object reference = some store ∧
        store.mapper =
          MessageMapper.ofNames task.queueName machine.server.shared.host.mmptr.basedir
  | .asking _ reference => ∃ unit,
      machine.server.shared.cmptr.qconsumers.object reference = some unit ∧
        unit.qname = task.queueName
  | .chosen _ choice => choice.consumer.qname = task.queueName
  | .ready | .taken _ | .delivered _ _ | .acking _ _ _ | .ended _ => True

/-- Stores and units belong to their queues, and the tasks have them in hand. -/
structure Addressed (machine : Machine) : Prop where
  named : machine.server.shared.host.mmptr.Named
  enrolled : machine.server.shared.cmptr.Enrolled
  directed : ∀ index task, machine.server.shared.pool[index]? = some task →
    machine.Directs task (machine.phase index)

section Steps

variable [Protobuf] {machine next : Machine} {world after : World}

/-- No step of the event loop lets a consumer into the unit of another queue. -/
theorem Moves.enrols {move : Move} (moves : machine.Moves world after move next) :
    machine.server.shared.cmptr.Enrols next.server.shared.cmptr := by
  have untouched := machine.server.shared.cmptr.enrols_refl
  cases moves with
  | stays => exact untouched
  | connects => exact untouched
  | disconnects idle connected => exact untouched
  | accepts idle accepts =>
      cases accepts with
      | handles storeless handled => exact (Shared.calm_packet storeless handled).units
      | refuses => exact untouched
      | publishes opened => exact untouched
      | recovers introduced => exact untouched
      | declares introduced => exact untouched
      | deletes onward => exact untouched
  | proceeds proceeds =>
      cases proceeds with
      | rests idle => exact untouched
      | finishes inHand => exact untouched
      | skips inHand routed => exact untouched
      | inserts inHand routed called => exact untouched
      | pushes inHand => exact untouched
      | recovers inHand recovered => exact untouched
      | @declares sql queue inHand =>
          simp only [withShared, declare]
          cases (machine.server.shared.host.qmptr.declareQueue sql.queueTable queue).1 with
          | true => exact ConsumerManager.enrols_initQueueConsumer _ _
          | false => exact untouched
      | clears inHand cleared => exact untouched
      | @deletes sql queueName inHand =>
          simp only [withShared, delete]
          cases (machine.server.shared.host.qmptr.deleteQueue sql.queueTable queueName).1 with
          | true => exact ConsumerManager.enrols_destroyQueueConsumer _ _
          | false => exact untouched
      | closes inHand destroyed => exact (Shared.calm_destroy destroyed).units

omit [Protobuf] in
/-- Where stores keep their files and units their queues, tasks are still right. -/
theorem Directs.follows {task : Task} {phase : Phase} (directs : machine.Directs task phase)
    (messages : machine.server.shared.host.mmptr.Stays next.server.shared.host.mmptr)
    (units : machine.server.shared.cmptr.Enrols next.server.shared.cmptr) :
    next.Directs task phase := by
  cases phase with
  | looked reference =>
      rcases directs with ⟨store, there, mapper⟩
      rcases messages.kept reference store there with ⟨later, laterThere, same⟩
      refine ⟨later, laterThere, ?_⟩
      rw [same, mapper, messages.basedir]
  | asking taken reference =>
      rcases directs with ⟨unit, there, qname⟩
      rcases units.kept reference unit there with ⟨later, laterThere, same⟩
      exact ⟨later, laterThere, same.trans qname⟩
  | _ => exact directs

theorem Addressed.moves (addressed : machine.Addressed) (unborn : machine.Unborn) {move : Move}
    (moves : machine.Moves world after move next) : next.Addressed := by
  have followed := moves.follows
  refine ⟨followed.shared.messages.named addressed.named,
    moves.enrols.enrolled addressed.enrolled, fun index task listed => ?_⟩
  rw [followed.phase]
  by_cases old : index < machine.server.shared.pool.length
  · rcases followed.shared.pool with ⟨pushed, same⟩
    rw [← same, List.getElem?_append_left old] at listed
    exact (addressed.directed index task listed).follows followed.shared.messages.stays moves.enrols
  · rw [unborn index (Nat.le_of_not_lt old)]
    trivial

omit [Protobuf] in
/-- A task goes on with something else, and the others as before. -/
theorem Addressed.turn (addressed : machine.Addressed) {index : Nat} {task : Task} {phase : Phase}
    (listed : machine.server.shared.pool[index]? = some task)
    (messages : machine.server.shared.host.mmptr.Stays next.server.shared.host.mmptr)
    (units : machine.server.shared.cmptr.Enrols next.server.shared.cmptr)
    (pool : next.server.shared.pool = machine.server.shared.pool)
    (phases : next.phase = machine.phase) (directs : next.Directs task phase) :
    (next.withPhase index phase).Addressed := by
  refine ⟨messages.named addressed.named, units.enrolled addressed.enrolled,
    fun other otherTask otherListed => ?_⟩
  have before : machine.server.shared.pool[other]? = some otherTask := pool ▸ otherListed
  by_cases same : other = index
  · subst same
    cases listed.symm.trans before
    rw [withPhase_self]
    exact directs
  · rw [withPhase_other _ phase same, phases]
    exact (addressed.directed other otherTask before).follows messages units

/-- A task looks up by the name of its queue what it goes on with. -/
theorem Addressed.works (addressed : machine.Addressed) {index : Nat} {task : Task}
    (listed : machine.server.shared.pool[index]? = some task)
    (works : machine.Works index task world after next) : next.Addressed := by
  have messages := machine.server.shared.host.mmptr.stays_refl
  have units := machine.server.shared.cmptr.enrols_refl
  have directed := addressed.directed index task listed
  cases works with
  | missed ready opened unknown => exact addressed.turn listed messages units rfl rfl trivial
  | @looks reference ready opened found =>
      rcases Registry.object_of_find found with ⟨store, there⟩
      exact addressed.turn listed messages units rfl rfl
        ⟨store, there, addressed.named task.queueName reference store found there⟩
  | @findsNothing reference looked nothing quiet =>
      rw [MessageManager.frontOf_of_empty nothing]
      exact addressed.turn listed messages units rfl rfl trivial
  | takes looked there pending =>
      exact addressed.turn listed (MessageManager.stays_update there rfl) units rfl rfl trivial
  | alone holds opened nobody => exact addressed.turn listed messages units rfl rfl trivial
  | @asks taken reference holds found =>
      rcases Registry.object_of_find found with ⟨unit, there⟩
      exact addressed.turn listed messages units rfl rfl
        ⟨unit, there, addressed.enrolled.named task.queueName reference unit found there⟩
  | refused asking nobody =>
      exact addressed.turn listed messages (ConsumerManager.enrols_chooseFrom _ _) rfl rfl trivial
  | @chooses taken reference consumer asking somebody =>
      rw [asking] at directed
      rcases directed with ⟨unit, there, qname⟩
      rcases ConsumerManager.chooseFrom_mem somebody with ⟨other, otherThere, member⟩
      cases there.symm.trans otherThere
      exact addressed.turn listed messages (ConsumerManager.enrols_chooseFrom _ _) rfl rfl
        ((addressed.enrolled.members reference unit there consumer member).trans qname)
  | @delivers taken choice chosen opened =>
      have turned : (machine.withPhase index (.delivered taken choice)).Addressed :=
        addressed.turn listed messages units rfl rfl trivial
      exact ⟨turned.named, turned.enrolled, turned.directed⟩
  | asksAck delivered => exact addressed.turn listed messages units rfl rfl trivial
  | leaves delivered => exact addressed.turn listed messages units rfl rfl trivial
  | acknowledges acking removed =>
      exact addressed.turn listed (MessageManager.follows_removeFrom removed).stays units rfl rfl
        trivial
  | rests ended => exact addressed

/-- The files stay where they are. -/
theorem basedir_step {event : Event} (stepped : perform machine event = .ok next) :
    next.server.shared.host.mmptr.basedir = machine.server.shared.host.mmptr.basedir := by
  rcases perform_cases stepped with ⟨result, after, same, moves | ⟨index, task, _, _, completed⟩⟩
  all_goals
    rw [same]
    change result.server.shared.host.mmptr.basedir = _
  · exact moves.follows.shared.messages.basedir
  · cases consume_works completed with
    | findsNothing looked nothing quiet => rw [MessageManager.frontOf_of_empty nothing]; rfl
    | acknowledges acking removed => exact (MessageManager.follows_removeFrom removed).basedir
    | _ => rfl

theorem addressed_step {event : Event} (addressed : machine.Addressed) (unborn : machine.Unborn)
    (stepped : perform machine event = .ok next) : next.Addressed := by
  rcases perform_cases stepped with ⟨result, after, same, taken⟩
  have kept : result.Addressed := by
    rcases taken with moves | ⟨index, task, _, listed, completed⟩
    · exact addressed.moves unborn moves
    · exact addressed.works listed (consume_works completed)
  rw [same]
  exact ⟨kept.named, kept.enrolled, kept.directed⟩

end Steps

end Machine

end ProtobufMq
