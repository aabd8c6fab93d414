import ProtobufMq.Server.Delivery
import ProtobufMq.Server.Ownership

namespace ProtobufMq

open Foundation

/-!
# Channels and the tasks that need them

A task starts in a member function of the channel that published, and it calls
one of the channel that the chosen consumer belongs to; it has nothing but
pointers to both.  A channel is destroyed when it is closed or when its
connection goes down.  The destructor takes the consumer that the channel has
at that moment out of its queue, and waits for no task.

So a task finds its channels as long as every channel that is destroyed is one
that no task is about to enter, and to which no consumer is bound that could
still be chosen, except the one that the destructor takes out.
-/

/-! ## The consumers of a unit -/

namespace QueueConsumer

/-- No two consumers have the same tag. -/
def Tagged (unit : QueueConsumer) : Prop :=
  (unit.consumers.map Consumer.tag).Nodup

/-- The consumers after a call were there before, or are among those that join. -/
structure Inherits (joins : Consumer → Prop) (unit next : QueueConsumer) : Prop where
  members : ∀ consumer ∈ next.consumers, consumer ∈ unit.consumers ∨ joins consumer
  tagged : unit.Tagged → next.Tagged

section Calls

variable {joins : Consumer → Prop} {unit : QueueConsumer}

theorem inherits_refl (unit : QueueConsumer) : unit.Inherits joins unit :=
  ⟨fun _ member => Or.inl member, id⟩

theorem inherits_create {consumer : Consumer} (joined : joins consumer) :
    unit.Inherits joins (unit.create consumer).2 := by
  rcases unit.create_cases consumer with ⟨_, _, _, result⟩ | ⟨free, result⟩
  · rw [result]
    exact unit.inherits_refl
  · rw [result]
    refine ⟨fun other member => ?_, fun tagged => ?_⟩
    · rcases List.mem_append.mp member with old | new
      · exact Or.inl old
      · exact Or.inr (List.mem_singleton.mp new ▸ joined)
    · unfold Tagged
      rw [List.map_append]
      refine List.Nodup.append tagged (List.nodup_singleton _) fun tag old new => ?_
      rcases List.mem_map.mp old with ⟨other, member, rfl⟩
      exact free other member (List.mem_singleton.mp new)

theorem inherits_remove (ctag : Bytes) : unit.Inherits joins (unit.remove ctag) :=
  ⟨fun _ member => Or.inl (List.mem_of_mem_eraseP member),
    fun tagged => tagged.sublist (List.eraseP_sublist.map _)⟩

theorem inherits_choose : unit.Inherits joins unit.choose.2 := by
  constructor
  · intro consumer member
    rw [choose_consumers] at member
    exact Or.inl member
  · intro tagged
    rwa [Tagged, choose_consumers]

/-- A tag that was removed is gone. -/
theorem Tagged.remove (tagged : unit.Tagged) {ctag : Bytes} {consumer : Consumer}
    (stays : consumer ∈ (unit.remove ctag).consumers) : consumer.tag ≠ ctag := by
  rcases unit with ⟨qname, rrSeq, consumers⟩
  change (consumers.map Consumer.tag).Nodup at tagged
  change consumer ∈ consumers.eraseP _ at stays
  induction consumers with
  | nil => cases stays
  | cons first rest inductionHypothesis =>
      rw [List.map_cons, List.nodup_cons] at tagged
      rw [List.eraseP_cons] at stays
      by_cases named : first.tag = ctag
      · rw [decide_eq_true named] at stays
        rintro rfl
        exact tagged.1 (named ▸ List.mem_map_of_mem stays)
      · rw [decide_eq_false named] at stays
        rcases List.mem_cons.mp stays with same | later
        · exact same ▸ named
        · exact inductionHypothesis tagged.2 later

end Calls

end QueueConsumer

namespace ConsumerManager

/-- The units of every queue after a call.  A name stands for what it stood for, or
for a new unit. -/
structure Inherits (joins : Consumer → Prop) (manager next : ConsumerManager) : Prop where
  units : manager.qconsumers.Evolves (QueueConsumer.Inherits joins)
    (fun unit => unit.consumers = []) next.qconsumers
  names : ∀ qname reference, next.qconsumers.find qname = some reference →
    manager.qconsumers.find qname = some reference ∨ manager.qconsumers.object reference = none

/-- No two consumers of a unit have the same tag. -/
def Tagged (manager : ConsumerManager) : Prop :=
  ∀ reference unit, manager.qconsumers.object reference = some unit → unit.Tagged

section Calls

variable {joins : Consumer → Prop} {manager next : ConsumerManager}

theorem Inherits.mono {others : Consumer → Prop}
    (implied : ∀ consumer, joins consumer → others consumer)
    (inherits : manager.Inherits joins next) : manager.Inherits others next := by
  refine ⟨⟨fun reference unit there => ?_, inherits.units.new⟩, inherits.names⟩
  rcases inherits.units.kept reference unit there with ⟨later, laterThere, follows⟩
  exact ⟨later, laterThere, fun consumer member =>
    (follows.members consumer member).imp_right (implied consumer), follows.tagged⟩

theorem inherits_refl (manager : ConsumerManager) : manager.Inherits joins manager :=
  ⟨Registry.evolves_refl QueueConsumer.inherits_refl _, fun _ _ found => Or.inl found⟩

theorem inherits_update {reference : Nat} {unit changed : QueueConsumer}
    (there : manager.qconsumers.object reference = some unit)
    (inherits : unit.Inherits joins changed) :
    manager.Inherits joins ⟨manager.qconsumers.update reference changed⟩ :=
  ⟨Registry.evolves_update QueueConsumer.inherits_refl there inherits,
    fun _ _ found => Or.inl found⟩

theorem inherits_initQueueConsumer (manager : ConsumerManager) (queueName : Bytes) :
    manager.Inherits joins (manager.initQueueConsumer queueName) := by
  unfold initQueueConsumer
  cases manager.qconsumers.find queueName with
  | some reference => exact manager.inherits_refl
  | none =>
      refine ⟨Registry.evolves_register QueueConsumer.inherits_refl _ _ rfl,
        fun qname reference found => ?_⟩
      rw [Registry.find_register] at found
      by_cases same : qname = queueName
      · rw [if_pos same] at found
        cases found
        exact Or.inr (List.getElem?_eq_none (Nat.le_refl _))
      · rw [if_neg same] at found
        exact Or.inl found

theorem inherits_destroyQueueConsumer (manager : ConsumerManager) (queueName : Bytes) :
    manager.Inherits joins (manager.destroyQueueConsumer queueName) := by
  refine ⟨Registry.evolves_unregister QueueConsumer.inherits_refl _ _,
    fun qname reference found => ?_⟩
  change (manager.qconsumers.unregister queueName).find qname = some reference at found
  rw [Registry.find_unregister] at found
  by_cases same : qname = queueName
  · rw [if_pos same] at found
    cases found
  · rw [if_neg same] at found
    exact Or.inl found

theorem inherits_create {consumer : Consumer} (joined : joins consumer) :
    manager.Inherits joins (manager.create consumer).2 := by
  unfold create
  cases found : manager.qconsumers.find consumer.qname with
  | none => exact manager.inherits_refl
  | some reference =>
      rcases Registry.object_of_find found with ⟨unit, there⟩
      simp only [there]
      exact inherits_update there (QueueConsumer.inherits_create joined)

theorem inherits_remove {ctag queueName : Bytes}
    (removed : manager.remove ctag queueName = .ok next) : manager.Inherits joins next := by
  rcases remove_ok removed with ⟨reference, unit, _, there, same⟩
  rw [same]
  exact inherits_update there (QueueConsumer.inherits_remove ctag)

theorem inherits_chooseFrom (manager : ConsumerManager) (reference : Nat) :
    manager.Inherits joins (manager.chooseFrom reference).2 := by
  unfold chooseFrom
  cases there : manager.qconsumers.object reference with
  | none => exact manager.inherits_refl
  | some unit => exact inherits_update there QueueConsumer.inherits_choose

theorem Inherits.tagged (inherits : manager.Inherits joins next) (tagged : manager.Tagged) :
    next.Tagged := by
  intro reference later there
  rcases inherits.units.new reference later there with ⟨unit, old⟩ | empty
  · rcases inherits.units.kept reference unit old with ⟨other, otherThere, follows⟩
    cases otherThere.symm.trans there
    exact follows.tagged (tagged reference unit old)
  · unfold QueueConsumer.Tagged
    rw [empty]
    exact List.nodup_nil

/-- Where a consumer is, it was before, or it has joined. -/
theorem Inherits.member (inherits : manager.Inherits joins next) {reference : Nat}
    {later : QueueConsumer} {consumer : Consumer}
    (there : next.qconsumers.object reference = some later) (member : consumer ∈ later.consumers) :
    (∃ unit, manager.qconsumers.object reference = some unit ∧ consumer ∈ unit.consumers) ∨
      joins consumer := by
  rcases inherits.units.new reference later there with ⟨unit, old⟩ | empty
  · rcases inherits.units.kept reference unit old with ⟨other, otherThere, follows⟩
    cases otherThere.symm.trans there
    rcases follows.members consumer member with before | joined
    · exact Or.inl ⟨unit, old, before⟩
    · exact Or.inr joined
  · rw [empty] at member
    cases member

/-- Nobody has subscribed. -/
def Vacant (manager : ConsumerManager) : Prop :=
  ∀ reference unit, manager.qconsumers.object reference = some unit → unit.consumers = []

theorem Vacant.initAll (vacant : manager.Vacant) (queueNames : List Bytes) :
    (queueNames.foldl initQueueConsumer manager).Vacant := by
  induction queueNames generalizing manager with
  | nil => exact vacant
  | cons queueName rest inductionHypothesis =>
      refine inductionHypothesis fun reference later there => ?_
      refine List.eq_nil_iff_forall_not_mem.mpr fun consumer member => ?_
      have inherits := @inherits_initQueueConsumer (fun _ => False) manager queueName
      rcases inherits.member there member with ⟨unit, old, listed⟩ | impossible
      · rw [vacant reference unit old] at listed
        cases listed
      · exact impossible

/-- After a removal no consumer of the unit has the tag. -/
theorem remove_gone (tagged : manager.Tagged) {ctag queueName : Bytes}
    (removed : manager.remove ctag queueName = .ok next) {reference : Nat} {later : QueueConsumer}
    {consumer : Consumer} (found : manager.qconsumers.find queueName = some reference)
    (there : next.qconsumers.object reference = some later) (member : consumer ∈ later.consumers) :
    consumer.tag ≠ ctag := by
  rcases remove_ok removed with ⟨other, unit, otherFound, old, same⟩
  cases found.symm.trans otherFound
  rw [same, Registry.object_update, if_pos rfl, old] at there
  cases there
  exact (tagged reference unit old).remove member

end Calls

end ConsumerManager

/-! ## The channels of a server -/

namespace Channel

/-- The destructor of the channel takes the consumer out of the unit. -/
def takesOut (channel : Channel) (cmptr : ConsumerManager) (reference : Nat) (consumer : Consumer) :
    Bool :=
  match channel.consumer with
  | none => false
  | some own => own.tag = consumer.tag && cmptr.qconsumers.find own.qname = some reference

section Requests

variable [Protobuf] {channel : Channel} {shared next : Shared} {world after : World}

omit [Protobuf] in
theorem inherits_destroy {joins : Consumer → Prop} (completed : destroy shared channel = .ok next) :
    shared.cmptr.Inherits joins next.cmptr := by
  rcases destroy_ok completed with ⟨_, same⟩ | ⟨consumer, cmptr, _, removed, same⟩
  · rw [same]
    exact shared.cmptr.inherits_refl
  · rw [same]
    exact ConsumerManager.inherits_remove removed

omit [Protobuf] in
/-- What the destructor takes out is not there afterwards. -/
theorem not_takesOut (tagged : shared.cmptr.Tagged) (completed : destroy shared channel = .ok next)
    {reference : Nat} {later : QueueConsumer} {consumer : Consumer}
    (there : next.cmptr.qconsumers.object reference = some later)
    (member : consumer ∈ later.consumers) :
    channel.takesOut shared.cmptr reference consumer = false := by
  unfold takesOut
  rcases destroy_ok completed with ⟨nobody, same⟩ | ⟨own, cmptr, subscribed, removed, same⟩
  · rw [nobody]
  · rw [subscribed]
    rw [same] at there
    refine Bool.eq_false_iff.mpr fun takes => ?_
    rw [Bool.and_eq_true, decide_eq_true_eq, decide_eq_true_eq] at takes
    exact ConsumerManager.remove_gone tagged removed takes.2 there member takes.1.symm

/-- A channel stays where it is, and a consumer that it makes is bound to it. -/
theorem inherits_handle {chance : Chance} {request : Request} {result : Bool × Channel × Shared}
    (storeless : Shared.Storeless request)
    (completed : channel.handle shared chance request world = .ok result after) :
    result.2.1.address = channel.address ∧
      shared.cmptr.Inherits (fun consumer => consumer.channel = channel.address)
        result.2.2.cmptr := by
  have untouched := @ConsumerManager.inherits_refl
    (fun consumer => consumer.channel = channel.address) shared.cmptr
  cases request with
  | declareExchange exchange =>
      cases completed
      exact ⟨rfl, untouched⟩
  | deleteExchange exchangeName =>
      cases completed
      exact ⟨rfl, untouched⟩
  | declareQueue queue => cases storeless
  | deleteQueue queueName => cases storeless
  | queueBind exchangeName queueName bindingKey =>
      cases completed
      exact ⟨rfl, untouched⟩
  | queueUnbind exchangeName queueName =>
      cases completed
      exact ⟨rfl, untouched⟩
  | basicPublish exchangeName properties body => cases storeless
  | basicAck queueName messageId =>
      rcases bind_eq_ok completed with ⟨done, middle, called, rest⟩
      cases rest
      rcases bind_eq_ok called with ⟨host, last, acked, rest⟩
      cases rest
      exact ⟨rfl, untouched⟩
  | basicConsume consumerTag queueName autoAck =>
      cases completed
      unfold basicConsume
      cases shared.host.existsQueue queueName with
      | false => exact ⟨rfl, untouched⟩
      | true => exact ⟨rfl, ConsumerManager.inherits_create rfl⟩
  | basicCancel consumerTag queueName =>
      rcases bind_eq_ok completed with ⟨done, middle, called, rest⟩
      cases rest
      rcases basicCancel_ok (ofExcept_eq_ok called).1 with ⟨cmptr, removed, same⟩
      rw [same]
      exact ⟨rfl, ConsumerManager.inherits_remove removed⟩

end Requests

end Channel

namespace Server

/-- Some connection has a channel at the address. -/
def Holds (server : Server) (address : Nat) : Prop :=
  ∃ conn cid channel, server.channelAt conn cid = some channel ∧ channel.address = address

section Packets

variable {server : Server} {conn : Nat} {connection : Connection} {address : Nat}

/-- A channel is held as long as its connection has one at its address. -/
theorem holds_assign (connected : server.connections.lookup conn = some connection)
    {channels : Dictionary Bytes Channel} (shared : Shared)
    (stays : ∀ cid channel, connection.channels.lookup cid = some channel →
      channel.address = address →
      ∃ other, channels.lookup cid = some other ∧ other.address = address)
    (held : server.Holds address) :
    Holds ⟨shared, Dictionary.assign conn ⟨channels⟩ server.connections⟩ address := by
  rcases held with ⟨other, cid, channel, opened, here⟩
  have after := channelAt_assign server shared conn channels (other, cid)
  by_cases same : other = conn
  · rw [same, channelAt_eq connected] at opened
    rcases stays cid channel opened here with ⟨later, laterOpened, laterHere⟩
    rw [if_pos same] at after
    exact ⟨other, cid, later, after.trans laterOpened, laterHere⟩
  · rw [if_neg same] at after
    exact ⟨other, cid, channel, after.trans opened, here⟩

theorem holds_newConnection (held : server.Holds address) :
    (server.newConnection conn).Holds address := by
  rcases held with ⟨other, cid, channel, opened, here⟩
  refine ⟨other, cid, channel, ?_, here⟩
  have same := congrArg (fun roster => roster.channels (other, cid))
    (server.roster_newConnection conn)
  exact same.trans opened

theorem holds_openChannel {cid : Bytes}
    (connected : server.connections.lookup conn = some connection) (held : server.Holds address) :
    (server.openChannel conn connection cid).2.Holds address := by
  unfold openChannel
  cases opened : connection.channels.lookup cid with
  | some channel => exact held
  | none =>
      refine holds_assign connected _ (fun other channel there here => ⟨channel, ?_, here⟩) held
      have distinct : other ≠ cid := by
        rintro rfl
        cases opened.symm.trans there
      rw [Dictionary.lookup_insert, if_neg distinct, there]

/-- A packet destroys the channel that it closes, and otherwise none. -/
theorem packet_holds [Protobuf] {chance : Chance} {packet : Packet} {done : Reply × Server}
    {world after : World}
    (storeless : ∀ rid cid channel request, packet = .request rid cid request →
      server.channelAt conn cid = some channel → Shared.Storeless request)
    (completed : server.handle conn chance packet world = .ok done after) :
    ((∀ address, server.Holds address → done.2.Holds address) ∧
      server.shared.cmptr.Inherits (fun consumer => server.Holds consumer.channel)
        done.2.shared.cmptr) ∨
    (∃ rid cid channel, packet = .closeChannel rid cid ∧
      server.channelAt conn cid = some channel ∧
      (∀ address, address ≠ channel.address → server.Holds address → done.2.Holds address) ∧
      Channel.destroy server.shared channel = .ok done.2.shared) := by
  have unchanged : (∀ address, server.Holds address → server.Holds address) ∧
      server.shared.cmptr.Inherits (fun consumer => server.Holds consumer.channel)
        server.shared.cmptr := ⟨fun _ held => held, ConsumerManager.inherits_refl _⟩
  cases packet with
  | openChannel rid cid =>
      rcases openChannel_ok completed with same | ⟨connection, connected, same⟩
      all_goals rw [same]
      · exact Or.inl unchanged
      · refine Or.inl ⟨fun _ held => holds_openChannel connected held, ?_⟩
        unfold openChannel
        cases connection.channels.lookup cid <;> exact unchanged.2
  | closeChannel rid cid =>
      rcases closeChannel_ok completed with same | ⟨connection, accepted, connected, closes⟩
      · rw [same]
        exact Or.inl unchanged
      · rcases closeChannel_cases closes with same | ⟨channel, shared, opened, destroyed, same⟩
        all_goals
          simp only at same
          rw [same]
        · exact Or.inl unchanged
        · refine Or.inr ⟨rid, cid, channel, rfl, (channelAt_eq connected cid).trans opened,
            fun address other held => ?_, destroyed⟩
          refine holds_assign connected shared (fun name stored there here => ?_) held
          have distinct : name ≠ cid := by
            rintro rfl
            cases opened.symm.trans there
            exact other here.symm
          exact ⟨stored, by rw [Dictionary.lookup_erase, if_neg distinct, there], here⟩
  | request rid cid request =>
      rcases request_ok completed with ⟨_, same, _⟩ |
        ⟨connection, channel, result, connected, opened, handled, same⟩
      · rw [same]
        exact Or.inl unchanged
      · have there := (channelAt_eq connected cid).trans opened
        rcases Channel.inherits_handle (storeless rid cid channel request rfl there) handled with
          ⟨stays, inherits⟩
        rw [same]
        refine Or.inl ⟨fun address held => ?_, inherits.mono fun consumer bound =>
          ⟨conn, cid, channel, there, bound.symm⟩⟩
        refine holds_assign connected _ (fun name stored found here => ?_) held
        rw [Dictionary.lookup_assign]
        by_cases named : name = cid
        · rw [named, opened] at found
          cases found
          exact ⟨result.2.1, if_pos named, stays.trans here⟩
        · exact ⟨stored, (if_neg named).trans found, here⟩

end Packets

end Server

/-! ## Who needs a channel -/

namespace Phase

/-- The channel of which the next step of a task calls a member function: `consume`
of the one that published, or the callback of the one that subscribed. -/
def enters (task : Task) : Phase → Option Nat
  | .ready => some task.channel
  | .chosen _ choice => some choice.consumer.channel
  | _ => none

/-- The unit that a task has looked up. -/
def asked : Phase → Option Nat
  | .asking _ unit => some unit
  | _ => none

end Phase

namespace Loop

/-- The channel whose publish is in hand. -/
def publisher : Loop → Option Nat
  | .publishing address _ _ => some address
  | .pushing address _ _ _ => some address
  | _ => none

/-- A loop that publishes nothing. -/
theorem publisher_of_none {loop : Loop} {holds : Nat → Prop} (nobody : loop.publisher = none)
    (address : Nat) (own : loop.publisher = some address) : holds address := by
  rw [nobody] at own
  cases own

end Loop

namespace Machine

/-- A task starts, and calls a callback, only while the channel is there. -/
def EntersOpen (machine : Machine) (event : Event) : Prop :=
  match event.move with
  | .work index => ∀ task ∈ machine.server.shared.pool[index]?,
      ∀ address ∈ (machine.phase index).enters task, machine.isOpen address = true
  | _ => True

/-- The channel that a step destroys. -/
def destroyed (machine : Machine) : Move → Option Channel
  | .packet conn _ (.closeChannel _ cid) =>
      if machine.isIdle then machine.server.channelAt conn cid else none
  | .proceed => machine.closing.head?
  | _ => none

/-- A unit from which a consumer may still be chosen: a queue has it, or a task has
looked it up. -/
def InUse (machine : Machine) (reference : Nat) : Prop :=
  (∃ qname ∈ machine.server.shared.cmptr.qconsumers.names.keys,
    machine.server.shared.cmptr.qconsumers.find qname = some reference) ∨
  ∃ index < machine.server.shared.pool.length, (machine.phase index).asked = some reference

/-- No task is about to enter the channel. -/
def Unentered (machine : Machine) (channel : Channel) : Prop :=
  ∀ index < machine.server.shared.pool.length, ∀ task ∈ machine.server.shared.pool[index]?,
    (machine.phase index).enters task ≠ some channel.address

/-- No consumer that may still be chosen is bound to the channel, except the one that
its destructor takes out. -/
def Unbound (machine : Machine) (channel : Channel) : Prop :=
  ∀ reference < machine.server.shared.cmptr.qconsumers.next, machine.InUse reference →
    ∀ unit ∈ machine.server.shared.cmptr.qconsumers.object reference,
    ∀ consumer ∈ unit.consumers, consumer.channel = channel.address →
      channel.takesOut machine.server.shared.cmptr reference consumer = true

/-- The condition on a step: a channel is destroyed only when nothing needs it. -/
def DestroysUnneeded (machine : Machine) (event : Event) : Prop :=
  ∀ channel ∈ machine.destroyed event.move, machine.Unentered channel ∧ machine.Unbound channel

instance (machine : Machine) (reference : Nat) : Decidable (machine.InUse reference) :=
  inferInstanceAs (Decidable (_ ∨ _))

instance (machine : Machine) (channel : Channel) : Decidable (machine.Unentered channel) :=
  inferInstanceAs (Decidable (∀ index < machine.server.shared.pool.length,
    ∀ task ∈ machine.server.shared.pool[index]?,
      (machine.phase index).enters task ≠ some channel.address))

instance (machine : Machine) (channel : Channel) : Decidable (machine.Unbound channel) :=
  inferInstanceAs (Decidable (∀ reference < machine.server.shared.cmptr.qconsumers.next,
    machine.InUse reference → ∀ unit ∈ machine.server.shared.cmptr.qconsumers.object reference,
    ∀ consumer ∈ unit.consumers, consumer.channel = channel.address →
      channel.takesOut machine.server.shared.cmptr reference consumer = true))

instance (machine : Machine) (event : Event) : Decidable (machine.DestroysUnneeded event) :=
  inferInstanceAs (Decidable (∀ channel ∈ machine.destroyed event.move,
    machine.Unentered channel ∧ machine.Unbound channel))

instance (machine : Machine) : ∀ event, Decidable (machine.EntersOpen event)
  | ⟨.work index, _⟩ => inferInstanceAs (Decidable (∀ task ∈ machine.server.shared.pool[index]?,
      ∀ address ∈ (machine.phase index).enters task, machine.isOpen address = true))
  | ⟨.connect _, _⟩ | ⟨.disconnect _, _⟩ | ⟨.packet _ _ _, _⟩ | ⟨.proceed, _⟩ => .isTrue trivial

/-- Whoever may enter a channel finds it. -/
structure Sheltered (machine : Machine) : Prop where
  entered : ∀ index task address, machine.server.shared.pool[index]? = some task →
    (machine.phase index).enters task = some address → machine.isOpen address = true
  publisher : ∀ address, machine.loop.publisher = some address → machine.isOpen address = true
  bound : ∀ reference unit consumer, machine.InUse reference →
    machine.server.shared.cmptr.qconsumers.object reference = some unit →
    consumer ∈ unit.consumers → machine.isOpen consumer.channel = true
  tagged : machine.server.shared.cmptr.Tagged

/-! ## Steps of the event loop -/

section Opens

variable {machine next : Machine} {address : Nat}

theorem isOpen_iff : machine.isOpen address = true ↔
    (∃ channel ∈ machine.closing, channel.address = address) ∨ machine.server.Holds address := by
  unfold isOpen channels
  rw [List.any_append, Bool.or_eq_true, List.any_eq_true, List.any_eq_true]
  refine or_congr (by simp only [decide_eq_true_eq]) ⟨?_, ?_⟩
  · rintro ⟨channel, member, here⟩
    rcases List.mem_flatMap.mp member with ⟨connection, connected, member⟩
    rcases Dictionary.mem_values.mp connected with ⟨conn, connected⟩
    rcases Dictionary.mem_values.mp member with ⟨cid, opened⟩
    exact ⟨conn, cid, channel, (Server.channelAt_eq connected cid).trans opened,
      of_decide_eq_true here⟩
  · rintro ⟨conn, cid, channel, opened, here⟩
    rcases Option.bind_eq_some_iff.mp opened with ⟨connection, connected, opened⟩
    exact ⟨channel, List.mem_flatMap.mpr ⟨connection, Dictionary.mem_values.mpr ⟨conn, connected⟩,
      Dictionary.mem_values.mpr ⟨cid, opened⟩⟩, decide_eq_true here⟩

/-- A channel stays where the lists of channels only grow. -/
theorem isOpen_mono (closing : machine.closing ⊆ next.closing)
    (holds : machine.server.Holds address → next.server.Holds address)
    (opened : machine.isOpen address = true) : next.isOpen address = true := by
  rcases isOpen_iff.mp opened with ⟨channel, member, here⟩ | held
  · exact isOpen_iff.mpr (Or.inl ⟨channel, closing member, here⟩)
  · exact isOpen_iff.mpr (Or.inr (holds held))

end Opens

/-- What a step of the event loop does to the channels and to those who need them. -/
inductive Houses (machine : Machine) (move : Move) (next : Machine) : Prop where
  | keeps (opens : ∀ address, machine.isOpen address = true → next.isOpen address = true)
      (pushed : next.server.shared.pool = machine.server.shared.pool ∨
        ∃ task, machine.loop.publisher = some task.channel ∧
          next.server.shared.pool = machine.server.shared.pool ++ [task])
      (publishes : ∀ address, next.loop.publisher = some address →
        machine.loop.publisher = some address ∨ machine.isOpen address = true)
      (inherits : machine.server.shared.cmptr.Inherits
        (fun consumer => machine.isOpen consumer.channel = true) next.server.shared.cmptr)
  | destroys {channel : Channel} (last : machine.destroyed move = some channel)
      (opens : ∀ address, address ≠ channel.address → machine.isOpen address = true →
        next.isOpen address = true)
      (publishes : next.loop.publisher = none)
      (destroyed : Channel.destroy machine.server.shared channel = .ok next.server.shared)

section Steps

variable [Protobuf] {machine next : Machine} {world after : World}

omit [Protobuf] in
theorem houses_refl (machine : Machine) (move : Move) : machine.Houses move machine :=
  .keeps (fun _ opened => opened) (Or.inl rfl) (fun _ own => Or.inl own)
    (ConsumerManager.inherits_refl _)

omit [Protobuf] in
theorem loop_of_isIdle (idle : machine.isIdle = true) : machine.loop = .idle := by
  unfold isIdle at idle
  cases inHand : machine.loop with
  | idle => rfl
  | _ =>
      rw [inHand] at idle
      cases idle

omit [Protobuf] in
/-- As long as the connections stay and nothing is closing, no channel comes or goes. -/
theorem houses_of_connections {move : Move} (nothing : machine.closing = [])
    (connections : next.server.connections = machine.server.connections)
    (pushed : next.server.shared.pool = machine.server.shared.pool ∨
      ∃ task, machine.loop.publisher = some task.channel ∧
        next.server.shared.pool = machine.server.shared.pool ++ [task])
    (publishes : ∀ address, next.loop.publisher = some address →
      machine.loop.publisher = some address ∨ machine.isOpen address = true)
    (inherits : machine.server.shared.cmptr.Inherits
      (fun consumer => machine.isOpen consumer.channel = true) next.server.shared.cmptr) :
    machine.Houses move next := by
  refine .keeps (fun address => isOpen_mono (nothing ▸ List.nil_subset _) ?_) pushed publishes
    inherits
  rintro ⟨conn, cid, channel, opened, here⟩
  exact ⟨conn, cid, channel, by rw [Server.channelAt, connections]; exact opened, here⟩

theorem Accepts.houses {conn : Nat} {chance : Chance} {packet : Packet}
    (accepts : machine.Accepts conn chance world after packet next)
    (idle : machine.isIdle = true) : machine.Houses (.packet conn chance packet) next := by
  have nothing : machine.closing = [] := by rw [closing, loop_of_isIdle idle]
  have same := @ConsumerManager.inherits_refl
    (fun consumer => machine.isOpen consumer.channel = true) machine.server.shared.cmptr
  cases accepts with
  | @handles _ done storeless handled =>
      have grows : ∀ address, (machine.server.Holds address → done.2.Holds address) →
          machine.isOpen address = true →
          ({ machine with server := done.2 } : Machine).isOpen address = true :=
        fun address holds => isOpen_mono (List.Subset.refl _) holds
      have publisher : machine.loop.publisher = none := by rw [loop_of_isIdle idle]; rfl
      rcases Server.packet_holds storeless handled with ⟨holds, inherits⟩ |
        ⟨rid, cid, channel, closes, opened, holds, destroyed⟩
      · refine .keeps (fun address => grows address (holds address))
          (Or.inl (Shared.quiet_packet storeless handled).pool) (fun _ own => Or.inl own)
          (inherits.mono fun consumer held => isOpen_iff.mpr (Or.inr held))
      · subst closes
        refine .destroys ?_ (fun address other => grows address (holds address other)) publisher
          destroyed
        rw [Machine.destroyed, if_pos idle, opened]
  | refuses => exact machine.houses_refl _
  | publishes opened =>
      refine houses_of_connections nothing rfl (Or.inl rfl) (fun address own => ?_) same
      cases own
      exact Or.inr (isOpen_iff.mpr (Or.inr ⟨conn, _, _, opened, rfl⟩))
  | recovers introduced =>
      exact houses_of_connections nothing rfl (Or.inl rfl) (Loop.publisher_of_none rfl) same
  | declares introduced =>
      exact houses_of_connections nothing rfl (Or.inl rfl) (Loop.publisher_of_none rfl) same
  | deletes onward =>
      refine houses_of_connections nothing rfl (Or.inl rfl) (Loop.publisher_of_none ?_) same
      rcases onward with deleting | ⟨store, clearing⟩
      · rw [deleting]
        rfl
      · rw [clearing]
        rfl

theorem Proceeds.houses (proceeds : machine.Proceeds world after next) :
    machine.Houses .proceed next := by
  have same := @ConsumerManager.inherits_refl
    (fun consumer => machine.isOpen consumer.channel = true) machine.server.shared.cmptr
  cases proceeds with
  | rests idle => exact machine.houses_refl _
  | finishes inHand =>
      rcases inHand with ⟨address, publication, inHand⟩ | inHand
      · exact houses_of_connections (by rw [closing, inHand]) rfl (Or.inl rfl)
          (Loop.publisher_of_none rfl) same
      · refine .keeps (fun address => isOpen_mono ?_ id) (Or.inl rfl)
          (Loop.publisher_of_none rfl) same
        rw [closing, inHand]
        exact List.nil_subset _
  | skips inHand routed =>
      exact houses_of_connections (by rw [closing, inHand]) rfl (Or.inl rfl)
        (fun other own => Or.inl (by rw [inHand]; exact own)) same
  | inserts inHand routed called =>
      exact houses_of_connections (by rw [closing, inHand]) rfl (Or.inl rfl)
        (fun other own => Or.inl (by rw [inHand]; exact own)) same
  | pushes inHand =>
      exact houses_of_connections (by rw [closing, inHand]) rfl
        (Or.inr ⟨_, by rw [inHand]; rfl, rfl⟩)
        (fun other own => Or.inl (by rw [inHand]; exact own)) same
  | recovers inHand recovered =>
      exact houses_of_connections (by rw [closing, inHand]) rfl (Or.inl rfl)
        (Loop.publisher_of_none rfl) same
  | @declares sql queue inHand =>
      refine houses_of_connections (by rw [closing, inHand]) rfl (Or.inl rfl)
        (Loop.publisher_of_none rfl) ?_
      change machine.server.shared.cmptr.Inherits _ (declare machine.server.shared sql queue).cmptr
      simp only [declare]
      cases (machine.server.shared.host.qmptr.declareQueue sql.queueTable queue).1 with
      | true => exact ConsumerManager.inherits_initQueueConsumer _ queue.name
      | false => exact same
  | clears inHand cleared =>
      exact houses_of_connections (by rw [closing, inHand]) rfl (Or.inl rfl)
        (Loop.publisher_of_none rfl) same
  | @deletes sql queueName inHand =>
      refine houses_of_connections (by rw [closing, inHand]) rfl (Or.inl rfl)
        (Loop.publisher_of_none rfl) ?_
      change machine.server.shared.cmptr.Inherits _
        (delete machine.server.shared sql queueName).cmptr
      simp only [delete]
      cases (machine.server.shared.host.qmptr.deleteQueue sql.queueTable queueName).1 with
      | true => exact ConsumerManager.inherits_destroyQueueConsumer _ queueName
      | false => exact same
  | @closes channel rest shared inHand destroyed =>
      have closing : machine.closing = channel :: rest := by rw [Machine.closing, inHand]
      refine .destroys (by rw [Machine.destroyed, closing]; rfl) (fun address other opened => ?_)
        rfl destroyed
      rcases isOpen_iff.mp opened with ⟨stored, member, here⟩ | held
      · rw [closing] at member
        rcases List.mem_cons.mp member with first | later
        · exact absurd (first ▸ here).symm other
        · exact isOpen_iff.mpr (Or.inl ⟨stored, later, here⟩)
      · exact isOpen_iff.mpr (Or.inr held)

omit [Protobuf] in
/-- The channels of a connection that goes down are destroyed later. -/
theorem houses_disconnect {conn : Nat} {connection : Connection} (idle : machine.isIdle = true)
    (connected : machine.server.connections.lookup conn = some connection) :
    machine.Houses (.disconnect conn) { machine with
      server := { machine.server with connections := machine.server.connections.erase conn }
      loop := .closing (Dictionary.values connection.channels) } := by
  refine .keeps (fun address opened => ?_) (Or.inl rfl) (Loop.publisher_of_none rfl)
    (ConsumerManager.inherits_refl _)
  rcases isOpen_iff.mp opened with ⟨channel, member, _⟩ | ⟨other, cid, channel, there, here⟩
  · rw [closing, loop_of_isIdle idle] at member
    cases member
  · rcases Option.bind_eq_some_iff.mp there with ⟨owner, found, held⟩
    by_cases same : other = conn
    · rw [same, connected] at found
      cases found
      exact isOpen_iff.mpr (Or.inl ⟨channel, Dictionary.mem_values.mpr ⟨cid, held⟩, here⟩)
    · refine isOpen_iff.mpr (Or.inr ⟨other, cid, channel, ?_, here⟩)
      rw [Server.channelAt, Dictionary.lookup_erase, if_neg same]
      exact there

theorem Moves.houses {move : Move} (moves : machine.Moves world after move next) :
    machine.Houses move next := by
  cases moves with
  | stays => exact machine.houses_refl move
  | connects =>
      exact .keeps (fun address => isOpen_mono (List.Subset.refl _) Server.holds_newConnection)
        (Or.inl rfl) (fun _ own => Or.inl own) (ConsumerManager.inherits_refl _)
  | disconnects idle connected => exact houses_disconnect idle connected
  | accepts idle accepts => exact accepts.houses idle
  | proceeds proceeds => exact proceeds.houses

/-! ## Whoever may enter a channel finds it -/

omit [Protobuf] in
theorem Sheltered.congr (sheltered : machine.Sheltered) (server : next.server = machine.server)
    (loop : next.loop = machine.loop) (phase : next.phase = machine.phase) : next.Sheltered := by
  rcases machine with ⟨_, _, _, _, _⟩
  rcases next with ⟨_, _, _, _, _⟩
  cases server
  cases loop
  cases phase
  exact ⟨sheltered.entered, sheltered.publisher, sheltered.bound, sheltered.tagged⟩

omit [Protobuf] in
theorem Unborn.inUse (unborn : machine.Unborn) {index reference : Nat}
    (asks : (machine.phase index).asked = some reference) : machine.InUse reference := by
  refine Or.inr ⟨index, Nat.lt_of_not_le fun beyond => ?_, asks⟩
  rw [unborn index beyond] at asks
  cases asks

omit [Protobuf] in
/-- A consumer in a unit in use was in one before, or has joined. -/
theorem InUse.member {joins : Consumer → Prop}
    (inherits : machine.server.shared.cmptr.Inherits joins next.server.shared.cmptr)
    {reference : Nat} {unit : QueueConsumer} {consumer : Consumer} (used : next.InUse reference)
    (asked : ∀ index, (next.phase index).asked = some reference → machine.InUse reference)
    (there : next.server.shared.cmptr.qconsumers.object reference = some unit)
    (member : consumer ∈ unit.consumers) :
    (machine.InUse reference ∧ ∃ before,
      machine.server.shared.cmptr.qconsumers.object reference = some before ∧
        consumer ∈ before.consumers) ∨ joins consumer := by
  rcases inherits.member there member with ⟨before, old, listed⟩ | joined
  · refine Or.inl ⟨?_, before, old, listed⟩
    rcases used with ⟨qname, _, found⟩ | ⟨index, _, asks⟩
    · rcases inherits.names qname reference found with known | young
      · exact Or.inl ⟨qname, AList.mem_keys.mp (Dictionary.lookup_eq_some_mem known), known⟩
      · cases young.symm.trans old
    · exact asked index asks
  · exact Or.inr joined

omit [Protobuf] in
/-- A step of the event loop that destroys no channel that is needed. -/
theorem Sheltered.houses (sheltered : machine.Sheltered) (unborn : machine.Unborn) {event : Event}
    (unneeded : machine.DestroysUnneeded event) (phase : next.phase = machine.phase)
    (houses : machine.Houses event.move next) : next.Sheltered := by
  have asked : ∀ reference index, (next.phase index).asked = some reference →
      machine.InUse reference := by
    intro reference index asks
    rw [phase] at asks
    exact unborn.inUse asks
  cases houses with
  | keeps opens pushed publishes inherits =>
      refine ⟨fun index task address listed enters => ?_, fun address own => ?_,
        fun reference unit consumer used there member => ?_, inherits.tagged sheltered.tagged⟩
      · rw [phase] at enters
        apply opens
        rcases pushed with same | ⟨last, own, same⟩
        · exact sheltered.entered index task address (same ▸ listed) enters
        · rw [same] at listed
          by_cases old : index < machine.server.shared.pool.length
          · rw [List.getElem?_append_left old] at listed
            exact sheltered.entered index task address listed enters
          · -- the new task has not started
            have beyond := Nat.le_of_not_lt old
            rw [unborn index beyond] at enters
            rw [List.getElem?_append_right beyond] at listed
            cases List.mem_singleton.mp (List.mem_of_getElem? listed)
            cases enters
            exact sheltered.publisher _ own
      · rcases publishes address own with before | opened
        · exact opens address (sheltered.publisher address before)
        · exact opens address opened
      · apply opens
        rcases used.member inherits (asked reference) there member with
          ⟨usedBefore, before, old, listed⟩ | joined
        · exact sheltered.bound reference before consumer usedBefore old listed
        · exact joined
  | @destroys channel last opens publishes destroyed =>
      rcases unneeded channel last with ⟨unentered, unbound⟩
      have inherits := @Channel.inherits_destroy _ _ _ (fun _ => False) destroyed
      refine ⟨fun index task address listed enters => ?_, fun address own => ?_,
        fun reference unit consumer used there member => ?_, inherits.tagged sheltered.tagged⟩
      · rw [phase] at enters
        rw [(Shared.destroy_stores destroyed).2] at listed
        refine opens address ?_ (sheltered.entered index task address listed enters)
        rintro rfl
        exact unentered index (List.getElem?_eq_some_iff.mp listed).1 task listed enters
      · rw [publishes] at own
        cases own
      · rcases used.member inherits (asked reference) there member with
          ⟨usedBefore, before, old, listed⟩ | impossible
        · refine opens _ (fun here => ?_)
            (sheltered.bound reference before consumer usedBefore old listed)
          have takes := unbound reference (Registry.object_lt old) usedBefore before old consumer
            listed here
          rw [Channel.not_takesOut sheltered.tagged destroyed there member] at takes
          cases takes
        · exact impossible.elim

omit [Protobuf] in
/-- A task in another phase, with units in which at most the turn has changed. -/
theorem Sheltered.passes (sheltered : machine.Sheltered) (unborn : machine.Unborn) {index : Nat}
    {task : Task} (listed : machine.server.shared.pool[index]? = some task) {phase : Phase}
    {shared : Shared} (pool : shared.pool = machine.server.shared.pool)
    (inherits : machine.server.shared.cmptr.Inherits (fun _ => False) shared.cmptr)
    (enters : ∀ address, phase.enters task = some address → machine.isOpen address = true)
    (asks : ∀ reference, phase.asked = some reference → machine.InUse reference) :
    ((machine.withShared shared).withPhase index phase).Sheltered := by
  refine ⟨fun other stored address there own => ?_, sheltered.publisher,
    fun reference unit consumer used there member => ?_, inherits.tagged sheltered.tagged⟩
  · change shared.pool[other]? = some stored at there
    rw [pool] at there
    change machine.isOpen address = true
    by_cases same : other = index
    · rw [same, listed] at there
      cases there
      rw [same, withPhase_self] at own
      exact enters address own
    · rw [withPhase_other _ _ same] at own
      exact sheltered.entered other stored address there own
  · change machine.isOpen consumer.channel = true
    refine (used.member inherits (fun other own => ?_) there member).elim
      (fun ⟨usedBefore, before, old, within⟩ =>
        sheltered.bound reference before consumer usedBefore old within) False.elim
    by_cases same : other = index
    · rw [same, withPhase_self] at own
      exact asks reference own
    · rw [withPhase_other _ _ same] at own
      exact unborn.inUse own

/-- Every step of a task. -/
theorem Sheltered.works (sheltered : machine.Sheltered) (unborn : machine.Unborn) {index : Nat}
    {task : Task} (listed : machine.server.shared.pool[index]? = some task)
    (works : machine.Works index task world after next) : next.Sheltered := by
  have passes := @Sheltered.passes machine sheltered unborn index task listed
  have same := @ConsumerManager.inherits_refl (fun _ => False) machine.server.shared.cmptr
  cases works with
  | missed ready opened unknown => exact passes rfl same (fun _ => nofun) fun _ => nofun
  | looks ready opened found => exact passes rfl same (fun _ => nofun) fun _ => nofun
  | findsNothing looked nothing quiet => exact passes rfl same (fun _ => nofun) fun _ => nofun
  | takes looked there pending => exact passes rfl same (fun _ => nofun) fun _ => nofun
  | alone holds opened nobody => exact passes rfl same (fun _ => nofun) fun _ => nofun
  | asks holds found =>
      refine passes rfl same (fun _ => nofun) fun reference own => ?_
      cases own
      exact Or.inl ⟨_, AList.mem_keys.mp (Dictionary.lookup_eq_some_mem found), found⟩
  | refused asking nobody =>
      exact passes rfl (ConsumerManager.inherits_chooseFrom _ _) (fun _ => nofun) fun _ => nofun
  | chooses asking somebody =>
      refine passes rfl (ConsumerManager.inherits_chooseFrom _ _) (fun address own => ?_)
        fun _ => nofun
      cases own
      rcases ConsumerManager.chooseFrom_mem somebody with ⟨unit, there, member⟩
      exact sheltered.bound _ unit _ (unborn.inUse (by rw [asking]; rfl)) there member
  | @delivers taken choice chosen opened =>
      exact (@passes (.delivered taken choice) _ rfl same (fun _ => nofun) fun _ => nofun).congr
        rfl rfl rfl
  | asksAck delivered => exact passes rfl same (fun _ => nofun) fun _ => nofun
  | leaves delivered => exact passes rfl same (fun _ => nofun) fun _ => nofun
  | acknowledges acking removed => exact passes rfl same (fun _ => nofun) fun _ => nofun
  | rests ended => exact sheltered

/-- A step that meets the condition. -/
theorem sheltered_step {event : Event} (sheltered : machine.Sheltered) (unborn : machine.Unborn)
    (unneeded : machine.DestroysUnneeded event) (stepped : perform machine event = .ok next) :
    next.Sheltered := by
  rcases perform_cases stepped with ⟨result, after, same, moves |
    ⟨index, task, _, listed, completed⟩⟩
  all_goals
    rw [same]
    refine @Sheltered.congr result _ ?_ rfl rfl rfl
  · exact sheltered.houses unborn unneeded moves.follows.phase moves.houses
  · exact sheltered.works unborn listed (consume_works completed)

omit [Protobuf] in
theorem Sheltered.entersOpen (sheltered : machine.Sheltered) (event : Event) :
    machine.EntersOpen event := by
  rcases event with ⟨move, script⟩
  cases move with
  | work index =>
      intro task listed address enters
      exact sheltered.entered index task address listed enters
  | _ => trivial

/-- A new server has no channels, and nobody needs one. -/
theorem sheltered_new {database : Database} {basedir : Bytes} {server : Server}
    (started : Server.new database basedir world = .ok server after) (disk : Disk) :
    ({ server := server, disk := disk } : Machine).Sheltered := by
  rcases bind_eq_ok started with ⟨host, middle, made, rest⟩
  cases rest
  have nobody := @ConsumerManager.Vacant.initAll {} nofun host.qmptr.msgQueues.keys
  refine ⟨fun _ _ _ listed => (nomatch listed), fun _ => nofun,
    fun reference unit consumer _ there member => ?_, fun reference unit there => ?_⟩
  · rw [nobody reference unit there] at member
    cases member
  · unfold QueueConsumer.Tagged
    rw [nobody reference unit there]
    exact List.nodup_nil

/-- In every interleaving from the start of a server in which channels are destroyed only
when nothing needs them, every task that starts finds its channel, and every callback
the channel that it is bound to. -/
theorem entersOpen_along {database : Database} {basedir : Bytes} {server : Server}
    (started : Server.new database basedir world = .ok server after) (disk : Disk)
    {events : List Event}
    (unneeded : Along perform DestroysUnneeded { server := server, disk := disk } events) :
    Along perform EntersOpen { server := server, disk := disk } events := by
  refine @along_of_along _ _ _ _ _ (fun machine => machine.Sheltered ∧ machine.Unborn) _
    (fun _ event kept _ => kept.1.entersOpen event) ?_ _ _
    ⟨sheltered_new started disk, fun _ _ => rfl⟩ unneeded
  intro machine event next kept unneeded stepped
  exact ⟨sheltered_step kept.1 kept.2 unneeded stepped, unborn_step kept.2 stepped⟩

end Steps

/-! ## A channel that is closed in time, and one that is closed too early -/

/-- The client closes its channel. -/
def closingChannel : Event :=
  ⟨.packet 0 {} (.closeChannel [] (ascii "c")), []⟩

/-- The channel that published and subscribed is closed when its task has ended. -/
theorem entersOpen_while_open :
    Along (@perform wireFormat) EntersOpen fresh
      (binding ++ ⟨.packet 0 {} (.request [] (ascii "c")
        (.basicConsume (ascii "t") (ascii "q") false)), []⟩ :: publishing ++
        List.replicate 6 ⟨.work 0, []⟩ ++ [closingChannel]) :=
  @entersOpen_along wireFormat ⟨fun _ => none, []⟩ _ {} [] _ rfl _ _ (by decide +kernel)

/-- The channel that published is closed before the task starts. -/
theorem closed_before_task_starts :
    ¬ ∀ events : List Event, Along (@perform wireFormat) EntersOpen fresh events := by
  intro always
  have starts := always (binding ++ publishing ++ [closingChannel] ++ [⟨.work 0, []⟩])
  revert starts
  decide +kernel

end Machine

end ProtobufMq
