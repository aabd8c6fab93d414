import ProtobufMq.Server.Agreement
import ProtobufMq.Server.Completing
import ProtobufMq.Server.Stopping

namespace ProtobufMq

open Foundation

/-!
# Unsubscribing from a queue that is gone

`ConsumerManager::remove` looks up the unit of a queue.  When there is none, a
line is logged, the `return` that the sibling calls have after it is missing,
and the end iterator is used.  The queue is named by a client that cancels, or
by the consumer of a channel that is destroyed, while any other channel may
have deleted it.

A queue has a unit exactly while it exists, so what matters is whether the
queue that a remove names exists at that time.
-/

namespace Channel

/-- The tag and the queue that the destructor unsubscribes. -/
def farewell (channel : Channel) : Option (Bytes × Bytes) :=
  channel.consumer.map fun consumer => (consumer.tag, consumer.qname)

end Channel

namespace Server

/-- The calls of `ConsumerManager::remove` that an action makes. -/
def removals (server : Server) : Action → List (Bytes × Bytes)
  | .connect _ => []
  | .disconnect conn =>
      match server.connections.lookup conn with
      | none => []
      | some connection => (Dictionary.values connection.channels).filterMap Channel.farewell
  | .packet conn _ packet =>
      match packet with
      | .closeChannel _ cid => ((server.channelAt conn cid).bind Channel.farewell).toList
      | .request _ cid (.basicCancel consumerTag queueName) =>
          if (server.channelAt conn cid).isSome then [(consumerTag, queueName)] else []
      | _ => []

/-- Unsubscribing does no harm in an event: the end iterator is not used, and a
remove for a queue without a unit leaves all lists of consumers as they are. -/
structure UnsubscribeSafe [Protobuf] (site : Site) (event : Event) : Prop where
  defined : perform site event ≠ .error .consumersEnd
  unchanged : ∀ removal ∈ site.server.removals event.action,
    site.server.shared.cmptr.qconsumers.select removal.2 = none →
    ∃ next, site.server.shared.cmptr.remove removal.1 removal.2 = .ok next ∧
      ∀ queueName, next.registered queueName = site.server.shared.cmptr.registered queueName

/-- The condition: the queues that are unsubscribed from exist. -/
def RemovesFromQueues (site : Site) (event : Event) : Prop :=
  ∀ removal ∈ site.server.removals event.action,
    removal.2 ∈ site.server.shared.host.qmptr.msgQueues

instance (site : Site) (event : Event) : Decidable (RemovesFromQueues site event) :=
  inferInstanceAs (Decidable (∀ removal ∈ _, _))

/-- A queue has a unit exactly while it exists. -/
def Manned (shared : Shared) : Prop :=
  ∀ qname, qname ∈ shared.cmptr.qconsumers.names ↔ qname ∈ shared.host.qmptr.msgQueues

theorem mem_names_iff {manager : ConsumerManager} {queueName : Bytes} :
    queueName ∈ manager.qconsumers.names ↔
      ∃ unit, manager.qconsumers.select queueName = some unit := by
  rw [Dictionary.mem_iff_lookup]
  constructor
  · rintro ⟨reference, found⟩
    rcases Registry.object_of_find found with ⟨unit, there⟩
    exact ⟨unit, (Registry.select_of_find found).trans there⟩
  · rintro ⟨unit, selected⟩
    rcases Registry.select_eq_some.mp selected with ⟨reference, found, _⟩
    exact ⟨reference, found⟩

/-! ## The events that stop at the units -/

section Stops

variable [Protobuf] {server : Server} {site : Site}

/-- The units of the queues that an action unsubscribes from are there. -/
def UnitsThere (server : Server) (action : Action) : Prop :=
  ∀ removal ∈ server.removals action,
    ∃ unit, server.shared.cmptr.qconsumers.select removal.2 = some unit

omit [Protobuf] in
theorem destroyable_iff (channel : Channel) (cmptr : ConsumerManager) :
    Channel.Destroyable cmptr channel ↔ ∀ removal, channel.farewell = some removal →
      ∃ unit, cmptr.qconsumers.select removal.2 = some unit := by
  unfold Channel.Destroyable Channel.farewell
  cases channel.consumer with
  | none => simp
  | some consumer => simp

omit [Protobuf] in
theorem deleteConnection_eq_error {conn : Nat} {fault : Fault}
    (stopped : server.deleteConnection conn = .error fault) : fault = .consumersEnd := by
  unfold deleteConnection at stopped
  cases connected : server.connections.lookup conn with
  | none =>
      rw [connected] at stopped
      cases stopped
  | some connection =>
      rw [connected] at stopped
      have looped := except_map_eq_error stopped
      revert looped
      generalize server.shared = shared
      induction Dictionary.values connection.channels generalizing shared with
      | nil =>
          intro impossible
          cases impossible
      | cons channel rest inductionHypothesis =>
          rw [List.foldlM_cons]
          cases destroyed : Channel.destroy shared channel with
          | error other =>
              intro same
              cases same
              exact Channel.destroy_eq_error destroyed
          | ok next => exact inductionHypothesis next

omit [Protobuf] in
theorem unitsThere_disconnect (conn : Nat) :
    server.UnitsThere (.disconnect conn) ↔ ∃ next, server.deleteConnection conn = .ok next := by
  rw [deleteConnection_ok_iff, UnitsThere, removals]
  cases server.connections.lookup conn with
  | none => simp
  | some connection =>
      simp only [List.mem_filterMap, Option.some.injEq, forall_eq', destroyable_iff]
      constructor
      · exact fun there channel member removal leaves => there removal ⟨channel, member, leaves⟩
      · rintro there removal ⟨channel, member, leaves⟩
        exact there channel member removal leaves

omit [Protobuf] in
theorem unitsThere_closeChannel {conn : Nat} {chance : Chance} {rid cid : Bytes}
    {connection : Connection} (connected : server.connections.lookup conn = some connection) :
    server.UnitsThere (.packet conn chance (.closeChannel rid cid)) ↔
      ∃ closed, server.closeChannel conn connection cid = .ok closed := by
  rw [closeChannel_ok_iff connected, UnitsThere, removals]
  simp only [destroyable_iff, Option.mem_toList, Option.bind_eq_some_iff]
  constructor
  · exact fun there channel opened removal leaves => there removal ⟨channel, opened, leaves⟩
  · rintro there removal ⟨channel, opened, leaves⟩
    exact there channel opened removal leaves

/-- With the units there, no packet uses the end iterator. -/
theorem stopsBy_packet {conn : Nat} {chance : Chance} {packet : Packet}
    (there : server.UnitsThere (.packet conn chance packet)) :
    StopsBy (· ≠ Fault.consumersEnd) (server.handle conn chance packet) := by
  refine server.stopsBy_handle conn chance ?_ ?_
  · intro rid cid connection same connected fault stopped
    subst same
    rcases (unitsThere_closeChannel connected).mp there with ⟨closed, closes⟩
    cases stopped.symm.trans closes
  · intro rid cid request channel same opened
    subst same
    refine channel.stopsBy_handle ⟨nofun, nofun⟩ nofun nofun server.shared chance ?_ ?_
    · intro queueName messageId _
      exact Channel.stopsBy_basicAck ⟨nofun, nofun⟩ nofun fun _ _ _ _ => Or.inr nofun
    · intro consumerTag queueName same fault stopped
      subst same
      have unit := there (consumerTag, queueName) (by simp [removals, opened])
      rcases (Channel.basicCancel_ok_iff channel consumerTag queueName).mpr unit with
        ⟨result, cancelled⟩
      cases stopped.symm.trans cancelled

/-- Without one of the units, it does. -/
theorem handle_consumersEnd {conn : Nat} {chance : Chance} {packet : Packet} {world : World}
    (missing : ¬ server.UnitsThere (.packet conn chance packet)) :
    server.handle conn chance packet world = .error .consumersEnd world := by
  cases packet with
  | openChannel rid cid => exact absurd (fun removal member => by cases member) missing
  | closeChannel rid cid =>
      cases connected : server.connections.lookup conn with
      | none =>
          refine absurd (fun removal member => ?_) missing
          simp [removals, channelAt, connected] at member
      | some connection =>
          rw [unitsThere_closeChannel connected] at missing
          cases closes : server.closeChannel conn connection cid with
          | ok closed => exact absurd ⟨closed, closes⟩ missing
          | error fault =>
              rw [closeChannel_eq_error closes] at closes
              simp only [handle, connected, closes]
              rfl
  | request rid cid request =>
      cases request with
      | basicCancel consumerTag queueName =>
          cases opened : server.channelAt conn cid with
          | none =>
              refine absurd (fun removal member => ?_) missing
              simp [removals, opened] at member
          | some channel =>
              rcases Option.bind_eq_some_iff.mp opened with ⟨connection, connected, channelOpened⟩
              cases cancels : channel.basicCancel server.shared consumerTag queueName with
              | ok result =>
                  refine absurd (fun removal member => ?_) missing
                  have named : removal = (consumerTag, queueName) := by
                    simpa [removals, opened] using member
                  rw [named]
                  exact (Channel.basicCancel_ok_iff channel consumerTag queueName).mp
                    ⟨result, cancels⟩
              | error fault =>
                  rw [Channel.basicCancel_eq_error cancels] at cancels
                  simp only [handle, connected, channelOpened]
                  apply bind_error
                  simp only [Channel.handle, cancels]
                  rfl
      | _ => exact absurd (fun removal member => by cases member) missing

/-- An event uses the end iterator exactly if a unit is missing. -/
theorem perform_consumersEnd_iff (event : Event) :
    perform site event = .error .consumersEnd ↔ ¬ site.server.UnitsThere event.action := by
  rcases event with ⟨action, script⟩
  cases action with
  | connect conn =>
      constructor
      · intro impossible
        cases impossible
      · exact fun missing => absurd (fun removal member => by cases member) missing
  | disconnect conn =>
      rw [unitsThere_disconnect]
      constructor
      · rintro stopped ⟨next, deleted⟩
        simp only [perform, deleted] at stopped
        cases stopped
      · intro missing
        cases deletes : site.server.deleteConnection conn with
        | ok next => exact absurd ⟨next, deletes⟩ missing
        | error fault =>
            rw [deleteConnection_eq_error deletes] at deletes
            simp only [perform, deletes]
            rfl
  | packet conn chance packet =>
      constructor
      · intro stopped there
        rcases performed_eq_error (except_map_eq_error stopped) with ⟨world, ran⟩
        exact stopsBy_packet there _ _ _ ran rfl
      · intro missing
        simp only [perform, performed_error (handle_consumersEnd missing)]
        rfl

end Stops

/-! ## A queue has a unit while it exists -/

section Manning

variable {shared next : Shared} {sql : SqlOutcome} {world after : World} {accepted : Bool}

theorem Manned.congr (manned : Manned shared)
    (units : next.cmptr.qconsumers.names = shared.cmptr.qconsumers.names)
    (queues : next.host.qmptr.msgQueues = shared.host.qmptr.msgQueues) : Manned next := by
  intro qname
  rw [units, queues]
  exact manned qname

/-- A queue and its unit are declared together. -/
theorem Manned.declared (manned : Manned shared) (takesEffect : Bool) (queue : MsgQueue)
    (queues : next.host.qmptr = (shared.host.qmptr.declareQueue takesEffect queue).2)
    (units : next.cmptr = if (shared.host.qmptr.declareQueue takesEffect queue).1 then
      shared.cmptr.initQueueConsumer queue.name else shared.cmptr) : Manned next := by
  intro qname
  rw [queues, units]
  rcases shared.host.qmptr.declareQueue_cases takesEffect queue with ⟨present, declared⟩ |
    ⟨_, _, declared⟩ | ⟨_, _, declared⟩ | ⟨_, _, _, declared⟩
  all_goals rw [declared]
  · rw [if_pos rfl, Joined.mem_initQueueConsumer, manned]
    exact ⟨fun either => either.elim (fun same => same ▸ present) id, Or.inr⟩
  · rw [if_pos rfl, Joined.mem_initQueueConsumer, manned]
    exact (AList.mem_insert _).symm
  · rw [if_pos rfl, Joined.mem_initQueueConsumer, manned]
    exact (AList.mem_insert _).symm
  · exact manned qname

/-- A queue and its unit are deleted together. -/
theorem Manned.deleted (manned : Manned shared) (takesEffect : Bool) (queueName : Bytes)
    (queues : next.host.qmptr = (shared.host.qmptr.deleteQueue takesEffect queueName).2)
    (units : next.cmptr = if (shared.host.qmptr.deleteQueue takesEffect queueName).1 then
      shared.cmptr.destroyQueueConsumer queueName else shared.cmptr) : Manned next := by
  intro qname
  rw [queues, units]
  rcases shared.host.qmptr.deleteQueue_cases takesEffect queueName with ⟨absent, deleted⟩ |
    ⟨queue, _, ⟨_, deleted⟩ | ⟨_, _, deleted⟩ | ⟨_, _, deleted⟩⟩
  all_goals rw [deleted]
  · rw [if_pos rfl, Joined.mem_destroyQueueConsumer, manned]
    refine ⟨And.right, fun member => ⟨fun same => ?_, member⟩⟩
    exact AList.lookup_eq_none.mp absent (same ▸ member)
  · rw [if_pos rfl, Joined.mem_destroyQueueConsumer, manned]
    exact AList.mem_erase.symm
  · rw [if_pos rfl, Joined.mem_destroyQueueConsumer, manned]
    exact AList.mem_erase.symm
  · exact manned qname

theorem Manned.declareQueue [Protobuf] (manned : Manned shared) {queue : MsgQueue}
    (completed : Channel.declareQueue shared sql queue world = .ok (accepted, next) after) :
    Manned next := by
  rcases Channel.declareQueue_ok completed with ⟨mmptr, _, rfl, rfl⟩
  exact manned.declared sql.queueTable queue rfl rfl

theorem Manned.deleteQueue (manned : Manned shared) {queueName : Bytes}
    (completed : Channel.deleteQueue shared sql queueName world = .ok (accepted, next) after) :
    Manned next := by
  rcases Channel.deleteQueue_ok completed with ⟨mmptr, _, rfl, rfl⟩
  exact manned.deleted sql.queueTable queueName rfl rfl

/-- The same units and the same queues. -/
def SameNames (shared next : Shared) : Prop :=
  next.cmptr.qconsumers.names = shared.cmptr.qconsumers.names ∧
    next.host.qmptr.msgQueues = shared.host.qmptr.msgQueues

theorem sameNames_publishTurn {start : Shared} {address : Nat} {publication : Channel.Publication}
    {mqb : Bytes × Binding} (same : SameNames start shared)
    (completed : Channel.publishTurn address publication shared mqb world = .ok next after) :
    SameNames start next := by
  rcases Channel.publishTurn_ok completed with ⟨_, result, _⟩ | ⟨_, published, called, result⟩
  all_goals rw [result]
  · exact same
  · rcases VirtualHost.basicPublish_ok called with ⟨_, kept, _⟩ | ⟨queue, inserted, _, _, kept⟩
    all_goals rw [kept]
    · exact same
    · exact same

/-- The requests that neither declare nor delete a queue. -/
theorem sameNames_handle [Protobuf] {channel : Channel} {chance : Chance} {request : Request}
    {result : Bool × Channel × Shared}
    (undeclared : ∀ queue, request ≠ .declareQueue queue)
    (undeleted : ∀ queueName, request ≠ .deleteQueue queueName)
    (completed : channel.handle shared chance request world = .ok result after) :
    SameNames shared result.2.2 := by
  cases request with
  | declareQueue queue => exact absurd rfl (undeclared queue)
  | deleteQueue queueName => exact absurd rfl (undeleted queueName)
  | declareExchange exchange =>
      cases completed
      exact ⟨rfl, rfl⟩
  | deleteExchange exchangeName =>
      cases completed
      exact ⟨rfl, rfl⟩
  | queueBind exchangeName queueName bindingKey =>
      cases completed
      unfold Channel.queueBind
      rcases shared.host.bind_cases chance.sql exchangeName queueName bindingKey with
        ⟨_, bound⟩ | ⟨exchange, queue, _, _, bound⟩
      all_goals
        rw [bound]
        exact ⟨rfl, rfl⟩
  | queueUnbind exchangeName queueName =>
      cases completed
      exact ⟨rfl, rfl⟩
  | basicPublish exchangeName properties body =>
      rcases bind_eq_ok completed with ⟨done, middle, called, rest⟩
      cases rest
      have names : SameNames shared shared := ⟨rfl, rfl⟩
      exact Channel.basicPublish_invariant names sameNames_publishTurn called
  | basicAck queueName messageId =>
      rcases bind_eq_ok completed with ⟨done, middle, called, rest⟩
      cases rest
      rcases bind_eq_ok called with ⟨host, last, acked, rest⟩
      cases rest
      rcases bind_eq_ok acked with ⟨mmptr, end_, _, rest⟩
      cases rest
      exact ⟨rfl, rfl⟩
  | basicConsume consumerTag queueName autoAck =>
      cases completed
      unfold Channel.basicConsume
      cases shared.host.existsQueue queueName with
      | false => exact ⟨rfl, rfl⟩
      | true => exact ⟨Joined.create_names _ _, rfl⟩
  | basicCancel consumerTag queueName =>
      rcases bind_eq_ok completed with ⟨done, middle, called, rest⟩
      cases rest
      rcases Channel.basicCancel_ok (ofExcept_eq_ok called).1 with ⟨cmptr, removed, same⟩
      rw [same]
      exact ⟨Joined.remove_names _ removed, rfl⟩

theorem Manned.handle [Protobuf] (manned : Manned shared) {channel : Channel} {chance : Chance}
    {request : Request} {result : Bool × Channel × Shared}
    (completed : channel.handle shared chance request world = .ok result after) :
    Manned result.2.2 := by
  by_cases declares : ∃ queue, request = .declareQueue queue
  · rcases declares with ⟨queue, rfl⟩
    rcases bind_eq_ok completed with ⟨done, middle, called, rest⟩
    cases rest
    exact manned.declareQueue called
  · by_cases deletes : ∃ queueName, request = .deleteQueue queueName
    · rcases deletes with ⟨queueName, rfl⟩
      rcases bind_eq_ok completed with ⟨done, middle, called, rest⟩
      cases rest
      exact manned.deleteQueue called
    · have same := sameNames_handle (fun queue equal => declares ⟨queue, equal⟩)
        (fun queueName equal => deletes ⟨queueName, equal⟩) completed
      exact manned.congr same.1 same.2

theorem Manned.destroy (manned : Manned shared) {channel : Channel}
    (completed : Channel.destroy shared channel = .ok next) : Manned next := by
  rcases Channel.destroy_ok completed with ⟨_, same⟩ | ⟨consumer, cmptr, _, removed, same⟩
  all_goals rw [same]
  · exact manned
  · exact manned.congr (Joined.remove_names _ removed) rfl

theorem manned_step [Protobuf] {site next : Site} {event : Event}
    (manned : Manned site.server.shared) (stepped : perform site event = .ok next) :
    Manned next.server.shared := by
  rcases event with ⟨action, script⟩
  cases action with
  | connect conn =>
      cases stepped
      exact manned
  | disconnect conn =>
      rcases except_map_eq_ok stepped with ⟨server, completed, same⟩
      rw [← same]
      exact deleteConnection_keeps (fun _ _ _ held destroyed => held.destroy destroyed) manned
        completed
  | packet conn chance packet =>
      rcases except_map_eq_ok stepped with ⟨done, completed, same⟩
      rcases performed_eq_ok completed with ⟨world, ran, _⟩
      rw [← same]
      exact handle_keeps (fun _ held => held) (fun _ _ _ held destroyed => held.destroy destroyed)
        (fun _ _ _ held handled => held.handle handled) manned ran

/-- The constructor makes a unit for every recovered queue. -/
theorem manned_new [Protobuf] {database : Database} {basedir : Bytes} {server : Server}
    (created : new database basedir world = .ok server after) : Manned server.shared := by
  rcases bind_eq_ok created with ⟨host, middle, _, rest⟩
  cases rest
  have listed : ∀ (names : List Bytes) (manager : ConsumerManager) (qname : Bytes),
      qname ∈ (names.foldl ConsumerManager.initQueueConsumer manager).qconsumers.names ↔
        qname ∈ names ∨ qname ∈ manager.qconsumers.names := by
    intro names
    induction names with
    | nil => simp
    | cons name rest inductionHypothesis =>
        intro manager qname
        rw [List.foldl_cons, inductionHypothesis, Joined.mem_initQueueConsumer, List.mem_cons]
        tauto
  intro qname
  refine (listed _ _ qname).trans ?_
  constructor
  · rintro (member | nothing)
    · exact member
    · cases nothing
  · exact Or.inl

end Manning

/-- Unsubscribing does no harm in an event exactly if the queues exist. -/
theorem unsubscribeSafe_iff [Protobuf] {site : Site} {event : Event}
    (manned : Manned site.server.shared) :
    UnsubscribeSafe site event ↔ RemovesFromQueues site event := by
  have exist : RemovesFromQueues site event ↔ site.server.UnitsThere event.action :=
    forall₂_congr fun removal _ => (manned removal.2).symm.trans mem_names_iff
  constructor
  · intro safe
    rw [exist]
    exact not_not.mp fun missing => safe.defined ((perform_consumersEnd_iff event).mpr missing)
  · intro there
    rw [exist] at there
    refine ⟨fun stopped => (perform_consumersEnd_iff event).mp stopped there, ?_⟩
    intro removal member missing
    rcases there removal member with ⟨unit, selected⟩
    cases missing.symm.trans selected

/-- From the start of the server on any database, in every run, unsubscribing
does no harm in any event if and only if every queue that is unsubscribed from
exists at that time. -/
theorem unsubscribeSafe_along_iff [Protobuf] {database : Database} {basedir : Bytes}
    {world after : World} {server : Server} (created : new database basedir world = .ok server after)
    (events : List Event) :
    Along perform UnsubscribeSafe ⟨server, after.disk⟩ events ↔
      Along perform RemovesFromQueues ⟨server, after.disk⟩ events :=
  along_congr (fun _ _ _ manned stepped => manned_step manned stepped)
    (fun _ _ manned => unsubscribeSafe_iff manned) (manned_new created)

/-- A client subscribes to a queue, cancels, deletes the queue and leaves. -/
def cancelling : List Event :=
  [⟨.connect 0, []⟩, ⟨.packet 0 {} (.openChannel [] (ascii "c")), []⟩,
    ⟨.packet 0 {} (.request [] (ascii "c") (.declareQueue ⟨ascii "q", false, false, false, ∅⟩)), []⟩,
    ⟨.packet 0 {} (.request [] (ascii "c") (.basicConsume (ascii "t") (ascii "q") false)), []⟩,
    ⟨.packet 0 {} (.request [] (ascii "c") (.basicCancel (ascii "t") (ascii "q"))), []⟩,
    ⟨.packet 0 {} (.request [] (ascii "c") (.deleteQueue (ascii "q"))), []⟩,
    ⟨.disconnect 0, []⟩]

theorem cancelling_is_safe :
    Along (@perform wireFormat) (@UnsubscribeSafe wireFormat) ⟨fresh [], fun _ => none⟩
      cancelling := by
  refine (@unsubscribeSafe_along_iff wireFormat {} [] ⟨fun _ => none, []⟩ _ _ rfl cancelling).mpr ?_
  decide

/-- A client cancels on a queue that was never declared. -/
theorem unknown_queue_uses_the_end :
    ¬ ∀ events : List Event, Along (@perform wireFormat) (@UnsubscribeSafe wireFormat)
      ⟨fresh [], fun _ => none⟩ events := by
  intro always
  have safe := (always ([⟨.connect 0, []⟩, ⟨.packet 0 {} (.openChannel [] (ascii "c")), []⟩] ++
    [⟨.packet 0 {} (.request [] (ascii "c") (.basicCancel (ascii "t") (ascii "q"))), []⟩])).last rfl
  exact safe.defined rfl

end Server

end ProtobufMq
