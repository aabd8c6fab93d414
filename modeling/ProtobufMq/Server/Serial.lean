import ProtobufMq.Server.Threads

namespace ProtobufMq

open Foundation

/-!
# One thing after another

The server and the machine describe the same program, the one with every
request and every task in one piece, the other in the pieces between which
threads may change places.  A run of the server is one of the runs of the
machine: when no task runs in between, the pieces of a request do what the
request does.  In the same way the pieces of a task do what `Channel::consume`
does, when nothing runs in between.
-/

namespace Server

/-- The machine whose event loop has nothing in hand. -/
def Site.machine (site : Site) (phase : Nat → Phase) (sent : List Delivery) : Machine :=
  { server := site.server, disk := site.disk, phase := phase, sent := sent }

end Server

namespace Machine

/-- The machine with other managers, another disk and something in hand. -/
def handling (machine : Machine) (shared : Shared) (disk : Disk) (loop : Loop) : Machine :=
  { machine.withShared shared with disk := disk, loop := loop }

/-! ## The pieces of a request -/

section Requests

variable [Protobuf] {machine next : Machine} {move : Move} {script rest : List Outcome}
  {disk left : Disk} {shared final : Shared}

/-- A step whose code completes. -/
theorem perform_ok {world : World}
    (completed : machine.step move ⟨machine.disk, script⟩ = .ok next world) :
    perform machine ⟨move, script⟩ = .ok { next with disk := world.disk } := by
  rw [perform, performed_ok completed]
  rfl

/-- The pieces of closing a connection. -/
theorem reaches_closing (machine : Machine) {channels : List Channel}
    (destroyed : channels.foldlM Channel.destroy shared = .ok final) :
    Reaches perform (machine.handling shared disk (.closing channels))
      (machine.handling final disk .idle) := by
  induction channels generalizing shared with
  | nil =>
      cases destroyed
      exact ⟨[⟨.proceed, []⟩], rfl⟩
  | cons channel others inductionHypothesis =>
      rw [List.foldlM_cons] at destroyed
      rcases except_bind_eq_ok destroyed with ⟨between, first, later⟩
      have stepped : (machine.handling shared disk (.closing (channel :: others))).step .proceed
          ⟨disk, []⟩ = .ok (machine.handling between disk (.closing others)) ⟨disk, []⟩ := by
        change (ofExcept (Channel.destroy shared channel) >>= _) _ = _
        rw [first]
        rfl
      exact (inductionHypothesis later).cons (perform_ok stepped)

/-- The pieces of publishing. -/
theorem reaches_publishing (machine : Machine) {mqbs : List (Bytes × Binding)} {address : Nat}
    {publication : Channel.Publication}
    (looped : mqbs.foldlM (Channel.publishTurn address publication) shared ⟨disk, script⟩ =
      .ok final ⟨left, rest⟩) :
    Reaches perform (machine.handling shared disk (.publishing address publication mqbs))
      (machine.handling final left .idle) := by
  induction mqbs generalizing shared disk script with
  | nil =>
      cases looped
      exact ⟨[⟨.proceed, []⟩], rfl⟩
  | cons mqb others inductionHypothesis =>
      rw [List.foldlM_cons] at looped
      rcases bind_eq_ok looped with ⟨between, ⟨middle, later⟩, turned, continued⟩
      rcases bind_eq_ok turned with ⟨⟨accepted, entered⟩, reached, inserted, pushed⟩
      cases pushed
      have stepped : (machine.handling shared disk
          (.publishing address publication (mqb :: others))).step .proceed ⟨disk, script⟩ =
            .ok (machine.handling entered disk (if accepted then
              .pushing address publication mqb.1 others
              else .publishing address publication others)) ⟨middle, later⟩ := bind_ok inserted
      cases accepted with
      | false => exact (inductionHypothesis continued).cons (perform_ok stepped)
      | true =>
          have pushes : perform (machine.handling entered middle
              (.pushing address publication mqb.1 others)) ⟨.proceed, []⟩ =
                .ok (machine.handling (Channel.pushTask address entered mqb.1) middle
                  (.publishing address publication others)) := rfl
          exact ((inductionHypothesis continued).cons pushes).cons (perform_ok stepped)

/-- The pieces of declaring a queue, once its name has a store. -/
theorem reaches_declaring (machine : Machine) (shared : Shared) (disk : Disk) (sql : SqlOutcome)
    (queue : MsgQueue) :
    Reaches perform (machine.handling shared disk (.declaring sql queue))
      (machine.handling (declare shared sql queue) disk .idle) :=
  ⟨[⟨.proceed, []⟩], rfl⟩

/-- The pieces of declaring a queue, once its name has a new store. -/
theorem reaches_recovering (machine : Machine) {store : Nat} {sql : SqlOutcome} {queue : MsgQueue}
    {mmptr : MessageManager}
    (recovered : shared.host.mmptr.recover store ⟨disk, script⟩ = .ok mmptr ⟨left, rest⟩) :
    Reaches perform (machine.handling shared disk (.recovering store sql queue))
      (machine.handling
        (declare { shared with host := { shared.host with mmptr := mmptr } } sql queue) left
        .idle) := by
  have stepped : (machine.handling shared disk (.recovering store sql queue)).step .proceed
      ⟨disk, script⟩ = .ok (machine.handling
        { shared with host := { shared.host with mmptr := mmptr } } disk (.declaring sql queue))
          ⟨left, rest⟩ := bind_ok recovered
  exact (reaches_declaring machine _ left sql queue).cons (perform_ok stepped)

/-- The pieces of deleting a queue, once its store is empty. -/
theorem reaches_deleting (machine : Machine) (shared : Shared) (disk : Disk) (sql : SqlOutcome)
    (queueName : Bytes) :
    Reaches perform (machine.handling shared disk (.deleting sql queueName))
      (machine.handling (delete shared sql queueName) disk .idle) :=
  ⟨[⟨.proceed, []⟩], rfl⟩

/-- The pieces of deleting a queue, once its name is gone. -/
theorem reaches_clearing (machine : Machine) {store : Nat} {sql : SqlOutcome} {queueName : Bytes}
    {mmptr : MessageManager}
    (cleared : shared.host.mmptr.clearStore store ⟨disk, script⟩ = .ok mmptr ⟨left, rest⟩) :
    Reaches perform (machine.handling shared disk (.clearing store sql queueName))
      (machine.handling
        (delete { shared with host := { shared.host with mmptr := mmptr } } sql queueName) left
        .idle) := by
  have stepped : (machine.handling shared disk (.clearing store sql queueName)).step .proceed
      ⟨disk, script⟩ = .ok (machine.handling
        { shared with host := { shared.host with mmptr := mmptr } } disk (.deleting sql queueName))
          ⟨left, rest⟩ := bind_ok cleared
  exact (reaches_deleting machine _ left sql queueName).cons (perform_ok stepped)

end Requests

/-! ## A packet -/

section Packets

variable [Protobuf] {machine next : Machine} {conn : Nat} {rid cid : Bytes} {channel : Channel}
  {chance : Chance} {packet : Packet} {script rest : List Outcome} {final : Shared} {left : Disk}
  {accepted : Bool}

/-- A packet that an idle machine takes up. -/
theorem perform_packet {world : World} (idle : machine.loop = .idle)
    (taken : machine.accept conn chance packet ⟨machine.disk, script⟩ = .ok next world) :
    perform machine ⟨.packet conn chance packet, script⟩ = .ok { next with disk := world.disk } := by
  apply perform_ok
  have accepts : machine.isIdle = true := by rw [isIdle, idle]
  rw [step, if_pos accepts]
  exact taken

/-- A packet that is served in one piece. -/
theorem reaches_whole {done : Reply × Server} {world : World} (idle : machine.loop = .idle)
    (whole : machine.accept conn chance packet = (do
      let done ← machine.server.handle conn chance packet
      return { machine with server := done.2 }))
    (handled : machine.server.handle conn chance packet ⟨machine.disk, script⟩ = .ok done world) :
    Reaches perform machine { machine with server := done.2, disk := world.disk } := by
  have taken : machine.accept conn chance packet ⟨machine.disk, script⟩ =
      .ok { machine with server := done.2 } world := by
    rw [whole]
    exact bind_ok handled
  exact (Reaches.refl _).cons (perform_packet idle taken)

theorem reaches_declareQueue {queue : MsgQueue} (idle : machine.loop = .idle)
    (opened : machine.server.channelAt conn cid = some channel)
    (declared : Channel.declareQueue machine.server.shared chance.sql queue
      ⟨machine.disk, script⟩ = .ok (accepted, final) ⟨left, rest⟩) :
    Reaches perform machine (machine.handling final left .idle) := by
  rcases Channel.declareQueue_ok declared with ⟨mmptr, initialised, acceptedEq, result⟩
  have final_eq : final = declare { machine.server.shared with
      host := { machine.server.shared.host with mmptr := mmptr } } chance.sql queue := by
    rw [result, acceptedEq]
    rfl
  rcases bind_eq_ok initialised with ⟨admitted, ⟨middle, later⟩, entered, completing⟩
  rcases admitted with ⟨_ | store, others⟩
  · have taken : machine.accept conn chance (.request [] cid (.declareQueue queue))
        ⟨machine.disk, script⟩ =
          .ok { machine.withMessages others with loop := .declaring chance.sql queue }
            ⟨middle, later⟩ := by
      simp only [accept, opened]
      exact bind_ok entered
    cases completing
    rw [final_eq]
    exact (reaches_declaring machine _ left chance.sql queue).cons (perform_packet idle taken)
  · have taken : machine.accept conn chance (.request [] cid (.declareQueue queue))
        ⟨machine.disk, script⟩ =
          .ok { machine.withMessages others with loop := .recovering store chance.sql queue }
            ⟨middle, later⟩ := by
      simp only [accept, opened]
      exact bind_ok entered
    rw [final_eq]
    exact (reaches_recovering machine completing).cons (perform_packet idle taken)

theorem reaches_deleteQueue {queueName : Bytes} (idle : machine.loop = .idle)
    (opened : machine.server.channelAt conn cid = some channel)
    (deleted : Channel.deleteQueue machine.server.shared chance.sql queueName
      ⟨machine.disk, script⟩ = .ok (accepted, final) ⟨left, rest⟩) :
    Reaches perform machine (machine.handling final left .idle) := by
  rcases Channel.deleteQueue_ok deleted with ⟨mmptr, destroyed, acceptedEq, result⟩
  have final_eq : final = delete { machine.server.shared with
      host := { machine.server.shared.host with
        bmptr := machine.server.shared.host.bmptr.removeMsgQueueBindings
          chance.sql.bindingTable queueName
        mmptr := mmptr } } chance.sql queueName := by
    rw [result, acceptedEq]
    rfl
  let unbound := machine.server.shared.host.bmptr.removeMsgQueueBindings
    chance.sql.bindingTable queueName
  unfold MessageManager.destroyQueueMessage at destroyed
  rcases withdrawn : machine.server.shared.host.mmptr.withdraw queueName with ⟨_ | store, others⟩
  · have taken : machine.accept conn chance (.request [] cid (.deleteQueue queueName))
        ⟨machine.disk, script⟩ =
          .ok { machine.withShared { machine.server.shared with
              host := { machine.server.shared.host with bmptr := unbound, mmptr := others } } with
            loop := .deleting chance.sql queueName } ⟨machine.disk, script⟩ := by
      simp only [accept, opened, withdrawn]
      rfl
    rw [withdrawn] at destroyed
    cases destroyed
    rw [final_eq]
    exact (reaches_deleting machine _ _ chance.sql queueName).cons (perform_packet idle taken)
  · have taken : machine.accept conn chance (.request [] cid (.deleteQueue queueName))
        ⟨machine.disk, script⟩ =
          .ok { machine.withShared { machine.server.shared with
              host := { machine.server.shared.host with bmptr := unbound, mmptr := others } } with
            loop := .clearing store chance.sql queueName } ⟨machine.disk, script⟩ := by
      simp only [accept, opened, withdrawn]
      rfl
    rw [withdrawn] at destroyed
    rw [final_eq]
    let shared : Shared := { machine.server.shared with
      host := { machine.server.shared.host with bmptr := unbound, mmptr := others } }
    exact (@reaches_clearing _ _ _ _ _ shared machine _ _ _ _ destroyed).cons
      (perform_packet idle taken)

theorem reaches_basicPublish {exchangeName body : Bytes} {properties : Option BasecProperties}
    (idle : machine.loop = .idle) (opened : machine.server.channelAt conn cid = some channel)
    (published : Channel.basicPublish channel.address machine.server.shared chance exchangeName
      properties body ⟨machine.disk, script⟩ = .ok (accepted, final) ⟨left, rest⟩) :
    Reaches perform machine (machine.handling final left .idle) := by
  rcases Channel.basicPublish_ok published with ⟨selected, _, same, unchanged⟩ |
    ⟨exchange, selected, _, looped⟩
  · cases same
    cases unchanged
    rcases machine with ⟨server, disk, loop, phase, sent⟩
    cases idle
    exact Reaches.refl _
  · have taken : machine.accept conn chance
        (.request [] cid (.basicPublish exchangeName properties body)) ⟨machine.disk, script⟩ =
          .ok { machine with
            loop := .publishing channel.address ⟨exchange.type, properties, body, chance.uuid⟩
              (chance.traversal.order (MsgQueueBindingMap.pairs
                (machine.server.shared.host.exchangeBindings exchangeName))) }
            ⟨machine.disk, script⟩ := by
      simp only [accept, opened, selected]
      rfl
    exact (reaches_publishing machine looped).cons (perform_packet idle taken)

/-- The pieces of a packet do what the packet does. -/
theorem reaches_packet {done : Reply × Server} (idle : machine.loop = .idle)
    (handled : machine.server.handle conn chance packet ⟨machine.disk, script⟩ =
      .ok done ⟨left, rest⟩) :
    Reaches perform machine { machine with server := done.2, disk := left } := by
  cases packet with
  | openChannel rid cid => exact reaches_whole idle rfl handled
  | closeChannel rid cid => exact reaches_whole idle rfl handled
  | request rid cid request =>
      rcases Server.request_ok handled with ⟨absent, same, _⟩ |
        ⟨connection, channel, result, connected, opened, carried, same⟩
      · refine reaches_whole idle ?_ handled
        simp only [accept, absent]
      · have here := (Server.channelAt_eq connected cid).trans opened
        have written : Dictionary.assign conn ⟨Dictionary.assign cid channel connection.channels⟩
            machine.server.connections = machine.server.connections := by
          rw [Dictionary.assign_self opened]
          exact Dictionary.assign_self connected
        cases request with
        | basicPublish exchangeName properties body =>
            rcases bind_eq_ok carried with ⟨⟨accepted, final⟩, middle, published, returned⟩
            cases returned
            rw [same, written, idle]
            exact reaches_basicPublish idle here published
        | declareQueue queue =>
            rcases bind_eq_ok carried with ⟨⟨accepted, final⟩, middle, declared, returned⟩
            cases returned
            rw [same, written, idle]
            exact reaches_declareQueue idle here declared
        | deleteQueue queueName =>
            rcases bind_eq_ok carried with ⟨⟨accepted, final⟩, middle, deleted, returned⟩
            cases returned
            rw [same, written, idle]
            exact reaches_deleteQueue idle here deleted
        | _ =>
            refine reaches_whole idle ?_ handled
            simp only [accept, here]

/-- The pieces of a connection that goes down. -/
theorem reaches_disconnect {server : Server} (idle : machine.loop = .idle)
    (closed : machine.server.deleteConnection conn = .ok server) :
    Reaches perform machine { machine with server := server } := by
  rcases machine with ⟨before, disk, loop, phase, sent⟩
  cases idle
  unfold Server.deleteConnection at closed
  cases connected : before.connections.lookup conn with
  | none =>
      rw [connected] at closed
      cases closed
      exact Reaches.refl _
  | some connection =>
      rw [connected] at closed
      rcases except_map_eq_ok closed with ⟨shared, destroyed, same⟩
      let others : Machine :=
        { server := ⟨before.shared, before.connections.erase conn⟩, disk := disk, phase := phase,
          sent := sent }
      have stepped : step ⟨before, disk, .idle, phase, sent⟩ (.disconnect conn) ⟨disk, []⟩ =
          .ok (others.handling before.shared disk (.closing (Dictionary.values connection.channels)))
            ⟨disk, []⟩ := by
        simp only [step, isIdle, if_true, disconnect, connected]
        rfl
      rw [← same]
      exact (reaches_closing others destroyed).cons (perform_ok stepped)

end Packets

end Machine

namespace Server

section Serial

variable [Protobuf] {site next final : Site} {phase : Nat → Phase} {sent : List Delivery}

/-- An action is the work of the pieces of it. -/
theorem reaches_perform {event : Event} (stepped : perform site event = .ok next) :
    Reaches Machine.perform (site.machine phase sent) (next.machine phase sent) := by
  rcases event with ⟨action, script⟩
  cases action with
  | connect conn =>
      cases stepped
      exact ⟨[⟨.connect conn, []⟩], rfl⟩
  | disconnect conn =>
      rcases except_map_eq_ok stepped with ⟨server, closed, same⟩
      cases same
      exact Machine.reaches_disconnect rfl closed
  | packet conn chance packet =>
      rcases except_map_eq_ok stepped with ⟨done, completed, same⟩
      rcases performed_eq_ok completed with ⟨world, handled, left⟩
      cases same
      rw [← left]
      exact Machine.reaches_packet rfl handled

/-- Every run of the server, one request after another, is a run of the machine
in which no task gets a turn. -/
theorem reaches_run {events : List Event} (completes : run perform site events = .ok final) :
    Reaches Machine.perform (site.machine phase sent) (final.machine phase sent) :=
  reaches_of_run (fun _ _ _ => reaches_perform) completes

end Serial

end Server

namespace Machine

/-! ## The pieces of a task -/

/-- The calls of callbacks by a task that has ended. -/
def deliveries (index : Nat) : Option (Taken × Option Choice) → List Delivery
  | none => []
  | some (_, none) => []
  | some (taken, some choice) => [⟨index, taken, choice⟩]

/-- The machine with other managers, another disk and a task in another phase. -/
def tasking (machine : Machine) (index : Nat) (shared : Shared) (disk : Disk) (phase : Phase)
    (sent : List Delivery) : Machine :=
  { machine.withShared shared with
    disk := disk, phase := Function.update machine.phase index phase, sent := sent }

section Tasks

variable {machine : Machine} {index : Nat} {task : Task} {shared final : Shared} {disk left : Disk}
  {phase : Phase} {sent : List Delivery} {script rest : List Outcome} {taken : Taken}
  {choice : Choice}

@[simp] theorem tasking_phase :
    (machine.tasking index shared disk phase sent).phase index = phase := by
  simp only [tasking, Function.update_self]

@[simp] theorem tasking_withPhase (next : Phase) :
    (machine.tasking index shared disk phase sent).withPhase index next =
      machine.tasking index shared disk next sent := by
  rw [withPhase, tasking, Function.update_idem]
  rfl

@[simp] theorem tasking_withShared (next : Shared) :
    (machine.tasking index shared disk phase sent).withShared next =
      machine.tasking index next disk phase sent := rfl

@[simp] theorem tasking_withMessages (mmptr : MessageManager) :
    (machine.tasking index shared disk phase sent).withMessages mmptr =
      machine.tasking index { shared with host := { shared.host with mmptr := mmptr } } disk phase
        sent := rfl

@[simp] theorem tasking_isOpen (address : Nat) :
    (machine.tasking index shared disk phase sent).isOpen address = machine.isOpen address := rfl

@[simp] theorem tasking_shared :
    (machine.tasking index shared disk phase sent).server.shared = shared := rfl

@[simp] theorem tasking_sent :
    (machine.tasking index shared disk phase sent).sent = sent := rfl

variable [Protobuf]

/-- A piece of a task that works on a file. -/
theorem reaches_piece {target : Machine} {next : Shared} {reached : Phase}
    (pushed : shared.pool[index]? = some task)
    (consumed : (machine.tasking index shared disk phase sent).consume index task ⟨disk, script⟩ =
      .ok (machine.tasking index next disk reached sent) ⟨left, rest⟩)
    (onward : Reaches perform (machine.tasking index next left reached sent) target) :
    Reaches perform (machine.tasking index shared disk phase sent) target := by
  have worked : (machine.tasking index shared disk phase sent).step (.work index) ⟨disk, script⟩ =
      .ok (machine.tasking index next disk reached sent) ⟨left, rest⟩ := by
    rw [step, work, tasking_shared, pushed]
    exact consumed
  exact onward.cons (perform_ok worked)

/-- A piece of a task that leaves the files alone. -/
theorem reaches_turn {target : Machine} {next : Shared} {reached : Phase}
    {delivered : List Delivery} (pushed : shared.pool[index]? = some task)
    (consumed : (machine.tasking index shared disk phase sent).consume index task =
      pure (machine.tasking index next disk reached delivered))
    (onward : Reaches perform (machine.tasking index next disk reached delivered) target) :
    Reaches perform (machine.tasking index shared disk phase sent) target := by
  have worked : (machine.tasking index shared disk phase sent).step (.work index) ⟨disk, []⟩ =
      .ok (machine.tasking index next disk reached delivered) ⟨disk, []⟩ := by
    rw [step, work, tasking_shared, pushed]
    exact congrFun consumed ⟨disk, []⟩
  exact onward.cons (perform_ok worked)

/-- The pieces of an automatic acknowledgement. -/
theorem reaches_acknowledging (pushed : shared.pool[index]? = some task)
    (there : machine.isOpen task.channel = true) (auto : choice.consumer.autoAck = true)
    (acknowledged : Channel.basicAck shared task.queueName taken.pointer.id ⟨disk, script⟩ =
      .ok final ⟨left, rest⟩) :
    Reaches perform (machine.tasking index shared disk (.delivered taken choice) sent)
      (machine.tasking index final left (.ended (some (taken, some choice))) sent) := by
  rcases bind_eq_ok acknowledged with ⟨host, middle, acked, returned⟩
  cases returned
  rcases bind_eq_ok acked with ⟨mmptr, middle, acked, returned⟩
  cases returned
  unfold MessageManager.ack at acked
  cases found : shared.host.mmptr.queueMsgs.find task.queueName with
  | none =>
      rw [found] at acked
      cases acked
      refine reaches_turn pushed ?_ (Reaches.refl _)
      simp only [consume, tasking_phase, auto, if_true, tasking_isOpen, there, tasking_shared,
        found, tasking_withPhase]
  | some store =>
      rw [found] at acked
      have looked : (machine.tasking index shared disk (.delivered taken choice) sent).consume index
          task = pure (machine.tasking index shared disk (.acking taken choice store) sent) := by
        simp only [consume, tasking_phase, auto, if_true, tasking_isOpen, there, tasking_shared,
          found, tasking_withPhase]
      have removed : (machine.tasking index shared disk (.acking taken choice store) sent).consume
          index task ⟨disk, script⟩ = .ok (machine.tasking index
            { shared with host := { shared.host with mmptr := mmptr } } disk
            (.ended (some (taken, some choice))) sent) ⟨left, rest⟩ := by
        simp only [consume, tasking_phase, tasking_shared]
        refine (bind_ok acked).trans ?_
        rw [tasking_withMessages, tasking_withPhase]
        rfl
      exact reaches_turn pushed looked (reaches_piece pushed removed (Reaches.refl _))

/-- The pieces of a choice, when there is nobody to choose. -/
theorem reaches_unchosen {cmptr : ConsumerManager} (pushed : shared.pool[index]? = some task)
    (there : machine.isOpen task.channel = true)
    (nobody : shared.cmptr.choose task.queueName = (none, cmptr)) :
    Reaches perform (machine.tasking index shared disk (.taken taken) sent)
      (machine.tasking index { shared with cmptr := cmptr } disk (.ended (some (taken, none)))
        sent) := by
  unfold ConsumerManager.choose at nobody
  cases found : shared.cmptr.qconsumers.find task.queueName with
  | none =>
      rw [found] at nobody
      cases nobody
      refine reaches_turn pushed ?_ (Reaches.refl _)
      simp only [consume, tasking_phase, tasking_isOpen, there, if_true, tasking_shared, found,
        tasking_withPhase]
  | some unit =>
      rw [found] at nobody
      simp only at nobody
      have asked : (machine.tasking index shared disk (.taken taken) sent).consume index task =
          pure (machine.tasking index shared disk (.asking taken unit) sent) := by
        simp only [consume, tasking_phase, tasking_isOpen, there, if_true, tasking_shared, found,
          tasking_withPhase]
      refine reaches_turn pushed asked (reaches_turn pushed ?_ (Reaches.refl _))
      simp only [consume, tasking_phase, tasking_shared, nobody, tasking_withShared,
        tasking_withPhase]

/-- The pieces of a choice and of the callback. -/
theorem reaches_calling (taken : Taken) {cmptr : ConsumerManager} {consumer : Consumer}
    (pushed : shared.pool[index]? = some task) (there : machine.isOpen task.channel = true)
    (chose : shared.cmptr.choose task.queueName = (some consumer, cmptr))
    (callable : machine.isOpen consumer.channel = true) :
    ∃ candidates, Reaches perform (machine.tasking index shared disk (.taken taken) sent)
      (machine.tasking index { shared with cmptr := cmptr } disk
        (.delivered taken ⟨consumer, candidates⟩)
        (sent ++ [⟨index, taken, ⟨consumer, candidates⟩⟩])) := by
  refine ⟨shared.cmptr.registered task.queueName, ?_⟩
  unfold ConsumerManager.choose at chose
  cases found : shared.cmptr.qconsumers.find task.queueName with
  | none =>
      rw [found] at chose
      cases chose
  | some unit =>
      rw [found] at chose
      simp only at chose
      let choice : Choice := ⟨consumer, shared.cmptr.registered task.queueName⟩
      have asked : (machine.tasking index shared disk (.taken taken) sent).consume index task =
          pure (machine.tasking index shared disk (.asking taken unit) sent) := by
        simp only [consume, tasking_phase, tasking_isOpen, there, if_true, tasking_shared, found,
          tasking_withPhase]
      have chosen : (machine.tasking index shared disk (.asking taken unit) sent).consume index
          task = pure (machine.tasking index { shared with cmptr := cmptr } disk
            (.chosen taken choice) sent) := by
        simp only [consume, tasking_phase, tasking_shared, chose, tasking_withShared,
          tasking_withPhase, choice]
      refine reaches_turn pushed asked (reaches_turn pushed chosen
        (reaches_turn pushed ?_ (Reaches.refl _)))
      simp only [consume, tasking_phase, tasking_isOpen, callable, if_true, tasking_withPhase,
        tasking_sent, choice]
      rfl

/-- What is left of a task after the callback. -/
theorem reaches_finishing {result : Option (MessagePtr × Option Consumer)}
    (pushed : shared.pool[index]? = some task) (there : machine.isOpen task.channel = true)
    (finished : (if choice.consumer.autoAck then do
        let shared ← Channel.basicAck shared task.queueName taken.pointer.id
        return (some (taken.pointer, some choice.consumer), shared)
      else return (some (taken.pointer, some choice.consumer), shared) :
        FileM (Option (MessagePtr × Option Consumer) × Shared)) ⟨disk, script⟩ =
      .ok (result, final) ⟨left, rest⟩) :
    result = some (taken.pointer, some choice.consumer) ∧
      Reaches perform (machine.tasking index shared disk (.delivered taken choice) sent)
        (machine.tasking index final left (.ended (some (taken, some choice))) sent) := by
  cases auto : choice.consumer.autoAck with
  | false =>
      rw [auto] at finished
      cases finished
      refine ⟨rfl, reaches_turn pushed ?_ (Reaches.refl _)⟩
      simp only [consume, tasking_phase, auto, tasking_withPhase]
      rfl
  | true =>
      rw [auto] at finished
      rcases bind_eq_ok finished with ⟨shared, middle, acknowledged, returned⟩
      cases returned
      exact ⟨rfl, reaches_acknowledging pushed there auto acknowledged⟩

theorem reaches_consuming (sent : List Delivery) {result : Option (MessagePtr × Option Consumer)}
    (pushed : shared.pool[index]? = some task) (there : machine.isOpen task.channel = true)
    (consumed : Channel.consume shared task.queueName ⟨disk, script⟩ =
      .ok (result, final) ⟨left, rest⟩)
    (callable : ∀ pointer consumer, result = some (pointer, some consumer) →
      machine.isOpen consumer.channel = true) :
    ∃ outcome, outcome.map (fun ended => (ended.1.pointer, ended.2.map Choice.consumer)) = result ∧
      Reaches perform (machine.tasking index shared disk .ready sent)
        (machine.tasking index final left (.ended outcome)
          (sent ++ deliveries index outcome)) := by
  unfold Channel.consume VirtualHost.basicConsume MessageManager.front at consumed
  cases found : shared.host.mmptr.queueMsgs.find task.queueName with
  | none =>
      rw [found] at consumed
      cases consumed
      refine ⟨none, rfl, reaches_turn pushed ?_ (Reaches.refl _)⟩
      simp only [consume, tasking_phase, tasking_isOpen, there, if_true, tasking_shared, found,
        tasking_withPhase, deliveries, List.append_nil]
  | some store =>
      have looked : (machine.tasking index shared disk .ready sent).consume index task =
          pure (machine.tasking index shared disk (.looked store) sent) := by
        simp only [consume, tasking_phase, tasking_isOpen, there, if_true, tasking_shared, found,
          tasking_withPhase]
      rw [found] at consumed
      rcases fronted : shared.host.mmptr.frontOf store with ⟨_ | pointer, mmptr⟩
      · simp only [fronted] at consumed
        cases consumed
        refine ⟨none, rfl, reaches_turn pushed looked (reaches_turn pushed ?_ (Reaches.refl _))⟩
        simp only [consume, tasking_phase, tasking_shared, fronted, tasking_withMessages,
          tasking_withPhase, deliveries, List.append_nil]
      · simp only [fronted] at consumed
        let popped : Shared := { shared with host := { shared.host with mmptr := mmptr } }
        have took : (machine.tasking index shared disk (.looked store) sent).consume index task =
            pure (machine.tasking index popped disk (.taken ⟨store, pointer⟩) sent) := by
          simp only [consume, tasking_phase, tasking_shared, fronted, tasking_withMessages,
            tasking_withPhase, popped]
        rcases chose : shared.cmptr.choose task.queueName with ⟨_ | consumer, cmptr⟩
        · simp only [chose] at consumed
          cases consumed
          refine ⟨some (⟨store, pointer⟩, none), rfl,
            reaches_turn pushed looked (reaches_turn pushed took ?_)⟩
          rw [deliveries, List.append_nil]
          exact reaches_unchosen pushed there chose
        · simp only [chose] at consumed
          have pushedStill : popped.pool[index]? = some task := pushed
          have finishing := fun candidates =>
            @reaches_finishing machine index task { popped with cmptr := cmptr } final disk left
              (sent ++ [⟨index, ⟨store, pointer⟩, ⟨consumer, candidates⟩⟩]) script rest
              ⟨store, pointer⟩ ⟨consumer, candidates⟩ _ result pushed there consumed
          rcases reaches_calling ⟨store, pointer⟩ pushedStill there chose
            (callable pointer consumer (finishing []).1) with ⟨candidates, called⟩
          exact ⟨some (⟨store, pointer⟩, some ⟨consumer, candidates⟩),
            (finishing candidates).1.symm, reaches_turn pushed looked (reaches_turn pushed took
              (called.trans (finishing candidates).2))⟩

/-- The pieces of a task do what `Channel::consume` does, if the channels that
it uses are open. -/
theorem reaches_consume {result : Option (MessagePtr × Option Consumer)}
    (pushed : machine.server.shared.pool[index]? = some task)
    (ready : machine.phase index = .ready) (there : machine.isOpen task.channel = true)
    (consumed : Channel.consume machine.server.shared task.queueName ⟨machine.disk, script⟩ =
      .ok (result, final) ⟨left, rest⟩)
    (callable : ∀ pointer consumer, result = some (pointer, some consumer) →
      machine.isOpen consumer.channel = true) :
    ∃ outcome, outcome.map (fun ended => (ended.1.pointer, ended.2.map Choice.consumer)) = result ∧
      Reaches perform machine (machine.tasking index final left (.ended outcome)
        (machine.sent ++ deliveries index outcome)) := by
  have start : machine.tasking index machine.server.shared machine.disk .ready machine.sent =
      machine := by
    rw [tasking, ← ready, Function.update_eq_self]
    rfl
  rcases reaches_consuming machine.sent pushed there consumed callable with
    ⟨outcome, same, reached⟩
  rw [start] at reached
  exact ⟨outcome, same, reached⟩

end Tasks

end Machine

end ProtobufMq
