import ProtobufMq.Server.Conformance
import ProtobufMq.Server.Lifetime

namespace ProtobufMq

open Foundation

/-!
# Requests are atomic

The event loop carries out a request in several steps, and the tasks of the pool
take theirs in between.  No client can tell.  No task changes the maps, and while
a request is in hand no other is taken up; so in every interleaving the maps and
the pushed tasks are those of the specification, which does each request at once.
-/

namespace Loop

/-- The queues that the request in hand is still going to push tasks for. -/
def owed : Loop → List Bytes
  | .publishing _ publication rest =>
      (rest.filter fun mqb => publication.selects mqb.2).map Prod.fst
  | .pushing _ publication queueName rest =>
      queueName :: (rest.filter fun mqb => publication.selects mqb.2).map Prod.fst
  | _ => []

/-- The broker when the request in hand is done. -/
def settle (broker : Broker) : Loop → Broker
  | .recovering _ sql queue | .declaring sql queue =>
      (broker.declareQueue sql.queueTable queue).2
  | .clearing _ sql queueName | .deleting sql queueName =>
      (broker.dropQueue sql.queueTable queueName).2
  | .idle | .publishing _ _ _ | .pushing _ _ _ _ | .closing _ => broker

end Loop

namespace Machine

/-- What the event loop takes up in a step, if it has nothing in hand. -/
def takes (machine : Machine) (event : Event) : Option Server.Happening :=
  if machine.isIdle then
    match event.move with
    | .connect conn => some (.serve ⟨.connect conn, event.script⟩)
    | .disconnect conn => some (.serve ⟨.disconnect conn, event.script⟩)
    | .packet conn chance packet => some (.serve ⟨.packet conn chance packet, event.script⟩)
    | .proceed | .work _ => none
  else none

/-- The machine will have done what was specified, and shown it, when it is done
with the request in hand. -/
structure Settles (machine : Machine) (broker : Broker) (shown : List Server.Shown) : Prop where
  tracked : machine.server.shared.host.qmptr.Tracked
  settled : machine.loop.settle machine.server.broker = broker
  queues : machine.server.shared.pool.map Task.queueName ++ machine.loop.owed =
    shown.flatMap Server.Shown.queues

section Steps

variable {machine next : Machine} {broker : Broker} {shown : List Server.Shown}

/-- What does not concern the maps, the channels and the pool. -/
theorem Settles.congr (settles : machine.Settles broker shown)
    (unchanged : Channel.Unchanged machine.server.shared next.server.shared)
    (connections : next.server.connections = machine.server.connections)
    (settle : ∀ broker, next.loop.settle broker = machine.loop.settle broker)
    (pool : next.server.shared.pool.map Task.queueName ++ next.loop.owed =
      machine.server.shared.pool.map Task.queueName ++ machine.loop.owed) :
    next.Settles broker shown := by
  have sessions : next.server.sessions = machine.server.sessions := by
    funext conn
    rw [Server.sessions, connections, Server.sessions]
  refine ⟨unchanged.tracked settles.tracked, ?_, pool.trans settles.queues⟩
  rw [settle, Server.broker, unchanged.broker, sessions]
  exact settles.settled

variable [Protobuf] {world after : World}

/-- No step of a task concerns them. -/
theorem Settles.works (settles : machine.Settles broker shown) {index : Nat} {task : Task}
    (works : machine.Works index task world after next) : next.Settles broker shown := by
  have frame : Channel.Unchanged machine.server.shared next.server.shared ∧
      next.server.connections = machine.server.connections ∧ next.loop = machine.loop ∧
      next.server.shared.pool = machine.server.shared.pool := by
    cases works <;> exact ⟨⟨rfl, rfl, rfl⟩, rfl, rfl, rfl⟩
  rcases frame with ⟨unchanged, connections, loop, pool⟩
  refine settles.congr unchanged connections (fun _ => by rw [loop]) ?_
  rw [pool, loop]

/-- A further step of the request in hand comes nearer to what it does. -/
theorem Settles.proceeds (settles : machine.Settles broker shown)
    (proceeds : machine.Proceeds world after next) : next.Settles broker shown := by
  cases proceeds with
  | rests idle => exact settles
  | finishes inHand =>
      rcases inHand with ⟨address, publication, inHand⟩ | inHand
      · exact settles.congr ⟨rfl, rfl, rfl⟩ rfl (fun _ => by rw [inHand]; rfl) (by rw [inHand]; rfl)
      · exact settles.congr ⟨rfl, rfl, rfl⟩ rfl (fun _ => by rw [inHand]; rfl) (by rw [inHand]; rfl)
  | skips inHand routed =>
      refine settles.congr ⟨rfl, rfl, rfl⟩ rfl (fun _ => by rw [inHand]; rfl) ?_
      rw [inHand, Loop.owed, Loop.owed, List.filter_cons, Channel.Publication.selects, routed]
      rfl
  | inserts inHand routed called =>
      refine settles.congr (Channel.unchanged_basicPublish called) rfl
        (fun _ => by rw [inHand]; rfl) ?_
      rw [inHand, Loop.owed, Loop.owed, List.filter_cons, Channel.Publication.selects, routed]
      rfl
  | @pushes address publication queueName rest inHand =>
      refine settles.congr ⟨rfl, rfl, rfl⟩ rfl (fun _ => by rw [inHand]; rfl) ?_
      -- the task that is pushed is owed no more
      change (machine.server.shared.pool ++ [_]).map Task.queueName ++ _ = _
      rw [inHand, List.map_append, List.append_assoc]
      rfl
  | recovers inHand recovered =>
      exact settles.congr ⟨rfl, rfl, rfl⟩ rfl (fun _ => by rw [inHand]; rfl) (by rw [inHand]; rfl)
  | @declares sql queue inHand =>
      have settled := settles.settled
      have queues := settles.queues
      rw [inHand] at settled queues
      refine ⟨MsgQueueManager.tracked_declareQueue settles.tracked queue, ?_, queues⟩
      rw [← settled]
      exact (congrArg Prod.snd (MsgQueueManager.view_declare machine.server.broker settles.tracked
        queue)).symm
  | clears inHand cleared =>
      exact settles.congr ⟨rfl, rfl, rfl⟩ rfl (fun _ => by rw [inHand]; rfl) (by rw [inHand]; rfl)
  | @deletes sql queueName inHand =>
      have settled := settles.settled
      have queues := settles.queues
      rw [inHand] at settled queues
      refine ⟨MsgQueueManager.tracked_deleteQueue settles.tracked queueName, ?_, queues⟩
      rw [← settled]
      exact (congrArg Prod.snd (MsgQueueManager.view_delete machine.server.broker settles.tracked
        queueName)).symm
  | closes inHand destroyed =>
      rcases Server.destroy_unchanged destroyed with ⟨unchanged, pool⟩
      refine settles.congr unchanged rfl (fun _ => by rw [inHand]; rfl) ?_
      rw [inHand]
      exact congrArg (fun tasks => tasks.map Task.queueName ++ []) pool

/-- Nothing is taken up in a step of the request in hand or of a task. -/
theorem Settles.silent (settles : machine.Settles broker shown) {event : Event}
    (nothing : machine.takes event = none) (stepped : perform machine event = .ok next) :
    next.Settles broker shown := by
  rcases perform_eq_ok stepped with ⟨result, world, completed, same⟩
  have settlesResult : result.Settles broker shown := by
    rcases event with ⟨move, script⟩
    cases move
    case proceed => exact settles.proceeds (proceed_cases completed)
    case work index =>
      change machine.work index _ = _ at completed
      unfold work at completed
      cases listed : machine.server.shared.pool[index]? with
      | none =>
          rw [listed] at completed
          cases completed
          exact settles
      | some task =>
          rw [listed] at completed
          exact settles.works (consume_works completed)
    -- the event loop has something in hand, and lets the others wait
    all_goals
      cases idle : machine.isIdle with
      | true =>
          rw [takes, idle] at nothing
          cases nothing
      | false =>
          rw [step, idle] at completed
          cases completed
          exact settles
  rw [same]
  exact settlesResult.congr ⟨rfl, rfl, rfl⟩ rfl (fun _ => rfl) rfl

/-- A request that is done in one step, as any is on a channel that is not open. -/
theorem Settles.handles (settles : machine.Settles broker shown) (idle : machine.loop = .idle)
    {conn : Nat} {chance : Chance} {packet : Packet} {script : List Outcome} {done : Reply × Server}
    (handled : machine.server.handle conn chance packet world = .ok done after) :
    ∃ first later, broker.Allows (.serve ⟨.packet conn chance packet, script⟩) first later ∧
      ({ machine with server := done.2 } : Machine).Settles later (shown ++ [first]) := by
  have settled := settles.settled
  have queues := settles.queues
  rw [idle] at settled queues
  rcases Server.replies settles.tracked handled with ⟨tracked, replied⟩
  rcases Server.shows handled with ⟨tasks, pool, nodup, pushed⟩
  rw [← settled]
  refine ⟨⟨some done.1, tasks.map Task.queueName⟩, done.2.broker, ⟨?_, nodup, pushed, ?_⟩,
    tracked, ?_, ?_⟩
  · exact congrArg some (congrArg Prod.fst replied).symm
  · exact (congrArg Prod.snd replied).symm
  · simp only [idle]
    rfl
  · simp only [idle, Loop.owed, List.append_nil] at queues ⊢
    rw [pool, List.map_append, List.flatMap_append, ← queues, List.flatMap_singleton]

omit [Protobuf] in
/-- A request on an open channel is taken up if it will be done as specified. -/
theorem Settles.takesUp (settles : machine.Settles broker shown) (idle : machine.loop = .idle)
    {conn : Nat} {chance : Chance} {rid cid : Bytes} {request : Request} {script : List Outcome}
    {channel : Channel} (opened : machine.server.channelAt conn cid = some channel)
    {names : List Bytes} (nodup : names.Nodup)
    (reached : ∀ qname, qname ∈ names ↔ machine.server.broker.Reaches qname request)
    (tracked : next.server.shared.host.qmptr.Tracked)
    (settled : next.loop.settle next.server.broker =
      (machine.server.broker.answer chance.sql request).2)
    (queues : next.server.shared.pool.map Task.queueName ++ next.loop.owed =
      machine.server.shared.pool.map Task.queueName ++ names) :
    ∃ first later,
      broker.Allows (.serve ⟨.packet conn chance (.request rid cid request), script⟩) first later ∧
        next.Settles later (shown ++ [first]) := by
  have same : machine.server.broker = broker := by
    have settledBefore := settles.settled
    rw [idle] at settledBefore
    exact settledBefore
  have before : machine.server.shared.pool.map Task.queueName ++ [] =
      shown.flatMap Server.Shown.queues := by
    have queuesBefore := settles.queues
    rw [idle] at queuesBefore
    exact queuesBefore
  have replied := Server.reply_request opened chance.sql rid request
  have there := (Server.session_iff machine.server conn cid).mpr ⟨channel, opened⟩
  rw [← same]
  refine ⟨⟨some (.response rid cid (machine.server.broker.answer chance.sql request).1), names⟩, _,
    ⟨?_, nodup, fun qname => ?_, rfl⟩, tracked, ?_, ?_⟩
  · rw [replied]
  · exact (reached qname).trans (and_iff_right there).symm
  · rw [settled, replied]
  · rw [queues, List.flatMap_append, ← before, List.append_nil, List.flatMap_singleton]

/-- The first step of a request. -/
theorem Settles.accepts (settles : machine.Settles broker shown) (idle : machine.loop = .idle)
    {conn : Nat} {chance : Chance} {packet : Packet} {script : List Outcome}
    (accepted : machine.accept conn chance packet world = .ok next after) :
    ∃ first later, broker.Allows (.serve ⟨.packet conn chance packet, script⟩) first later ∧
      next.Settles later (shown ++ [first]) := by
  have whole : ∀ {packet : Packet}, (do
        let done ← machine.server.handle conn chance packet
        return { machine with server := done.2 } : FileM Machine) world = .ok next after →
      ∃ first later, broker.Allows (.serve ⟨.packet conn chance packet, script⟩) first later ∧
        next.Settles later (shown ++ [first]) := by
    intro packet completed
    rcases bind_eq_ok completed with ⟨done, middle, handled, rest⟩
    cases rest
    exact settles.handles idle handled
  cases packet with
  | openChannel rid cid => exact @whole (.openChannel rid cid) accepted
  | closeChannel rid cid => exact @whole (.closeChannel rid cid) accepted
  | request rid cid request =>
      unfold accept at accepted
      simp only at accepted
      cases opened : machine.server.channelAt conn cid with
      | none =>
          rw [opened] at accepted
          cases request <;> exact whole accepted
      | some channel =>
          rw [opened] at accepted
          cases request with
          | basicPublish exchangeName properties body =>
              simp only at accepted
              cases found : machine.server.shared.host.selectExchange exchangeName with
              | none =>
                  rw [found] at accepted
                  cases accepted
                  refine settles.takesUp idle opened List.nodup_nil (fun qname => ?_)
                    settles.tracked ?_ ?_
                  · exact iff_of_false List.not_mem_nil
                      (Channel.not_reaches machine.server.sessions found qname)
                  · rw [idle]
                    rfl
                  · rw [idle]
                    rfl
              | some exchange =>
                  rw [found] at accepted
                  cases accepted
                  let publication : Channel.Publication :=
                    ⟨exchange.type, properties, body, chance.uuid⟩
                  exact settles.takesUp idle opened (publication.selected_nodup _ _)
                    (Channel.mem_selected_iff machine.server.sessions found) settles.tracked rfl rfl
          | declareQueue queue =>
              rcases bind_eq_ok accepted with ⟨⟨store, mmptr⟩, middle, entered, rest⟩
              cases rest
              refine settles.takesUp idle opened List.nodup_nil
                (fun qname => iff_of_false List.not_mem_nil id) settles.tracked ?_ ?_
              · cases store <;> rfl
              · cases store <;> rfl
          | deleteQueue queueName =>
              cases accepted
              refine settles.takesUp idle opened List.nodup_nil
                (fun qname => iff_of_false List.not_mem_nil id) settles.tracked ?_ ?_
              · have unbound := @VirtualHost.broker_unbound machine.server.shared.host chance.sql
                  machine.server.sessions queueName
                  (machine.server.shared.host.mmptr.withdraw queueName).2
                have answered : (machine.server.broker.answer chance.sql
                    (.deleteQueue queueName)).2 = _ :=
                  congrArg (fun left => (Broker.dropQueue left chance.sql.queueTable queueName).2)
                    unbound
                rw [answered]
                cases (machine.server.shared.host.mmptr.withdraw queueName).1 <;> rfl
              · cases (machine.server.shared.host.mmptr.withdraw queueName).1 <;> rfl
          | declareExchange exchange => exact whole accepted
          | deleteExchange exchangeName => exact whole accepted
          | queueBind exchangeName queueName bindingKey => exact whole accepted
          | queueUnbind exchangeName queueName => exact whole accepted
          | basicAck queueName messageId => exact whole accepted
          | basicConsume consumerTag queueName autoAck => exact whole accepted
          | basicCancel consumerTag queueName => exact whole accepted

/-- What is taken up will be done as specified. -/
theorem Settles.taken (settles : machine.Settles broker shown) {event : Event}
    {happening : Server.Happening} (takes : machine.takes event = some happening)
    (stepped : perform machine event = .ok next) :
    ∃ first later, broker.Allows happening first later ∧ next.Settles later (shown ++ [first]) := by
  rcases perform_eq_ok stepped with ⟨result, world, completed, same⟩
  have taken : ∃ first later, broker.Allows happening first later ∧
      result.Settles later (shown ++ [first]) := by
    rcases event with ⟨move, script⟩
    unfold Machine.takes at takes
    cases idle : machine.isIdle with
    | false =>
        rw [idle] at takes
        cases takes
    | true =>
        have rests := loop_of_isIdle idle
        have settled := settles.settled
        have queues := settles.queues
        rw [rests] at settled queues
        rw [idle] at takes
        cases move with
        | proceed => cases takes
        | work index => cases takes
        | connect conn =>
            cases takes
            rw [step, idle] at completed
            cases completed
            refine ⟨{}, broker.connect conn, ⟨rfl, rfl⟩, settles.tracked, ?_, ?_⟩
            · rw [← settled]
              simp only [rests]
              exact Server.broker_newConnection machine.server conn
            · rw [List.flatMap_append, ← queues]
              simp only [rests]
              exact (List.append_nil _).symm
        | disconnect conn =>
            cases takes
            rw [step, idle] at completed
            cases completed
            refine ⟨{}, broker.withSession conn none, ⟨rfl, rfl⟩, ?_⟩
            rw [← settled]
            simp only [if_true, disconnect]
            cases connected : machine.server.connections.lookup conn with
            | none =>
                refine ⟨settles.tracked, ?_, ?_⟩
                · simp only [rests]
                  exact (Server.broker_withSession_none connected).symm
                · rw [List.flatMap_append, ← queues]
                  simp only [rests]
                  exact (List.append_nil _).symm
            | some connection =>
                refine ⟨settles.tracked, ?_, ?_⟩
                · exact congrArg (machine.server.shared.host.broker)
                    (Server.sessions_erase machine.server conn machine.server.shared)
                · rw [List.flatMap_append, ← queues]
                  exact (List.append_nil _).symm
        | packet conn chance packet =>
            cases takes
            rw [step, idle] at completed
            exact settles.accepts rests completed
  rcases taken with ⟨first, later, allowed, settled⟩
  rw [same]
  exact ⟨first, later, allowed, settled.congr ⟨rfl, rfl, rfl⟩ rfl (fun _ => rfl) rfl⟩

/-- In every interleaving, the maps and the pushed tasks will be those of the
specification that does at once what was taken up, in that order, as soon as the
request in hand is done. -/
theorem run_settles (basedir : Bytes) (disk : Disk) {events : List Event} {final : Machine}
    (completes : run perform { server := .fresh basedir, disk := disk } events = .ok final) :
    ∃ shown, Allowed Broker.Allows {}
        (takenUp perform takes { server := .fresh basedir, disk := disk } events) shown
        (final.loop.settle final.server.broker) ∧
      final.server.shared.pool.map Task.queueName ++ final.loop.owed =
        shown.flatMap Server.Shown.queues := by
  rcases Server.broker_fresh basedir with ⟨tracked, nothing⟩
  have settles : ({ server := .fresh basedir, disk := disk } : Machine).Settles {} [] :=
    ⟨tracked, nothing, rfl⟩
  rcases @allowed_of_run _ _ _ _ _ _ perform takes Broker.Allows Settles
    (fun settles nothing stepped => settles.silent nothing stepped)
    (fun settles taken stepped => settles.taken taken stepped) _ _ _ _ _ settles completes with
    ⟨shown, last, allowed, settled⟩
  rw [settled.settled]
  exact ⟨shown, allowed, settled.queues⟩

end Steps

/-- A queue is deleted while the task of a message for it is at work. -/
def deletingMidway : List Event :=
  let send (request : Request) : Event := ⟨.packet 0 {} (.request [] (ascii "c") request), []⟩
  [⟨.connect 0, []⟩, ⟨.packet 0 {} (.openChannel [] (ascii "c")), []⟩,
    send (.declareExchange ⟨ascii "e", .fanout, .durable, false, ∅⟩),
    send (.declareQueue ⟨ascii "q", true, false, false, ∅⟩), ⟨.proceed, []⟩,
    send (.deleteExchange (ascii "e")), ⟨.proceed, []⟩,
    send (.queueBind (ascii "e") (ascii "q") []),
    send (.basicPublish (ascii "e") none (ascii "m")), ⟨.proceed, []⟩, ⟨.proceed, []⟩,
    ⟨.work 0, []⟩, ⟨.proceed, []⟩, send (.deleteQueue (ascii "q")), ⟨.work 0, []⟩, ⟨.proceed, []⟩]

/-- The exchange is not deleted, for the event loop was busy, and the queue is not
deleted yet. -/
theorem settles_midway :
    ∃ final, run (@perform wireFormat) { server := .fresh [], disk := fun _ => none }
        deletingMidway = .ok final ∧
      (final.isIdle, final.server.shared.host.emptr.exchanges.keys,
        final.server.shared.host.qmptr.msgQueues.keys) = (false, [ascii "e"], [ascii "q"]) ∧
      ∃ shown, Allowed Broker.Allows {}
          (takenUp (@perform wireFormat) takes { server := .fresh [], disk := fun _ => none }
            deletingMidway) shown (final.loop.settle final.server.broker) ∧
        final.server.shared.pool.map Task.queueName ++ final.loop.owed =
          shown.flatMap Server.Shown.queues := by
  have result : (run (@perform wireFormat) { server := .fresh [], disk := fun _ => none }
      deletingMidway).map (fun final => (final.isIdle,
        final.server.shared.host.emptr.exchanges.keys,
        final.server.shared.host.qmptr.msgQueues.keys)) =
          .ok (false, [ascii "e"], [ascii "q"]) := by decide +kernel
  rcases except_map_eq_ok result with ⟨final, completes, seen⟩
  exact ⟨final, completes, seen, @run_settles wireFormat [] (fun _ => none) deletingMidway final
    completes⟩

end Machine

end ProtobufMq
