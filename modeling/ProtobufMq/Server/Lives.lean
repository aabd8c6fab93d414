import ProtobufMq.Server.Answer
import ProtobufMq.Server.Atomicity

namespace ProtobufMq

open Foundation

/-!
# What a program shows in its lives

The machine is the program from one start to the next.  Here the program is
started again and again, whenever the event loop has nothing in hand: the
connections, the consumers and the pool are gone then, with the tasks that had
not run, and the tables and files are there.

A client sees the responses to its requests, and it gets what the tasks deliver.
Over all lives, and however the tasks run in between, the responses that are sent
and the tasks that are pushed are those of the specification, which does each
request at once, in the order in which the requests are taken up.
-/

namespace Loop

/-- What the broker answers to the request in hand. -/
def promise (broker : Broker) : Loop → Bool
  | .recovering _ sql queue | .declaring sql queue =>
      (broker.declareQueue sql.queueTable queue).1
  | .clearing _ sql queueName | .deleting sql queueName =>
      (broker.dropQueue sql.queueTable queueName).1
  | .idle | .publishing _ _ _ | .pushing _ _ _ _ | .closing _ => true

end Loop

/-- The response that the request in hand is going to get. -/
def Desk.coming (desk : Desk) : List (Ticket × Bool) :=
  desk.inHand.toList.map fun ticket =>
    (ticket, desk.machine.loop.promise desk.machine.server.broker)

/-- The program in its present life, with the book of all its lives, and with the
queues that tasks were pushed for in the earlier ones. -/
structure Program where
  desk : Desk
  former : List Bytes := []

namespace Program

/-- The first life, with an empty database. -/
def first (basedir : Bytes) (disk : Disk) : Program :=
  { desk := { machine := { server := .fresh basedir, disk := disk } } }

/-- The queues that tasks were pushed for, in all lives. -/
def pushed (program : Program) : List Bytes :=
  program.former ++ program.desk.machine.server.shared.pool.map Task.queueName

/-- A step of the machine, or the next start. -/
inductive Event where
  | step (event : Machine.Event)
  | restart (script : List Outcome)

/-- The program that is started on the tables and the files of the last one. -/
def startAgain [Protobuf] (program : Program) (script : List Outcome) : Except Fault Program :=
  let host := program.desk.machine.server.shared.host
  (performed (Server.new host.database host.mmptr.basedir) program.desk.machine.disk script).map
    fun done =>
      { desk := { program.desk with machine := { server := done.1, disk := done.2 } }
        former := program.pushed }

/-- Perform one step.  A start waits until the event loop has nothing in hand. -/
def perform [Protobuf] (program : Program) : Event → Except Fault Program
  | .step event => (program.desk.perform event).map fun desk => { program with desk := desk }
  | .restart script =>
      if program.desk.machine.isIdle then program.startAgain script else .ok program

/-- What is taken up in a step. -/
def takes (program : Program) : Event → Option Server.Happening
  | .step event => program.desk.machine.takes event
  | .restart script => if program.desk.machine.isIdle then some (.restart script) else none

end Program

namespace Server

/-- The request that comes on a connection. -/
def Happening.packetOn (conn : Nat) : Happening → Option Packet
  | .serve ⟨.packet other _ packet, _⟩ => if other = conn then some packet else none
  | .serve ⟨.connect _, _⟩ => none
  | .serve ⟨.disconnect _, _⟩ => none
  | .restart _ => none

/-- What can be seen of something that happens, and the responses that are sent for it. -/
structure Seen where
  shown : Shown
  responses : List (Ticket × Bool)
  deriving DecidableEq

/-- The responses that show a reply. -/
def Happening.responses (happening : Happening) (shown : Shown) : List (Ticket × Bool) :=
  match happening, shown.reply with
  | .serve ⟨.packet conn _ _, _⟩, some reply => reply.sentTo conn
  | _, _ => []

end Server

/-- What may be seen when something happens, and the broker afterwards: what the
specification allows to be shown, and the response that is its reply. -/
def Broker.Answers (broker : Broker) (happening : Server.Happening) (seen : Server.Seen)
    (next : Broker) : Prop :=
  broker.Allows happening seen.shown next ∧ seen.responses = happening.responses seen.shown

/-! ## The response of the request in hand -/

namespace Machine

section Promising

variable [Protobuf] {machine next : Machine} {world after : World} {conn : Nat} {chance : Chance}

/-- The last step of a request answers what the broker answers. -/
theorem Proceeds.result (proceeds : machine.Proceeds world after next)
    (tracked : machine.server.shared.host.qmptr.Tracked) (done : next.isIdle = true) :
    machine.loop.result machine.server.shared =
      machine.loop.promise machine.server.broker := by
  cases proceeds with
  | rests idle => rw [idle]; rfl
  | finishes inHand =>
      rcases inHand with ⟨address, publication, inHand⟩ | inHand
      · rw [inHand]; rfl
      · rw [inHand]; rfl
  | skips inHand routed => cases done
  | inserts inHand routed called => cases done
  | pushes inHand => cases done
  | recovers inHand recovered => cases done
  | declares inHand =>
      rw [inHand]
      exact (congrArg Prod.fst (MsgQueueManager.view_declare machine.server.broker tracked _)).symm
  | clears inHand cleared => cases done
  | deletes inHand =>
      rw [inHand]
      exact (congrArg Prod.fst (MsgQueueManager.view_delete machine.server.broker tracked _)).symm
  | closes inHand destroyed => cases done

/-- The steps before the last one leave what the broker answers. -/
theorem Proceeds.promise (proceeds : machine.Proceeds world after next)
    (busy : next.isIdle = false) :
    next.loop.promise next.server.broker = machine.loop.promise machine.server.broker := by
  cases proceeds with
  | rests idle => rfl
  | finishes inHand => cases busy
  | skips inHand routed => rw [inHand]; rfl
  | inserts inHand routed called => rw [inHand]; rfl
  | pushes inHand => rw [inHand]; rfl
  | recovers inHand recovered => rw [inHand]; rfl
  | declares inHand => cases busy
  | clears inHand cleared => rw [inHand]; rfl
  | deletes inHand => cases busy
  | closes inHand destroyed => rw [inHand]; rfl

theorem broker_of_work {index : Nat} (completed : machine.work index world = .ok next after) :
    next.server.broker = machine.server.broker := by
  unfold work at completed
  cases listed : machine.server.shared.pool[index]? with
  | none =>
      rw [listed] at completed
      cases completed
      rfl
  | some task =>
      rw [listed] at completed
      cases consume_works completed <;> rfl

/-- A packet that is done with in one step is answered as the broker answers it. -/
theorem responses_of_done {packet : Packet} {script : List Outcome}
    (tracked : machine.server.shared.host.qmptr.Tracked)
    (accepted : machine.accept conn chance packet ⟨machine.disk, script⟩ = .ok next after)
    (done : next.isIdle = true) :
    machine.responses conn chance packet script =
      (machine.server.broker.reply conn chance.sql packet).1.sentTo conn := by
  rcases accept_handles accepted done with ⟨handled, later, completed⟩
  rw [responses_of_handled completed, (Server.replies tracked completed).2]

/-- A packet that is left in hand will be answered as the broker answers it. -/
theorem promise_of_accepted {packet : Packet} (idle : machine.isIdle = true)
    (accepted : machine.accept conn chance packet world = .ok next after)
    (busy : next.isIdle = false) :
    (machine.server.broker.reply conn chance.sql packet).1.sentTo conn =
      [(⟨conn, packet.rid, packet.cid⟩, next.loop.promise next.server.broker)] := by
  have handles : (do
        let done ← machine.server.handle conn chance packet
        return { machine with server := done.2 } : FileM Machine) world = .ok next after →
      (machine.server.broker.reply conn chance.sql packet).1.sentTo conn =
        [(⟨conn, packet.rid, packet.cid⟩, next.loop.promise next.server.broker)] := by
    intro completed
    rcases bind_eq_ok completed with ⟨handled, middle, _, rest⟩
    cases rest
    cases busy.symm.trans idle
  cases packet with
  | openChannel rid cid => exact handles accepted
  | closeChannel rid cid => exact handles accepted
  | request rid cid request =>
      unfold accept at accepted
      simp only at accepted
      cases opened : machine.server.channelAt conn cid with
      | none =>
          rw [opened] at accepted
          cases request <;> exact handles accepted
      | some channel =>
          rw [opened] at accepted
          have replied := Server.reply_request opened chance.sql rid request
          cases request with
          | basicPublish exchangeName properties body =>
              simp only at accepted
              cases found : machine.server.shared.host.selectExchange exchangeName with
              | none =>
                  rw [found] at accepted
                  cases accepted
                  cases busy.symm.trans idle
              | some exchange =>
                  rw [found] at accepted
                  cases accepted
                  have there : (machine.server.broker.exchanges.current exchangeName).isSome =
                      true := Option.isSome_of_eq_some found
                  rw [replied]
                  exact congrArg (fun accepted => [((⟨conn, rid, cid⟩ : Ticket), accepted)]) there
          | declareQueue queue =>
              rcases bind_eq_ok accepted with ⟨⟨store, mmptr⟩, middle, entered, rest⟩
              cases rest
              rw [replied]
              cases store <;> rfl
          | deleteQueue queueName =>
              cases accepted
              have unbound := @VirtualHost.broker_unbound machine.server.shared.host chance.sql
                machine.server.sessions queueName
                (machine.server.shared.host.mmptr.withdraw queueName).2
              have answered : (machine.server.broker.answer chance.sql
                  (.deleteQueue queueName)).1 = _ :=
                congrArg (fun left => (Broker.dropQueue left chance.sql.queueTable queueName).1)
                  unbound
              rw [replied, answered]
              cases (machine.server.shared.host.mmptr.withdraw queueName).1 <;> rfl
          | declareExchange exchange => exact handles accepted
          | deleteExchange exchangeName => exact handles accepted
          | queueBind exchangeName queueName bindingKey => exact handles accepted
          | queueUnbind exchangeName queueName => exact handles accepted
          | basicAck queueName messageId => exact handles accepted
          | basicConsume consumerTag queueName autoAck => exact handles accepted
          | basicCancel consumerTag queueName => exact handles accepted

end Promising

end Machine

namespace Desk

section Promising

variable [Protobuf] {desk next : Desk} {told : List (Ticket × Bool)} {world after : World}

/-- The responses so far, and the one of the request in hand, are these. -/
structure Promises (desk : Desk) (told : List (Ticket × Bool)) : Prop where
  underway : desk.inHand.isSome = desk.machine.loop.serves
  told : desk.answered ++ desk.coming = told

omit [Protobuf] in
theorem Promises.inHand_of_idle (promises : desk.Promises told)
    (idle : desk.machine.isIdle = true) : desk.inHand = none := by
  have underway := promises.underway
  rw [Machine.isIdle_iff.mp idle] at underway
  exact Option.not_isSome_iff_eq_none.mp (underway ▸ Bool.false_ne_true)

omit [Protobuf] in
theorem Promises.answered_of_idle (promises : desk.Promises told)
    (idle : desk.machine.isIdle = true) : desk.answered = told := by
  rw [← promises.told, coming, promises.inHand_of_idle idle]
  exact (List.append_nil _).symm

omit [Protobuf] in
/-- If nothing is in hand, all responses have been sent. -/
theorem promises_of_idle (nothing : desk.inHand = none) (serves : desk.machine.loop.serves = false) :
    desk.Promises desk.answered := by
  refine ⟨by rw [nothing, serves]; rfl, ?_⟩
  rw [coming, nothing]
  exact List.append_nil _

omit [Protobuf] in
/-- A step beside the request in hand leaves the response that it is going to get. -/
theorem Promises.beside {machine : Machine} (promises : desk.Promises told)
    (serves : machine.loop.serves = desk.machine.loop.serves)
    (promise : desk.inHand.isSome = true → machine.loop.promise machine.server.broker =
      desk.machine.loop.promise desk.machine.server.broker) :
    ({ desk with machine := machine } : Desk).Promises told := by
  refine ⟨promises.underway.trans serves.symm, ?_⟩
  rw [← promises.told]
  unfold coming
  cases inHand : desk.inHand with
  | none => rfl
  | some ticket => rw [promise (by rw [inHand]; rfl)]

/-- A step of the request in hand leaves the response too, or sends it. -/
theorem Promises.goOn {machine : Machine} (promises : desk.Promises told)
    (tracked : desk.machine.server.shared.host.qmptr.Tracked)
    (proceeds : desk.machine.Proceeds world after machine) :
    (desk.goOn { machine with disk := after.disk }).Promises told := by
  unfold Desk.goOn
  by_cases done : machine.isIdle = true
  · rw [if_pos (show ({ machine with disk := after.disk } : Machine).isIdle = true from done)]
    have sent : desk.answered ++ desk.inHand.toList.map (fun ticket =>
        (ticket, desk.machine.loop.result desk.machine.server.shared)) = told := by
      rw [proceeds.result tracked done]
      exact promises.told
    rw [← sent]
    refine promises_of_idle rfl ?_
    simp only [Machine.isIdle_iff.mp done]
    rfl
  · rw [if_neg (show ¬ ({ machine with disk := after.disk } : Machine).isIdle = true from done)]
    rw [Bool.not_eq_true] at done
    exact @Promises.beside desk told { machine with disk := after.disk } promises
      (proceeds.serves done) fun _ => proceeds.promise done

omit [Protobuf] in
/-- A packet that is taken up is answered, or promised an answer. -/
theorem Promises.takeUp {machine : Machine} {ticket : Ticket}
    {responses promised : List (Ticket × Bool)}
    (promises : desk.Promises told) (idle : desk.machine.isIdle = true)
    (serves : machine.isIdle = false → machine.loop.serves = true)
    (sent : machine.isIdle = true → responses = promised)
    (willSend : machine.isIdle = false →
      promised = [(ticket, machine.loop.promise machine.server.broker)]) :
    (desk.takeUp ticket responses machine).Promises (told ++ promised) := by
  unfold Desk.takeUp
  rw [← promises.answered_of_idle idle]
  cases done : machine.isIdle with
  | true =>
      rw [if_pos rfl, ← sent done]
      refine promises_of_idle rfl ?_
      rw [Machine.isIdle_iff.mp done]
      rfl
  | false =>
      rw [if_neg Bool.false_ne_true, willSend done]
      exact ⟨(serves done).symm, rfl⟩

/-- Nothing is taken up in a step of the request in hand or of a task. -/
theorem Promises.silent (promises : desk.Promises told)
    (tracked : desk.machine.server.shared.host.qmptr.Tracked) {event : Machine.Event}
    (nothing : desk.machine.takes event = none) (performed : perform desk event = .ok next) :
    next.Promises told := by
  rcases perform_eq_ok performed with ⟨stepped, same⟩
  rcases Machine.perform_eq_ok stepped with ⟨result, after, completed, left⟩
  rw [same, left]
  rcases event with ⟨move, script⟩
  cases move
  case proceed => exact promises.goOn tracked (Machine.proceed_cases completed)
  case work index =>
    have untouched := Machine.loop_of_work completed
    refine promises.beside (congrArg Loop.serves untouched) fun _ => ?_
    change result.loop.promise result.server.broker = _
    rw [untouched, Machine.broker_of_work completed]
  -- the event loop has something in hand, and lets the others wait
  all_goals
    cases idle : desk.machine.isIdle with
    | true =>
        rw [Machine.takes, idle] at nothing
        cases nothing
    | false =>
        rw [Machine.step, idle] at completed
        cases completed
        simp only [enter, idle, Bool.false_and]
        exact promises.beside rfl fun _ => rfl

/-- What is taken up is answered as specified, or promised such an answer. -/
theorem Promises.taken {broker : Broker} {shown : List Server.Shown} {happening : Server.Happening}
    {first : Server.Shown} {later : Broker} {event : Machine.Event}
    (promises : desk.Promises told) (settles : desk.machine.Settles broker shown)
    (takes : desk.machine.takes event = some happening)
    (allowed : broker.Allows happening first later) (performed : perform desk event = .ok next) :
    next.Promises (told ++ happening.responses first) := by
  rcases perform_eq_ok performed with ⟨stepped, same⟩
  rcases Machine.perform_eq_ok stepped with ⟨result, after, completed, left⟩
  rw [same, left]
  rcases event with ⟨move, script⟩
  unfold Machine.takes at takes
  cases idle : desk.machine.isIdle with
  | false =>
      rw [idle] at takes
      cases takes
  | true =>
      rw [idle] at takes
      have rests := Machine.isIdle_iff.mp idle
      have nothing := promises.inHand_of_idle idle
      have stays : ∀ machine : Machine, machine.loop.serves = false →
          ({ desk with machine := machine } : Desk).Promises (told ++ []) := by
        intro machine serves
        rw [List.append_nil, ← promises.answered_of_idle idle]
        exact promises_of_idle nothing serves
      cases move with
      | proceed => cases takes
      | work index => cases takes
      | connect conn =>
          cases takes
          rw [Machine.step, idle] at completed
          cases completed
          exact stays _ (congrArg Loop.serves rests)
      | disconnect conn =>
          cases takes
          rw [Machine.step, idle] at completed
          cases completed
          refine stays _ ?_
          simp only [if_true, Machine.disconnect]
          cases desk.machine.server.connections.lookup conn with
          | none => exact congrArg Loop.serves rests
          | some connection => rfl
      | packet conn chance packet =>
          cases takes
          rw [Machine.step, idle, if_pos rfl] at completed
          have settled := settles.settled
          rw [rests] at settled
          have replied : Server.Happening.responses
              (.serve ⟨.packet conn chance packet, script⟩) first =
              (desk.machine.server.broker.reply conn chance.sql packet).1.sentTo conn := by
            simp only [Server.Happening.responses, allowed.1]
            rw [← settled]
            rfl
          rw [replied]
          cases known : (desk.machine.server.connections.lookup conn).isSome with
          | false =>
              have unknown : desk.machine.server.broker.sessions conn = none := by
                rw [Option.isSome_eq_false_iff, Option.isNone_iff_eq_none] at known
                exact congrArg (Option.map Connection.isOpen) known
              have untouched := Machine.accept_unopened
                (fun _ cid _ _ => Machine.unknown_channel known cid) completed
              simp only [enter, idle, known, Broker.reply, unknown]
              exact stays _ (congrArg Loop.serves (untouched.trans rests))
          | true =>
              simp only [enter, idle, known, Bool.and_self, if_true]
              have sent := Machine.responses_of_done settles.tracked completed
              have promised := Machine.promise_of_accepted idle completed
              refine promises.takeUp idle (fun busy => ?_) sent promised
              rcases (Machine.accept_cases completed).loop with untouched | serves
              · rw [← Machine.isIdle_congr untouched] at idle
                cases busy.symm.trans idle
              · exact serves

end Promising

end Desk

/-! ## All lives -/

namespace Program

section Lives

variable {program next : Program} {broker : Broker} {seen : List Server.Seen}

/-- The program will have done what was specified, and sent the responses for it, when
it is done with the request in hand. -/
structure Settles (program : Program) (broker : Broker) (seen : List Server.Seen) : Prop where
  settles : ∃ lives now, seen.map Server.Seen.shown = lives ++ now ∧
    program.former = lives.flatMap Server.Shown.queues ∧ program.desk.machine.Settles broker now
  promises : program.desk.Promises (seen.flatMap Server.Seen.responses)

theorem Settles.queues (settles : program.Settles broker seen) :
    program.pushed ++ program.desk.machine.loop.owed = seen.flatMap fun one => one.shown.queues := by
  rcases settles.settles with ⟨lives, now, same, former, settled⟩
  rw [pushed, former, List.append_assoc, settled.queues, ← List.flatMap_append, ← same,
    List.flatMap_map]

variable [Protobuf]

theorem Settles.silent (settles : program.Settles broker seen) {event : Event}
    (nothing : program.takes event = none) (performed : perform program event = .ok next) :
    next.Settles broker seen := by
  rcases settles.settles with ⟨lives, now, same, former, settled⟩
  cases event with
  | step event =>
      rcases except_map_eq_ok performed with ⟨desk, stepped, rfl⟩
      exact ⟨⟨lives, now, same, former, settled.silent nothing (Desk.perform_eq_ok stepped).1⟩,
        settles.promises.silent settled.tracked nothing stepped⟩
  | restart script =>
      simp only [takes, perform] at nothing performed
      split_ifs at nothing performed with idle
      cases performed
      exact settles

theorem Settles.taken (settles : program.Settles broker seen) {event : Event}
    {happening : Server.Happening} (takes : program.takes event = some happening)
    (performed : perform program event = .ok next) :
    ∃ first later, broker.Answers happening first later ∧ next.Settles later (seen ++ [first]) := by
  rcases settles.settles with ⟨lives, now, same, former, settled⟩
  cases event with
  | step event =>
      rcases except_map_eq_ok performed with ⟨desk, stepped, rfl⟩
      rcases settled.taken takes (Desk.perform_eq_ok stepped).1 with
        ⟨first, later, allowed, settledAfter⟩
      have promised := settles.promises.taken settled takes allowed stepped
      refine ⟨⟨first, happening.responses first⟩, later, ⟨allowed, rfl⟩,
        ⟨lives, now ++ [first], ?_, former, settledAfter⟩, ?_⟩
      · rw [List.map_append, same, List.append_assoc]
        rfl
      · rw [List.flatMap_append, List.flatMap_singleton]
        exact promised
  | restart script =>
      simp only [Program.takes, perform] at takes performed
      split_ifs at takes performed with idle
      cases takes
      have rests := Machine.isIdle_iff.mp idle
      have settledNow := settled.settled
      rw [rests] at settledNow
      rcases except_map_eq_ok performed with ⟨⟨server, disk⟩, started, rfl⟩
      rcases Server.restarts settled.tracked started with ⟨tracked, restarted, pool⟩
      refine ⟨⟨{}, []⟩, broker.restart, ⟨⟨rfl, rfl⟩, rfl⟩,
        ⟨lives ++ now ++ [({} : Server.Shown)], [], ?_, ?_, tracked, ?_, ?_⟩, ?_⟩
      · rw [List.map_append, same, List.append_nil]
        rfl
      · have queues := settled.queues
        rw [rests] at queues
        simp only [Loop.owed, List.append_nil] at queues
        rw [pushed, former, queues, List.flatMap_append, List.flatMap_append]
        exact (List.append_nil _).symm
      · rw [← settledNow]
        exact restarted
      · change server.shared.pool = [] at pool
        simp only [pool]
        rfl
      · rw [List.flatMap_append, ← settles.promises.answered_of_idle idle]
        simp only [List.flatMap_singleton, List.append_nil]
        exact @Desk.promises_of_idle
          { program.desk with machine := { server := server, disk := disk } }
          (settles.promises.inHand_of_idle idle) rfl

omit [Protobuf] in
/-- Nothing was asked at first. -/
theorem settles_first (basedir : Bytes) (disk : Disk) : (first basedir disk).Settles {} [] := by
  rcases Server.broker_fresh basedir with ⟨tracked, nothing⟩
  exact ⟨⟨[], [], rfl, rfl, tracked, nothing, rfl⟩, rfl, rfl⟩

/-- Over all lives, and in every interleaving of the event loop with the tasks: what was
taken up is answered, or will be, as the specification says that does each request at
once, and it is what tasks were pushed for, or will be; and that is also what the maps
come to. -/
theorem answers_as_specified (basedir : Bytes) (disk : Disk) {events : List Event}
    {final : Program} (completes : run perform (first basedir disk) events = .ok final) :
    ∃ seen, Allowed Broker.Answers {} (takenUp perform takes (first basedir disk) events) seen
        (final.desk.machine.loop.settle final.desk.machine.server.broker) ∧
      final.desk.answered ++ final.desk.coming = seen.flatMap Server.Seen.responses ∧
      final.pushed ++ final.desk.machine.loop.owed = seen.flatMap fun one => one.shown.queues := by
  rcases @allowed_of_run _ _ _ _ _ _ perform takes Broker.Answers Settles
    (fun settles nothing performed => settles.silent nothing performed)
    (fun settles takes performed => settles.taken takes performed) _ _ _ _ _
    (settles_first basedir disk) completes with ⟨seen, last, allowed, settled⟩
  rcases settled.settles with ⟨lives, now, _, _, machine⟩
  rw [machine.settled]
  exact ⟨seen, allowed, settled.promises.told, settled.queues⟩

end Lives

/-- A binding is removed while its row is not deleted, and the exchange is deleted;
then the program is started again, and a publish is in hand at the end.  The task of
the first publish never runs. -/
def removingThenRestarting : List Event :=
  let send (request : Request) (sql : SqlOutcome) : Event :=
    .step ⟨.packet 0 { sql := sql } (.request [] (ascii "c") request), []⟩
  let proceed : Event := .step ⟨.proceed, []⟩
  let opening : List Event :=
    [.step ⟨.connect 0, []⟩, .step ⟨.packet 0 {} (.openChannel [] (ascii "c")), []⟩]
  opening ++ [send (.declareExchange ⟨ascii "e", .direct, .durable, false, ∅⟩) {},
      send (.declareQueue ⟨ascii "q", true, false, false, ∅⟩) {}, proceed, proceed,
      send (.queueBind (ascii "e") (ascii "q") []) {},
      send (.basicPublish (ascii "e") none (ascii "m")) {}, proceed, proceed, proceed,
      send (.queueUnbind (ascii "e") (ascii "q")) { bindingTable := false },
      send (.deleteExchange (ascii "e")) { bindingTable := false },
      send (.basicPublish (ascii "e") none (ascii "m")) {}, .restart []] ++
    opening ++ [send (.basicPublish (ascii "e") none (ascii "m")) {}, proceed]

/-- The exchange and the binding are there again. -/
theorem answers_removed_again :
    ∃ final, run (@perform wireFormat) (first [] fun _ => none) removingThenRestarting =
        .ok final ∧
      (final.desk.answered.map Prod.snd, final.desk.inHand.isSome,
        final.pushed ++ final.desk.machine.loop.owed) =
        ([true, true, true, true, true, true, true, false, true], true,
          [ascii "q", ascii "q"]) ∧
      ∃ seen, Allowed Broker.Answers {} (takenUp (@perform wireFormat) takes
          (first [] fun _ => none) removingThenRestarting) seen
          (final.desk.machine.loop.settle final.desk.machine.server.broker) ∧
        final.desk.answered ++ final.desk.coming = seen.flatMap Server.Seen.responses ∧
        final.pushed ++ final.desk.machine.loop.owed =
          seen.flatMap fun one => one.shown.queues := by
  have result : (run (@perform wireFormat) (first [] fun _ => none) removingThenRestarting).map
      (fun final => (final.desk.answered.map Prod.snd, final.desk.inHand.isSome,
        final.pushed ++ final.desk.machine.loop.owed)) =
      .ok ([true, true, true, true, true, true, true, false, true], true,
        [ascii "q", ascii "q"]) := by decide +kernel
  rcases except_map_eq_ok result with ⟨final, completes, shown⟩
  exact ⟨final, completes, shown, @answers_as_specified wireFormat [] (fun _ => none)
    removingThenRestarting final completes⟩

end Program

end ProtobufMq
