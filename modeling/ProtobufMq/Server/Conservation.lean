import ProtobufMq.Server.Atomicity
import ProtobufMq.Server.Bookkeeping
import ProtobufMq.Server.Leftovers

namespace ProtobufMq

open Foundation

/-!
# Messages are neither made up, nor doubled, nor put into another queue

The books of the server name what comes in by what the server is going to do.  The
specification says the same from outside: a publish that is taken up brings one
parcel for each queue that it reaches, if this queue is there, and a queue that is
declared, or that the table has at the start, brings the records of its data file.
All these parcels are found again, each once: handed to a consumer of its queue, in
the hand of a task, in the store of its queue, still to be stored, or among those
that were refused or thrown away.
-/

/-! ## What the specification has come in -/

/-- What comes in with a step: a happening, or what a queue that is declared finds on
the disk. -/
inductive Receipt where
  | taken (happening : Server.Happening) (parcels : Multiset Parcel)
  | recovered (queueName : Bytes) (disk : Disk) (parcels : Multiset Parcel)

def Receipt.parcels : Receipt → Multiset Parcel
  | .taken _ parcels | .recovered _ _ parcels => parcels

namespace Broker

/-- The parcel that a published message is for a queue, if the queue is there. -/
def parcelFor (broker : Broker) (basedir : Bytes) (properties : Option BasecProperties)
    (body : Bytes) (uuid : Bytes → Bytes) (qname : Bytes) : Multiset Parcel :=
  match broker.queues.current qname with
  | none => 0
  | some queue => {⟨MessageMapper.ofNames qname basedir,
      QueueMessage.composed properties (uuid qname) queue.durable, body⟩}

/-- The parcels that come in with a happening that has messages pushed from these
queues. -/
def posted (broker : Broker) (basedir : Bytes) : Server.Happening → List Bytes → Multiset Parcel
  | .serve ⟨.packet _ chance (.request _ _ (.basicPublish _ properties body)), _⟩, queues =>
      (queues.map (broker.parcelFor basedir properties body chance.uuid)).sum
  | _, _ => 0

/-- What may come in, what the server may show then, and the broker afterwards. -/
def Accounts [Protobuf] (basedir : Bytes) (broker : Broker) :
    Receipt → Server.Shown → Broker → Prop
  | .taken happening parcels, shown, next => broker.Allows happening shown next ∧
      parcels = broker.posted basedir happening shown.queues
  | .recovered queueName disk parcels, shown, next => shown = {} ∧ next = broker ∧
      parcels = (MessageMapper.ofNames queueName basedir).parcelsOn disk

end Broker

namespace Machine

/-- What comes in with a step of the machine. -/
def receives [Protobuf] (machine : Machine) (event : Event) : Option Receipt :=
  match machine.takes event, event.move, machine.loop with
  | some happening, _, _ => some (.taken happening (machine.received event))
  | none, .proceed, .recovering _ _ queue =>
      some (.recovered queue.name machine.disk (machine.received event))
  | none, _, _ => none

section Steps

variable [Protobuf] {machine next : Machine} {broker : Broker} {shown : List Server.Shown}
  {world after : World}

omit [Protobuf] in
/-- Whatever the event loop is asked to do while it has nothing in hand, it takes up. -/
theorem takes_packet (idle : machine.loop = .idle) (conn : Nat) (chance : Chance) (packet : Packet)
    (script : List Outcome) : machine.takes ⟨.packet conn chance packet, script⟩ =
      some (.serve ⟨.packet conn chance packet, script⟩) := by
  have rests : machine.isIdle = true := by rw [isIdle, idle]
  rw [takes, rests]
  rfl

/-- Nothing comes in without a receipt. -/
theorem received_eq (machine : Machine) (event : Event) :
    machine.received event = ((machine.receives event).map Receipt.parcels).getD 0 := by
  rcases event with ⟨move, script⟩
  rw [receives]
  cases took : machine.takes ⟨move, script⟩ with
  | some happening => rfl
  | none =>
      cases move with
      | proceed =>
          cases inHand : machine.loop with
          | recovering store sql queue => rfl
          | _ =>
              rw [received, inHand]
              cases machine.perform ⟨.proceed, script⟩ <;> rfl
      | packet conn chance packet =>
          cases inHand : machine.loop with
          | idle => cases took.symm.trans (takes_packet inHand conn chance packet script)
          | _ =>
              rw [received, inHand]
              cases machine.perform ⟨.packet conn chance packet, script⟩ <;> rfl
      | connect conn =>
          rw [received]
          cases machine.perform ⟨.connect conn, script⟩ <;> rfl
      | disconnect conn =>
          rw [received]
          cases machine.perform ⟨.disconnect conn, script⟩ <;> rfl
      | work index =>
          rw [received]
          cases machine.perform ⟨.work index, script⟩ <;> rfl

omit [Protobuf] in
/-- The specification knows the parcels of a publish as the server does. -/
theorem parcelFor_eq (server : Server) (type : ExchangeType) (properties : Option BasecProperties)
    (body : Bytes) (uuid : Bytes → Bytes) (qname : Bytes) :
    server.shared.host.parcelFor ⟨type, properties, body, uuid⟩ qname =
      server.broker.parcelFor server.shared.host.mmptr.basedir properties body uuid qname := by
  have current : server.broker.queues.current qname =
      server.shared.host.qmptr.selectQueue qname := rfl
  cases found : server.shared.host.qmptr.selectQueue qname with
  | none => simp only [VirtualHost.parcelFor, Broker.parcelFor, current, found]
  | some queue => simp only [VirtualHost.parcelFor, Broker.parcelFor, current, found]

/-- The first step of a request owes the parcels of a publish, or no parcels at all
when the request has nothing pushed. -/
theorem accept_owes (idle : machine.loop = .idle) {conn : Nat} {chance : Chance} {packet : Packet}
    (accepted : machine.accept conn chance packet world = .ok next after) :
    (∃ rid cid exchangeName properties body exchange,
      packet = .request rid cid (.basicPublish exchangeName properties body) ∧
      machine.server.shared.host.selectExchange exchangeName = some exchange ∧
      (∃ channel, machine.server.channelAt conn cid = some channel) ∧
      next.owedParcels = ((Channel.Publication.selected
        ⟨exchange.type, properties, body, chance.uuid⟩ chance.traversal
        (machine.server.shared.host.exchangeBindings exchangeName)).map
          (machine.server.broker.parcelFor machine.server.shared.host.mmptr.basedir properties body
            chance.uuid)).sum) ∨
    (next.owedParcels = 0 ∧ ∀ qname, ¬ machine.server.broker.Pushes conn qname packet) := by
  have resting : ∀ {server : Server}, ({ machine with server := server } : Machine).owedParcels = 0 := by
    intro server
    rw [owedParcels, idle]
    rfl
  have other : ∀ {packet : Packet}, machine.Accepts conn chance world after packet next →
      (∀ rid cid exchangeName properties body,
        packet ≠ .request rid cid (.basicPublish exchangeName properties body)) →
      next.owedParcels = 0 := by
    intro packet accepts unpublished
    cases accepts with
    | handles storeless handled => exact resting
    | refuses => exact absurd rfl (unpublished _ _ _ _ _)
    | publishes opened => exact absurd rfl (unpublished _ _ _ _ _)
    | recovers introduced => rfl
    | declares introduced => rfl
    | deletes onward =>
        rcases onward with same | ⟨store, same⟩
        · rw [owedParcels, same]
          rfl
        · rw [owedParcels, same]
          rfl
  have accepts := accept_cases accepted
  cases packet with
  | openChannel rid cid =>
      refine Or.inr ⟨other accepts ?_, fun _ => id⟩
      intro _ _ _ _ _ same
      cases same
  | closeChannel rid cid =>
      refine Or.inr ⟨other accepts ?_, fun _ => id⟩
      intro _ _ _ _ _ same
      cases same
  | request rid cid request =>
      cases request with
      | basicPublish exchangeName properties body =>
          unfold accept at accepted
          simp only at accepted
          cases opened : machine.server.channelAt conn cid with
          | none =>
              rw [opened] at accepted
              rcases bind_eq_ok accepted with ⟨done, middle, handled, rest⟩
              cases rest
              refine Or.inr ⟨resting, fun qname pushes => ?_⟩
              rcases (Server.session_iff machine.server conn cid).mp pushes.1 with ⟨channel, there⟩
              cases opened.symm.trans there
          | some channel =>
              rw [opened] at accepted
              simp only at accepted
              cases found : machine.server.shared.host.selectExchange exchangeName with
              | none =>
                  rw [found] at accepted
                  cases accepted
                  exact Or.inr ⟨resting, fun qname pushes =>
                    Channel.not_reaches machine.server.sessions found qname pushes.2⟩
              | some exchange =>
                  rw [found] at accepted
                  cases accepted
                  refine Or.inl ⟨rid, cid, exchangeName, properties, body, exchange, rfl, found,
                    ⟨channel, opened⟩, ?_⟩
                  rw [owedParcels, Loop.parcels, Channel.Publication.selected, List.map_map]
                  exact congrArg List.sum (List.map_congr_left fun mqb _ =>
                    parcelFor_eq machine.server exchange.type properties body chance.uuid mqb.1)
      | _ =>
          refine Or.inr ⟨other accepts ?_, fun _ pushes => pushes.2⟩
          intro _ _ _ _ _ same
          cases same

/-- What comes in with a request is what the specification has come in. -/
theorem posted_packet (idle : machine.loop = .idle) {conn : Nat} {chance : Chance} {packet : Packet}
    {script : List Outcome} {first : Server.Shown} {later : Broker}
    (accepted : machine.accept conn chance packet world = .ok next after)
    (allowed : machine.server.broker.Allows (.serve ⟨.packet conn chance packet, script⟩) first
      later) :
    next.owedParcels = machine.server.broker.posted machine.server.shared.host.mmptr.basedir
      (.serve ⟨.packet conn chance packet, script⟩) first.queues := by
  rcases allowed with ⟨_, nodup, reached, _⟩
  rcases accept_owes idle accepted with
    ⟨rid, cid, exchangeName, properties, body, exchange, rfl, found, ⟨channel, opened⟩, owed⟩ |
    ⟨owed, nothing⟩
  · have there := (Server.session_iff machine.server conn cid).mpr ⟨channel, opened⟩
    let publication : Channel.Publication := ⟨exchange.type, properties, body, chance.uuid⟩
    let names := publication.selected chance.traversal
      (machine.server.shared.host.exchangeBindings exchangeName)
    have perm : names.Perm first.queues := by
      refine (List.perm_ext_iff_of_nodup (publication.selected_nodup _ _) nodup).mpr fun qname => ?_
      rw [reached]
      exact (Channel.mem_selected_iff machine.server.sessions found qname).trans
        (and_iff_right there).symm
    rw [owed]
    exact (perm.map _).sum_eq
  · have none : first.queues = [] :=
      List.eq_nil_iff_forall_not_mem.mpr fun qname member => nothing qname ((reached qname).mp member)
    rw [owed, none]
    unfold Broker.posted
    split <;> rfl

/-- A store is filled with what the disk has for the queue that is declared. -/
theorem received_recovering (booked : machine.Booked) {script : List Outcome}
    (stepped : perform machine ⟨.proceed, script⟩ = .ok next) {reference : Nat} {sql : SqlOutcome}
    {queue : MsgQueue} (inHand : machine.loop = .recovering reference sql queue) :
    machine.received ⟨.proceed, script⟩ =
      (MessageMapper.ofNames queue.name machine.server.shared.host.mmptr.basedir).parcelsOn
        machine.disk := by
  rw [received, stepped, inHand]
  rcases booked.prepared reference sql queue inHand with ⟨store, there, _, mapper⟩
  rcases perform_eq_ok stepped with ⟨result, world, completed, same⟩
  rw [same, ← mapper]
  cases proceed_cases completed with
  | recovers found recovered =>
      cases inHand.symm.trans found
      exact MessageManager.parcelsIn_recover there recovered
  | rests other => cases inHand.symm.trans other
  | finishes other =>
      rcases other with ⟨address, publication, other⟩ | other
      · cases inHand.symm.trans other
      · cases inHand.symm.trans other
  | skips other routed => cases inHand.symm.trans other
  | inserts other routed called => cases inHand.symm.trans other
  | pushes other => cases inHand.symm.trans other
  | declares other => cases inHand.symm.trans other
  | clears other cleared => cases inHand.symm.trans other
  | deletes other => cases inHand.symm.trans other
  | closes other destroyed => cases inHand.symm.trans other

/-- The machine is going to have done what was specified, and its books are in order. -/
structure Accounted (basedir : Bytes) (machine : Machine) (broker : Broker)
    (shown : List Server.Shown) : Prop where
  settles : machine.Settles broker shown
  booked : machine.Booked
  basedir : machine.server.shared.host.mmptr.basedir = basedir

section Receiving

variable {basedir : Bytes} {event : Event}

theorem Accounted.silent (accounted : machine.Accounted basedir broker shown)
    (nothing : machine.receives event = none) (stepped : perform machine event = .ok next) :
    next.Accounted basedir broker shown := by
  refine ⟨accounted.settles.silent ?_ stepped, booked_step accounted.booked stepped,
    (basedir_step stepped).trans accounted.basedir⟩
  cases took : machine.takes event with
  | none => rfl
  | some happening =>
      rw [receives, took] at nothing
      cases nothing

theorem Accounted.receives (accounted : machine.Accounted basedir broker shown) {receipt : Receipt}
    (comes : machine.receives event = some receipt) (stepped : perform machine event = .ok next) :
    ∃ first later, broker.Accounts basedir receipt first later ∧
      next.Accounted basedir later (shown ++ [first]) := by
  have booked := booked_step accounted.booked stepped
  have stays := (basedir_step stepped).trans accounted.basedir
  rw [Machine.receives] at comes
  cases took : machine.takes event with
  | some happening =>
      rw [took] at comes
      cases comes
      rcases accounted.settles.taken took stepped with ⟨first, later, allowed, settles⟩
      refine ⟨first, later, ⟨allowed, ?_⟩, settles, booked, stays⟩
      rcases perform_eq_ok stepped with ⟨result, world, completed, same⟩
      rcases event with ⟨move, script⟩
      cases idle : machine.isIdle with
      | false =>
          rw [takes, idle] at took
          cases took
      | true =>
          have rests := loop_of_isIdle idle
          rw [takes, idle] at took
          rw [received, stepped]
          cases move with
          | proceed => cases took
          | work index => cases took
          | connect conn =>
              cases took
              rfl
          | disconnect conn =>
              cases took
              rfl
          | packet conn chance packet =>
              cases took
              rw [step, idle] at completed
              have settled := accounted.settles.settled
              rw [rests] at settled
              cases settled
              have posted := posted_packet rests completed allowed
              rw [accounted.basedir] at posted
              rw [rests, same]
              exact posted
  | none =>
      have settles := accounted.settles.silent took stepped
      have unshown : next.Settles broker (shown ++ [⟨none, []⟩]) := by
        refine ⟨settles.tracked, settles.settled, settles.queues.trans ?_⟩
        rw [List.flatMap_append]
        exact (List.append_nil _).symm
      rw [took] at comes
      rcases event with ⟨move, script⟩
      cases move with
      | proceed =>
          cases inHand : machine.loop with
          | recovering reference sql queue =>
              rw [inHand] at comes
              cases comes
              have found := received_recovering accounted.booked stepped inHand
              rw [accounted.basedir] at found
              exact ⟨_, broker, ⟨rfl, rfl, found⟩, unshown, booked, stays⟩
          | _ =>
              rw [inHand] at comes
              cases comes
      | _ => cases comes

end Receiving

end Steps

/-! ## Runs -/

section Runs

variable [Protobuf] {database : Database} {basedir : Bytes} {world after : World} {server : Server}

/-- A server that was started has nothing in hand. -/
theorem accounted_new
    (rows : ∀ name row, database.queueMapper.queueTable.lookup name = some row → row.durable = 1)
    (started : Server.new database basedir world = .ok server after) (disk : Disk) :
    ({ server := server, disk := disk } : Machine).Accounted basedir server.broker [] := by
  have followed := (Server.new_follows started).1
  rcases bind_eq_ok started with ⟨host, middle, made, rest⟩
  rcases VirtualHost.new_ok made with ⟨mmptr, _, same⟩
  cases rest
  refine ⟨⟨?_, rfl, rfl⟩, ⟨⟨?_, ?_, nofun⟩, fun _ _ => rfl, ?_⟩, followed.basedir⟩
  · rw [same]
    exact MsgQueueManager.tracked_new rows
  · exact followed.named fun qname reference store found => nomatch found
  · exact (ConsumerManager.enrols_initAll {} _).enrolled
      ⟨fun _ _ there => (nomatch there), fun _ _ _ found => (nomatch found)⟩
  · exact prepared_of_loop nofun

/-- What the data files have for the queues of the table. -/
def leftParcels (database : Database) (basedir : Bytes) (disk : Disk) : Multiset Parcel :=
  ((MsgQueueManager.new database.queueMapper).msgQueues.keys.map fun qname =>
    (MessageMapper.ofNames qname basedir).parcelsOn disk).sum

/-- A server starts with what the data files have. -/
theorem parcels_new (started : Server.new database basedir world = .ok server after) :
    server.shared.host.mmptr.parcels = leftParcels database basedir world.disk := by
  rcases bind_eq_ok started with ⟨host, middle, made, rest⟩
  rcases VirtualHost.new_ok made with ⟨mmptr, filled, same⟩
  cases rest
  have parcels := MessageManager.parcels_initAll (AList.keys_nodup _)
    (fun qname _ => AList.notMem_empty qname) filled
  rw [same]
  exact parcels.trans (zero_add _)

/-- In every interleaving of the event loop with the tasks, whatever file operations
and statements fail: the parcels that were handed over, each to a consumer of its
queue, those that tasks hold back, those in the stores and those still to be stored
are, with the refused and the discarded ones, exactly the parcels that the data files
had for the queues of the table and those that the specification has come in. -/
theorem run_accounts
    (rows : ∀ name row, database.queueMapper.queueTable.lookup name = some row → row.durable = 1)
    (started : Server.new database basedir world = .ok server after) (disk : Disk)
    {events : List Event} {final : Machine}
    (completes : run perform { server := server, disk := disk } events = .ok final) :
    ∃ shown, Allowed (Broker.Accounts basedir) server.broker
        (takenUp perform receives { server := server, disk := disk } events) shown
        (final.loop.settle final.server.broker) ∧
      final.handedParcels + final.withheldParcels + final.storedParcels + final.owedParcels +
          (tally perform refused { server := server, disk := disk } events +
            tally perform discarded { server := server, disk := disk } events) =
        leftParcels database basedir world.disk +
          ((takenUp perform receives { server := server, disk := disk } events).map
            Receipt.parcels).sum := by
  have accounted := accounted_new rows started disk
  have balance := @balance_of_run _ _ _ _ _ perform Booked parcels received
    (fun machine event => machine.refused event + machine.discarded event)
    (fun booked stepped => booked_step booked stepped)
    (fun booked stepped => parcels_step booked stepped) _ _ _ accounted.booked completes
  have receipts := @tally_takenUp _ _ _ _ _ perform _ receives Receipt.parcels
    { server := server, disk := disk } events
  rcases @allowed_of_run _ _ _ _ _ _ perform receives (Broker.Accounts basedir)
    (Accounted basedir) (fun accounted nothing stepped => accounted.silent nothing stepped)
    (fun accounted comes stepped => accounted.receives comes stepped) _ _ _ _ _ accounted
    completes with ⟨shown, last, allowed, lastly⟩
  have comes : (fun machine event => ((Machine.receives machine event).map
      Receipt.parcels).getD 0) = received :=
    funext fun machine => funext fun event => (received_eq machine event).symm
  have nothingPushed : server.shared.pool = [] :=
    List.map_eq_nil_iff.mp (List.append_eq_nil_iff.mp accounted.settles.queues).1
  have start : ({ server := server, disk := disk } : Machine).parcels =
      server.shared.host.mmptr.parcels := by
    change _ + inHands _ server.shared.pool + _ + _ = _
    rw [nothingPushed]
    exact (add_zero _).trans ((congrArg (· + _) (add_zero 0)).trans (zero_add _))
  rw [lastly.settles.settled, ← receipts, comes, ← parcels_new started, ← start, ← tally_add]
  exact ⟨shown, allowed, balance⟩

end Runs

/-! ## A message that is found on the disk, and one that is thrown away -/

/-- A message that a former server left in the data file of the queue. -/
def leftover : Disk := fun name =>
  if name = ascii "/q.mqd" then
    some (frame sizeOfSize (Payload.serialize
      ⟨some ⟨ascii "i", .durable, []⟩, ascii "m", validMark⟩))
  else none

/-- The queue is declared in the table. -/
def declared : Database :=
  { queueMapper := ⟨(∅ : Dictionary Bytes QueueRow).insert (ascii "q") ⟨1, 0, 0, []⟩⟩ }

/-- A consumer is there when another message is published, but the task that is pushed
takes the older one; then the queue is deleted. -/
def deletingPublished : List Event :=
  let send (request : Request) : Event := ⟨.packet 0 {} (.request [] (ascii "c") request), []⟩
  [⟨.connect 0, []⟩, ⟨.packet 0 {} (.openChannel [] (ascii "c")), []⟩,
    send (.basicConsume (ascii "t") (ascii "q") false),
    send (.declareExchange ⟨ascii "e", .fanout, .undurable, false, ∅⟩),
    send (.queueBind (ascii "e") (ascii "q") []),
    send (.basicPublish (ascii "e") none (ascii "n")), ⟨.proceed, []⟩, ⟨.proceed, []⟩,
    ⟨.proceed, []⟩] ++
    List.replicate 5 ⟨.work 0, []⟩ ++
    [send (.deleteQueue (ascii "q")), ⟨.proceed, []⟩, ⟨.proceed, []⟩]

/-- The message of the disk is handed over, the other one is discarded. -/
theorem published_is_discarded :
    ∃ server disk final,
      run (@perform wireFormat) { server := server, disk := disk } deletingPublished = .ok final ∧
      (final.sent.map fun delivery => delivery.taken.pointer.message.payload.body,
        (tally (@perform wireFormat) discarded { server := server, disk := disk }
          deletingPublished).card) = ([ascii "m"], 1) ∧
      ∃ shown, Allowed (@Broker.Accounts wireFormat []) server.broker
          (takenUp (@perform wireFormat) (@receives wireFormat) { server := server, disk := disk }
            deletingPublished) shown (final.loop.settle final.server.broker) ∧
        final.handedParcels + final.withheldParcels + final.storedParcels + final.owedParcels +
            (tally (@perform wireFormat) refused { server := server, disk := disk }
                deletingPublished +
              tally (@perform wireFormat) discarded { server := server, disk := disk }
                deletingPublished) =
          @leftParcels wireFormat declared [] leftover +
            ((takenUp (@perform wireFormat) (@receives wireFormat)
              { server := server, disk := disk } deletingPublished).map Receipt.parcels).sum := by
  have result : (do
      let started ← performed (@Server.new wireFormat declared []) leftover []
      let final ← run (@perform wireFormat) { server := started.1, disk := started.2 }
        deletingPublished
      return (final.sent.map fun delivery => delivery.taken.pointer.message.payload.body,
        (tally (@perform wireFormat) discarded { server := started.1, disk := started.2 }
          deletingPublished).card) : Except Fault (List Bytes × Nat)) = .ok ([ascii "m"], 1) := by
    decide +kernel
  rcases except_bind_eq_ok result with ⟨⟨server, disk⟩, started, result⟩
  rcases except_bind_eq_ok result with ⟨final, completes, result⟩
  rcases performed_eq_ok started with ⟨world, new, _⟩
  refine ⟨server, disk, final, completes, Except.ok.inj result,
    @run_accounts wireFormat declared [] ⟨leftover, []⟩ world server ?_ new disk deletingPublished
      final completes⟩
  intro name row stored
  change ((∅ : Dictionary Bytes QueueRow).insert _ _).lookup name = some row at stored
  rw [Dictionary.lookup_insert] at stored
  by_cases same : name = ascii "q"
  · rw [if_pos same] at stored
    cases stored
    rfl
  · rw [if_neg same] at stored
    cases stored

end Machine

end ProtobufMq
