import ProtobufMq.Server.Completing
import ProtobufMq.Server.Delivery
import ProtobufMq.Server.PublishEffect

namespace ProtobufMq

open Foundation

/-!
# The answers of the server

A client blocks until the response with the id of its request arrives, and there
is no timeout.  The desk keeps the book on that: which requests were taken up
on the connections that the server knows, which of them is in hand, and which
response was sent to which.  A request that the event loop carries out in one
step is answered in that step, with the reply of its handler.  One that takes
several is answered in the last of them.

A handler that does not find its channel returns without a response.  Everything
else is answered, unless the program stops before.
-/

/-! ## When a step completes -/

namespace Server

/-- A packet can be served: a channel that it closes can be destroyed, and an open
channel can carry out a request. -/
def Servable [Protobuf] (server : Server) (world : World) (conn : Nat) : Packet → Prop
  | .openChannel _ _ => True
  | .closeChannel _ cid => ∀ channel ∈ server.channelAt conn cid,
      Channel.Destroyable server.shared.cmptr channel
  | .request _ cid request => (server.channelAt conn cid).isSome = true →
      Channel.Defined server.shared world request

instance [Protobuf] (server : Server) (world : World) (conn : Nat) :
    ∀ packet, Decidable (server.Servable world conn packet)
  | .openChannel _ _ => .isTrue trivial
  | .closeChannel _ cid => inferInstanceAs (Decidable (∀ channel ∈ server.channelAt conn cid,
      Channel.Destroyable server.shared.cmptr channel))
  | .request _ cid request => inferInstanceAs (Decidable
      ((server.channelAt conn cid).isSome = true → Channel.Defined server.shared world request))

section Handling

variable [Protobuf] {server : Server} {world : World} {conn : Nat} {chance : Chance}

/-- A packet whose request takes one step is handled if it can be served. -/
theorem completesIff_handle {packet : Packet}
    (storeless : ∀ rid cid request, packet = .request rid cid request →
      (server.channelAt conn cid).isSome = true → Shared.Storeless request)
    (lives : Lives world) :
    CompletesIff (server.handle conn chance packet) world (server.Servable world conn packet) := by
  unfold handle
  cases connected : server.connections.lookup conn with
  | none =>
      have unopened (cid : Bytes) : server.channelAt conn cid = none := by
        rw [channelAt, connected]
        rfl
      refine ((steady_pure _).completesIff lives).congr ⟨fun _ => ?_, fun _ => trivial⟩
      cases packet with
      | openChannel rid cid => trivial
      | closeChannel rid cid =>
          intro channel opened
          cases (unopened cid).symm.trans opened
      | request rid cid request =>
          intro opened
          rw [unopened cid] at opened
          cases opened
  | some connection =>
      have found := channelAt_eq connected
      cases packet with
      | openChannel rid cid => exact (steady_pure _).completesIff lives
      | closeChannel rid cid =>
          exact ((completesIff_ofExcept lives).congr (closeChannel_ok_iff connected cid)).bind
            fun _ => steady_pure _
      | request rid cid request =>
          have single := storeless rid cid request rfl
          rw [found] at single
          simp only [Servable, found]
          cases opened : connection.channels.lookup cid with
          | none =>
              refine ((steady_pure _).completesIff lives).congr ⟨fun _ present => ?_,
                fun _ => trivial⟩
              cases present
          | some channel =>
              rw [opened] at single
              exact ((channel.completesIff_handle chance (single rfl) lives).bind
                fun _ => steady_pure _).congr ⟨fun met _ => met, fun met => met rfl⟩

end Handling

end Server

namespace Loop

/-- The next step of the event loop can be taken: the message of a publish can be put
into its queue, a data file can be read back, a channel can be destroyed. -/
def Continues [Protobuf] (shared : Shared) (world : World) : Loop → Prop
  | .publishing _ publication (mqb :: _) => publication.Enters shared.host mqb world
  | .recovering reference _ _ => ∀ store ∈ shared.host.mmptr.queueMsgs.object reference,
      store.mapper.Collectable world
  | .closing (channel :: _) => Channel.Destroyable shared.cmptr channel
  | _ => True

instance [Protobuf] (shared : Shared) (world : World) :
    ∀ loop : Loop, Decidable (loop.Continues shared world)
  | .idle => .isTrue trivial
  | .publishing _ _ [] => .isTrue trivial
  | .publishing _ publication (mqb :: _) =>
      inferInstanceAs (Decidable (publication.Enters shared.host mqb world))
  | .pushing _ _ _ _ => .isTrue trivial
  | .recovering reference _ _ => inferInstanceAs (Decidable
      (∀ store ∈ shared.host.mmptr.queueMsgs.object reference, store.mapper.Collectable world))
  | .declaring _ _ => .isTrue trivial
  | .clearing _ _ _ => .isTrue trivial
  | .deleting _ _ => .isTrue trivial
  | .closing [] => .isTrue trivial
  | .closing (channel :: _) => inferInstanceAs (Decidable (Channel.Destroyable shared.cmptr channel))

end Loop

namespace Machine

/-- The next step of a task can be taken: a channel whose members it uses is there,
and the message that it acknowledges is waiting and can be removed. -/
def Carries [Protobuf] (machine : Machine) (task : Task) (world : World) : Phase → Prop
  | .ready => machine.isOpen task.channel = true
  | .taken _ => machine.isOpen task.channel = true
  | .chosen _ choice => machine.isOpen choice.consumer.channel = true
  | .delivered _ choice => choice.consumer.autoAck = true → machine.isOpen task.channel = true
  | .acking taken _ reference =>
      ∀ store ∈ machine.server.shared.host.mmptr.queueMsgs.object reference,
        store.Removable taken.pointer.id world
  | _ => True

instance [Protobuf] (machine : Machine) (task : Task) (world : World) :
    ∀ phase, Decidable (machine.Carries task world phase)
  | .ready => inferInstanceAs (Decidable (machine.isOpen task.channel = true))
  | .looked _ => .isTrue trivial
  | .taken _ => inferInstanceAs (Decidable (machine.isOpen task.channel = true))
  | .asking _ _ => .isTrue trivial
  | .chosen _ choice => inferInstanceAs (Decidable (machine.isOpen choice.consumer.channel = true))
  | .delivered _ choice => inferInstanceAs (Decidable
      (choice.consumer.autoAck = true → machine.isOpen task.channel = true))
  | .acking taken _ reference => inferInstanceAs (Decidable
      (∀ store ∈ machine.server.shared.host.mmptr.queueMsgs.object reference,
        store.Removable taken.pointer.id world))
  | .ended _ => .isTrue trivial

/-- The condition under which a step does not stop the program. -/
def Continues [Protobuf] (machine : Machine) (event : Event) : Prop :=
  let world : World := ⟨machine.disk, event.script⟩
  match event.move with
  | .packet conn _ packet => machine.isIdle = true → machine.server.Servable world conn packet
  | .proceed => machine.loop.Continues machine.server.shared world
  | .work index => ∀ task ∈ machine.server.shared.pool[index]?,
      machine.Carries task world (machine.phase index)
  | _ => True

instance [Protobuf] (machine : Machine) : ∀ event, Decidable (machine.Continues event)
  | ⟨.connect _, _⟩ => .isTrue trivial
  | ⟨.disconnect _, _⟩ => .isTrue trivial
  | ⟨.packet conn _ packet, script⟩ => inferInstanceAs (Decidable
      (machine.isIdle = true → machine.server.Servable ⟨machine.disk, script⟩ conn packet))
  | ⟨.proceed, script⟩ => inferInstanceAs (Decidable
      (machine.loop.Continues machine.server.shared ⟨machine.disk, script⟩))
  | ⟨.work index, script⟩ => inferInstanceAs (Decidable
      (∀ task ∈ machine.server.shared.pool[index]?,
        machine.Carries task ⟨machine.disk, script⟩ (machine.phase index)))

section Completing

variable [Protobuf] {machine : Machine} {world : World}

/-- The first step of a request completes if the packet can be served. -/
theorem completesIff_accept (conn : Nat) (chance : Chance) (packet : Packet)
    (lives : Lives world) :
    CompletesIff (machine.accept conn chance packet) world
      (machine.server.Servable world conn packet) := by
  have handles : (∀ rid cid request, packet = .request rid cid request →
        (machine.server.channelAt conn cid).isSome = true → Shared.Storeless request) →
      CompletesIff (do
        let done ← machine.server.handle conn chance packet
        return { machine with server := done.2 } : FileM Machine) world
        (machine.server.Servable world conn packet) := fun storeless =>
    (Server.completesIff_handle storeless lives).bind fun _ => steady_pure _
  cases packet with
  | openChannel rid cid => exact handles fun _ _ _ => nofun
  | closeChannel rid cid => exact handles fun _ _ _ => nofun
  | request rid cid request =>
      have steady : ∀ {code : FileM Machine}, Steady code → Channel.Defined
          machine.server.shared world request → CompletesIff code world
            (machine.server.Servable world conn (.request rid cid request)) :=
        fun steady defined => (steady.completesIff lives).congr
          ⟨fun _ _ => defined, fun _ => trivial⟩
      unfold accept
      simp only
      cases opened : machine.server.channelAt conn cid with
      | none =>
          have nobody : ∀ rid' cid' request', Packet.request rid cid request =
              .request rid' cid' request' → (machine.server.channelAt conn cid').isSome = true →
              Shared.Storeless request' := by
            intro rid' cid' request' same found
            cases same
            rw [opened] at found
            cases found
          cases request <;> exact handles nobody
      | some channel =>
          have storeless : Shared.Storeless request → ∀ rid' cid' request',
              Packet.request rid cid request = .request rid' cid' request' →
              (machine.server.channelAt conn cid').isSome = true → Shared.Storeless request' := by
            intro storeless rid' cid' request' same _
            cases same
            exact storeless
          cases request with
          | basicPublish exchangeName properties body =>
              simp only
              cases machine.server.shared.host.selectExchange exchangeName with
              | none => exact steady (steady_pure _) trivial
              | some exchange => exact steady (steady_pure _) trivial
          | declareQueue queue =>
              exact steady (steady_bind (MessageManager.steady_introduce _ _)
                fun _ => steady_pure _) trivial
          | deleteQueue queueName => exact steady (steady_pure _) trivial
          | declareExchange exchange => exact handles (storeless trivial)
          | deleteExchange exchangeName => exact handles (storeless trivial)
          | queueBind exchangeName queueName bindingKey => exact handles (storeless trivial)
          | queueUnbind exchangeName queueName => exact handles (storeless trivial)
          | basicAck queueName messageId => exact handles (storeless trivial)
          | basicConsume consumerTag queueName autoAck => exact handles (storeless trivial)
          | basicCancel consumerTag queueName => exact handles (storeless trivial)

theorem completesIff_proceed (machine : Machine) (lives : Lives world) :
    CompletesIff machine.proceed world (machine.loop.Continues machine.server.shared world) := by
  unfold proceed
  simp only
  cases machine.loop with
  | idle => exact (steady_pure _).completesIff lives
  | publishing address publication rest =>
      cases rest with
      | nil => exact (steady_pure _).completesIff lives
      | cons mqb rest =>
          exact (Channel.completesIff_insertTurn publication machine.server.shared mqb lives).bind
            fun _ => steady_pure _
  | pushing address publication queueName rest => exact (steady_pure _).completesIff lives
  | recovering reference sql queue =>
      refine CompletesIff.bind ?_ fun _ => steady_pure _
      exact machine.server.shared.host.mmptr.completesIff_recover reference lives
  | declaring sql queue => exact (steady_pure _).completesIff lives
  | clearing reference sql queueName =>
      exact (steady_bind (machine.server.shared.host.mmptr.steady_clearStore reference)
        fun _ => steady_pure _).completesIff lives
  | deleting sql queueName => exact (steady_pure _).completesIff lives
  | closing rest =>
      cases rest with
      | nil => exact (steady_pure _).completesIff lives
      | cons channel rest =>
          exact ((completesIff_ofExcept lives).congr (Channel.destroy_ok_iff channel)).bind
            fun _ => steady_pure _

omit [Protobuf] in
theorem completesIff_entering {address : Nat} {code : FileM Machine} (steady : Steady code)
    (lives : Lives world) :
    CompletesIff (if machine.isOpen address then code else throw .channelGone) world
      (machine.isOpen address = true) := by
  by_cases opened : machine.isOpen address = true
  · rw [if_pos opened]
    exact (steady.completesIff lives).congr ⟨fun _ => opened, fun _ => trivial⟩
  · rw [if_neg opened]
    exact (completesIff_throw _).congr ⟨False.elim, opened⟩

theorem completesIff_consume (index : Nat) (task : Task) (lives : Lives world) :
    CompletesIff (machine.consume index task) world
      (machine.Carries task world (machine.phase index)) := by
  unfold consume
  simp only
  cases machine.phase index with
  | ready => exact completesIff_entering (steady_pure _) lives
  | looked reference => exact (steady_pure _).completesIff lives
  | taken taken => exact completesIff_entering (steady_pure _) lives
  | asking taken unit => exact (steady_pure _).completesIff lives
  | chosen taken choice => exact completesIff_entering (steady_pure _) lives
  | delivered taken choice =>
      exact completesIff_ite lives (fun _ => completesIff_entering (steady_pure _) lives)
        (steady_pure _)
  | acking taken choice reference =>
      exact (machine.server.shared.host.mmptr.completesIff_removeFrom reference taken.pointer.id
        lives).bind fun _ => steady_pure _
  | ended outcome => exact (steady_pure _).completesIff lives

/-- A step completes under its condition, and stops the program without it. -/
theorem completesIff_step (machine : Machine) {event : Event} (lives : Outcome.dies ∉ event.script) :
    CompletesIff (machine.step event.move) ⟨machine.disk, event.script⟩
      (machine.Continues event) := by
  rcases event with ⟨move, script⟩
  have living : Lives ⟨machine.disk, script⟩ := lives
  cases move with
  | connect conn => exact (steady_pure _).completesIff living
  | disconnect conn => exact (steady_pure _).completesIff living
  | packet conn chance packet =>
      exact completesIff_ite living (fun _ => completesIff_accept conn chance packet living)
        (steady_pure _)
  | proceed => exact machine.completesIff_proceed living
  | work index =>
      simp only [Continues, step, work]
      cases machine.server.shared.pool[index]? with
      | none =>
          refine ((steady_pure _).completesIff living).congr ⟨fun _ task listed => ?_,
            fun _ => trivial⟩
          cases listed
      | some task =>
          refine (completesIff_consume index task living).congr ⟨fun met other same => ?_,
            fun met => met task rfl⟩
          cases same
          exact met

end Completing

end Machine

/-! ## The book -/

/-- A request that waits for its response: the connection on which it came, its id, and
the channel that it names. -/
structure Ticket where
  conn : Nat
  rid : Bytes
  cid : Bytes
  deriving DecidableEq, Repr

/-- The response that a reply to a packet of a connection is. -/
def Reply.sentTo (conn : Nat) : Reply → List (Ticket × Bool)
  | .response rid cid accepted => [(⟨conn, rid, cid⟩, accepted)]
  | .nothing => []
  | .shutdown => []

/-- The machine and the book on the requests that it took up on connections that the
server knows, and on the responses that it sent. -/
structure Desk where
  machine : Machine
  asked : List Ticket := []
  inHand : Option Ticket := none
  answered : List (Ticket × Bool) := []

namespace Loop

/-- A request is in hand. -/
def serves : Loop → Bool
  | .idle => false
  | .closing _ => false
  | _ => true

/-- How many steps are left. -/
def left : Loop → Nat
  | .idle => 0
  | .publishing _ _ rest => 2 * rest.length + 1
  | .pushing _ _ _ rest => 2 * rest.length + 2
  | .recovering _ _ _ => 2
  | .declaring _ _ => 1
  | .clearing _ _ _ => 2
  | .deleting _ _ => 1
  | .closing rest => rest.length + 1

/-- What the last step of a request answers. -/
def result (shared : Shared) : Loop → Bool
  | .declaring sql queue => (shared.host.qmptr.declareQueue sql.queueTable queue).1
  | .deleting sql queueName => (shared.host.qmptr.deleteQueue sql.queueTable queueName).1
  | _ => true

end Loop

namespace Machine

/-- The channel that a request names is open when it is taken up. -/
def FindsChannel (machine : Machine) : Move → Prop
  | .packet conn _ (.request _ cid _) => machine.isIdle = true →
      (machine.server.connections.lookup conn).isSome = true →
      (machine.server.channelAt conn cid).isSome = true
  | _ => True

instance (machine : Machine) : ∀ move, Decidable (machine.FindsChannel move)
  | .connect _ => .isTrue trivial
  | .disconnect _ => .isTrue trivial
  | .packet _ _ (.openChannel _ _) => .isTrue trivial
  | .packet _ _ (.closeChannel _ _) => .isTrue trivial
  | .packet conn _ (.request _ cid _) => inferInstanceAs (Decidable (machine.isIdle = true →
      (machine.server.connections.lookup conn).isSome = true →
      (machine.server.channelAt conn cid).isSome = true))
  | .proceed => .isTrue trivial
  | .work _ => .isTrue trivial

/-- The responses that the handler of a packet sends. -/
def responses [Protobuf] (machine : Machine) (conn : Nat) (chance : Chance) (packet : Packet)
    (script : List Outcome) : List (Ticket × Bool) :=
  match performed (machine.server.handle conn chance packet) machine.disk script with
  | .ok (done, _) => done.1.sentTo conn
  | .error _ => []

end Machine

namespace Desk

/-- A packet on a known connection has been taken up. -/
def takeUp (desk : Desk) (ticket : Ticket) (responses : List (Ticket × Bool)) (next : Machine) :
    Desk :=
  if next.isIdle then
    { machine := next, asked := desk.asked ++ [ticket], answered := desk.answered ++ responses }
  else
    { machine := next, asked := desk.asked ++ [ticket], inHand := some ticket,
      answered := desk.answered }

/-- What was in hand has gone on. -/
def goOn (desk : Desk) (next : Machine) : Desk :=
  if next.isIdle then
    { machine := next, asked := desk.asked
      answered := desk.answered ++ desk.inHand.toList.map
        fun ticket => (ticket, desk.machine.loop.result desk.machine.server.shared) }
  else { desk with machine := next }

/-- Enter a step into the book. -/
def enter [Protobuf] (desk : Desk) (event : Machine.Event) (next : Machine) : Desk :=
  match event.move with
  | .packet conn chance packet =>
      if desk.machine.isIdle && (desk.machine.server.connections.lookup conn).isSome then
        desk.takeUp ⟨conn, packet.rid, packet.cid⟩
          (desk.machine.responses conn chance packet event.script) next
      else { desk with machine := next }
  | .proceed => desk.goOn next
  | _ => { desk with machine := next }

/-- Perform one step. -/
def perform [Protobuf] (desk : Desk) (event : Machine.Event) : Except Fault Desk :=
  (desk.machine.perform event).map (desk.enter event)

/-- Every request that was taken up is answered once, with its ids, in the order of the
requests, except the one in hand; and each further step of that one brings its
response nearer. -/
structure Answered [Protobuf] (desk : Desk) : Prop where
  once : desk.asked = desk.answered.map Prod.fst ++ desk.inHand.toList
  underway : desk.inHand.isSome = desk.machine.loop.serves
  nearer : ∀ event next, desk.inHand.isSome = true → perform desk event = .ok next →
    next.machine.loop.left ≤ desk.machine.loop.left ∧
      (event.move = .proceed → next.machine.loop.left < desk.machine.loop.left)

/-- The condition on a step: it does not stop the program, and a request finds the channel
that it names. -/
structure Answerable [Protobuf] (desk : Desk) (event : Machine.Event) : Prop where
  continues : desk.machine.Continues event
  finds : desk.machine.FindsChannel event.move

instance [Protobuf] (desk : Desk) (event : Machine.Event) : Decidable (desk.Answerable event) :=
  decidable_of_iff (_ ∧ _) ⟨fun both => ⟨both.1, both.2⟩, fun both => ⟨both.1, both.2⟩⟩

end Desk

namespace Machine

section Looping

variable [Protobuf] {machine next : Machine} {world after : World}

omit [Protobuf] in
theorem isIdle_iff : machine.isIdle = true ↔ machine.loop = .idle := by
  unfold isIdle
  cases machine.loop <;> simp

omit [Protobuf] in
theorem isIdle_congr (same : next.loop = machine.loop) : next.isIdle = machine.isIdle := by
  unfold isIdle
  rw [same]

/-- A packet that is taken up is done with, or left in hand. -/
theorem Accepts.loop {conn : Nat} {chance : Chance} {packet : Packet}
    (accepts : machine.Accepts conn chance world after packet next) :
    next.loop = machine.loop ∨ next.loop.serves = true := by
  cases accepts with
  | handles storeless handled => exact Or.inl rfl
  | refuses => exact Or.inl rfl
  | publishes opened => exact Or.inr rfl
  | recovers introduced => exact Or.inr rfl
  | declares introduced => exact Or.inr rfl
  | deletes onward =>
      rcases onward with same | ⟨store, same⟩
      all_goals
        rw [same]
        exact Or.inr rfl

/-- A step of the event loop brings the end of what is in hand nearer. -/
theorem Proceeds.nears (proceeds : machine.Proceeds world after next)
    (busy : machine.isIdle = false) : next.loop.left < machine.loop.left := by
  cases proceeds with
  | rests idle =>
      rw [isIdle_iff.mpr idle] at busy
      cases busy
  | finishes inHand =>
      rcases inHand with ⟨address, publication, inHand⟩ | inHand
      all_goals
        rw [inHand]
        exact Nat.lt_succ_self 0
  | skips inHand routed =>
      rw [inHand]
      simp only [Loop.left, List.length_cons]
      omega
  | inserts inHand routed called =>
      rw [inHand]
      simp only [Loop.left, List.length_cons]
      omega
  | pushes inHand =>
      rw [inHand]
      exact Nat.lt_succ_self _
  | recovers inHand recovered =>
      rw [inHand]
      exact Nat.lt_succ_self 1
  | declares inHand =>
      rw [inHand]
      exact Nat.lt_succ_self 0
  | clears inHand cleared =>
      rw [inHand]
      exact Nat.lt_succ_self 1
  | deletes inHand =>
      rw [inHand]
      exact Nat.lt_succ_self 0
  | closes inHand destroyed =>
      rw [inHand]
      exact Nat.lt_succ_self _

/-- What is not done with yet is still a request, or still the end of a connection. -/
theorem Proceeds.serves (proceeds : machine.Proceeds world after next)
    (busy : next.isIdle = false) : next.loop.serves = machine.loop.serves := by
  cases proceeds with
  | rests idle => rfl
  | finishes inHand => cases busy
  | skips inHand routed => rw [inHand]; rfl
  | inserts inHand routed called => rw [inHand]; rfl
  | pushes inHand => rw [inHand]; rfl
  | recovers inHand recovered => rw [inHand]; rfl
  | declares inHand => cases busy
  | clears inHand cleared => rw [inHand]; rfl
  | deletes inHand => cases busy
  | closes inHand destroyed => rw [inHand]; rfl

theorem loop_of_work {index : Nat} (completed : machine.work index world = .ok next after) :
    next.loop = machine.loop := by
  unfold work at completed
  cases listed : machine.server.shared.pool[index]? with
  | none =>
      rw [listed] at completed
      cases completed
      rfl
  | some task =>
      rw [listed] at completed
      cases consume_works completed <;> rfl

/-- While something is in hand, a step of the event loop brings its end nearer, and
nothing else touches it. -/
theorem loop_of_busy {event : Event} (busy : machine.isIdle = false)
    (stepped : machine.perform event = .ok next) :
    (event.move = .proceed ∧ next.loop.left < machine.loop.left) ∨
      (event.move ≠ .proceed ∧ next.loop = machine.loop) := by
  rcases perform_eq_ok stepped with ⟨result, after, completed, same⟩
  rw [same]
  rcases event with ⟨move, script⟩
  simp only [step, busy] at completed
  cases move with
  | connect conn =>
      cases completed
      exact Or.inr ⟨nofun, rfl⟩
  | disconnect conn =>
      cases completed
      exact Or.inr ⟨nofun, rfl⟩
  | packet conn chance packet =>
      cases completed
      exact Or.inr ⟨nofun, rfl⟩
  | proceed => exact Or.inl ⟨rfl, (proceed_cases completed).nears busy⟩
  | work index =>
      have untouched := loop_of_work completed
      exact Or.inr ⟨nofun, untouched⟩

end Looping

/-! ## The responses -/

section Answering

variable [Protobuf] {machine next : Machine} {world after : World} {conn : Nat} {chance : Chance}

/-- The handler of a packet on a known connection, whose channel is open if it needs one,
sends a response. -/
theorem handle_responds {packet : Packet} {done : Reply × Server}
    (known : (machine.server.connections.lookup conn).isSome = true)
    (finds : ∀ rid cid request, packet = .request rid cid request →
      (machine.server.channelAt conn cid).isSome = true)
    (handled : machine.server.handle conn chance packet world = .ok done after) :
    ∃ accepted, done.1 = .response packet.rid packet.cid accepted := by
  rcases Option.isSome_iff_exists.mp known with ⟨connection, connected⟩
  cases packet with
  | openChannel rid cid =>
      unfold Server.handle at handled
      rw [connected] at handled
      cases handled
      exact ⟨_, rfl⟩
  | closeChannel rid cid =>
      unfold Server.handle at handled
      rw [connected] at handled
      rcases bind_eq_ok handled with ⟨closed, middle, _, rest⟩
      cases rest
      exact ⟨closed.1, rfl⟩
  | request rid cid request =>
      rcases Server.request_ok handled with ⟨unopened, _, _⟩ |
        ⟨connection, channel, result, _, _, _, same⟩
      · have opened := finds rid cid request rfl
        rw [unopened] at opened
        cases opened
      · rw [same]
        exact ⟨result.1, rfl⟩

omit [Protobuf] in
theorem unknown_channel (unknown : (machine.server.connections.lookup conn).isSome = false)
    (cid : Bytes) : machine.server.channelAt conn cid = none := by
  rw [Option.isSome_eq_false_iff, Option.isNone_iff_eq_none] at unknown
  rw [Server.channelAt, unknown]
  rfl

/-- A request for a channel that is not open gets no response. -/
theorem responses_unopened {cid : Bytes}
    (known : (machine.server.connections.lookup conn).isSome = true)
    (unopened : machine.server.channelAt conn cid = none) (chance : Chance) (rid : Bytes)
    (request : Request) (script : List Outcome) :
    machine.responses conn chance (.request rid cid request) script = [] := by
  rcases Option.isSome_iff_exists.mp known with ⟨connection, connected⟩
  have absent := (Server.channelAt_eq connected cid).symm.trans unopened
  have dropped : machine.server.handle conn chance (.request rid cid request)
      ⟨machine.disk, script⟩ = .ok (.nothing, machine.server) ⟨machine.disk, script⟩ := by
    simp only [Server.handle, connected, absent]
    rfl
  rw [responses, performed_ok dropped]
  rfl

/-- A packet that finds no channel leaves nothing in hand. -/
theorem accept_unopened {packet : Packet}
    (unopened : ∀ rid cid request, packet = .request rid cid request →
      machine.server.channelAt conn cid = none)
    (completed : machine.accept conn chance packet world = .ok next after) :
    next.loop = machine.loop := by
  have handles : (do
        let done ← machine.server.handle conn chance packet
        return { machine with server := done.2 } : FileM Machine) world = .ok next after →
      next.loop = machine.loop := by
    intro completed
    rcases bind_eq_ok completed with ⟨handled, middle, _, rest⟩
    cases rest
    rfl
  cases packet with
  | openChannel rid cid => exact handles completed
  | closeChannel rid cid => exact handles completed
  | request rid cid request =>
      simp only [accept, unopened rid cid request rfl] at completed
      cases request <;> exact handles completed

/-- A packet that is done with in one step is done with by its handler. -/
theorem accept_handles {packet : Packet}
    (accepted : machine.accept conn chance packet world = .ok next after)
    (done : next.isIdle = true) :
    ∃ handled later, machine.server.handle conn chance packet world = .ok handled later := by
  have handles : ∀ {later : World}, (do
        let done ← machine.server.handle conn chance packet
        return { machine with server := done.2 } : FileM Machine) world = .ok next later →
      ∃ handled later, machine.server.handle conn chance packet world = .ok handled later := by
    intro later completed
    rcases bind_eq_ok completed with ⟨handled, middle, called, _⟩
    exact ⟨handled, middle, called⟩
  cases packet with
  | openChannel rid cid => exact handles accepted
  | closeChannel rid cid => exact handles accepted
  | request rid cid request =>
      unfold accept at accepted
      simp only at accepted
      cases found : machine.server.channelAt conn cid with
      | none =>
          rw [found] at accepted
          cases request <;> exact handles accepted
      | some channel =>
          rw [found] at accepted
          cases request with
          | basicPublish exchangeName properties body =>
              simp only at accepted
              cases selected : machine.server.shared.host.selectExchange exchangeName with
              | none =>
                  cases connected : machine.server.connections.lookup conn with
                  | none =>
                      rw [Server.channelAt, connected] at found
                      cases found
                  | some connection =>
                      have opened := (Server.channelAt_eq connected cid).symm.trans found
                      have refused : Channel.basicPublish channel.address machine.server.shared
                          chance exchangeName properties body world =
                          .ok (false, machine.server.shared) world := by
                        rw [Channel.basicPublish, selected]
                        rfl
                      exact ⟨_, _, Server.handle_request connected opened (bind_ok refused)⟩
              | some exchange =>
                  rw [selected] at accepted
                  cases accepted
                  cases done
          | declareQueue queue =>
              rcases bind_eq_ok accepted with ⟨⟨store, mmptr⟩, middle, _, rest⟩
              cases rest
              cases store <;> cases done
          | deleteQueue queueName =>
              cases accepted
              unfold isIdle at done
              cases withdrawn : (machine.server.shared.host.mmptr.withdraw queueName).1 with
              | none => simp only [withdrawn] at done; cases done
              | some store => simp only [withdrawn] at done; cases done
          | declareExchange exchange => exact handles accepted
          | deleteExchange exchangeName => exact handles accepted
          | queueBind exchangeName queueName bindingKey => exact handles accepted
          | queueUnbind exchangeName queueName => exact handles accepted
          | basicAck queueName messageId => exact handles accepted
          | basicConsume consumerTag queueName autoAck => exact handles accepted
          | basicCancel consumerTag queueName => exact handles accepted

/-- The responses of a packet are the reply of its handler. -/
theorem responses_of_handled {packet : Packet} {script : List Outcome}
    {done : Reply × Server}
    (handled : machine.server.handle conn chance packet ⟨machine.disk, script⟩ = .ok done after) :
    machine.responses conn chance packet script = done.1.sentTo conn := by
  rw [responses, performed_ok handled]

/-- A packet that is done with in one step is answered. -/
theorem accept_responds {packet : Packet} {script : List Outcome}
    (known : (machine.server.connections.lookup conn).isSome = true)
    (finds : machine.FindsChannel (.packet conn chance packet))
    (idle : machine.isIdle = true)
    (accepted : machine.accept conn chance packet ⟨machine.disk, script⟩ = .ok next after)
    (done : next.isIdle = true) :
    ∃ accepted, machine.responses conn chance packet script =
      [(⟨conn, packet.rid, packet.cid⟩, accepted)] := by
  rcases accept_handles accepted done with ⟨handled, later, completed⟩
  have finding : ∀ rid cid request, packet = .request rid cid request →
      (machine.server.channelAt conn cid).isSome = true := by
    rintro rid cid request rfl
    exact finds idle known
  rcases handle_responds known finding completed with ⟨accepted, same⟩
  exact ⟨accepted, by rw [responses_of_handled completed, same]; rfl⟩

end Answering

end Machine

namespace Desk

section Booking

variable [Protobuf] {desk next : Desk} {event : Machine.Event}

theorem enter_machine (desk : Desk) (event : Machine.Event) (machine : Machine) :
    (desk.enter event machine).machine = machine := by
  rcases event with ⟨move, script⟩
  cases move with
  | packet conn chance packet =>
      simp only [enter, takeUp]
      split_ifs <;> rfl
  | proceed =>
      simp only [enter, goOn]
      split_ifs <;> rfl
  | connect conn => rfl
  | disconnect conn => rfl
  | work index => rfl

theorem perform_eq_ok (performed : perform desk event = .ok next) :
    desk.machine.perform event = .ok next.machine ∧ next = desk.enter event next.machine := by
  rcases except_map_eq_ok performed with ⟨machine, stepped, rfl⟩
  rw [enter_machine]
  exact ⟨stepped, rfl⟩

theorem perform_ok {machine : Machine} (stepped : desk.machine.perform event = .ok machine) :
    perform desk event = .ok (desk.enter event machine) := by
  rw [perform, stepped]
  rfl

/-- In a book that is in order, each further step of the request in hand brings its
response nearer. -/
theorem answered_of_once (once : desk.asked = desk.answered.map Prod.fst ++ desk.inHand.toList)
    (underway : desk.inHand.isSome = desk.machine.loop.serves) : desk.Answered := by
  refine ⟨once, underway, fun event next inHand performed => ?_⟩
  have busy : desk.machine.isIdle = false := by
    rw [underway] at inHand
    unfold Machine.isIdle
    cases loop : desk.machine.loop <;> first | rfl | (rw [loop] at inHand; cases inHand)
  rcases Machine.loop_of_busy busy (perform_eq_ok performed).1 with ⟨_, less⟩ | ⟨other, same⟩
  · exact ⟨Nat.le_of_lt less, fun _ => less⟩
  · exact ⟨Nat.le_of_eq (congrArg Loop.left same), fun proceeds => absurd proceeds other⟩

/-- The book stays in order beside a step that leaves what is in hand. -/
theorem Answered.beside {machine : Machine} (answered : desk.Answered)
    (same : machine.loop.serves = desk.machine.loop.serves) :
    ({ desk with machine := machine } : Desk).Answered :=
  answered_of_once answered.once (answered.underway.trans same.symm)

theorem Answered.inHand_of_idle (answered : desk.Answered) (idle : desk.machine.isIdle = true) :
    desk.inHand = none := by
  have underway := answered.underway
  rw [Machine.isIdle_iff.mp idle] at underway
  cases inHand : desk.inHand with
  | none => rfl
  | some ticket =>
      rw [inHand] at underway
      cases underway

/-- A request that does not find its channel is not answered. -/
theorem finds_of_answered (answered : desk.Answered) (performed : perform desk event = .ok next)
    (kept : next.Answered) : desk.machine.FindsChannel event.move := by
  rcases perform_eq_ok performed with ⟨stepped, same⟩
  rcases event with ⟨move, script⟩
  cases move with
  | packet conn chance packet =>
      cases packet with
      | openChannel rid cid => trivial
      | closeChannel rid cid => trivial
      | request rid cid request =>
          intro idle known
          by_contra unopened
          rw [Bool.not_eq_true, Option.isSome_eq_false_iff, Option.isNone_iff_eq_none] at unopened
          have unserved := Machine.responses_unopened known unopened chance rid request script
          rcases Machine.perform_eq_ok stepped with ⟨result, after, completed, left⟩
          simp only [Machine.step, idle, if_true] at completed
          have untouched := Machine.accept_unopened (fun _ _ _ other => by cases other; exact unopened)
            completed
          have done : next.machine.isIdle = true := by
            rw [left]
            exact (Machine.isIdle_congr untouched).trans idle
          have nothing := answered.inHand_of_idle idle
          have once := kept.once
          rw [same] at once
          simp only [enter, takeUp, idle, known, Bool.and_self, if_true, done, unserved,
            List.append_nil, Option.toList_none, answered.once, nothing] at once
          exact absurd (congrArg List.length once) (by simp)
  | connect conn => trivial
  | disconnect conn => trivial
  | proceed => trivial
  | work index => trivial

/-- A step of the event loop keeps the book in order. -/
theorem Answered.goOn {machine : Machine} (answered : desk.Answered)
    (serves : machine.isIdle = false → machine.loop.serves = desk.machine.loop.serves) :
    (desk.goOn machine).Answered := by
  unfold Desk.goOn
  by_cases done : machine.isIdle = true
  · rw [if_pos done]
    refine answered_of_once ?_ ?_
    · simp only [List.map_append, List.map_map, Option.toList_none, List.append_nil]
      exact answered.once.trans (congrArg _ (List.map_id _).symm)
    · rw [Machine.isIdle_iff.mp done]
      rfl
  · rw [if_neg done]
    rw [Bool.not_eq_true] at done
    exact answered.beside (serves done)

/-- Taking up a packet keeps the book in order if the packet is answered or left in hand. -/
theorem Answered.takeUp {machine : Machine} {ticket : Ticket} {responses : List (Ticket × Bool)}
    (answered : desk.Answered) (idle : desk.machine.isIdle = true)
    (responds : machine.isIdle = true → ∃ accepted, responses = [(ticket, accepted)])
    (inHand : machine.isIdle = false → machine.loop.serves = true) :
    (desk.takeUp ticket responses machine).Answered := by
  have asked : desk.asked = desk.answered.map Prod.fst := by
    rw [answered.once, answered.inHand_of_idle idle]
    exact List.append_nil _
  unfold Desk.takeUp
  cases done : machine.isIdle with
  | true =>
      rcases responds done with ⟨accepted, same⟩
      rw [if_pos rfl]
      refine answered_of_once ?_ ?_
      · simp only [asked, same, List.map_append, List.map_cons, List.map_nil, Option.toList_none,
          List.append_nil]
      · rw [Machine.isIdle_iff.mp done]
        rfl
  | false =>
      rw [if_neg Bool.false_ne_true]
      refine answered_of_once ?_ (inHand done).symm
      simp only [asked, Option.toList_some]

/-- A packet that can be served keeps the book in order if it finds its channel. -/
theorem Answered.packet {conn : Nat} {chance : Chance} {packet : Packet} {script : List Outcome}
    {machine : Machine} {after : World} (answered : desk.Answered)
    (finds : desk.machine.FindsChannel (.packet conn chance packet))
    (completed : desk.machine.step (.packet conn chance packet) ⟨desk.machine.disk, script⟩ =
      .ok machine after) :
    (desk.enter ⟨.packet conn chance packet, script⟩
      { machine with disk := after.disk }).Answered := by
  unfold enter
  cases idle : desk.machine.isIdle with
  | false =>
      simp only [Machine.step, idle] at completed
      cases completed
      exact answered.beside rfl
  | true =>
      simp only [Machine.step, idle, if_true] at completed
      cases known : (desk.machine.server.connections.lookup conn).isSome with
      | false =>
          have untouched := Machine.accept_unopened
            (fun _ cid _ _ => Machine.unknown_channel known cid) completed
          simp only [known, Bool.and_false, Bool.false_eq_true, if_false]
          exact @Answered.beside _ desk { machine with disk := after.disk } answered
            (congrArg Loop.serves untouched)
      | true =>
          simp only [known, Bool.and_self, if_true]
          have responds := Machine.accept_responds known finds idle completed
          refine @Answered.takeUp _ desk { machine with disk := after.disk } _ _ answered idle
            responds fun busy => ?_
          rcases (Machine.accept_cases completed).loop with same | serves
          · rw [← Machine.isIdle_congr same] at idle
            cases busy.symm.trans idle
          · exact serves

/-- A step keeps the book in order if and only if it meets the condition. -/
theorem answered_step_iff (answered : desk.Answered) (lives : Outcome.dies ∉ event.script) :
    (∃ next, perform desk event = .ok next ∧ next.Answered) ↔ desk.Answerable event := by
  have decided := desk.machine.completesIff_step lives
  constructor
  · rintro ⟨next, performed, kept⟩
    refine ⟨Classical.byContradiction fun stops => ?_, finds_of_answered answered performed kept⟩
    rcases Machine.perform_eq_ok (perform_eq_ok performed).1 with ⟨result, after, completed, _⟩
    rcases decided.stops stops with ⟨fault, last, stopped⟩
    cases stopped.symm.trans completed
  · intro answerable
    rcases decided.completes answerable.continues with ⟨result, after, completed, _⟩
    have stepped : desk.machine.perform event = .ok { result with disk := after.disk } := by
      rw [Machine.perform, performed_ok completed]
      rfl
    refine ⟨_, perform_ok stepped, ?_⟩
    rcases event with ⟨move, script⟩
    cases move with
    | connect conn =>
        refine answered.beside ?_
        cases completed
        cases desk.machine.isIdle <;> rfl
    | disconnect conn =>
        refine answered.beside ?_
        cases completed
        cases idle : desk.machine.isIdle with
        | false => rfl
        | true =>
            simp only [if_true, Machine.disconnect]
            cases desk.machine.server.connections.lookup conn with
            | none => rfl
            | some connection =>
                rw [Machine.isIdle_iff.mp idle]
                rfl
    | packet conn chance packet => exact answered.packet answerable.finds completed
    | proceed => exact answered.goOn (Machine.proceed_cases completed).serves
    | work index =>
        have untouched := Machine.loop_of_work completed
        exact answered.beside (congrArg Loop.serves untouched)

end Booking

/-- A client binds a queue, subscribes to it and publishes; the message is delivered to it,
and it acknowledges the message. -/
def acknowledging : List Machine.Event :=
  Machine.binding ++ ⟨.packet 0 {} (.request [] (ascii "c")
      (.basicConsume (ascii "t") (ascii "q") false)), []⟩ :: Machine.publishing ++
    List.replicate 6 ⟨.work 0, []⟩ ++
    [⟨.packet 0 {} (.request [] (ascii "c") (.basicAck (ascii "q") [])), []⟩]

end Desk

end ProtobufMq
