import ProtobufMq.Server.Ownership
import ProtobufMq.Server.Stores
import ProtobufMq.Server.Unsubscribe

namespace ProtobufMq

open Foundation

/-!
# Subscribing to a queue

`basicConsume` asks whether the queue exists and answers with that.  What
`ConsumerManager::create` returned is not looked at: for a tag that is taken it
is nothing, and nothing becomes the consumer of the channel, whose earlier
consumer stays with its queue.

A queue has a unit exactly while it exists, also between the steps of the
threads, so the tag is all that can be in the way.
-/

namespace Server

/-- A request to consume, and where it comes from. -/
structure Subscription where
  conn : Nat
  cid : Bytes
  consumerTag : Bytes
  queueName : Bytes
  autoAck : Bool

namespace Subscription

/-- The request as it arrives. -/
def packet (subscription : Subscription) (rid : Bytes) : Packet :=
  .request rid subscription.cid
    (.basicConsume subscription.consumerTag subscription.queueName subscription.autoAck)

/-- The consumer that is made for the request. -/
def consumer (subscription : Subscription) (server : Server) (channel : Channel) : Consumer :=
  ⟨server.shared.allocated, subscription.consumerTag, subscription.queueName,
    subscription.autoAck, channel.address⟩

end Subscription

/-- The tag is used on the queue. -/
def TagTaken (server : Server) (subscription : Subscription) : Prop :=
  ∃ consumer ∈ server.shared.cmptr.registered subscription.queueName,
    consumer.tag = subscription.consumerTag

instance (server : Server) (subscription : Subscription) :
    Decidable (server.TagTaken subscription) :=
  inferInstanceAs (Decidable (∃ consumer ∈ _, _))

/-- What the answer to a request to consume stands for.  A subscription that is
confirmed was made for this request and for this channel; one that is refused,
or has to be, leaves the channel and all registrations as they were. -/
structure Subscribed (server next : Server) (subscription : Subscription) (channel : Channel)
    (accepted : Bool) : Prop where
  confirmed : accepted = true → ∃ consumer : Consumer,
    consumer.tag = subscription.consumerTag ∧ consumer.channel = channel.address ∧
    consumer.address = server.shared.allocated ∧
    consumer ∈ next.shared.cmptr.registered subscription.queueName ∧
    consumer ∉ server.shared.cmptr.registered subscription.queueName ∧
    next.channelAt subscription.conn subscription.cid =
      some { channel with consumer := some consumer }
  refused : accepted = false ∨ subscription.queueName ∉ server.shared.host.qmptr.msgQueues ∨
      server.TagTaken subscription →
    next.channelAt subscription.conn subscription.cid = some channel ∧
    ∀ queueName, next.shared.cmptr.registered queueName =
      server.shared.cmptr.registered queueName

/-- A request to consume is answered as it should be. -/
def SubscribesTruly [Protobuf] (server : Server) (subscription : Subscription)
    (channel : Channel) : Prop :=
  ∀ chance rid world, ∃ accepted next,
    server.handle subscription.conn chance (subscription.packet rid) world =
      .ok (.response rid subscription.cid accepted, next) world ∧
    Subscribed server next subscription channel accepted

section Requests

variable {server : Server} {subscription : Subscription} {channel : Channel}

/-- The server after a request to consume. -/
def subscribed (server : Server) (subscription : Subscription) (channel : Channel)
    (connection : Connection) : Server :=
  let done := channel.basicConsume server.shared subscription.consumerTag subscription.queueName
    subscription.autoAck
  ⟨done.2.2, Dictionary.assign subscription.conn
    ⟨Dictionary.assign subscription.cid done.2.1 connection.channels⟩ server.connections⟩

/-- The request is answered, and nothing is written. -/
theorem handle_packet [Protobuf] {connection : Connection}
    (connected : server.connections.lookup subscription.conn = some connection)
    (opened : connection.channels.lookup subscription.cid = some channel) (chance : Chance)
    (rid : Bytes) (world : World) :
    server.handle subscription.conn chance (subscription.packet rid) world =
      .ok (.response rid subscription.cid (channel.basicConsume server.shared
        subscription.consumerTag subscription.queueName subscription.autoAck).1,
        server.subscribed subscription channel connection) world := by
  unfold handle
  rw [connected]
  unfold Subscription.packet
  simp only [opened]
  rfl

theorem channelAt_subscribed (connection : Connection) :
    (server.subscribed subscription channel connection).channelAt subscription.conn
        subscription.cid =
      some (channel.basicConsume server.shared subscription.consumerTag subscription.queueName
        subscription.autoAck).2.1 := by
  refine (channelAt_assign server _ subscription.conn _
    (subscription.conn, subscription.cid)).trans ?_
  rw [if_pos rfl, Dictionary.lookup_assign, if_pos rfl]

/-- What the request makes of the managers when the queue exists. -/
theorem basicConsume_present {unit : QueueConsumer}
    (present : subscription.queueName ∈ server.shared.host.qmptr.msgQueues)
    (selected : server.shared.cmptr.qconsumers.select subscription.queueName = some unit) :
    ∃ cmptr : ConsumerManager,
      channel.basicConsume server.shared subscription.consumerTag subscription.queueName
          subscription.autoAck =
        (true, { channel with
            consumer := (unit.create (subscription.consumer server channel)).1 },
          { server.shared with cmptr := cmptr, allocated := server.shared.allocated + 1 }) ∧
      ∀ queueName, cmptr.registered queueName = if queueName = subscription.queueName then
        (unit.create (subscription.consumer server channel)).2.consumers
        else server.shared.cmptr.registered queueName := by
  have found : server.shared.host.existsQueue subscription.queueName = true := by
    rcases Dictionary.mem_iff_lookup.mp present with ⟨queue, found⟩
    rw [VirtualHost.existsQueue, MsgQueueManager.existsQueue, found]
    rfl
  rcases server.shared.cmptr.create_cases (subscription.consumer server channel) with
    ⟨_, nobody⟩ | ⟨other, cmptr, otherSelected, created, selects⟩
  · cases selected.symm.trans nobody
  · cases selected.symm.trans otherSelected
    refine ⟨cmptr, ?_, fun queueName => ?_⟩
    · rw [Channel.basicConsume, if_pos found]
      have made : server.shared.cmptr.create ⟨server.shared.allocated, subscription.consumerTag,
          subscription.queueName, subscription.autoAck, channel.address⟩ = _ := created
      simp only [made]
    · have there : cmptr.qconsumers.select queueName = if queueName = subscription.queueName then
          some (unit.create (subscription.consumer server channel)).2
          else server.shared.cmptr.qconsumers.select queueName := selects queueName
      rw [ConsumerManager.registered, there]
      by_cases same : queueName = subscription.queueName
      · rw [if_pos same, if_pos same]
        rfl
      · rw [if_neg same, if_neg same]
        rfl

theorem basicConsume_absent
    (absent : subscription.queueName ∉ server.shared.host.qmptr.msgQueues) :
    channel.basicConsume server.shared subscription.consumerTag subscription.queueName
      subscription.autoAck = (false, channel, server.shared) := by
  have missing : ¬ server.shared.host.existsQueue subscription.queueName = true := by
    rw [VirtualHost.existsQueue, MsgQueueManager.existsQueue, AList.lookup_eq_none.mpr absent]
    exact Bool.false_ne_true
  rw [Channel.basicConsume, if_neg missing]

/-- A request to consume is answered as it should be exactly if the queue does
not exist or the tag is not used on it. -/
theorem subscribesTruly_iff [Protobuf] (manned : Manned server.shared)
    (opened : server.channelAt subscription.conn subscription.cid = some channel) :
    server.SubscribesTruly subscription channel ↔
      subscription.queueName ∉ server.shared.host.qmptr.msgQueues ∨
        ¬ server.TagTaken subscription := by
  rcases Option.bind_eq_some_iff.mp opened with ⟨connection, connected, listed⟩
  have handled := handle_packet connected listed
  have channelAfter := @channelAt_subscribed server subscription channel connection
  by_cases present : subscription.queueName ∈ server.shared.host.qmptr.msgQueues
  · rcases mem_names_iff.mp ((manned _).mpr present) with ⟨unit, selected⟩
    have units : server.shared.cmptr.registered subscription.queueName = unit.consumers := by
      rw [ConsumerManager.registered, selected]
      rfl
    rcases @basicConsume_present server subscription channel unit present selected with
      ⟨cmptr, done, registered⟩
    rw [done] at channelAfter
    rcases unit.create_cases (subscription.consumer server channel) with
      ⟨other, member, same, created⟩ | ⟨free, created⟩
    · -- the request is confirmed, and nobody was created
      have taken : server.TagTaken subscription := ⟨other, units ▸ member, same⟩
      refine ⟨fun truly => ?_, fun either => ?_⟩
      · rcases truly {} [] ⟨fun _ => none, []⟩ with ⟨accepted, next, answered, subscribed⟩
        cases answered.symm.trans (handled {} [] ⟨fun _ => none, []⟩)
        rcases subscribed.confirmed (by rw [done]) with ⟨consumer, _, _, _, _, _, its⟩
        rw [channelAfter, created] at its
        cases its
      · exact either.elim (absurd present) (absurd taken)
    · have untaken : ¬ server.TagTaken subscription := by
        rintro ⟨other, member, same⟩
        exact free other (units ▸ member) same
      refine ⟨fun _ => Or.inr untaken, fun _ chance rid world => ?_⟩
      refine ⟨_, _, handled chance rid world, ?_, ?_⟩
      · intro _
        refine ⟨subscription.consumer server channel, rfl, rfl, rfl, ?_, ?_, ?_⟩
        · rw [subscribed]
          simp only [done, registered, if_true, created]
          exact List.mem_append_right _ (List.mem_singleton_self _)
        · rw [units]
          exact fun member => free _ member rfl
        · rw [channelAfter, created]
      · rw [done]
        rintro (refused | absent | taken)
        · cases refused
        · exact absurd present absent
        · exact absurd taken untaken
  · have done := @basicConsume_absent server subscription channel present
    rw [done] at channelAfter
    refine ⟨fun _ => Or.inl present, fun _ chance rid world => ?_⟩
    refine ⟨_, _, handled chance rid world, ?_, fun _ => ⟨channelAfter, fun queueName => ?_⟩⟩
    · rw [done]
      intro impossible
      cases impossible
    · rw [subscribed]
      simp only [done]

end Requests

end Server

namespace Machine

section Steps

variable [Protobuf] {machine next : Machine}

/-- A queue has a unit exactly while it exists, after every step of a thread. -/
theorem manned_step {event : Event} (manned : Server.Manned machine.server.shared)
    (stepped : perform machine event = .ok next) : Server.Manned next.server.shared := by
  rcases perform_cases stepped with ⟨result, after, same, moves | ⟨index, task, _, _, completed⟩⟩
  all_goals
    rw [same]
    change Server.Manned result.server.shared
  · generalize event.move = move at moves
    cases moves with
    | stays => exact manned
    | connects => exact manned
    | disconnects idle connected => exact manned
    | accepts idle accepts =>
        cases accepts with
        | handles storeless handled =>
            exact Server.handle_keeps (fun _ held => held)
              (fun _ _ _ held destroyed => held.destroy destroyed)
              (fun _ _ _ held handled => held.handle handled) manned handled
        | refuses => exact manned
        | publishes opened => exact manned
        | recovers introduced => exact manned.congr rfl rfl
        | declares introduced => exact manned.congr rfl rfl
        | deletes onward => exact manned.congr rfl rfl
    | proceeds proceeds =>
        cases proceeds with
        | rests idle => exact manned
        | finishes inHand => exact manned
        | skips inHand routed => exact manned
        | inserts inHand routed called =>
            rcases VirtualHost.basicPublish_ok called with ⟨_, kept, _⟩ |
              ⟨queue, inserted, _, _, kept⟩
            all_goals
              rw [kept]
              exact manned.congr rfl rfl
        | pushes inHand => exact manned.congr rfl rfl
        | recovers inHand recovered => exact manned.congr rfl rfl
        | @declares sql queue inHand => exact manned.declared sql.queueTable queue rfl rfl
        | clears inHand cleared => exact manned.congr rfl rfl
        | @deletes sql queueName inHand => exact manned.deleted sql.queueTable queueName rfl rfl
        | closes inHand destroyed => exact manned.destroy destroyed
  · cases consume_works completed with
    | refused asking nobody => exact manned.congr (Joined.chooseFrom_names _ _) rfl
    | chooses asking somebody => exact manned.congr (Joined.chooseFrom_names _ _) rfl
    | _ => exact manned

theorem manned_reached {database : Database} {basedir : Bytes} {world after : World}
    {server : Server} {events : List Event}
    (created : Server.new database basedir world = .ok server after)
    (reached : run perform { server := server, disk := after.disk } events = .ok machine) :
    Server.Manned machine.server.shared :=
  @run_invariant _ _ _ perform (fun _ _ => True) (fun machine => Server.Manned machine.server.shared)
    (fun _ _ _ manned _ stepped => manned_step manned stepped) _ _ events
    (Server.manned_new created) (along_trivial perform _ events) reached

end Steps

/-- From the start of the server on any database, in every state that its
threads can reach, a request to consume on an open channel is answered as it
should be if and only if the queue does not exist or nobody uses the tag on
it. -/
theorem subscribes_truly_iff [Protobuf] {database : Database} {basedir : Bytes}
    {world after : World} {server : Server} {events : List Event} {machine : Machine}
    {subscription : Server.Subscription} {channel : Channel}
    (created : Server.new database basedir world = .ok server after)
    (reached : run perform { server := server, disk := after.disk } events = .ok machine)
    (opened : machine.server.channelAt subscription.conn subscription.cid = some channel) :
    machine.server.SubscribesTruly subscription channel ↔
      subscription.queueName ∉ machine.server.shared.host.qmptr.msgQueues ∨
        ¬ machine.server.TagTaken subscription :=
  Server.subscribesTruly_iff (manned_reached created reached) opened

/-- A channel declares a queue and subscribes to it. -/
def subscribesOnce : List Event :=
  [⟨.connect 0, []⟩, ⟨.packet 0 {} (.openChannel [] (ascii "c")), []⟩,
    ⟨.packet 0 {} (.request [] (ascii "c") (.declareQueue ⟨ascii "q", false, false, false, ∅⟩)), []⟩,
    ⟨.proceed, []⟩, ⟨.proceed, []⟩,
    ⟨.packet 0 {} (.request [] (ascii "c") (.basicConsume (ascii "t") (ascii "q") false)), []⟩]

/-- The channel subscribes with another tag. -/
theorem another_tag_subscribes :
    ∃ machine channel, run (@perform wireFormat) { server := Server.fresh [], disk := fun _ => none }
        subscribesOnce = .ok machine ∧
      machine.server.channelAt 0 (ascii "c") = some channel ∧
      @Server.SubscribesTruly wireFormat machine.server
        ⟨0, ascii "c", ascii "u", ascii "q", false⟩ channel :=
  ⟨_, _, rfl, rfl, (@subscribes_truly_iff wireFormat {} [] ⟨fun _ => none, []⟩ _ _ subscribesOnce _
    ⟨0, ascii "c", ascii "u", ascii "q", false⟩ _ rfl rfl rfl).mpr (by decide)⟩

/-- The channel subscribes with the same tag again: that is confirmed, and it
has no consumer afterwards. -/
theorem same_tag_is_confirmed :
    ¬ ∀ (events : List Event) (machine : Machine) (subscription : Server.Subscription)
      (channel : Channel),
      run (@perform wireFormat) { server := Server.fresh [], disk := fun _ => none } events =
        .ok machine →
      machine.server.channelAt subscription.conn subscription.cid = some channel →
      @Server.SubscribesTruly wireFormat machine.server subscription channel := by
  intro always
  have truly := always subscribesOnce _ ⟨0, ascii "c", ascii "t", ascii "q", false⟩ _ rfl rfl
  have manned := @manned_reached wireFormat _ {} [] ⟨fun _ => none, []⟩ _ _ subscribesOnce rfl rfl
  rcases (@Server.subscribesTruly_iff _ ⟨0, ascii "c", ascii "t", ascii "q", false⟩ _ wireFormat
    manned rfl).mp truly with absent | untaken
  · exact absurd absent (by decide)
  · exact absurd untaken (by decide)

end Machine

end ProtobufMq
