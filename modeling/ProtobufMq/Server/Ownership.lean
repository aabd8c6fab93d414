import ProtobufMq.Server.Broker
import ProtobufMq.Server.Roster

namespace ProtobufMq

open Foundation

/-!
# Consumers and channels of the server

The server is seen as a roster, and each of its requests makes one move on it,
or none.  Three of the moves can break the ownership: subscribing overwrites
the consumer of the channel, cancelling takes the tag and the queue of the
request rather than those of the channel, and deleting a queue drops its
consumers without telling their channels.  Closing and disconnecting are safe,
since the destructor of a channel uses the consumer of the channel itself.
-/

/-! ## What the requests do to the registered consumers -/

namespace ConsumerManager

variable (manager : ConsumerManager)

theorem registered_eq {qname : Bytes} {unit : QueueConsumer}
    (selected : manager.qconsumers.select qname = some unit) :
    manager.registered qname = unit.consumers := by
  rw [registered, selected]
  rfl

/-- A new unit has no consumers, and neither has a queue without a unit. -/
theorem registered_initQueueConsumer (queueName : Bytes) :
    (manager.initQueueConsumer queueName).registered = manager.registered := by
  funext qname
  rw [registered, registered, select_initQueueConsumer]
  by_cases same : qname = queueName
  · rw [if_pos same, same]
    cases manager.qconsumers.select queueName <;> rfl
  · rw [if_neg same]

theorem registered_destroyQueueConsumer (queueName : Bytes) :
    (manager.destroyQueueConsumer queueName).registered =
      Function.update manager.registered queueName [] := by
  funext qname
  rw [registered, select_destroyQueueConsumer, Function.update_apply]
  by_cases same : qname = queueName
  · rw [if_pos same, if_pos same]
    rfl
  · rw [if_neg same, if_neg same]
    rfl

/-- Creating a consumer adds it to its queue or does nothing. -/
theorem registered_create (consumer : Consumer) :
    ((manager.create consumer).1 = none ∧
      (manager.create consumer).2.registered = manager.registered) ∨
    ((manager.create consumer).1 = some consumer ∧
      (∀ other ∈ manager.registered consumer.qname, other.tag ≠ consumer.tag) ∧
      (manager.create consumer).2.registered =
        Function.update manager.registered consumer.qname
          (manager.registered consumer.qname ++ [consumer])) := by
  rcases manager.create_cases consumer with ⟨result, _⟩ |
    ⟨unit, created, selected, result, lookup⟩
  · rw [result]
    exact Or.inl ⟨rfl, rfl⟩
  · rcases unit.create_cases consumer with ⟨_, _, _, refused⟩ | ⟨free, accepted⟩
    · refine Or.inl ⟨by rw [result, refused], ?_⟩
      rw [result]
      funext qname
      rw [registered, registered, lookup, refused]
      by_cases same : qname = consumer.qname
      · rw [if_pos same, same, selected]
      · rw [if_neg same]
    · refine Or.inr ⟨by rw [result, accepted], ?_, ?_⟩
      · rw [registered_eq manager selected]
        exact free
      · rw [result]
        funext qname
        rw [registered, lookup, accepted, Function.update_apply]
        by_cases same : qname = consumer.qname
        · rw [if_pos same, if_pos same, registered_eq manager selected]
          rfl
        · rw [if_neg same, if_neg same]
          rfl

/-- Removing a consumer takes the first one with the tag out of the queue. -/
theorem registered_remove {ctag queueName : Bytes} {next : ConsumerManager}
    (removed : manager.remove ctag queueName = .ok next) :
    next.registered = Function.update manager.registered queueName
      ((manager.registered queueName).eraseP fun consumer => consumer.tag = ctag) := by
  rcases manager.remove_cases removed with ⟨unit, selected, lookup⟩
  funext qname
  rw [registered, lookup, Function.update_apply]
  by_cases same : qname = queueName
  · rw [if_pos same, if_pos same, registered_eq manager selected]
    rfl
  · rw [if_neg same, if_neg same]
    rfl

end ConsumerManager

namespace Channel

variable {channel : Channel} {shared : Shared} {chance : Chance} {world after : World}

/-- The requests that do not touch consumers. -/
def Bystanding : Request → Prop
  | .deleteQueue _ => False
  | .basicConsume _ _ _ => False
  | .basicCancel _ _ => False
  | _ => True

/-- Publishing leaves the units and the addresses alone. -/
theorem publish_frame {address : Nat} {exchangeName body : Bytes}
    {properties : Option BasecProperties} {accepted : Bool} {next : Shared}
    (completed : basicPublish address shared chance exchangeName properties body world =
      .ok (accepted, next) after) :
    next.cmptr = shared.cmptr ∧ next.allocated = shared.allocated := by
  unfold basicPublish at completed
  cases found : shared.host.selectExchange exchangeName with
  | none =>
      rw [found] at completed
      cases completed
      exact ⟨rfl, rfl⟩
  | some exchange =>
      rw [found] at completed
      rcases bind_eq_ok completed with ⟨looped, middle, turned, rest⟩
      cases rest
      apply @foldlM_invariant _ _ _ (fun state : Shared =>
        state.cmptr = shared.cmptr ∧ state.allocated = shared.allocated) _ _ _ _ _ _ _ turned
      · intro state mqb world next after held turn
        rcases publishTurn_ok turn with ⟨_, same, _⟩ | ⟨_, published, _, same⟩
        all_goals rw [same]
        · exact held
        · exact held
      · exact ⟨rfl, rfl⟩

theorem bystanding_frame [Protobuf] {request : Request} {result : Bool × Channel × Shared}
    (bystanding : Bystanding request)
    (completed : channel.handle shared chance request world = .ok result after) :
    result.2.1 = channel ∧ result.2.2.cmptr.registered = shared.cmptr.registered ∧
      result.2.2.allocated = shared.allocated := by
  cases request with
  | declareExchange exchange =>
      cases completed
      exact ⟨rfl, rfl, rfl⟩
  | deleteExchange exchangeName =>
      cases completed
      exact ⟨rfl, rfl, rfl⟩
  | declareQueue queue =>
      rcases bind_eq_ok completed with ⟨⟨accepted, next⟩, middle, called, rest⟩
      cases rest
      rcases declareQueue_ok called with ⟨mmptr, _, _, same⟩
      rw [same]
      cases accepted with
      | false => exact ⟨rfl, rfl, rfl⟩
      | true =>
          exact ⟨rfl, ConsumerManager.registered_initQueueConsumer shared.cmptr queue.name, rfl⟩
  | queueBind exchangeName queueName bindingKey =>
      cases completed
      exact ⟨rfl, rfl, rfl⟩
  | queueUnbind exchangeName queueName =>
      cases completed
      exact ⟨rfl, rfl, rfl⟩
  | basicPublish exchangeName properties body =>
      rcases bind_eq_ok completed with ⟨⟨accepted, next⟩, middle, called, rest⟩
      cases rest
      rcases publish_frame called with ⟨units, addresses⟩
      exact ⟨rfl, congrArg ConsumerManager.registered units, addresses⟩
  | basicAck queueName messageId =>
      rcases bind_eq_ok completed with ⟨next, middle, called, rest⟩
      cases rest
      rcases bind_eq_ok called with ⟨host, middle, _, rest⟩
      cases rest
      exact ⟨rfl, rfl, rfl⟩
  | deleteQueue queueName => exact bystanding.elim
  | basicConsume consumerTag queueName autoAck => exact bystanding.elim
  | basicCancel consumerTag queueName => exact bystanding.elim

end Channel

namespace Server

/-- The server as a roster. -/
def roster (server : Server) : Roster :=
  ⟨fun place => server.channelAt place.1 place.2, server.shared.cmptr.registered,
    server.shared.allocated⟩

section Rosters

variable {server next : Server} {conn : Nat} {connection : Connection} {cid : Bytes}

/-- Only the places of the connection that was written change. -/
theorem channelAt_assign (server : Server) (shared : Shared) (conn : Nat)
    (channels : Dictionary Bytes Channel) (place : Place) :
    channelAt ⟨shared, Dictionary.assign conn ⟨channels⟩ server.connections⟩ place.1 place.2 =
      if place.1 = conn then channels.lookup place.2 else server.channelAt place.1 place.2 := by
  rw [channelAt, Dictionary.lookup_assign]
  by_cases same : place.1 = conn
  · rw [if_pos same, if_pos same]
    rfl
  · rw [if_neg same, if_neg same]
    rfl

/-- One place of a connection is written. -/
theorem roster_assign (connected : server.connections.lookup conn = some connection)
    (shared : Shared) (content : Option Channel) {channels : Dictionary Bytes Channel}
    (written : ∀ other, channels.lookup other =
      if other = cid then content else connection.channels.lookup other) :
    roster ⟨shared, Dictionary.assign conn ⟨channels⟩ server.connections⟩ =
      ⟨Function.update server.roster.channels (conn, cid) content,
        shared.cmptr.registered, shared.allocated⟩ := by
  apply Roster.ext
  · funext place
    refine (channelAt_assign server shared conn _ place).trans ?_
    change _ = Function.update server.roster.channels (conn, cid) content place
    rw [Function.update_apply, written]
    by_cases sameConn : place.1 = conn
    · by_cases sameCid : place.2 = cid
      · rw [if_pos sameConn, if_pos sameCid, if_pos (Prod.ext sameConn sameCid)]
      · rw [if_pos sameConn, if_neg sameCid, if_neg fun same => sameCid (congrArg Prod.snd same),
          ← channelAt_eq connected, ← sameConn]
        rfl
    · rw [if_neg sameConn, if_neg fun same => sameConn (congrArg Prod.fst same)]
      rfl
  · rfl
  · rfl

/-- A new connection has no channels. -/
theorem roster_newConnection (server : Server) (conn : Nat) :
    (server.newConnection conn).roster = server.roster := by
  apply Roster.ext
  · funext place
    change ((Dictionary.insertNew conn {} server.connections).lookup place.1).bind _ =
      (server.connections.lookup place.1).bind _
    rw [Dictionary.lookup_insertNew]
    by_cases same : place.1 = conn
    · rw [if_pos same, same]
      cases server.connections.lookup conn <;> rfl
    · rw [if_neg same]
  · rfl
  · rfl

/-- Opening a channel opens it at a free place. -/
theorem roster_openChannel (connected : server.connections.lookup conn = some connection) :
    (server.openChannel conn connection cid).2.roster = server.roster ∨
      (server.roster.channels (conn, cid) = none ∧
        (server.openChannel conn connection cid).2.roster = server.roster.openAt (conn, cid)) := by
  unfold openChannel
  cases opened : connection.channels.lookup cid with
  | some channel => exact Or.inl rfl
  | none =>
      refine Or.inr ⟨(channelAt_eq connected cid).trans opened, ?_⟩
      exact roster_assign connected _ (some _) (Dictionary.lookup_insert cid _ connection.channels)

/-- Destroying a channel that is no longer listed is closing it. -/
theorem roster_destroy {roster : Roster} {shared after : Shared} {place : Place} {channel : Channel}
    (registered : shared.cmptr.registered = roster.registered)
    (allocated : shared.allocated = roster.allocated)
    (destroyed : Channel.destroy shared channel = .ok after) :
    roster.close place channel = ⟨Function.update roster.channels place none,
      after.cmptr.registered, after.allocated⟩ := by
  unfold Roster.close
  rcases Channel.destroy_ok destroyed with ⟨subscribed, same⟩ |
    ⟨consumer, cmptr, subscribed, removed, same⟩
  · rw [subscribed, same, registered, allocated]
    rfl
  · rw [subscribed, same]
    simp only
    rw [ConsumerManager.registered_remove shared.cmptr removed, registered, allocated]
    rfl

theorem roster_closeChannel (connected : server.connections.lookup conn = some connection)
    {closed : Bool × Server} (completed : server.closeChannel conn connection cid = .ok closed) :
    closed.2.roster = server.roster ∨
      ∃ channel, server.roster.channels (conn, cid) = some channel ∧
        closed.2.roster = server.roster.close (conn, cid) channel := by
  rcases closeChannel_cases completed with same | ⟨channel, shared, opened, destroyed, same⟩
  all_goals rw [same]
  · exact Or.inl rfl
  · refine Or.inr ⟨channel, (channelAt_eq connected cid).trans opened, ?_⟩
    rw [roster_destroy rfl rfl destroyed]
    exact roster_assign connected shared none (Dictionary.lookup_erase cid connection.channels)

/-- Closing channels at different places one after another keeps the relations
converse. -/
theorem linked_destroyAll {roster : Roster} (linked : roster.Linked) {shared after : Shared}
    {channels : List (Sigma fun _ : Bytes => Channel)}
    (distinct : channels.NodupKeys)
    (opened : ∀ entry ∈ channels, roster.channels (conn, entry.1) = some entry.2)
    (registered : shared.cmptr.registered = roster.registered)
    (allocated : shared.allocated = roster.allocated)
    (destroyed : (channels.map (fun entry => entry.2)).foldlM Channel.destroy shared =
      .ok after) :
    Roster.Linked ⟨fun place => if place.1 = conn ∧ place.2 ∈ channels.keys then none
      else roster.channels place, after.cmptr.registered, after.allocated⟩ := by
  induction channels generalizing roster shared with
  | nil =>
      cases destroyed
      have same : (⟨fun place => if place.1 = conn ∧ place.2 ∈ ([] : List Bytes) then none
          else roster.channels place, after.cmptr.registered, after.allocated⟩ : Roster) =
          roster := by
        apply Roster.ext
        · funext place
          exact if_neg fun both => by cases both.2
        · exact registered
        · exact allocated
      rw [List.keys_nil, same]
      exact linked
  | cons entry rest inductionHypothesis =>
      rw [List.map_cons, List.foldlM_cons] at destroyed
      cases first : Channel.destroy shared entry.2 with
      | error fault =>
          rw [first] at destroyed
          cases destroyed
      | ok middle =>
          rw [first] at destroyed
          have closed := Roster.linked_close linked (opened entry List.mem_cons_self)
          rw [roster_destroy registered allocated first] at closed
          have onward := inductionHypothesis closed (List.nodupKeys_cons.mp distinct).2
            (fun other member => by
              have elsewhere : (conn, other.1) ≠ (conn, entry.1) := by
                intro same
                have sameKey : other.1 = entry.1 := congrArg Prod.snd same
                exact (List.nodupKeys_cons.mp distinct).1
                  (sameKey ▸ List.mem_keys_of_mem member)
              exact (Function.update_of_ne elsewhere _ _).trans
                (opened other (List.mem_cons_of_mem _ member)))
            rfl rfl destroyed
          have same : (fun place : Place => if place.1 = conn ∧ place.2 ∈ (entry :: rest).keys then
              none else roster.channels place) =
              fun place => if place.1 = conn ∧ place.2 ∈ rest.keys then none
                else Function.update roster.channels (conn, entry.1) none place := by
            funext place
            rw [Function.update_apply, List.keys_cons]
            by_cases here : place = (conn, entry.1)
            · rw [if_pos ⟨congrArg Prod.fst here, by rw [here]; exact List.mem_cons_self⟩,
                if_pos here, ite_self]
            · rw [if_neg here]
              congr 1
              refine propext (and_congr_right fun sameConn => ?_)
              rw [List.mem_cons]
              exact or_iff_right fun sameCid => here (Prod.ext sameConn sameCid)
          rw [same]
          exact onward

theorem linked_deleteConnection (linked : server.roster.Linked)
    (completed : server.deleteConnection conn = .ok next) : next.roster.Linked := by
  unfold deleteConnection at completed
  cases connected : server.connections.lookup conn with
  | none =>
      rw [connected] at completed
      cases completed
      exact linked
  | some connection =>
      rw [connected] at completed
      rcases except_map_eq_ok completed with ⟨shared, destroyed, same⟩
      have closed := linked_destroyAll linked connection.channels.nodupKeys
        (fun entry member => (channelAt_eq connected entry.1).trans
          (AList.mem_lookup_iff.mpr member)) rfl rfl destroyed
      rw [← same]
      have gone : roster ⟨shared, server.connections.erase conn⟩ =
          ⟨fun place => if place.1 = conn ∧ place.2 ∈ connection.channels.entries.keys then none
            else server.roster.channels place, shared.cmptr.registered, shared.allocated⟩ := by
        apply Roster.ext
        · funext place
          change ((server.connections.erase conn).lookup place.1).bind _ =
            if place.1 = conn ∧ place.2 ∈ connection.channels.entries.keys then none
            else server.roster.channels place
          rw [Dictionary.lookup_erase]
          by_cases sameConn : place.1 = conn
          · rw [if_pos sameConn]
            by_cases listed : place.2 ∈ connection.channels.entries.keys
            · rw [if_pos ⟨sameConn, listed⟩]
              rfl
            · rw [if_neg fun both => listed both.2]
              have free : connection.channels.lookup place.2 = none :=
                AList.lookup_eq_none.mpr listed
              have here := channelAt_eq connected place.2
              rw [free, ← sameConn] at here
              exact here.symm
          · rw [if_neg sameConn, if_neg fun both => sameConn both.1]
            rfl
        · rfl
        · rfl
      rw [gone]
      exact closed

/-- What a request for a channel does to the roster. -/
theorem request_cases [Protobuf] {chance : Chance} {rid : Bytes} {request : Request}
    {done : Reply × Server} {world after : World}
    (completed : server.handle conn chance (.request rid cid request) world = .ok done after) :
    (server.channelAt conn cid = none ∧ done.2 = server) ∨
    (∃ channel result, server.channelAt conn cid = some channel ∧
      channel.handle server.shared chance request world = .ok result after ∧
      done.1 = .response rid cid result.1 ∧ done.2.shared = result.2.2 ∧
      done.2.roster = ⟨Function.update server.roster.channels (conn, cid) (some result.2.1),
        result.2.2.cmptr.registered, result.2.2.allocated⟩) := by
  rcases request_ok completed with ⟨absent, same, _⟩ |
    ⟨connection, channel, result, connected, opened, handled, same⟩
  · exact Or.inl ⟨absent, same⟩
  · rw [same]
    exact Or.inr ⟨channel, result, (channelAt_eq connected cid).trans opened, handled, rfl, rfl,
      roster_assign connected _ _ (Dictionary.lookup_assign cid _ connection.channels)⟩

end Rosters

/-! ## The condition -/

/-- The condition on an action.  A channel that subscribes to an existing queue
has no consumer yet; a cancel names the consumer of the channel, or nobody when
the channel has none; and a queue that is deleted has no consumers, unless its
delete statement fails. -/
def NamesOwnConsumer (site : Site) (event : Event) : Prop :=
  match event.action with
  | .packet conn chance (.request _ cid request) =>
      ∀ channel, site.server.channelAt conn cid = some channel →
        match request with
        | .basicConsume _ queueName _ =>
            site.server.shared.host.existsQueue queueName = true → channel.consumer = none
        | .basicCancel consumerTag queueName => ∀ consumer,
            (consumer ∈ site.server.shared.cmptr.registered queueName ∧
              consumer.tag = consumerTag) ↔ channel.consumer = some consumer
        | .deleteQueue queueName =>
            site.server.shared.cmptr.registered queueName = [] ∨
              ∃ queue, site.server.shared.host.qmptr.msgQueues.lookup queueName = some queue ∧
                queue.durable = true ∧ chance.sql.queueTable = false
        | _ => True
  | _ => True

section Steps

variable {server : Server} {conn : Nat} {cid rid : Bytes} {channel : Channel} {chance : Chance}
  {world after : World} {result : Bool × Channel × Shared} {next : Roster}

/-- Writing a channel back changes nothing. -/
theorem roster_unchanged (opened : server.channelAt conn cid = some channel)
    {registered : Bytes → List Consumer} {allocated : Nat}
    (sameRegistered : registered = server.shared.cmptr.registered)
    (sameAllocated : allocated = server.shared.allocated) :
    (⟨Function.update server.roster.channels (conn, cid) (some channel), registered,
      allocated⟩ : Roster) = server.roster := by
  apply Roster.ext
  · exact Function.update_eq_self_iff.mpr opened.symm
  · exact sameRegistered
  · exact sameAllocated

/-- The roster after a subscription: nothing for a missing queue, and otherwise
a new consumer on the channel, or none if the tag is taken. -/
theorem roster_basicConsume [Protobuf] {consumerTag queueName : Bytes} {autoAck : Bool}
    (opened : server.channelAt conn cid = some channel)
    (handled : channel.handle server.shared chance (.basicConsume consumerTag queueName autoAck)
      world = .ok result after)
    (rosterEq : next = ⟨Function.update server.roster.channels (conn, cid) (some result.2.1),
      result.2.2.cmptr.registered, result.2.2.allocated⟩) :
    (server.shared.host.existsQueue queueName = false ∧ next = server.roster) ∨
    (server.shared.host.existsQueue queueName = true ∧
      next = (server.roster.withChannel (conn, cid)
        (some { channel with consumer := none })).allocate) ∨
    (server.shared.host.existsQueue queueName = true ∧
      (∀ other ∈ server.shared.cmptr.registered queueName, other.tag ≠ consumerTag) ∧
      next = server.roster.join (conn, cid) channel
        ⟨server.shared.allocated, consumerTag, queueName, autoAck, channel.address⟩) := by
  have done : result = Channel.basicConsume channel server.shared consumerTag queueName autoAck := by
    cases handled
    rfl
  unfold Channel.basicConsume at done
  cases there : server.shared.host.existsQueue queueName with
  | false =>
      rw [there] at done
      refine Or.inl ⟨rfl, ?_⟩
      rw [rosterEq, done]
      exact roster_unchanged opened rfl rfl
  | true =>
      rw [there] at done
      refine Or.inr ?_
      rcases server.shared.cmptr.registered_create
          ⟨server.shared.allocated, consumerTag, queueName, autoAck, channel.address⟩ with
        ⟨nobody, registered⟩ | ⟨somebody, free, registered⟩
      · refine Or.inl ⟨rfl, ?_⟩
        rw [rosterEq, done]
        simp only [if_true, nobody]
        apply Roster.ext
        · rfl
        · exact registered
        · rfl
      · refine Or.inr ⟨rfl, free, ?_⟩
        rw [rosterEq, done]
        simp only [if_true, somebody]
        apply Roster.ext
        · rfl
        · exact registered
        · rfl

theorem roster_basicCancel [Protobuf] {consumerTag queueName : Bytes}
    (handled : channel.handle server.shared chance (.basicCancel consumerTag queueName)
      world = .ok result after)
    (rosterEq : next = ⟨Function.update server.roster.channels (conn, cid) (some result.2.1),
      result.2.2.cmptr.registered, result.2.2.allocated⟩) :
    next = server.roster.cancel (conn, cid) channel consumerTag queueName := by
  rcases bind_eq_ok handled with ⟨cancelled, middle, called, rest⟩
  cases rest
  rcases Channel.basicCancel_ok (ofExcept_eq_ok called).1 with ⟨cmptr, removed, same⟩
  rw [rosterEq, same]
  apply Roster.ext
  · rfl
  · exact server.shared.cmptr.registered_remove removed
  · rfl

/-- The roster after a deletion: the queue loses its consumers, unless its
statement fails. -/
theorem roster_deleteQueue [Protobuf] {queueName : Bytes}
    (opened : server.channelAt conn cid = some channel)
    (handled : channel.handle server.shared chance (.deleteQueue queueName) world =
      .ok result after)
    (rosterEq : next = ⟨Function.update server.roster.channels (conn, cid) (some result.2.1),
      result.2.2.cmptr.registered, result.2.2.allocated⟩) :
    ((∃ queue, server.shared.host.qmptr.msgQueues.lookup queueName = some queue ∧
      queue.durable = true ∧ chance.sql.queueTable = false) ∧ next = server.roster) ∨
    ((¬ ∃ queue, server.shared.host.qmptr.msgQueues.lookup queueName = some queue ∧
      queue.durable = true ∧ chance.sql.queueTable = false) ∧
      next = server.roster.withRegistered queueName []) := by
  rcases bind_eq_ok handled with ⟨⟨accepted, shared⟩, middle, called, rest⟩
  cases rest
  rcases Channel.deleteQueue_ok called with ⟨mmptr, _, acceptedEq, same⟩
  rw [same] at rosterEq
  have dropped : accepted = true → next = server.roster.withRegistered queueName [] := by
    intro accepts
    rw [rosterEq, accepts]
    apply Roster.ext
    · exact Function.update_eq_self_iff.mpr opened.symm
    · exact server.shared.cmptr.registered_destroyQueueConsumer queueName
    · rfl
  rcases server.shared.host.qmptr.deleteQueue_cases chance.sql.queueTable queueName with
    ⟨absent, outcome⟩ | ⟨queue, found, ⟨transient, outcome⟩ | ⟨_, effect, outcome⟩ |
      ⟨durable, failed, outcome⟩⟩
  · refine Or.inr ⟨?_, dropped (by rw [acceptedEq, outcome])⟩
    rintro ⟨other, otherFound, _⟩
    rw [absent] at otherFound
    cases otherFound
  · refine Or.inr ⟨?_, dropped (by rw [acceptedEq, outcome])⟩
    rintro ⟨other, otherFound, durable, _⟩
    cases found.symm.trans otherFound
    rw [transient] at durable
    cases durable
  · refine Or.inr ⟨?_, dropped (by rw [acceptedEq, outcome])⟩
    rintro ⟨_, _, _, failed⟩
    rw [effect] at failed
    cases failed
  · refine Or.inl ⟨⟨queue, found, durable, failed⟩, ?_⟩
    rw [outcome] at acceptedEq
    rw [rosterEq, acceptedEq]
    exact roster_unchanged opened rfl rfl

end Steps

/-! ## Runs -/

theorem linked_step [Protobuf] {site next : Site} {event : Event}
    (linked : site.server.roster.Linked) (meets : NamesOwnConsumer site event)
    (stepped : perform site event = .ok next) : next.server.roster.Linked := by
  rcases event with ⟨action, script⟩
  cases action with
  | connect conn =>
      cases stepped
      rw [roster_newConnection]
      exact linked
  | disconnect conn =>
      rcases except_map_eq_ok stepped with ⟨server, completed, same⟩
      rw [← same]
      exact linked_deleteConnection linked completed
  | packet conn chance packet =>
      rcases except_map_eq_ok stepped with ⟨⟨⟨reply, server⟩, disk⟩, completed, same⟩
      rcases performed_eq_ok completed with ⟨world, ran, _⟩
      rw [← same]
      cases packet with
      | openChannel rid cid =>
          rcases openChannel_ok ran with same | ⟨connection, connected, same⟩
          all_goals
            simp only at same
            rw [same]
          · exact linked
          · rcases roster_openChannel connected with same | ⟨free, opened⟩
            · rw [same]
              exact linked
            · rw [opened]
              exact Roster.linked_openAt linked free
      | closeChannel rid cid =>
          rcases closeChannel_ok ran with same | ⟨connection, accepted, connected, closes⟩
          · simp only at same
            rw [same]
            exact linked
          · rcases roster_closeChannel connected closes with same | ⟨channel, opened, same⟩
            · simp only at same
              rw [same]
              exact linked
            · simp only at same
              rw [same]
              exact Roster.linked_close linked opened
      | request rid cid request =>
          rcases request_cases ran with ⟨_, same⟩ |
            ⟨channel, result, opened, handled, _, _, rosterEq⟩
          · rw [same]
            exact linked
          · have condition := meets channel opened
            by_cases bystanding : Channel.Bystanding request
            · rcases Channel.bystanding_frame bystanding handled with ⟨same, units, addresses⟩
              rw [rosterEq, same, roster_unchanged opened units addresses]
              exact linked
            · cases request with
              | basicConsume consumerTag queueName autoAck =>
                  rcases roster_basicConsume opened handled rosterEq with ⟨_, same⟩ |
                    ⟨there, same⟩ | ⟨there, free, same⟩
                  · rw [same]
                    exact linked
                  · have idle : ({ channel with consumer := none } : Channel) = channel := by
                      rw [← condition there]
                    have back : site.server.roster.withChannel (conn, cid) (some channel) =
                        site.server.roster := roster_unchanged opened rfl rfl
                    rw [same, idle, back]
                    exact Roster.linked_allocate linked
                  · rw [same]
                    exact Roster.linked_join linked opened (condition there) rfl rfl free
              | basicCancel consumerTag queueName =>
                  rw [roster_basicCancel handled rosterEq]
                  exact Roster.linked_cancel linked opened condition
              | deleteQueue queueName =>
                  rcases roster_deleteQueue opened handled rosterEq with ⟨_, same⟩ |
                    ⟨accepted, same⟩
                  · rw [same]
                    exact linked
                  · have nobody := condition.resolve_right accepted
                    have back : site.server.roster.withRegistered queueName [] =
                        site.server.roster := by
                      apply Roster.ext
                      · rfl
                      · exact Function.update_eq_self_iff.mpr nobody.symm
                      · rfl
                    rw [same, back]
                    exact linked
              | declareExchange exchange => exact absurd trivial bystanding
              | deleteExchange exchangeName => exact absurd trivial bystanding
              | declareQueue queue => exact absurd trivial bystanding
              | queueBind exchangeName queueName bindingKey => exact absurd trivial bystanding
              | queueUnbind exchangeName queueName => exact absurd trivial bystanding
              | basicPublish exchangeName properties body => exact absurd trivial bystanding
              | basicAck queueName messageId => exact absurd trivial bystanding

/-- An action after which consumers and channels own each other met the
condition. -/
theorem namesOwnConsumer_of_owned [Protobuf] {site next : Site} {event : Event}
    (linked : site.server.roster.Linked) (stepped : perform site event = .ok next)
    (owned : next.server.roster.Owned) : NamesOwnConsumer site event := by
  rcases event with ⟨action, script⟩
  cases action with
  | connect conn => exact trivial
  | disconnect conn => exact trivial
  | packet conn chance packet =>
      cases packet with
      | openChannel rid cid => exact trivial
      | closeChannel rid cid => exact trivial
      | request rid cid request =>
          rcases except_map_eq_ok stepped with ⟨⟨⟨reply, server⟩, disk⟩, completed, same⟩
          rcases performed_eq_ok completed with ⟨world, ran, _⟩
          rw [← same] at owned
          intro channel opened
          rcases request_cases ran with ⟨absent, _⟩ |
            ⟨found, result, foundOpened, handled, _, _, rosterEq⟩
          · rw [opened] at absent
            cases absent
          · cases opened.symm.trans foundOpened
            have listed : site.server.roster.channels (conn, cid) = some channel := opened
            cases request with
            | basicConsume consumerTag queueName autoAck =>
                intro there
                rcases roster_basicConsume opened handled rosterEq with ⟨missing, _⟩ |
                  ⟨_, outcome⟩ | ⟨_, _, outcome⟩
                · rw [there] at missing
                  cases missing
                · exact Roster.idle_of_refusal linked listed (outcome ▸ owned)
                · exact Roster.idle_of_join linked listed rfl (outcome ▸ owned)
            | basicCancel consumerTag queueName =>
                have outcome := roster_basicCancel handled rosterEq
                intro consumer
                exact Roster.leaves_of_cancel linked listed (outcome ▸ owned) consumer
            | deleteQueue queueName =>
                rcases roster_deleteQueue opened handled rosterEq with ⟨refused, _⟩ | ⟨_, outcome⟩
                · exact Or.inr refused
                · exact Or.inl (Roster.nobody_of_drop linked (outcome ▸ owned))
            | declareExchange exchange => exact trivial
            | deleteExchange exchangeName => exact trivial
            | declareQueue queue => exact trivial
            | queueBind exchangeName queueName bindingKey => exact trivial
            | queueUnbind exchangeName queueName => exact trivial
            | basicPublish exchangeName properties body => exact trivial
            | basicAck queueName messageId => exact trivial

/-- A server that was just started has no connections, and nobody is
registered. -/
theorem linked_new [Protobuf] {database : Database} {basedir : Bytes} {world after : World}
    {server : Server} (started : new database basedir world = .ok server after) :
    server.roster.Linked := by
  rcases bind_eq_ok started with ⟨host, middle, _, rest⟩
  cases rest
  have nobody : ∀ qnames : List Bytes, ∀ manager : ConsumerManager,
      (qnames.foldl ConsumerManager.initQueueConsumer manager).registered =
        manager.registered := by
    intro qnames
    induction qnames with
    | nil => exact fun manager => rfl
    | cons qname rest inductionHypothesis =>
        intro manager
        rw [List.foldl_cons, inductionHypothesis, manager.registered_initQueueConsumer]
  have empty : roster { shared := { host := host, cmptr :=
      host.qmptr.msgQueues.keys.foldl ConsumerManager.initQueueConsumer {} } } =
      ⟨fun _ => none, fun _ => [], 0⟩ := by
    apply Roster.ext
    · rfl
    · exact nobody _ {}
    · rfl
  rw [empty]
  exact Roster.linked_empty 0

/-- In every run from the start of a server, consumers and channels own each
other in every state, if and only if every action meets the condition. -/
theorem owned_throughout_iff [Protobuf] {database : Database} {basedir : Bytes}
    {world after : World} {server : Server} {disk : Disk} {final : Site} {events : List Event}
    (started : new database basedir world = .ok server after)
    (completes : run perform ⟨server, disk⟩ events = .ok final) :
    Throughout perform (fun site => site.server.roster.Owned) ⟨server, disk⟩ events ↔
      Along perform NamesOwnConsumer ⟨server, disk⟩ events := by
  have sound : ∀ site : Site, site.server.roster.Linked → site.server.roster.Owned :=
    fun site => Roster.owned_of_linked
  exact throughout_iff_along sound
    (fun _ _ _ linked meets stepped => linked_step linked meets stepped)
    (fun _ _ _ linked stepped owned => namesOwnConsumer_of_owned linked stepped owned)
    (linked_new started) completes

/-- A client opens a channel, declares a queue and subscribes to it. -/
def subscribing : List Event :=
  [⟨.connect 0, []⟩, ⟨.packet 0 {} (.openChannel [] (ascii "c")), []⟩,
    ⟨.packet 0 {} (.request [] (ascii "c") (.declareQueue ⟨ascii "q", false, false, false, ∅⟩)), []⟩,
    ⟨.packet 0 {} (.request [] (ascii "c") (.basicConsume (ascii "t") (ascii "q") true)), []⟩]

theorem owned_while_subscribing :
    Throughout (@perform wireFormat) (fun site => site.server.roster.Owned)
      ⟨fresh [], fun _ => none⟩ subscribing := by
  apply (@owned_throughout_iff wireFormat {} [] ⟨fun _ => none, []⟩ _ _ _ _ _ rfl rfl).mpr
  refine along_cons trivial rfl (along_cons trivial rfl (along_cons ?_ rfl
    (along_cons ?_ rfl trivial)))
  · exact fun channel opened => trivial
  · intro channel opened there
    cases opened
    rfl

/-- A deleted queue leaves its consumers on their channels. -/
theorem deleted_queue_keeps_its_consumer :
    ¬ ∀ events : List Event, Throughout (@perform wireFormat)
      (fun site => site.server.roster.Owned) ⟨fresh [], fun _ => none⟩ events := by
  intro always
  have everywhere := always (subscribing ++
    [⟨.packet 0 {} (.request [] (ascii "c") (.deleteQueue (ascii "q"))), []⟩])
  have owned := everywhere.last rfl
  have registered : _ ∈ ([] : List Consumer) := owned.channels (0, ascii "c") _
    ⟨1, ascii "t", ascii "q", true, 0⟩ rfl rfl
  cases registered

end Server

end ProtobufMq
