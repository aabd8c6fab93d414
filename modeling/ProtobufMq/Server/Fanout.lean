import ProtobufMq.Server.PublishEffect

namespace ProtobufMq

open Foundation

/-!
# What a fanout exchange reaches

The router checks the characters of both keys before it looks at the type of
the exchange, and `bind` takes any key.  A fanout exchange accepts whatever
passes: a message with a legal routing key gets into every queue that is bound
with a legal key, once, and a message with an illegal one into none.
-/

namespace Router

/-- For a fanout exchange the router asks for legal keys only. -/
theorem route_fanout (bindingKey routingKey : Bytes) :
    route .fanout bindingKey routingKey =
      .ok (isLegalRoutingKey routingKey && isLegalBindingKey bindingKey) := by
  unfold route
  cases isLegalRoutingKey routingKey with
  | false => rfl
  | true => cases isLegalBindingKey bindingKey <;> rfl

end Router

namespace Server

open Channel

/-- The queue is bound to the exchange with a legal key, and the routing key is
legal, too. -/
def LegallyBound (host : VirtualHost) (exchangeName : Bytes) (properties : Option BasecProperties)
    (qname : Bytes) : Prop :=
  Router.isLegalRoutingKey (rotingKeyOf properties) = true ∧
    ∃ binding, (host.exchangeBindings exchangeName).lookup qname = some binding ∧
      Router.isLegalBindingKey binding.bindingKey = true

/-- The message got into the legally bound queues, once, and into no other. -/
structure Broadcast (site : Site) (address : Nat) (published : Publication) (exchangeName : Bytes)
    (after : Shared) (left : Disk) : Prop where
  copied : ∀ qname, LegallyBound site.server.shared.host exchangeName published.properties qname →
    published.Stored site.server.shared.host after.host site.disk left qname
  others : ∀ qname, ¬ LegallyBound site.server.shared.host exchangeName published.properties qname →
    after.host.mmptr.queueMsgs.select qname = site.server.shared.host.mmptr.queueMsgs.select qname
  tasks : ∃ names : List Bytes, names.Nodup ∧
    after.pool = site.server.shared.pool ++ names.map (fun qname => ⟨address, qname⟩) ∧
    ∀ qname, qname ∈ names ↔
      LegallyBound site.server.shared.host exchangeName published.properties qname

section Fanout

variable {exchange : Exchange} {exchangeName body : Bytes} {chance : Chance}
  {properties : Option BasecProperties} {script : List Outcome}

theorem routed_fanout (fanout : exchange.type = .fanout) (host : VirtualHost) (qname : Bytes) :
    Routed host exchange exchangeName properties qname ↔
      LegallyBound host exchangeName properties qname := by
  unfold Routed LegallyBound
  simp only [fanout, Router.route_fanout, Except.ok.injEq, Bool.and_eq_true]
  constructor
  · rintro ⟨binding, found, routing, legal⟩
    exact ⟨routing, binding, found, legal⟩
  · rintro ⟨routing, binding, found, legal⟩
    exact ⟨binding, found, routing, legal⟩

theorem answered_fanout (fanout : exchange.type = .fanout) (binding : Binding) :
    (publication exchange chance properties body).Answered binding := by
  have routed := Router.route_fanout binding.bindingKey (rotingKeyOf properties)
  rw [← fanout] at routed
  exact ⟨_, routed⟩

/-- Queues whose files have their names share none. -/
theorem unshared_of_named {published : Publication} {host : VirtualHost}
    (named : host.mmptr.Named) (names : List Bytes) :
    published.Unshared host.qmptr host.mmptr names := by
  intro qname _ _ other store otherStore distinct there otherThere same
  rw [Publication.mapper_of_select named there,
    Publication.mapper_of_select named otherThere] at same
  exact distinct (MessageMapper.ofNames_datafile_injective same).symm

/-- A message that has entered a queue is stored there. -/
theorem stored_entered {published : Publication} {before after : VirtualHost} {disk left : Disk}
    {qname : Bytes} {queue : MsgQueue} {store : QueueMessage} {size : Nat}
    (queueSelected : before.qmptr.selectQueue qname = some queue)
    (there : before.mmptr.queueMsgs.select qname = some store)
    (file : (published.propertiesIn qname queue).deliverMode = .durable →
      ∃ content, disk store.mapper.datafile = some content)
    (entered : after.mmptr.queueMsgs.select qname =
      some (store.entered (published.propertiesIn qname queue) published.body size))
    (recorded : left store.mapper.datafile = QueueMessage.recorded
      (published.propertiesIn qname queue) published.body (disk store.mapper.datafile)) :
    published.Stored before after disk left qname := by
  let message := QueueMessage.messageFor (published.propertiesIn qname queue) published.body size
  refine ⟨queue, store, _, ⟨store.allocated, message⟩, queueSelected, there, entered, rfl, ?_, ?_,
    fun durable => ?_⟩
  · rw [QueueMessage.messageFor_payload, QueueMessage.payloadFor_properties]
  · rw [QueueMessage.messageFor_payload, QueueMessage.payloadFor_body]
  · rcases file durable with ⟨content, stored⟩
    refine ⟨content, stored, ?_⟩
    rw [recorded, QueueMessage.recorded, if_pos durable, stored, QueueMessage.messageFor_payload]
    rfl

/-- In every state that any interleaving reaches, a message that is published to
a fanout exchange, with properties or without, gets into the queues that are
bound with a legal key, once, if its routing key is legal, and into none if it
is not. -/
theorem fanout_broadcast [Protobuf] {database : Database} {basedir : Bytes} {world after : World}
    {server : Server} (started : new database basedir world = .ok server after) {disk : Disk}
    {events : List Machine.Event} {machine : Machine}
    (reached : run Machine.perform { server := server, disk := disk } events = .ok machine)
    {conn : Nat} {rid cid : Bytes} {channel : Channel}
    (opened : machine.server.channelAt conn cid = some channel)
    (selected : machine.server.shared.host.selectExchange exchangeName = some exchange)
    (fanout : exchange.type = .fanout)
    (storesBound : StoresBound machine.server.shared.host exchangeName)
    (writable : Writable ⟨machine.server, machine.disk⟩
      (publication exchange chance properties body) exchangeName script) :
    ∃ done, performed (machine.server.handle conn chance
        (.request rid cid (.basicPublish exchangeName properties body))) machine.disk script =
          .ok done ∧
      done.1.1 = .response rid cid true ∧
      Broadcast ⟨machine.server, machine.disk⟩ channel.address
        (publication exchange chance properties body) exchangeName done.1.2.shared done.2 := by
  have named : machine.server.shared.host.mmptr.Named := by
    refine run_invariant (fun _ _ _ named _ stepped => Machine.named_step named stepped) ?_
      (along_trivial _ _ _) reached
    exact (new_follows started).1.named fun _ _ _ found => (nomatch found)
  let site : Site := ⟨machine.server, machine.disk⟩
  let published := publication exchange chance properties body
  let bound := machine.server.shared.host.exchangeBindings exchangeName
  let mqbs := chance.traversal.order (MsgQueueBindingMap.pairs bound)
  have perm := chance.traversal.perm (MsgQueueBindingMap.pairs bound)
  have nodup : (published.selectedNames mqbs).Nodup := Publication.selectedNames_nodup
    ((perm.map Prod.fst).nodup_iff.mpr (MsgQueueBindingMap.pairs_names_nodup bound))
  have legally : ∀ qname, qname ∈ published.selectedNames mqbs ↔
      LegallyBound machine.server.shared.host exchangeName properties qname := fun qname =>
    (mem_selectedNames_iff machine.server.shared.host qname).trans
      (routed_fanout fanout machine.server.shared.host qname)
  rcases @publish_entered site exchange exchangeName body chance properties script _ conn rid cid
    channel opened selected storesBound (fun _ binding _ => answered_fanout fanout binding)
    writable with ⟨connections, completed⟩
  rcases published.foldl_enter_frame machine.server.shared.host.qmptr (published.selectedNames mqbs)
    (machine.server.shared.host.mmptr, machine.disk) with ⟨stores, _⟩
  refine ⟨_, completed, rfl, ⟨?_, ?_, ⟨_, nodup, rfl, legally⟩⟩⟩
  · intro qname legal
    rcases legal.2 with ⟨binding, found, _⟩
    rcases storesBound qname binding found with ⟨⟨queue, queueSelected⟩, ⟨store, there⟩⟩
    rcases @Publication.foldl_enter_mem published machine.server.shared.host.qmptr
      (machine.server.shared.host.mmptr, machine.disk) qname _ nodup ((legally qname).mpr legal)
      queue store queueSelected there with ⟨size, entered, recorded⟩
    have accepted : published.selects binding = true := by
      rcases (routed_fanout fanout _ qname).mpr legal with ⟨other, otherFound, routed⟩
      cases found.symm.trans otherFound
      exact selects_iff.mpr routed
    rcases storable_of_writable storesBound writable found accepted with
      ⟨sameQueue, sameStore, queueAgain, thereAgain, file⟩
    cases queueSelected.symm.trans queueAgain
    cases there.symm.trans thereAgain
    exact stored_entered queueSelected there file entered
      (recorded (unshared_of_named named _))
  · intro qname unbound
    exact stores qname fun member => unbound ((legally qname).mp member)

end Fanout

/-! ## A queue that is bound to a fanout exchange -/

/-- A client declares a fanout exchange and a durable queue and binds them. -/
def fanningOut (bindingKey : Bytes) : List Machine.Event :=
  [⟨.connect 0, []⟩, ⟨.packet 0 {} (.openChannel [] (ascii "c")), []⟩,
    ⟨.packet 0 {} (.request [] (ascii "c")
      (.declareExchange ⟨ascii "e", .fanout, .durable, false, ∅⟩)), []⟩,
    ⟨.packet 0 {} (.request [] (ascii "c") (.declareQueue ⟨ascii "q", true, false, false, ∅⟩)), []⟩,
    ⟨.proceed, []⟩, ⟨.proceed, []⟩,
    ⟨.packet 0 {} (.request [] (ascii "c") (.queueBind (ascii "e") (ascii "q") bindingKey)), []⟩]

/-- The channel and the exchange are there, and the queue is well bound. -/
def seenFanning (machine : Machine) : Option (Bool × Bool) := do
  let _ ← machine.server.channelAt 0 (ascii "c")
  let exchange ← machine.server.shared.host.selectExchange (ascii "e")
  return (decide (exchange.type = .fanout), isWellBound machine.server machine.disk)

/-- A message without properties is published there. -/
theorem broadcast_to_one :
    ∃ machine done channel exchange,
      run (@Machine.perform wireFormat) { server := fresh [], disk := fun _ => none }
        (fanningOut (ascii "news")) = .ok machine ∧
      performed (@handle wireFormat machine.server 0 {} (.request [] (ascii "c")
        (.basicPublish (ascii "e") none (ascii "m")))) machine.disk [] = .ok done ∧
      done.1.1 = .response [] (ascii "c") true ∧
      Broadcast ⟨machine.server, machine.disk⟩ channel
        (publication exchange {} none (ascii "m")) (ascii "e") done.1.2.shared done.2 := by
  have result : (do
      let machine ← run (@Machine.perform wireFormat) { server := fresh [], disk := fun _ => none }
        (fanningOut (ascii "news"))
      return seenFanning machine) = Except.ok (some (true, true)) := by decide +kernel
  rcases except_bind_eq_ok result with ⟨machine, reached, result⟩
  rcases Option.bind_eq_some_iff.mp (Except.ok.inj result) with ⟨channel, opened, rest⟩
  rcases Option.bind_eq_some_iff.mp rest with ⟨exchange, selected, rest⟩
  have parts := Option.some.inj rest
  rw [Prod.mk.injEq] at parts
  have each := of_decide_eq_true parts.2
  rcases @fanout_broadcast exchange (ascii "e") (ascii "m") {} none [] wireFormat {} []
    ⟨fun _ => none, []⟩ _ _ rfl _ (fanningOut (ascii "news")) machine reached 0 [] (ascii "c")
    channel opened selected (of_decide_eq_true parts.1)
    (by
      intro qname binding found
      rcases each (qname, binding) (MsgQueueBindingMap.mem_pairs.mpr found) with
        ⟨queue, store, _, _⟩
      exact ⟨Option.isSome_iff_exists.mp queue, Option.isSome_iff_exists.mp store⟩)
    ⟨by
      intro qname binding store found _ _ there
      rcases each (qname, binding) (MsgQueueBindingMap.mem_pairs.mpr found) with ⟨_, _, _, file⟩
      rw [there] at file
      exact Option.isSome_iff_exists.mp file, undisturbed_nil _⟩ with
    ⟨done, completed, confirmed, broadcast⟩
  exact ⟨machine, done, channel.address, exchange, reached, completed, confirmed, broadcast⟩

/-- The queue is deleted, while its row cannot be, and bound again. -/
def stranding : List Machine.Event :=
  [⟨.packet 0 { sql := { queueTable := false } } (.request [] (ascii "c")
      (.deleteQueue (ascii "q"))), []⟩, ⟨.proceed, []⟩, ⟨.proceed, []⟩,
    ⟨.packet 0 {} (.request [] (ascii "c") (.queueBind (ascii "e") (ascii "q") [])), []⟩]

/-- After a run, a message is published: is the queue bound, and how many
messages does it have in the end? -/
def copies (events : List Machine.Event) (properties : Option BasecProperties) :
    Except Fault (Bool × Nat) := do
  let machine ← run (@Machine.perform wireFormat) { server := fresh [], disk := fun _ => none } events
  let done ← performed (@handle wireFormat machine.server 0 {} (.request [] (ascii "c")
    (.basicPublish (ascii "e") properties (ascii "m")))) machine.disk []
  return (((machine.server.shared.host.exchangeBindings (ascii "e")).lookup (ascii "q")).isSome,
    ((done.1.2.shared.host.mmptr.queueMsgs.select (ascii "q")).map (·.msgs.length)).getD 0)

/-- A bound queue gets nothing with an illegal binding key or an illegal routing
key, and when it has lost its message store. -/
theorem bound_queue_gets_nothing :
    copies (fanningOut (ascii "a b")) none = .ok (true, 0) ∧
      copies (fanningOut []) (some { rotingKey := ascii "a b" }) = .ok (true, 0) ∧
      copies (fanningOut [] ++ stranding) none = .ok (true, 0) := by
  decide +kernel

end Server

end ProtobufMq
