import Mathlib.Algebra.Order.BigOperators.Group.List
import ProtobufMq.Server.Isolation
import ProtobufMq.Server.PublishEffect

namespace ProtobufMq

open Foundation

/-!
# Whether a publish changes just the bound queues

Every queue that the router selects gets the message, and no other queue does.
But a durable message is also written to the data file of its queue, and two
names may lead to one file.  Then the record is in the file of the other queue,
too.

The results are about any state of the server, with any files for any store; so
the disk may give contents to places, and the stores may have the places that
their paths lead to.
-/

namespace Server

open Channel

/-- A queue got one message at its tail and, if the message is durable, one
record at the end of its data file. -/
def Received (given : BasecProperties) (body : Bytes) (queue : MsgQueue)
    (store next : QueueMessage) (file left : Option Bytes) : Prop :=
  ∃ pointer, next.msgs = store.msgs ++ [pointer] ∧
    pointer.message.payload.properties.id = given.id ∧
    pointer.message.payload.properties.rotingKey = given.rotingKey ∧
    pointer.message.payload.properties.deliverMode =
      (if queue.durable then given.deliverMode else .undurable) ∧
    pointer.message.payload.body = body ∧
    (pointer.message.payload.properties.deliverMode = .durable →
      ∃ content, file = some content ∧
        left = some (content ++ frame sizeOfSize pointer.message.payload.serialize)) ∧
    (pointer.message.payload.properties.deliverMode ≠ .durable → left = file)

/-- Publishing did what the bindings say. -/
structure PublishedExactly (site : Site) (address : Nat) (exchange : Exchange)
    (exchangeName : Bytes) (given : BasecProperties) (body : Bytes) (after : Shared)
    (left : Disk) : Prop where
  received : ∀ qname queue store,
    Routed site.server.shared.host exchange exchangeName (some given) qname →
    site.server.shared.host.qmptr.selectQueue qname = some queue →
    site.server.shared.host.mmptr.queueMsgs.select qname = some store →
    ∃ next, after.host.mmptr.queueMsgs.select qname = some next ∧
      Received given body queue store next (site.disk store.mapper.datafile)
        (left store.mapper.datafile)
  tasks : ∃ names : List Bytes, names.Nodup ∧
    after.pool = site.server.shared.pool ++ names.map (fun qname => ⟨address, qname⟩) ∧
    ∀ qname, qname ∈ names ↔
      Routed site.server.shared.host exchange exchangeName (some given) qname
  stores : ∀ qname, ¬ Routed site.server.shared.host exchange exchangeName (some given) qname →
    after.host.mmptr.queueMsgs.select qname = site.server.shared.host.mmptr.queueMsgs.select qname
  files : ∀ qname store,
    ¬ Routed site.server.shared.host exchange exchangeName (some given) qname →
    site.server.shared.host.mmptr.queueMsgs.select qname = some store →
    left store.mapper.datafile = site.disk store.mapper.datafile
  otherFiles : ∀ file, (∀ qname store,
      Routed site.server.shared.host exchange exchangeName (some given) qname →
      site.server.shared.host.mmptr.queueMsgs.select qname = some store →
      file ≠ store.mapper.datafile) → left file = site.disk file
  tables : after.host.emptr = site.server.shared.host.emptr ∧
    after.host.qmptr = site.server.shared.host.qmptr ∧
    after.host.bmptr = site.server.shared.host.bmptr ∧ after.cmptr = site.server.shared.cmptr

/-- The publish is confirmed and does what the bindings say, and the queues and
the disk come out the same in whatever order the bindings are traversed. -/
def PublishesExactly [Protobuf] (site : Site) (conn : Nat) (chance : Chance)
    (rid cid exchangeName : Bytes) (given : BasecProperties) (body : Bytes)
    (script : List Outcome) (address : Nat) (exchange : Exchange) : Prop :=
  ∃ done, performed (site.server.handle conn chance
      (.request rid cid (.basicPublish exchangeName (some given) body))) site.disk script =
        .ok done ∧
    done.1.1 = .response rid cid true ∧
    PublishedExactly site address exchange exchangeName given body done.1.2.shared done.2 ∧
    ∀ traversal, ∃ other, performed (site.server.handle conn { chance with traversal := traversal }
        (.request rid cid (.basicPublish exchangeName (some given) body))) site.disk script =
          .ok other ∧
      other.1.1 = .response rid cid true ∧
      other.1.2.shared.host = done.1.2.shared.host ∧ other.2 = done.2

/-- The condition: no queue that gets the message as a durable one has its data
file together with another queue. -/
def FilesApart (host : VirtualHost) (exchange : Exchange) (exchangeName : Bytes)
    (given : BasecProperties) : Prop :=
  ∀ qname other queue store otherStore,
    Routed host exchange exchangeName (some given) qname → other ≠ qname →
    host.qmptr.selectQueue qname = some queue →
    (if queue.durable then given.deliverMode else .undurable) = .durable →
    host.mmptr.queueMsgs.select qname = some store →
    host.mmptr.queueMsgs.select other = some otherStore →
    store.mapper.datafile ≠ otherStore.mapper.datafile

section Effect

variable {site : Site} {exchange : Exchange} {exchangeName body : Bytes} {chance : Chance}
  {given : BasecProperties} {script : List Outcome}

/-- An entered message is received. -/
theorem received_entered {queue : MsgQueue} (store : QueueMessage) (uuid : Bytes) (size : Nat)
    {file : Option Bytes}
    (there : (QueueMessage.composed (some given) uuid queue.durable).deliverMode = .durable →
      ∃ content, file = some content) :
    Received given body queue store
      (store.entered (QueueMessage.composed (some given) uuid queue.durable) body size) file
      (QueueMessage.recorded (QueueMessage.composed (some given) uuid queue.durable) body
        file) := by
  let properties := QueueMessage.composed (some given) uuid queue.durable
  refine ⟨⟨store.allocated, QueueMessage.messageFor properties body size⟩, rfl, ?_⟩
  simp only [QueueMessage.messageFor_payload, QueueMessage.payloadFor_properties,
    QueueMessage.payloadFor_body]
  refine ⟨rfl, rfl, rfl, trivial, fun durable => ?_, fun transient => if_neg transient⟩
  rcases there durable with ⟨content, stored⟩
  refine ⟨content, stored, ?_⟩
  rw [QueueMessage.recorded, if_pos durable, stored]
  rfl

/-- The condition is that of the loop. -/
theorem unshared_iff (host : VirtualHost) {names : List Bytes}
    (routed : ∀ qname, qname ∈ names ↔ Routed host exchange exchangeName (some given) qname) :
    (publication exchange chance (some given) body).Unshared host.qmptr host.mmptr names ↔
      FilesApart host exchange exchangeName given := by
  constructor
  · intro unshared qname other queue store otherStore goes distinct selected mode there otherThere
    exact unshared qname ((routed qname).mpr goes) ⟨queue, selected, mode⟩ other store otherStore
      distinct there otherThere
  · rintro apart qname member ⟨queue, selected, mode⟩ other store otherStore distinct there
      otherThere
    exact apart qname other queue store otherStore ((routed qname).mp member) distinct selected mode
      there otherThere

/-- Two insertions into one file make it longer than one of them would. -/
theorem two_add {names : List Bytes} {first second : Bytes} (adds : Bytes → Nat)
    (member : first ∈ names) (otherMember : second ∈ names) (distinct : second ≠ first) :
    adds first + adds second ≤ (names.map adds).sum := by
  have perm := List.perm_cons_erase member
  have there := (List.mem_erase_of_ne distinct).mpr otherMember
  have whole := (perm.map adds).sum_eq
  rw [List.map_cons, List.sum_cons] at whole
  rw [whole]
  exact Nat.add_le_add_left (List.single_le_sum (fun _ _ => Nat.zero_le _) _
    (List.mem_map_of_mem there)) _

variable [Protobuf] {conn : Nat} {rid cid : Bytes} {channel : Channel}

/-- With the files apart, a publish does what the bindings say. -/
theorem publishesExactly_of_apart (opened : site.server.channelAt conn cid = some channel)
    (selected : site.server.shared.host.selectExchange exchangeName = some exchange)
    (wellBound : WellBound site.server.shared.host exchangeName)
    (writable : Writable site (publication exchange chance (some given) body) exchangeName script)
    (apart : FilesApart site.server.shared.host exchange exchangeName given) :
    PublishesExactly site conn chance rid cid exchangeName given body script channel.address
      exchange := by
  let published := publication exchange chance (some given) body
  let bound := site.server.shared.host.exchangeBindings exchangeName
  have nodup : ∀ traversal : Traversal, (published.selectedNames
      (traversal.order (MsgQueueBindingMap.pairs bound))).Nodup := by
    intro traversal
    apply Publication.selectedNames_nodup
    exact ((traversal.perm _).map Prod.fst).nodup_iff.mpr
      (MsgQueueBindingMap.pairs_names_nodup bound)
  have routed : ∀ qname, qname ∈ published.selectedNames
      (chance.traversal.order (MsgQueueBindingMap.pairs bound)) ↔
        Routed site.server.shared.host exchange exchangeName (some given) qname :=
    mem_selectedNames_iff site.server.shared.host
  have answered : ∀ qname binding, bound.lookup qname = some binding → published.Answered binding :=
    fun qname binding found => answered_of_word published (wellBound qname binding found).2.2
  have unshared : published.Unshared site.server.shared.host.qmptr site.server.shared.host.mmptr
      (published.selectedNames (chance.traversal.order (MsgQueueBindingMap.pairs bound))) :=
    (unshared_iff site.server.shared.host routed).mpr apart
  rcases @publish_entered site exchange exchangeName body chance (some given) script _ conn rid cid
    channel opened selected wellBound.storesBound answered writable with ⟨connections, completed⟩
  rcases published.foldl_enter_frame site.server.shared.host.qmptr
    (published.selectedNames (chance.traversal.order (MsgQueueBindingMap.pairs bound)))
    (site.server.shared.host.mmptr, site.disk) with ⟨stores, files⟩
  refine ⟨_, completed, rfl, ⟨?_, ?_, ?_, ?_, ?_, ⟨rfl, rfl, rfl, rfl⟩⟩, ?_⟩
  · intro qname queue store accepted queueSelected there
    rcases @Publication.foldl_enter_mem published site.server.shared.host.qmptr
      (site.server.shared.host.mmptr, site.disk) qname _ (nodup chance.traversal)
      ((routed qname).mpr accepted) queue store queueSelected there with ⟨size, entered, recorded⟩
    refine ⟨_, entered, ?_⟩
    refine (congrArg (Received given body queue store _ _) (recorded unshared)).mpr ?_
    apply received_entered
    intro mode
    rcases accepted with ⟨binding, found, route⟩
    refine writable.1 qname binding store found (selects_iff.mpr route) ?_ there
    rw [Publication.durableIn, queueSelected]
    exact decide_eq_true mode
  · exact ⟨_, nodup chance.traversal, rfl, routed⟩
  · intro qname unrouted
    exact stores qname fun member => unrouted ((routed qname).mp member)
  · intro qname store unrouted there
    refine files _ fun name member durable other otherThere => Ne.symm ?_
    have distinct : qname ≠ name := fun same => unrouted (same ▸ (routed name).mp member)
    exact unshared name member durable qname other store distinct otherThere there
  · intro file distinct
    exact files file fun qname member _ store there =>
      distinct qname store ((routed qname).mp member) there
  · intro traversal
    rcases @publish_entered site exchange exchangeName body { chance with traversal := traversal }
      (some given) script _ conn rid cid channel opened selected wellBound.storesBound answered
      writable with ⟨otherConnections, otherCompleted⟩
    have perm : (published.selectedNames
        (chance.traversal.order (MsgQueueBindingMap.pairs bound))).Perm
        (published.selectedNames (traversal.order (MsgQueueBindingMap.pairs bound))) :=
      (((chance.traversal.perm _).trans (traversal.perm _).symm).filter _).map Prod.fst
    have same := (published.foldl_enter_perm site.server.shared.host.qmptr perm
      (site.server.shared.host.mmptr, site.disk) unshared).symm
    have host := congrArg (fun entered : MessageManager × Disk =>
      { site.server.shared.host with mmptr := entered.1 }) same
    have left := congrArg (fun entered : MessageManager × Disk => entered.2) same
    exact ⟨_, otherCompleted, rfl, host, left⟩

/-- What is written to a shared file is more than the record of one message. -/
theorem apart_of_publishesExactly (opened : site.server.channelAt conn cid = some channel)
    (selected : site.server.shared.host.selectExchange exchangeName = some exchange)
    (wellBound : WellBound site.server.shared.host exchangeName)
    (writable : Writable site (publication exchange chance (some given) body) exchangeName script)
    (publishes : PublishesExactly site conn chance rid cid exchangeName given body script
      channel.address exchange) :
    FilesApart site.server.shared.host exchange exchangeName given := by
  let published := publication exchange chance (some given) body
  let bound := site.server.shared.host.exchangeBindings exchangeName
  let names := published.selectedNames (chance.traversal.order (MsgQueueBindingMap.pairs bound))
  have nodup : names.Nodup := Publication.selectedNames_nodup
    (((chance.traversal.perm _).map Prod.fst).nodup_iff.mpr
      (MsgQueueBindingMap.pairs_names_nodup bound))
  have routed : ∀ qname, qname ∈ names ↔
      Routed site.server.shared.host exchange exchangeName (some given) qname :=
    mem_selectedNames_iff site.server.shared.host
  have answered : ∀ qname binding, bound.lookup qname = some binding → published.Answered binding :=
    fun qname binding found => answered_of_word published (wellBound qname binding found).2.2
  rcases @publish_entered site exchange exchangeName body chance (some given) script _ conn rid cid
    channel opened selected wellBound.storesBound answered writable with ⟨connections, completed⟩
  rcases publishes with ⟨done, again, _, exactly, _⟩
  cases again.symm.trans completed
  intro qname other queue store otherStore goes distinct queueSelected mode there otherThere same
  rcases exactly.received qname queue store goes queueSelected there with
    ⟨next, nextThere, pointer, msgs, _, _, pointerMode, _, wrote, _⟩
  rcases wrote (pointerMode.trans mode) with ⟨content, stored, left⟩
  -- what a message adds to its file is not nothing
  have adding : ∀ payload : Payload, 0 < (frame sizeOfSize payload.serialize).length := by
    intro payload
    rw [frame, List.length_append, length_leBytes]
    exact Nat.add_pos_left (by decide) _
  have changed : (names.foldl (published.enter site.server.shared.host.qmptr)
      (site.server.shared.host.mmptr, site.disk)).2 store.mapper.datafile ≠
        site.disk store.mapper.datafile := by
    intro unchanged
    have longer := congrArg (fun file : Option Bytes => (file.getD []).length)
      (left.symm.trans (unchanged.trans stored))
    simp only [Option.getD_some, List.length_append] at longer
    exact absurd longer (Nat.ne_of_gt (Nat.lt_add_of_pos_right (adding _)))
  by_cases otherGoes : Routed site.server.shared.host exchange exchangeName (some given) other
  · rcases otherGoes with ⟨binding, found, route⟩
    rcases (wellBound other binding found).1 with ⟨otherQueue, otherSelected⟩
    rcases exactly.received other otherQueue otherStore ⟨binding, found, route⟩ otherSelected
      otherThere with ⟨_, _, otherPointer, _, _, _, otherMode, _, _, otherKept⟩
    by_cases transient : otherPointer.message.payload.properties.deliverMode = .durable
    · -- both are written to the file
      rcases @Publication.foldl_enter_mem published site.server.shared.host.qmptr
        (site.server.shared.host.mmptr, site.disk) qname _ nodup ((routed qname).mpr goes) queue
        store queueSelected there with ⟨size, entered, _⟩
      cases nextThere.symm.trans entered
      cases List.append_cancel_left msgs
      rw [QueueMessage.messageFor_payload] at left
      rcases @Publication.foldl_enter_grows published site.server.shared.host.qmptr
        (site.server.shared.host.mmptr, site.disk) names _ content stored with
        ⟨grown, grownStored, total⟩
      have whole := congrArg List.length (Option.some.inj (grownStored.symm.trans left))
      have both := two_add (published.adds site.server.shared.host.qmptr
        site.server.shared.host.mmptr store.mapper.datafile) ((routed qname).mpr goes)
        ((routed other).mpr ⟨binding, found, route⟩) distinct
      have own : published.adds site.server.shared.host.qmptr site.server.shared.host.mmptr
          store.mapper.datafile qname = (frame sizeOfSize (QueueMessage.payloadFor
            (published.propertiesIn qname queue) published.body).serialize).length := by
        unfold Publication.adds
        rw [queueSelected, there]
        exact if_pos ⟨rfl, mode⟩
      have otherOwn : published.adds site.server.shared.host.qmptr site.server.shared.host.mmptr
          store.mapper.datafile other = (frame sizeOfSize (QueueMessage.payloadFor
            (published.propertiesIn other otherQueue) published.body).serialize).length := by
        unfold Publication.adds
        rw [otherSelected, otherThere]
        exact if_pos ⟨same.symm, otherMode.symm.trans transient⟩
      rw [own, otherOwn] at both
      rw [List.length_append] at whole
      have more := adding (QueueMessage.payloadFor (published.propertiesIn other otherQueue)
        published.body)
      simp only at total
      omega
    · exact changed (same ▸ otherKept transient)
  · exact changed (same ▸ exactly.files other otherStore otherGoes otherThere)

/-- A publish does what the bindings say, and in any order of them the same,
exactly if no queue that gets the message as a durable one shares its data file. -/
theorem publishesExactly_iff (opened : site.server.channelAt conn cid = some channel)
    (selected : site.server.shared.host.selectExchange exchangeName = some exchange)
    (wellBound : WellBound site.server.shared.host exchangeName)
    (writable : Writable site (publication exchange chance (some given) body) exchangeName
      script) :
    PublishesExactly site conn chance rid cid exchangeName given body script channel.address
        exchange ↔
      FilesApart site.server.shared.host exchange exchangeName given :=
  ⟨apart_of_publishesExactly opened selected wellBound writable,
    publishesExactly_of_apart opened selected wellBound writable⟩

end Effect

/-! ## A publish beside a queue of another name -/

/-- `declareQueue` as the dispatcher serves it, with the paths of the new store
resolved. -/
def declareLocated [Protobuf] (server : Server) (sql : SqlOutcome) (queue : MsgQueue) :
    FileM (Bool × Server) := do
  let declared ← server.shared.host.declareLocated sql queue
  let cmptr :=
    if declared.1 then server.shared.cmptr.initQueueConsumer queue.name else server.shared.cmptr
  return (declared.1, { server with
    shared := { server.shared with host := declared.2, cmptr := cmptr } })

/-- `handle`, with the paths of new stores resolved. -/
def handleLocated [Protobuf] (server : Server) (conn : Nat) (chance : Chance) (packet : Packet) :
    FileM (Reply × Server) :=
  match packet, server.channelAt conn packet.cid with
  | .request rid cid (.declareQueue queue), some _ => do
      let declared ← server.declareLocated chance.sql queue
      return (.response rid cid declared.1, declared.2)
  | _, _ => server.handle conn chance packet

/-- Serve packets one after another, with no file operation failing. -/
def serveLocated [Protobuf] (site : Site) : List Packet → Except Fault Site
  | [] => .ok site
  | packet :: rest => do
      let done ← performed (site.server.handleLocated 0 {} packet) site.disk []
      serveLocated ⟨done.1.2, done.2⟩ rest

/-- A client declares two queues and binds the first one to a topic exchange. -/
def bindingOneOf (first second : Bytes) : List Packet :=
  [.openChannel [] (ascii "c"),
    .request [] (ascii "c") (.declareExchange ⟨ascii "e", .topic, .durable, false, ∅⟩),
    .request [] (ascii "c") (.declareQueue ⟨first, true, false, false, ∅⟩),
    .request [] (ascii "c") (.declareQueue ⟨second, true, false, false, ∅⟩),
    .request [] (ascii "c") (.queueBind (ascii "e") first (ascii "news.#"))]

/-- The state after that, from an empty database and an empty disk. -/
def boundOneOf (first second : Bytes) : Except Fault Site :=
  @serveLocated wireFormat ⟨(fresh (ascii "data")).newConnection 0, fun _ => none⟩
    (bindingOneOf first second)

/-- The properties of the message that the client publishes then. -/
def newsOfMusic : BasecProperties :=
  { id := ascii "1", deliverMode := .durable, rotingKey := ascii "news.music" }

/-- The publish of that message, for any state. -/
def PublishesNews [Protobuf] (site : Site) : Channel → Exchange → Prop :=
  fun channel exchange => PublishesExactly site 0 {} [] (ascii "c") (ascii "e") newsOfMusic
    (ascii "m") [] channel.address exchange

/-- All stores have their data files at different places. -/
def allApart (stores : Registry Bytes QueueMessage) : Bool :=
  decide (∀ one ∈ stores.names.keys, ∀ two ∈ stores.names.keys, one ≠ two →
    (stores.select one).map (·.mapper.datafile) ≠ (stores.select two).map (·.mapper.datafile))

/-- What can be seen of a state: the channel and the exchange are there, whether
the queues are well bound and the router selects the first, a durable one,
whether all data files are apart, and whether the two have theirs together. -/
def seenBound (site : Site) (first second : Bytes) :
    Option (Bool × Bool × Bool) := do
  let host := site.server.shared.host
  let stores := host.mmptr.queueMsgs
  let _ ← site.server.channelAt 0 (ascii "c")
  let exchange ← host.selectExchange (ascii "e")
  let binding ← (host.exchangeBindings (ascii "e")).lookup first
  let queue ← host.qmptr.selectQueue first
  let publication := publication exchange {} (some newsOfMusic) (ascii "m")
  return (isWellBound site.server site.disk && publication.selects binding && queue.durable,
    allApart stores, (stores.select first).isSome && decide
      ((stores.select first).map (·.mapper.datafile) =
        (stores.select second).map (·.mapper.datafile)))

/-- What is seen of the state after the requests. -/
def observedBound (first second : Bytes) :
    Except Fault (Option (Bool × Bool × Bool)) := do
  let site ← boundOneOf first second
  return seenBound site first second

theorem mem_keys_of_select {stores : Registry Bytes QueueMessage} {qname : Bytes}
    {store : QueueMessage} (there : stores.select qname = some store) :
    qname ∈ stores.names.keys := by
  rcases Registry.select_eq_some.mp there with ⟨reference, found, _⟩
  exact AList.mem_keys.mp (AList.lookup_isSome.mp (Option.isSome_of_eq_some found))

theorem wellBound_of_seen {site : Site} (seen : isWellBound site.server site.disk = true) :
    WellBound site.server.shared.host (ascii "e") ∧ ∀ publication,
      Writable site publication (ascii "e") [] := by
  have each := of_decide_eq_true seen
  constructor
  · intro qname binding found
    rcases each (qname, binding) (MsgQueueBindingMap.mem_pairs.mpr found) with
      ⟨queue, store, word, _⟩
    exact ⟨Option.isSome_iff_exists.mp queue, Option.isSome_iff_exists.mp store, word⟩
  · refine fun publication => ⟨?_, undisturbed_nil _⟩
    intro qname binding store found _ _ there
    rcases each (qname, binding) (MsgQueueBindingMap.mem_pairs.mpr found) with ⟨_, _, _, file⟩
    rw [there] at file
    exact Option.isSome_iff_exists.mp file

/-- Beside a queue with files of its own, the message goes to the bound queue and
nowhere else. -/
theorem published_beside_another :
    ∃ site channel exchange, boundOneOf (ascii "q") (ascii "r") = .ok site ∧
      site.server.channelAt 0 (ascii "c") = some channel ∧
      @PublishesNews wireFormat site channel exchange := by
  have result : observedBound (ascii "q") (ascii "r") =
      .ok (some (true, true, false)) := by decide +kernel
  rcases except_bind_eq_ok result with ⟨site, reached, result⟩
  rcases Option.bind_eq_some_iff.mp (Except.ok.inj result) with ⟨channel, opened, rest⟩
  rcases Option.bind_eq_some_iff.mp rest with ⟨exchange, selected, rest⟩
  rcases Option.bind_eq_some_iff.mp rest with ⟨binding, found, rest⟩
  rcases Option.bind_eq_some_iff.mp rest with ⟨queue, queueSelected, rest⟩
  have parts := Option.some.inj rest
  simp only [Prod.mk.injEq, Bool.and_eq_true] at parts
  rcases wellBound_of_seen parts.1.1.1 with ⟨wellBound, writable⟩
  refine ⟨site, channel, exchange, reached, opened, ?_⟩
  refine (@publishesExactly_iff site exchange (ascii "e") (ascii "m") {} newsOfMusic [] wireFormat 0
    [] (ascii "c") channel opened selected wellBound (writable _)).mpr ?_
  intro qname other queue store otherStore _ distinct _ _ there otherThere same
  refine of_decide_eq_true parts.2.1 qname (mem_keys_of_select there) other
    (mem_keys_of_select otherThere) distinct.symm ?_
  rw [there, otherThere]
  exact congrArg some same

/-- Beside a queue whose name leads to the same file, the record gets into the
file of that queue, too. -/
theorem published_into_shared_file :
    ¬ ∀ (site : Site) (channel : Channel) (exchange : Exchange),
      boundOneOf (ascii "q") (ascii "./q") = .ok site →
      site.server.channelAt 0 (ascii "c") = some channel →
      site.server.shared.host.selectExchange (ascii "e") = some exchange →
      @PublishesNews wireFormat site channel exchange := by
  intro always
  have result : observedBound (ascii "q") (ascii "./q") =
      .ok (some (true, false, true)) := by decide +kernel
  rcases except_bind_eq_ok result with ⟨site, reached, result⟩
  rcases Option.bind_eq_some_iff.mp (Except.ok.inj result) with ⟨channel, opened, rest⟩
  rcases Option.bind_eq_some_iff.mp rest with ⟨exchange, selected, rest⟩
  rcases Option.bind_eq_some_iff.mp rest with ⟨binding, found, rest⟩
  rcases Option.bind_eq_some_iff.mp rest with ⟨queue, queueSelected, rest⟩
  have parts := Option.some.inj rest
  simp only [Prod.mk.injEq, Bool.and_eq_true] at parts
  rcases parts with ⟨⟨⟨bound, accepted⟩, durable⟩, _, present, together⟩
  rcases wellBound_of_seen bound with ⟨wellBound, writable⟩
  rcases Option.isSome_iff_exists.mp present with ⟨store, there⟩
  have places := of_decide_eq_true together
  rw [there] at places
  rcases Option.map_eq_some_iff.mp places.symm with ⟨otherStore, otherThere, same⟩
  have apart := @apart_of_publishesExactly site exchange (ascii "e") (ascii "m") {} newsOfMusic []
    wireFormat 0 [] (ascii "c") channel opened selected wellBound (writable _)
    (always site channel exchange reached opened selected)
  refine apart (ascii "q") (ascii "./q") queue store otherStore
    ⟨binding, found, selects_iff.mp accepted⟩ (by decide) queueSelected ?_ there otherThere
    same.symm
  rw [durable]
  rfl

end Server

end ProtobufMq
