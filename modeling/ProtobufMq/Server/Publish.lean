import ProtobufMq.Server.Stores

namespace ProtobufMq

open Foundation

/-!
# A publish confirmed is a publish stored

The loop of `basicPublish` inserts the message into every queue whose binding
the router accepts, and the reply carries `ok = true` whatever became of the
insertions: nobody looks at their results.  And an insertion does not notice
what is lost when the stream of a write is closed.  So the confirmation can be
relied upon exactly when every insertion is sure to succeed.  Each needs the
queue and its message store; an insertion that is also written to a file needs
that file and two writes that leave the record whole.

The insertions go to different queues and so to different files, and the
outcomes of the writes are used up in the order of the loop.
-/

namespace Channel.Publication

/-- The router accepts the binding. -/
def selects (publication : Publication) (binding : Binding) : Bool :=
  match Router.route publication.type binding.bindingKey (rotingKeyOf publication.properties) with
  | .ok accepted => accepted
  | .error _ => false

/-- The properties that the message has in a queue. -/
def propertiesIn (publication : Publication) (qname : Bytes) (queue : MsgQueue) :
    BasecProperties :=
  QueueMessage.composed publication.properties (publication.uuid qname) queue.durable

/-- The message is durable in a queue that is there. -/
def durableIn (publication : Publication) (host : VirtualHost) (qname : Bytes) : Bool :=
  match host.qmptr.selectQueue qname with
  | none => false
  | some queue => (publication.propertiesIn qname queue).deliverMode = .durable

/-- The writes of a durable message into a queue leave its record whole. -/
def WritesIn (publication : Publication) (host : VirtualHost) (qname : Bytes)
    (script : List Outcome) : Prop :=
  ∀ queue, host.qmptr.selectQueue qname = some queue →
    (publication.propertiesIn qname queue).deliverMode = .durable →
    MessageMapper.LeavesWhole
      (QueueMessage.stamped (publication.propertiesIn qname queue) publication.body).serialize
      script

/-- So do those into all the queues that are selected, in the order of the loop. -/
def WritesAll (publication : Publication) (host : VirtualHost) :
    List (Bytes × Binding) → List Outcome → Prop
  | [], _ => True
  | mqb :: rest, script =>
      if publication.selects mqb.2 then
        publication.WritesIn host mqb.1 script ∧ publication.WritesAll host rest
          (script.drop (if publication.durableIn host mqb.1 then 2 else 0))
      else publication.WritesAll host rest script

/-- The message was appended to the pending list of a queue and, if it is
durable there, to the data file. -/
def Stored (publication : Publication) (before after : VirtualHost) (disk left : Disk)
    (qname : Bytes) : Prop :=
  ∃ queue store next pointer, before.qmptr.selectQueue qname = some queue ∧
    before.mmptr.queueMsgs.select qname = some store ∧
    after.mmptr.queueMsgs.select qname = some next ∧
    next.msgs = store.msgs ++ [pointer] ∧
    pointer.message.payload.properties = publication.propertiesIn qname queue ∧
    pointer.message.payload.body = publication.body ∧
    ((publication.propertiesIn qname queue).deliverMode = .durable →
      ∃ content, disk store.mapper.datafile = some content ∧
        left store.mapper.datafile = some (content ++
          frame sizeOfSize pointer.message.payload.serialize))

/-- The queue has what an insertion needs. -/
def Storable (publication : Publication) (host : VirtualHost) (disk : Disk) (qname : Bytes) :
    Prop :=
  ∃ queue store, host.qmptr.selectQueue qname = some queue ∧
    host.mmptr.queueMsgs.select qname = some store ∧
    ((publication.propertiesIn qname queue).deliverMode = .durable →
      ∃ content, disk store.mapper.datafile = some content)

end Channel.Publication

/-! ## One insertion -/

namespace VirtualHost

open Channel

section Publishing

variable {host next : VirtualHost} {world after : World} {accepted : Bool}

/-- Publishing to a queue finds no queue, no store, or inserts into the store. -/
theorem basicPublish_cases {qname uuid body : Bytes} {properties : Option BasecProperties}
    (completed : host.basicPublish qname properties uuid body world = .ok (accepted, next) after) :
    (next = host ∧ after = world ∧ (host.qmptr.selectQueue qname = none ∨
      host.mmptr.queueMsgs.select qname = none)) ∨
    (∃ queue reference store changed, host.qmptr.selectQueue qname = some queue ∧
      host.mmptr.queueMsgs.find qname = some reference ∧
      host.mmptr.queueMsgs.object reference = some store ∧
      store.insert properties uuid body queue.durable world = .ok (accepted, changed) after ∧
      next = { host with mmptr := { host.mmptr with
        queueMsgs := host.mmptr.queueMsgs.update reference changed } }) := by
  rcases basicPublish_ok completed with ⟨absent, same, idle⟩ | ⟨queue, inserted, selected, called, same⟩
  · cases same
    exact Or.inl ⟨rfl, idle, Or.inl absent⟩
  · cases same
    rcases MessageManager.insert_ok called with ⟨absent, kept, idle⟩ | ⟨reference, found, ran⟩
    · rw [kept]
      exact Or.inl ⟨rfl, idle, Or.inr (Registry.select_eq_none.mpr absent)⟩
    · rcases Registry.object_of_find found with ⟨store, there⟩
      rcases MessageManager.onStore_cases ran with ⟨absent, _, _⟩ |
        ⟨stored, changed, storedThere, ran, result⟩
      · cases there.symm.trans absent
      · cases there.symm.trans storedThere
        exact Or.inr ⟨queue, reference, store, changed, selected, found, there, ran,
          by rw [result]⟩

variable {publication : Publication} {qname : Bytes} {disk left : Disk}
  {script rest : List Outcome}

/-- Publishing changes no other queue and no other file. -/
theorem basicPublish_frame (named : host.mmptr.Named)
    (completed : host.basicPublish qname publication.properties (publication.uuid qname)
      publication.body ⟨disk, script⟩ = .ok (accepted, next) ⟨left, rest⟩) :
    next.qmptr = host.qmptr ∧ next.mmptr.basedir = host.mmptr.basedir ∧ next.mmptr.Named ∧
      ∀ other, other ≠ qname →
        next.mmptr.queueMsgs.select other = host.mmptr.queueMsgs.select other ∧
        left (MessageMapper.ofNames other host.mmptr.basedir).datafile =
          disk (MessageMapper.ofNames other host.mmptr.basedir).datafile := by
  rcases basicPublish_cases completed with ⟨same, unchanged, _⟩ |
    ⟨queue, reference, store, changed, selected, found, there, inserted, same⟩
  · cases unchanged
    rw [same]
    exact ⟨rfl, rfl, named, fun _ _ => ⟨rfl, rfl⟩⟩
  · have mapper := (QueueMessage.follows_insert inserted).mapper
    rw [same]
    refine ⟨rfl, rfl, MessageManager.named_update there mapper named, fun other distinct => ?_⟩
    constructor
    · exact (Registry.select_update found changed other).trans (if_neg distinct)
    · refine QueueMessage.insert_frame inserted fun equal => distinct ?_
      rw [named qname reference store found there] at equal
      exact MessageMapper.ofNames_datafile_injective equal

/-- The message is stored if and only if the queue has what the insertion needs
and the writes leave its record whole. -/
theorem stored_iff (completed : host.basicPublish qname publication.properties
      (publication.uuid qname) publication.body ⟨disk, script⟩ = .ok (accepted, next) ⟨left, rest⟩) :
    (publication.Stored host next disk left qname ↔
      publication.Storable host disk qname ∧ publication.WritesIn host qname script) ∧
    (publication.Storable host disk qname →
      rest = script.drop (if publication.durableIn host qname then 2 else 0)) := by
  have storable : publication.Stored host next disk left qname →
      publication.Storable host disk qname := by
    rintro ⟨queue, store, _, _, selected, there, _, _, _, _, file⟩
    exact ⟨queue, store, selected, there, fun durable =>
      (file durable).imp fun content both => both.1⟩
  rcases basicPublish_cases completed with ⟨same, unchanged, missing⟩ |
    ⟨queue, reference, store, changed, selected, found, there, inserted, same⟩
  · have unstored : ¬ publication.Storable host disk qname := by
      rintro ⟨queue, store, selected, there, _⟩
      rcases missing with noQueue | noStore
      · rw [noQueue] at selected
        cases selected
      · rw [noStore] at there
        cases there
    exact ⟨⟨fun stored => absurd (storable stored) unstored, fun both => absurd both.1 unstored⟩,
      fun able => absurd able unstored⟩
  · have before : host.mmptr.queueMsgs.select qname = some store :=
      (Registry.select_of_find found).trans there
    have afterwards : next.mmptr.queueMsgs.select qname = some changed := by
      rw [same]
      exact (Registry.select_update found changed qname).trans (if_pos rfl)
    by_cases mode : (publication.propertiesIn qname queue).deliverMode = .durable
    · have durable : publication.durableIn host qname = true := by
        rw [Publication.durableIn, selected]
        exact decide_eq_true mode
      rcases QueueMessage.insert_durable_returns mode inserted with
        ⟨content, pointer, held, _, msgs, payload, used, whole⟩
      rw [payload] at whole
      refine ⟨⟨fun stored => ⟨storable stored, ?_⟩, ?_⟩, fun _ => ?_⟩
      · intro other otherSelected _
        cases selected.symm.trans otherSelected
        rcases stored with
          ⟨found, kept, last, added, foundThere, keptThere, lastThere, lastMsgs, _, _, file⟩
        cases selected.symm.trans foundThere
        cases before.symm.trans keptThere
        cases afterwards.symm.trans lastThere
        cases List.append_cancel_left (msgs.symm.trans lastMsgs)
        rcases file mode with ⟨stood, stoodThere, written⟩
        cases held.symm.trans stoodThere
        rw [payload] at written
        exact whole.mp written
      · rintro ⟨_, writes⟩
        refine ⟨queue, store, changed, pointer, selected, before, afterwards, msgs, ?_, ?_,
          fun _ => ⟨content, held, ?_⟩⟩
        · rw [payload]
          rfl
        · rw [payload]
          rfl
        · rw [payload]
          exact whole.mpr (writes queue selected mode)
      · rw [durable]
        exact used
    · have transient : publication.durableIn host qname = false := by
        rw [Publication.durableIn, selected]
        exact decide_eq_false mode
      rcases @QueueMessage.insert_transient store publication.properties (publication.uuid qname)
        publication.body queue.durable mode ⟨disk, script⟩ with
        ⟨pointer, result, done, msgs, properties, body⟩
      cases inserted.symm.trans done
      have stored : publication.Stored host next disk disk qname :=
        ⟨queue, store, changed, pointer, selected, before, afterwards, msgs, properties, body,
          fun durable => absurd durable mode⟩
      refine ⟨⟨fun _ => ⟨storable stored, fun other otherSelected durable => ?_⟩,
        fun _ => stored⟩, fun _ => ?_⟩
      · cases selected.symm.trans otherSelected
        exact absurd durable mode
      · rw [transient]
        rfl

end Publishing

end VirtualHost

/-! ## The loop -/

namespace Channel

namespace Publication

section Congruence

variable {publication : Publication} {before after host next : VirtualHost}
  {disk left other remains : Disk} {qname : Bytes}

theorem mapper_of_select (named : host.mmptr.Named) {store : QueueMessage}
    (selected : host.mmptr.queueMsgs.select qname = some store) :
    store.mapper = MessageMapper.ofNames qname host.mmptr.basedir := by
  rcases Registry.select_eq_some.mp selected with ⟨reference, found, there⟩
  exact named qname reference store found there

/-- Only the queue, its store and its data file matter. -/
theorem storable_congr (named : host.mmptr.Named) (queues : next.qmptr = host.qmptr)
    (stores : next.mmptr.queueMsgs.select qname = host.mmptr.queueMsgs.select qname)
    (file : other (MessageMapper.ofNames qname host.mmptr.basedir).datafile =
      disk (MessageMapper.ofNames qname host.mmptr.basedir).datafile) :
    publication.Storable next other qname ↔ publication.Storable host disk qname := by
  unfold Storable
  rw [queues, stores]
  refine exists_congr fun queue => exists_congr fun store => and_congr_right fun _ =>
    and_congr_right fun selected => ?_
  rw [mapper_of_select named selected, file]

theorem stored_congr (named : before.mmptr.Named) (queues : host.qmptr = before.qmptr)
    (stores : host.mmptr.queueMsgs.select qname = before.mmptr.queueMsgs.select qname)
    (afterwards : next.mmptr.queueMsgs.select qname = after.mmptr.queueMsgs.select qname)
    (file : other (MessageMapper.ofNames qname before.mmptr.basedir).datafile =
      disk (MessageMapper.ofNames qname before.mmptr.basedir).datafile)
    (leftFile : remains (MessageMapper.ofNames qname before.mmptr.basedir).datafile =
      left (MessageMapper.ofNames qname before.mmptr.basedir).datafile) :
    publication.Stored host next other remains qname ↔
      publication.Stored before after disk left qname := by
  unfold Stored
  rw [queues, stores, afterwards]
  refine exists_congr fun queue => exists_congr fun store => exists_congr fun stored =>
    exists_congr fun pointer => and_congr_right fun _ => and_congr_right fun selected => ?_
  rw [mapper_of_select named selected, file, leftFile]

theorem durableIn_congr (queues : next.qmptr = host.qmptr) (qname : Bytes) :
    publication.durableIn next qname = publication.durableIn host qname := by
  rw [durableIn, durableIn, queues]

theorem writesIn_congr (queues : next.qmptr = host.qmptr) (qname : Bytes) (script : List Outcome) :
    publication.WritesIn next qname script ↔ publication.WritesIn host qname script := by
  unfold WritesIn
  rw [queues]

theorem writesAll_congr (queues : next.qmptr = host.qmptr) (mqbs : List (Bytes × Binding))
    (script : List Outcome) :
    publication.WritesAll next mqbs script ↔ publication.WritesAll host mqbs script := by
  induction mqbs generalizing script with
  | nil => exact Iff.rfl
  | cons mqb rest inductionHypothesis =>
      rw [WritesAll, WritesAll, durableIn_congr queues]
      by_cases selected : publication.selects mqb.2 = true
      · rw [if_pos selected, if_pos selected]
        exact and_congr (writesIn_congr queues _ _) (inductionHypothesis _)
      · rw [if_neg selected, if_neg selected]
        exact inductionHypothesis _

end Congruence

end Publication

section Loop

variable {address : Nat} {publication : Publication} {shared next final : Shared}
  {disk left : Disk} {script rest : List Outcome}

/-- A turn for a binding that the router does not accept does nothing; any other
turn publishes to the queue. -/
theorem publishTurn_selects {mqb : Bytes × Binding} {world after : World}
    (completed : publishTurn address publication shared mqb world = .ok next after) :
    (publication.selects mqb.2 = false ∧ next = shared ∧ after = world) ∨
    (publication.selects mqb.2 = true ∧ ∃ accepted,
      shared.host.basicPublish mqb.1 publication.properties (publication.uuid mqb.1)
        publication.body world = .ok (accepted, next.host) after) := by
  rcases publishTurn_ok completed with ⟨routed, same, unchanged⟩ | ⟨routed, published, called, same⟩
  · exact Or.inl ⟨by rw [Publication.selects, routed], same, unchanged⟩
  · exact Or.inr ⟨by rw [Publication.selects, routed], published.1, by rw [same]; exact called⟩

/-- A turn changes no other queue and no other file. -/
theorem publishTurn_frame (named : shared.host.mmptr.Named) {mqb : Bytes × Binding}
    (completed : publishTurn address publication shared mqb ⟨disk, script⟩ =
      .ok next ⟨left, rest⟩) :
    next.host.qmptr = shared.host.qmptr ∧
      next.host.mmptr.basedir = shared.host.mmptr.basedir ∧ next.host.mmptr.Named ∧
      ∀ other, other ≠ mqb.1 →
        next.host.mmptr.queueMsgs.select other = shared.host.mmptr.queueMsgs.select other ∧
        left (MessageMapper.ofNames other shared.host.mmptr.basedir).datafile =
          disk (MessageMapper.ofNames other shared.host.mmptr.basedir).datafile := by
  rcases publishTurn_selects completed with ⟨_, same, unchanged⟩ | ⟨_, accepted, called⟩
  · cases unchanged
    rw [same]
    exact ⟨rfl, rfl, named, fun _ _ => ⟨rfl, rfl⟩⟩
  · exact VirtualHost.basicPublish_frame named called

theorem publishLoop_frame {mqbs : List (Bytes × Binding)} (named : shared.host.mmptr.Named)
    (completed : mqbs.foldlM (publishTurn address publication) shared ⟨disk, script⟩ =
      .ok final ⟨left, rest⟩) {other : Bytes} (distinct : other ∉ mqbs.map Prod.fst) :
    final.host.mmptr.queueMsgs.select other = shared.host.mmptr.queueMsgs.select other ∧
      left (MessageMapper.ofNames other shared.host.mmptr.basedir).datafile =
        disk (MessageMapper.ofNames other shared.host.mmptr.basedir).datafile := by
  induction mqbs generalizing shared disk script with
  | nil =>
      cases completed
      exact ⟨rfl, rfl⟩
  | cons mqb others inductionHypothesis =>
      rw [List.foldlM_cons] at completed
      rcases bind_eq_ok completed with ⟨next, ⟨middle, middleScript⟩, turned, continued⟩
      rw [List.map_cons, List.mem_cons, not_or] at distinct
      rcases publishTurn_frame named turned with ⟨_, basedir, nextNamed, unchanged⟩
      rcases unchanged other distinct.1 with ⟨store, file⟩
      rcases inductionHypothesis nextNamed continued distinct.2 with ⟨laterStore, laterFile⟩
      rw [basedir] at laterFile
      exact ⟨laterStore.trans store, laterFile.trans file⟩

/-- After the loop, the message is stored in every selected queue if and only if
every one of them had what it takes and the writes left its record whole. -/
theorem publishLoop_iff {mqbs : List (Bytes × Binding)} (nodup : (mqbs.map Prod.fst).Nodup)
    (named : shared.host.mmptr.Named)
    (completed : mqbs.foldlM (publishTurn address publication) shared ⟨disk, script⟩ =
      .ok final ⟨left, rest⟩) :
    (∀ mqb ∈ mqbs, publication.selects mqb.2 = true →
      publication.Stored shared.host final.host disk left mqb.1) ↔
    (∀ mqb ∈ mqbs, publication.selects mqb.2 = true →
      publication.Storable shared.host disk mqb.1) ∧
      publication.WritesAll shared.host mqbs script := by
  induction mqbs generalizing shared disk script with
  | nil =>
      refine ⟨fun _ => ⟨fun _ member => (nomatch member), trivial⟩,
        fun _ _ member => (nomatch member)⟩
  | cons mqb others inductionHypothesis =>
      rw [List.foldlM_cons] at completed
      rcases bind_eq_ok completed with ⟨next, ⟨middle, middleScript⟩, turned, continued⟩
      rw [List.map_cons, List.nodup_cons] at nodup
      rcases publishTurn_frame named turned with ⟨queues, basedir, nextNamed, unchanged⟩
      have apart : ∀ other ∈ others, other.1 ≠ mqb.1 :=
        fun other member same => nodup.1 (same ▸ List.mem_map_of_mem member)
      -- what the other queues need and get is not touched by this turn
      have onward : (∀ other ∈ others, publication.selects other.2 = true →
            publication.Stored shared.host final.host disk left other.1) ↔
          (∀ other ∈ others, publication.selects other.2 = true →
            publication.Storable shared.host disk other.1) ∧
            publication.WritesAll shared.host others middleScript := by
        rw [← Publication.writesAll_congr queues]
        refine Iff.trans ?_ ((inductionHypothesis nodup.2 nextNamed continued).trans ?_)
        · refine forall₂_congr fun other member => imp_congr_right fun _ => ?_
          rcases unchanged other.1 (apart other member) with ⟨store, file⟩
          exact (Publication.stored_congr named queues store rfl file rfl).symm
        · refine and_congr_left' (forall₂_congr fun other member => imp_congr_right fun _ => ?_)
          rcases unchanged other.1 (apart other member) with ⟨store, file⟩
          exact Publication.storable_congr named queues store file
      simp only [List.forall_mem_cons]
      rw [Publication.WritesAll]
      rcases publishTurn_selects turned with ⟨skipped, same, still⟩ | ⟨selected, accepted, called⟩
      · cases still
        rw [skipped, if_neg Bool.false_ne_true]
        constructor
        · rintro ⟨_, later⟩
          rcases onward.mp later with ⟨storable, writes⟩
          exact ⟨⟨fun impossible => (nomatch impossible), storable⟩, writes⟩
        · rintro ⟨⟨_, storable⟩, writes⟩
          exact ⟨fun impossible => (nomatch impossible), onward.mpr ⟨storable, writes⟩⟩
      · rcases publishLoop_frame nextNamed continued nodup.1 with ⟨store, file⟩
        rw [basedir] at file
        have head : publication.Stored shared.host final.host disk left mqb.1 ↔
            publication.Stored shared.host next.host disk middle mqb.1 :=
          Publication.stored_congr named rfl rfl store rfl file
        rcases VirtualHost.stored_iff called with ⟨first, drops⟩
        rw [if_pos selected]
        constructor
        · rintro ⟨here, later⟩
          rcases first.mp (head.mp (here selected)) with ⟨storable, writesHere⟩
          rcases onward.mp later with ⟨storables, writes⟩
          rw [drops storable] at writes
          exact ⟨⟨fun _ => storable, storables⟩, writesHere, writes⟩
        · rintro ⟨⟨storable, storables⟩, writesHere, writes⟩
          rw [← drops (storable selected)] at writes
          exact ⟨fun _ => head.mpr (first.mpr ⟨storable selected, writesHere⟩),
            onward.mpr ⟨storables, writes⟩⟩

end Loop

end Channel

/-! ## The request -/

namespace Server

/-- What a publish request hands to the loop. -/
def publication (exchange : Exchange) (chance : Chance) (properties : Option BasecProperties)
    (body : Bytes) : Channel.Publication :=
  ⟨exchange.type, properties, body, chance.uuid⟩

/-- If the reply confirms the publish, the message was stored in every queue that
is bound to the exchange with a key that the router accepts. -/
def ConfirmedStored (site : Site) (chance : Chance) (rid cid exchangeName : Bytes)
    (properties : Option BasecProperties) (body : Bytes) (done : (Reply × Server) × Disk) : Prop :=
  done.1.1 = .response rid cid true →
    ∃ exchange, site.server.shared.host.selectExchange exchangeName = some exchange ∧
      ∀ qname binding,
        (site.server.shared.host.exchangeBindings exchangeName).lookup qname = some binding →
        (publication exchange chance properties body).selects binding = true →
        (publication exchange chance properties body).Stored site.server.shared.host
          done.1.2.shared.host site.disk done.2 qname

/-- The condition: each of these queues has what an insertion needs, and the writes
of the insertions leave whole records. -/
def CanConfirm (site : Site) (conn : Nat) (chance : Chance) (cid exchangeName : Bytes)
    (properties : Option BasecProperties) (body : Bytes) (script : List Outcome) : Prop :=
  ∀ channel exchange, site.server.channelAt conn cid = some channel →
    site.server.shared.host.selectExchange exchangeName = some exchange →
    (∀ qname binding,
      (site.server.shared.host.exchangeBindings exchangeName).lookup qname = some binding →
      (publication exchange chance properties body).selects binding = true →
      (publication exchange chance properties body).Storable site.server.shared.host site.disk
        qname) ∧
    (publication exchange chance properties body).WritesAll site.server.shared.host
      (chance.traversal.order (MsgQueueBindingMap.pairs
        (site.server.shared.host.exchangeBindings exchangeName))) script

section Replies

variable [Protobuf] {site : Site} {conn : Nat} {chance : Chance} {rid cid exchangeName : Bytes}
  {properties : Option BasecProperties} {body : Bytes} {script : List Outcome}
  {done : (Reply × Server) × Disk}

/-- A publish is confirmed when the loop is through, on an exchange that is
there. -/
theorem publish_cases
    (completed : performed (site.server.handle conn chance
      (.request rid cid (.basicPublish exchangeName properties body))) site.disk script =
        .ok done) :
    ((site.server.channelAt conn cid = none ∨
        site.server.shared.host.selectExchange exchangeName = none) ∧
      done.1.1 ≠ .response rid cid true) ∨
    (∃ channel exchange rest, site.server.channelAt conn cid = some channel ∧
      site.server.shared.host.selectExchange exchangeName = some exchange ∧
      done.1.1 = .response rid cid true ∧
      (chance.traversal.order (MsgQueueBindingMap.pairs
        (site.server.shared.host.exchangeBindings exchangeName))).foldlM
          (Channel.publishTurn channel.address (publication exchange chance properties body))
          site.server.shared ⟨site.disk, script⟩ = .ok done.1.2.shared ⟨done.2, rest⟩) := by
  rcases done with ⟨⟨reply, next⟩, left⟩
  rcases performed_eq_ok completed with ⟨⟨remains, rest⟩, ran, same⟩
  change remains = left at same
  subst same
  rcases request_ok ran with ⟨absent, _, unanswered⟩ |
    ⟨connection, channel, result, connected, opened, handled, same⟩
  · exact Or.inl ⟨Or.inl absent, unanswered true⟩
  · cases same
    rcases bind_eq_ok handled with ⟨published, last, called, returned⟩
    cases returned
    rcases Channel.basicPublish_ok called with ⟨absent, refused, _, _⟩ |
      ⟨exchange, selected, confirmed, looped⟩
    · rw [refused]
      exact Or.inl ⟨Or.inr absent, nofun⟩
    · rw [confirmed]
      exact Or.inr ⟨channel, exchange, rest, (channelAt_eq connected cid).trans opened, selected,
        rfl, looped⟩

/-- The confirmation of a publish can be relied upon, in every state that any
interleaving reaches, if and only if the selected queues have what it takes and
the writes leave whole records. -/
theorem confirmedStored_iff {database : Database} {basedir : Bytes} {world after : World}
    {server : Server} (started : new database basedir world = .ok server after) {disk : Disk}
    {events : List Machine.Event} {machine : Machine}
    (reached : run Machine.perform { server := server, disk := disk } events = .ok machine)
    (completed : performed (machine.server.handle conn chance
      (.request rid cid (.basicPublish exchangeName properties body))) machine.disk script =
        .ok done) :
    ConfirmedStored ⟨machine.server, machine.disk⟩ chance rid cid exchangeName properties body
        done ↔
      CanConfirm ⟨machine.server, machine.disk⟩ conn chance cid exchangeName properties body
        script := by
  have named : machine.server.shared.host.mmptr.Named := by
    refine run_invariant (fun _ _ _ named _ stepped => Machine.named_step named stepped) ?_
      (along_trivial _ _ _) reached
    exact (new_follows started).1.named fun _ _ _ found => (nomatch found)
  let site : Site := ⟨machine.server, machine.disk⟩
  rcases @publish_cases _ site conn chance rid cid exchangeName properties body script done
    completed with ⟨missing, unconfirmed⟩ |
    ⟨channel, exchange, rest, opened, selected, confirmed, looped⟩
  · refine ⟨fun _ channel exchange opened selected => ?_,
      fun _ confirmed => absurd confirmed unconfirmed⟩
    rcases missing with noChannel | noExchange
    · cases noChannel.symm.trans opened
    · cases noExchange.symm.trans selected
  · let bound := site.server.shared.host.exchangeBindings exchangeName
    have perm := chance.traversal.perm (MsgQueueBindingMap.pairs bound)
    have members : ∀ mqb, mqb ∈ chance.traversal.order (MsgQueueBindingMap.pairs bound) ↔
        bound.lookup mqb.1 = some mqb.2 :=
      fun mqb => perm.mem_iff.trans MsgQueueBindingMap.mem_pairs
    have nodup := (perm.map Prod.fst).nodup_iff.mpr (MsgQueueBindingMap.pairs_names_nodup bound)
    have loop := Channel.publishLoop_iff nodup named looped
    constructor
    · intro stored other found otherOpened otherSelected
      cases selected.symm.trans otherSelected
      rcases stored confirmed with ⟨again, againSelected, all⟩
      cases selected.symm.trans againSelected
      rcases loop.mp fun mqb member => all mqb.1 mqb.2 ((members mqb).mp member) with
        ⟨storable, writes⟩
      exact ⟨fun qname binding boundTo => storable (qname, binding) ((members _).mpr boundTo),
        writes⟩
    · intro can _
      rcases can channel exchange opened selected with ⟨storable, writes⟩
      refine ⟨exchange, selected, fun qname binding boundTo => ?_⟩
      exact loop.mpr ⟨fun mqb member => storable mqb.1 mqb.2 ((members mqb).mp member),
        writes⟩ (qname, binding) ((members _).mpr boundTo)

end Replies

/-! ## A publish to a durable queue -/

/-- A client opens a channel and binds a durable queue to an exchange. -/
def bindingDurably : List Machine.Event :=
  [⟨.connect 0, []⟩, ⟨.packet 0 {} (.openChannel [] (ascii "c")), []⟩,
    ⟨.packet 0 {} (.request [] (ascii "c")
      (.declareExchange ⟨ascii "e", .fanout, .durable, false, ∅⟩)), []⟩,
    ⟨.packet 0 {} (.request [] (ascii "c") (.declareQueue ⟨ascii "q", true, false, false, ∅⟩)), []⟩,
    ⟨.proceed, []⟩, ⟨.proceed, []⟩,
    ⟨.packet 0 {} (.request [] (ascii "c") (.queueBind (ascii "e") (ascii "q") [])), []⟩]

/-- The machine after these requests, from an empty database and an empty disk. -/
def boundDurably : Except Fault Machine :=
  run (@Machine.perform wireFormat) { server := fresh [], disk := fun _ => none } bindingDurably

/-- The client publishes a message there. -/
def publishing (machine : Machine) (script : List Outcome) :
    Except Fault ((Reply × Server) × Disk) :=
  performed (@handle wireFormat machine.server 0 {}
    (.request [] (ascii "c") (.basicPublish (ascii "e") none (ascii "m")))) machine.disk script

/-- What can be seen of it: the reply, whether the router accepts the binding of
the queue and the message is durable there, the number of its pending messages
before and after, and the size of its data file afterwards. -/
def seen (machine : Machine) (done : (Reply × Server) × Disk) :
    Reply × Option (Bool × Bool) × Option Nat × Option Nat × Option Nat :=
  let host := machine.server.shared.host
  (done.1.1,
    (do
      let exchange ← host.selectExchange (ascii "e")
      let binding ← (host.exchangeBindings (ascii "e")).lookup (ascii "q")
      let publication := publication exchange {} none (ascii "m")
      return (publication.selects binding, publication.durableIn host (ascii "q"))),
    (host.mmptr.queueMsgs.select (ascii "q")).map (·.msgs.length),
    (done.1.2.shared.host.mmptr.queueMsgs.select (ascii "q")).map (·.msgs.length),
    (do
      let store ← host.mmptr.queueMsgs.select (ascii "q")
      let content ← done.2 store.mapper.datafile
      return content.length))

/-- The run and the publish, and what is seen of them. -/
def observed (script : List Outcome) :
    Except Fault (Reply × Option (Bool × Bool) × Option Nat × Option Nat × Option Nat) := do
  let machine ← boundDurably
  let done ← publishing machine script
  return seen machine done

/-- With nothing failing, the theorem applies to a message that is stored. -/
theorem confirmed_while_calm :
    ∃ machine done, boundDurably = .ok machine ∧ publishing machine [] = .ok done ∧
      seen machine done = (.response [] (ascii "c") true, some (true, true), some 0, some 1, some 18) ∧
      (ConfirmedStored ⟨machine.server, machine.disk⟩ {} [] (ascii "c") (ascii "e") none
          (ascii "m") done ↔
        CanConfirm ⟨machine.server, machine.disk⟩ 0 {} (ascii "c") (ascii "e") none (ascii "m")
          []) := by
  have result : observed [] =
      .ok (.response [] (ascii "c") true, some (true, true), some 0, some 1, some 18) := by
    decide +kernel
  rcases except_bind_eq_ok result with ⟨machine, reached, result⟩
  rcases except_bind_eq_ok result with ⟨done, completed, result⟩
  refine ⟨machine, done, reached, completed, Except.ok.inj result, ?_⟩
  exact @confirmedStored_iff wireFormat 0 {} [] (ascii "c") (ascii "e") none (ascii "m") [] done {}
    [] ⟨fun _ => none, []⟩ _ _ rfl _ bindingDurably machine reached completed

/-- With its bytes lost when the streams are closed, a publish is confirmed and
not stored. -/
theorem lost_write_is_confirmed :
    ¬ ∀ (machine : Machine) (script : List Outcome) (done : (Reply × Server) × Disk),
      boundDurably = .ok machine → publishing machine script = .ok done →
      ConfirmedStored ⟨machine.server, machine.disk⟩ {} [] (ascii "c") (ascii "e") none (ascii "m")
        done := by
  intro always
  have result : observed [.loses 0, .loses 0] =
      .ok (.response [] (ascii "c") true, some (true, true), some 0, some 1, some 0) := by decide +kernel
  rcases except_bind_eq_ok result with ⟨machine, reached, result⟩
  rcases except_bind_eq_ok result with ⟨done, completed, result⟩
  have parts := Except.ok.inj result
  simp only [seen, Prod.mk.injEq] at parts
  rcases parts with ⟨confirmed, routed, _, _, size⟩
  rcases Option.bind_eq_some_iff.mp routed with ⟨exchange, selected, routed⟩
  rcases Option.bind_eq_some_iff.mp routed with ⟨binding, boundTo, accepted⟩
  rcases Option.bind_eq_some_iff.mp size with ⟨store, there, size⟩
  rcases Option.bind_eq_some_iff.mp size with ⟨remains, file, size⟩
  rcases always machine _ done reached completed confirmed with ⟨other, otherSelected, all⟩
  cases selected.symm.trans otherSelected
  have facts := Prod.mk.inj (Option.some.inj accepted)
  rcases all (ascii "q") binding boundTo facts.1 with
    ⟨queue, kept, _, pointer, queueThere, keptThere, _, _, _, _, stored⟩
  cases there.symm.trans keptThere
  have durable := facts.2
  rw [Channel.Publication.durableIn, queueThere] at durable
  rcases stored (of_decide_eq_true durable) with ⟨content, _, whole⟩
  cases file.symm.trans whole
  have nothing : (content ++ frame sizeOfSize pointer.message.payload.serialize).length = 0 :=
    Option.some.inj size
  rw [List.length_append, frame, List.length_append, length_leBytes] at nothing
  have headerSize : 0 < sizeOfSize := by decide
  omega

end Server

end ProtobufMq
