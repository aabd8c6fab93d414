import ProtobufMq.Server.QueueMessage

namespace ProtobufMq

open Foundation

namespace QueueMessage

/-!
# Every accepted message is somewhere

A queue is watched from outside: which messages its inserts accepted, which
messages `front` returned, and which messages a `remove` acknowledged.  A
message is identified by its address and carries the properties and body it
was inserted with.  Conservation states that the accepted messages are, each
exactly once, the pending, the waiting and the acknowledged ones, and that
`front` returns them in the order of acceptance.

Two of the containers are keyed by an id that publishers choose.  `front`
drops a message from the pending list whether or not the map of waiting
messages takes it, so conservation survives a `front` exactly when the id at
the head of the pending list is not waiting already.
-/

/-- A message as the outside sees it. -/
structure Ticket where
  addr : Nat
  properties : BasecProperties
  body : Bytes
  deriving DecidableEq, Repr

/-- The ticket of an object. -/
def ticket (pointer : MessagePtr) : Ticket :=
  ⟨pointer.addr, pointer.message.payload.properties, pointer.message.payload.body⟩

/-- A queue with the history of its calls. -/
structure Watched where
  site : Site
  accepted : List Ticket := []
  returned : List Ticket := []
  /-- The id a `remove` was called with, and the message it acknowledged. -/
  acknowledged : List (Bytes × Ticket) := []

namespace Watched

/-- The messages that wait to be pushed. -/
def pending (watched : Watched) : List Ticket :=
  watched.site.queue.msgs.map ticket

/-- The messages that wait to be acknowledged. -/
def waiting (watched : Watched) : List Ticket :=
  (Dictionary.values watched.site.queue.waitackMsgs).map ticket

end Watched

/-- Perform one call and record what its result shows. -/
def watch [Protobuf] (watched : Watched) : Call → Except Fault Watched
  | .insert properties uuid body queueIsDurable =>
      (calmly (watched.site.queue.insert properties uuid body queueIsDurable)
        watched.site.disk).map fun done =>
          { watched with
            site := ⟨done.1.2, done.2⟩
            accepted := if done.1.1 then
                watched.accepted ++ [⟨watched.site.queue.allocated,
                  composed properties uuid queueIsDurable, body⟩]
              else watched.accepted }
  | .front =>
      .ok { watched with
        site := ⟨watched.site.queue.front.2, watched.site.disk⟩
        returned := watched.returned ++ (watched.site.queue.front.1.map ticket).toList }
  | .remove msgId =>
      (calmly (watched.site.queue.remove msgId) watched.site.disk).map fun done =>
        { watched with
          site := ⟨done.1, done.2⟩
          acknowledged := watched.acknowledged ++
            ((watched.site.queue.waitackMsgs.lookup msgId).map
              fun pointer => (msgId, ticket pointer)).toList }

/-- Nothing is lost and nothing is merged. -/
structure Conserved (watched : Watched) : Prop where
  distinct : watched.accepted.Nodup
  once : watched.accepted.Perm
    (watched.pending ++ watched.waiting ++ watched.acknowledged.map (·.2))
  inOrder : watched.returned <+: watched.accepted
  acknowledgedById : ∀ entry ∈ watched.acknowledged,
    entry.2.properties.id = entry.1 ∧ entry.2 ∈ watched.returned

/-- The condition on a call: `front` finds no message of the head's id waiting. -/
def HeadNotWaiting (watched : Watched) : Call → Prop
  | .front => ∀ pointer rest, watched.site.queue.msgs = pointer :: rest →
      pointer.id ∉ watched.site.queue.waitackMsgs
  | _ => True

/-- The invariant behind conservation. -/
structure Tracked (watched : Watched) : Prop where
  conserved : Conserved watched
  queued : watched.accepted = watched.returned ++ watched.pending
  addresses : ∀ entry ∈ watched.accepted, entry.addr < watched.site.queue.allocated
  keyed : ∀ msgId pointer, watched.site.queue.waitackMsgs.lookup msgId = some pointer →
    pointer.id = msgId ∧ ticket pointer ∈ watched.returned

section Steps

variable [Protobuf] {watched next : Watched}

theorem tracked_insert {properties : Option BasecProperties} {uuid body : Bytes}
    {queueIsDurable : Bool} (tracked : Tracked watched)
    (stepped : watch watched (.insert properties uuid body queueIsDurable) = .ok next) :
    Tracked next := by
  rcases except_map_eq_ok stepped with ⟨⟨⟨accepted, queue⟩, disk⟩, called, same⟩
  subst same
  rcases calmly_eq_ok called with ⟨world, inserted, _⟩
  rcases insert_cases inserted with ⟨refused, same⟩ |
    ⟨taken, message, totalCount, durableMsgs, props, content, same⟩
  · change accepted = false at refused
    change queue = watched.site.queue at same
    subst refused same
    exact ⟨⟨tracked.conserved.distinct, tracked.conserved.once, tracked.conserved.inOrder,
      tracked.conserved.acknowledgedById⟩, tracked.queued, tracked.addresses, tracked.keyed⟩
  · change accepted = true at taken
    change queue = _ at same
    subst taken same
    have fresh : (⟨watched.site.queue.allocated, composed properties uuid queueIsDurable,
        body⟩ : Ticket) ∉ watched.accepted :=
      fun member => Nat.lt_irrefl _ (tracked.addresses _ member)
    have pushed : ticket ⟨watched.site.queue.allocated, message⟩ =
        ⟨watched.site.queue.allocated, composed properties uuid queueIsDurable, body⟩ := by
      rw [ticket, props, content]
    refine ⟨⟨?_, ?_, ?_, tracked.conserved.acknowledgedById⟩, ?_, ?_, tracked.keyed⟩
    · exact (List.perm_append_singleton _ _).nodup_iff.mpr
        (List.nodup_cons.mpr ⟨fresh, tracked.conserved.distinct⟩)
    · refine (List.perm_append_singleton _ _).trans ((tracked.conserved.once.cons _).trans ?_)
      simp only [Watched.pending, Watched.waiting, List.map_append, List.map_cons, List.map_nil,
        pushed, List.append_assoc, List.singleton_append]
      exact List.perm_middle.symm
    · exact tracked.conserved.inOrder.trans (List.prefix_append _ _)
    · simp only [if_true, Watched.pending, List.map_append, List.map_cons, List.map_nil, pushed]
      rw [tracked.queued, List.append_assoc]
      rfl
    · intro entry member
      rcases List.mem_append.mp member with earlier | new
      · exact Nat.lt_succ_of_lt (tracked.addresses entry earlier)
      · rw [List.mem_singleton.mp new]
        exact Nat.lt_succ_self _

theorem tracked_front (tracked : Tracked watched) (meets : HeadNotWaiting watched .front)
    (stepped : watch watched .front = .ok next) : Tracked next := by
  unfold watch at stepped
  cases stepped
  cases msgs : watched.site.queue.msgs with
  | nil =>
      have nothing : watched.site.queue.front = (none, watched.site.queue) := by
        rw [front, msgs]
      rw [nothing]
      simp only [Option.map_none, Option.toList_none, List.append_nil]
      exact tracked
  | cons pointer rest =>
      have absent := meets pointer rest msgs
      have popped : watched.site.queue.front = (some pointer, { watched.site.queue with
          msgs := rest
          waitackMsgs := Dictionary.insertNew pointer.id pointer watched.site.queue.waitackMsgs }) := by
        rw [front, msgs]
      have pendingSplit : watched.pending = ticket pointer :: rest.map ticket := by
        rw [Watched.pending, msgs, List.map_cons]
      have reordered : watched.returned ++ [ticket pointer] ++ rest.map ticket =
          watched.accepted := by
        rw [tracked.queued, pendingSplit, List.append_assoc, List.singleton_append]
      rw [popped]
      refine ⟨⟨tracked.conserved.distinct, ?_, ?_, ?_⟩, ?_, tracked.addresses, ?_⟩
      · simp only [Watched.pending, Watched.waiting, Dictionary.insertNew_of_notMem pointer absent,
          Dictionary.values_insert_of_notMem pointer absent, List.map_cons]
        refine tracked.conserved.once.trans ?_
        rw [pendingSplit, Watched.waiting, List.append_assoc, List.cons_append, List.append_assoc,
          List.cons_append]
        exact List.perm_middle.symm
      · exact ⟨rest.map ticket, reordered⟩
      · intro entry member
        have old := tracked.conserved.acknowledgedById entry member
        exact ⟨old.1, List.mem_append_left _ old.2⟩
      · exact reordered.symm
      · intro msgId stored found
        rw [Dictionary.lookup_insertNew] at found
        by_cases same : msgId = pointer.id
        · rw [if_pos same, AList.lookup_eq_none.mpr absent, Option.getD_none] at found
          cases found
          exact ⟨same.symm, List.mem_append_right _ List.mem_cons_self⟩
        · rw [if_neg same] at found
          have old := tracked.keyed msgId stored found
          exact ⟨old.1, List.mem_append_left _ old.2⟩

theorem tracked_remove {msgId : Bytes} (tracked : Tracked watched)
    (stepped : watch watched (.remove msgId) = .ok next) : Tracked next := by
  rcases except_map_eq_ok stepped with ⟨⟨queue, disk⟩, called, same⟩
  subst same
  rcases calmly_eq_ok called with ⟨world, removed, _⟩
  rcases remove_cases removed with ⟨pointer, totalCount, durableMsgs, found, same⟩
  change queue = _ at same
  subst same
  have key := tracked.keyed msgId pointer found
  have taken : watched.waiting.Perm (ticket pointer ::
      (Dictionary.values (watched.site.queue.waitackMsgs.erase msgId)).map ticket) :=
    (Dictionary.values_perm_cons_erase found).map ticket
  rw [found]
  refine ⟨⟨tracked.conserved.distinct, ?_, tracked.conserved.inOrder, ?_⟩, tracked.queued,
    tracked.addresses, ?_⟩
  · simp only [Option.map_some, Option.toList_some, List.map_append, List.map_cons, List.map_nil]
    refine tracked.conserved.once.trans ?_
    rw [List.append_assoc, List.append_assoc]
    refine List.Perm.append_left _ ((taken.append_right _).trans ?_)
    rw [List.cons_append]
    exact (List.perm_append_singleton _ _).symm.trans
      (List.Perm.of_eq (List.append_assoc _ _ _))
  · intro entry member
    rcases List.mem_append.mp member with earlier | new
    · exact tracked.conserved.acknowledgedById entry earlier
    · rw [List.mem_singleton.mp new]
      exact key
  · intro other stored lookup
    rw [Dictionary.lookup_erase] at lookup
    by_cases same : other = msgId
    · rw [if_pos same] at lookup
      cases lookup
    · rw [if_neg same] at lookup
      exact tracked.keyed other stored lookup

theorem tracked_step {call : Call} (tracked : Tracked watched) (meets : HeadNotWaiting watched call)
    (stepped : watch watched call = .ok next) : Tracked next := by
  cases call with
  | insert properties uuid body queueIsDurable => exact tracked_insert tracked stepped
  | front => exact tracked_front tracked meets stepped
  | remove msgId => exact tracked_remove tracked stepped

/-- A `front` whose head is waiting already loses it: one place fewer is
filled, and nothing was acknowledged. -/
theorem headNotWaiting_of_conserved {call : Call} (tracked : Tracked watched)
    (stepped : watch watched call = .ok next) (conserved : Conserved next) :
    HeadNotWaiting watched call := by
  cases call with
  | insert properties uuid body queueIsDurable => exact trivial
  | remove msgId => exact trivial
  | front =>
      intro pointer rest msgs present
      unfold watch at stepped
      cases stepped
      have popped : watched.site.queue.front = (some pointer, { watched.site.queue with
          msgs := rest }) := by
        rw [front, msgs]
        simp only [Dictionary.insertNew_of_mem pointer present]
      have before := tracked.conserved.once.length_eq
      have after := conserved.once.length_eq
      rw [popped] at after
      simp only [Watched.pending, Watched.waiting, msgs, List.length_append, List.length_map,
        List.length_cons] at before after
      omega

end Steps

/-- An empty queue on a disk, with no history. -/
def emptyWatched (mapper : MessageMapper) (disk : Disk) : Watched :=
  { site := ⟨{ mapper := mapper }, disk⟩ }

theorem tracked_empty (mapper : MessageMapper) (disk : Disk) :
    Tracked (emptyWatched mapper disk) where
  conserved := ⟨List.nodup_nil, List.Perm.nil, List.prefix_rfl, fun _ member => by cases member⟩
  queued := rfl
  addresses := fun _ member => by cases member
  keyed := fun _ _ found => by cases found

/-- In every completed run from an empty queue, every accepted message is at
every moment in exactly one place and `front` returns them in order, if and
only if every `front` of the run meets the condition. -/
theorem conserved_throughout_iff [Protobuf] (mapper : MessageMapper) (disk : Disk)
    (calls : List Call) {final : Watched}
    (completes : run watch (emptyWatched mapper disk) calls = .ok final) :
    Throughout watch Conserved (emptyWatched mapper disk) calls ↔
      Along watch HeadNotWaiting (emptyWatched mapper disk) calls :=
  throughout_iff_along (fun _ tracked => tracked.conserved)
    (fun _ _ _ tracked meets stepped => tracked_step tracked meets stepped)
    (fun _ _ _ tracked stepped conserved => headNotWaiting_of_conserved tracked stepped conserved)
    (tracked_empty mapper disk) completes

/-- A transient message with the given id and body. -/
def transient (id body : Bytes) : Call :=
  .insert (some { id := id, deliverMode := .undurable }) [] body false

/-- The files of a queue named `q`. -/
def demoMapper : MessageMapper :=
  MessageMapper.ofNames (ascii "q") (ascii "data")

/-- One message is delivered and acknowledged. -/
theorem conserved_delivery :
    Throughout watch Conserved (emptyWatched demoMapper fun _ => none)
      [transient (ascii "a") (ascii "x"), .front, .remove (ascii "a")] := by
  refine (conserved_throughout_iff demoMapper (fun _ => none) _ rfl).mpr ?_
  refine ⟨trivial, fun next stepped => ⟨?_, fun _ _ => ⟨trivial, fun _ _ => trivial⟩⟩⟩
  cases stepped
  exact fun pointer rest msgs => AList.notMem_empty pointer.id

/-- Two messages with one id: the second `front` loses the second message. -/
theorem equal_ids_lose_a_message :
    ¬ ∀ (calls : List Call) (final : Watched),
      run watch (emptyWatched demoMapper fun _ => none) calls = .ok final →
      Throughout watch Conserved (emptyWatched demoMapper fun _ => none) calls := by
  intro always
  have everywhere := always
    [transient (ascii "a") (ascii "x"), transient (ascii "a") (ascii "y"), .front, .front] _ rfl
  have lengths := (everywhere.last rfl).once.length_eq
  exact absurd lengths (by decide)

end QueueMessage

end ProtobufMq
