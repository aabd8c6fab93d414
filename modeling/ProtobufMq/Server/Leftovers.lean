import ProtobufMq.Server.Isolation
import ProtobufMq.Server.Loading
import ProtobufMq.Server.Parcels

namespace ProtobufMq

open Foundation

/-!
# What a data file brings back

A queue that is declared gets back what its data file has: the messages of the whole
records from the front, less those that are struck out, each once.  So what comes in
can be read off the disk, and a start brings each queue of the table what its own file
has, since filling one store leaves the files of the others as they are.
-/

namespace MessageMapper

/-- The parcels that the data file has for its queue. -/
def parcelsOn [Protobuf] (place : MessageMapper) (disk : Disk) : Multiset Parcel :=
  (countedPayloads (cut sizeOfSize ((disk place.datafile).getD [])).1).map fun payload =>
    (⟨place, payload.properties, payload.body⟩ : Parcel)

section Files

variable [Protobuf] {place : MessageMapper} {disk other : Disk}

/-- Only the data file matters. -/
theorem parcelsOn_congr
    (agree : other place.datafile = disk place.datafile) :
    place.parcelsOn other = place.parcelsOn disk := by
  rw [parcelsOn, parcelsOn, agree]

/-- An empty file that is created has nothing that was not there before. -/
theorem parcelsOn_created (name : Bytes) (absent : disk name = none) :
    place.parcelsOn (Function.update disk name (some [])) = place.parcelsOn disk := by
  by_cases same : place.datafile = name
  · rw [parcelsOn, parcelsOn, same, Function.update_self, absent]
    rfl
  · exact parcelsOn_congr (Function.update_of_ne same _ _)

/-- A load finds what the file has. -/
theorem load_parcels {loaded : Bool × List Message} {world after : World}
    (done : place.load world = .ok loaded after) :
    loaded.2.map Message.payload =
      countedPayloads (cut sizeOfSize ((world.disk place.datafile).getD [])).1 := by
  cases stored : world.disk place.datafile with
  | none =>
      cases (load_absent stored).symm.trans done
      rfl
  | some content =>
      rcases load_content stored with ⟨throws, loads⟩
      by_cases long : ReadsTooLong content
      · cases (throws long).symm.trans done
      · cases (loads long).symm.trans done
        exact List.map_map.trans (List.map_id _)

omit [Protobuf] in
/-- No data file has the name of a file of another queue. -/
theorem datafile_notMem {first second basedir : Bytes} (distinct : first ≠ second) :
    (ofNames first basedir).datafile ∉ (ofNames second basedir).files := by
  intro member
  rcases List.mem_cons.mp member with same | same
  · exact distinct (ofNames_datafile_injective same)
  · have ends := congrArg List.getLast? (List.mem_singleton.mp same)
    have closing : (ascii ".mqd").getLast? = some (UInt8.ofNat 'd'.toNat) := by decide
    have closingTmp : (ascii ".mqd.tmp").getLast? = some (UInt8.ofNat 'p'.toNat) := by decide
    simp only [ofNames, List.getLast?_append, closing, closingTmp, Option.some_or] at ends
    exact absurd (Option.some.inj ends) (by decide)

end Files

end MessageMapper

namespace QueueMessage

/-- A store is filled with what its data file has. -/
theorem parcels_recovery [Protobuf] {queue next : QueueMessage} {world after : World}
    (done : queue.recovery world = .ok next after) :
    next.parcels = queue.mapper.parcelsOn world.disk := by
  rcases bind_eq_ok done with ⟨messages, middle, collected, rest⟩
  cases rest
  rcases MessageMapper.gc_payloads collected with ⟨loaded, _, load, same⟩
  have payloads := (queue.holding_payloads messages).trans
    (same.trans (MessageMapper.load_parcels load))
  rw [MessageMapper.parcelsOn, ← payloads, List.map_map]
  rfl

/-- Making a store does not change what its data file has. -/
theorem parcelsOn_made [Protobuf] {qname basedir : Bytes} {store : QueueMessage}
    {world after : World} (made : new qname basedir world = .ok store after) :
    store.mapper.parcelsOn after.disk =
      (MessageMapper.ofNames qname basedir).parcelsOn world.disk := by
  rcases bind_eq_ok made with ⟨mapper, middle, opened, rest⟩
  cases rest
  rcases bind_eq_ok opened with ⟨created, last, creating, rest⟩
  cases rest
  let place := MessageMapper.ofNames qname basedir
  have kept : Keeps (fun disk => place.parcelsOn disk = place.parcelsOn world.disk)
      place.createMsgFile :=
    keeps_createFile fun disk held absent => (MessageMapper.parcelsOn_created _ absent).trans held
  have left := kept world rfl
  rwa [creating] at left

end QueueMessage

namespace MessageManager

section Filling

variable [Protobuf] {manager next : MessageManager} {world after : World}

/-- What a recovery finds is in its store. -/
theorem parcelsIn_recover {reference : Nat} {store : QueueMessage}
    (there : manager.queueMsgs.object reference = some store)
    (completed : manager.recover reference world = .ok next after) :
    next.parcelsIn reference = store.mapper.parcelsOn world.disk := by
  rcases bind_eq_ok completed with ⟨done, middle, ran, rest⟩
  cases rest
  rcases onStore_cases ran with ⟨absent, _⟩ | ⟨found, changed, foundThere, filled, result⟩
  · cases absent.symm.trans there
  · cases foundThere.symm.trans there
    rcases bind_eq_ok filled with ⟨_, last, recovered, rest⟩
    cases rest
    have laterThere : done.2.queueMsgs.object reference = some changed := by
      rw [result, Registry.object_update, if_pos rfl, there]
      rfl
    rw [parcelsIn, Registry.part_of_object laterThere]
    exact QueueMessage.parcels_recovery recovered

/-- A queue without a store gets one that is filled with what its data file has. -/
theorem parcels_initQueueMessage {qname : Bytes} (missing : qname ∉ manager.queueMsgs.names)
    (completed : manager.initQueueMessage qname world = .ok next after) :
    next.parcels = manager.parcels +
      (MessageMapper.ofNames qname manager.basedir).parcelsOn world.disk := by
  rcases bind_eq_ok completed with ⟨admitted, middle, introduced, rest⟩
  have unfilled := parcels_introduce introduced
  rcases introduce_cases introduced with ⟨present, _⟩ | ⟨_, store, made, result⟩
  · exact absurd present missing
  · have admits : admitted.1 = some manager.queueMsgs.next := congrArg Prod.fst result
    simp only [admits] at rest
    have there : admitted.2.queueMsgs.object manager.queueMsgs.next = some store := by
      rw [result, Registry.object_register, if_pos rfl]
    have filled := parcels_recover rest
    rw [unfilled.2 _ admits, add_zero, unfilled.1, parcelsIn_recover there rest] at filled
    rw [filled, QueueMessage.parcelsOn_made made]

/-- Filling the store of a queue works on the files of this queue. -/
theorem confined_initQueueMessage (manager : MessageManager) (qname : Bytes) :
    Confined (MessageMapper.ofNames qname manager.basedir).files
      (manager.initQueueMessage qname) := by
  refine confined_bind_result ?_ fun admitted world after introduced => ?_
  · unfold introduce
    cases manager.queueMsgs.find qname with
    | some reference => exact confined_pure _
    | none =>
        refine confined_bind (confined_bind ?_ fun _ => confined_pure _) fun _ => confined_pure _
        exact confined_bind (confined_createFile (MessageMapper.datafile_mem _)) fun _ =>
          confined_pure _
  · rcases introduce_cases introduced with ⟨_, result, _⟩ | ⟨_, store, made, result⟩
    · rw [result]
      exact confined_pure _
    · cases QueueMessage.new_ok made
      rw [result]
      refine confined_bind (confined_onStore fun store there => ?_) fun _ => confined_pure _
      rw [Registry.object_register, if_pos rfl] at there
      cases there
      exact confined_bind (QueueMessage.confined_recovery _) fun _ => confined_pure _

/-- A start fills the store of each queue with what its own data file has. -/
theorem parcels_initAll {qnames : List Bytes} (nodup : qnames.Nodup)
    (missing : ∀ qname ∈ qnames, qname ∉ manager.queueMsgs.names)
    (completed : VirtualHost.initAll manager qnames world = .ok next after) :
    next.parcels = manager.parcels + (qnames.map fun qname =>
      (MessageMapper.ofNames qname manager.basedir).parcelsOn world.disk).sum := by
  induction qnames generalizing manager world with
  | nil =>
      cases completed
      exact (add_zero _).symm
  | cons qname rest inductionHypothesis =>
      rw [List.forall_mem_cons] at missing
      rw [List.nodup_cons] at nodup
      rw [VirtualHost.initAll, List.foldlM_cons] at completed
      rcases bind_eq_ok completed with ⟨first, middle, filled, onward⟩
      have basedir := (follows_initQueueMessage filled).basedir
      have missingLater : ∀ other ∈ rest, other ∉ first.queueMsgs.names := by
        intro other member present
        rcases (mem_initQueueMessage filled other).mp present with same | present
        · exact nodup.1 (same ▸ member)
        · exact missing.2 other member present
      -- the files of the queues that come later are as they were
      have kept : ∀ other ∈ rest,
          (MessageMapper.ofNames other first.basedir).parcelsOn middle.disk =
            (MessageMapper.ofNames other manager.basedir).parcelsOn world.disk := by
        intro other member
        have distinct : other ≠ qname := fun same => nodup.1 (same ▸ member)
        have frame := (confined_initQueueMessage manager qname).frame
          (MessageMapper.datafile_notMem distinct) world
        rw [filled] at frame
        rw [basedir]
        exact MessageMapper.parcelsOn_congr frame
      rw [inductionHypothesis nodup.2 missingLater onward, parcels_initQueueMessage missing.1 filled,
        List.map_congr_left kept, List.map_cons, List.sum_cons, add_assoc]

end Filling

end MessageManager

end ProtobufMq
