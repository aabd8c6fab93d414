import ProtobufMq.Server.MessageDurability

namespace ProtobufMq

open Foundation

namespace QueueMessage

/-!
# The counters of a queue

A queue decides by two numbers when its data file is worth a collection: the
number of records, `_total_count`, and the size of `_durable_msgs`, which
should be the number of live ones.  So `_durable_msgs` should know the ids of
the durable messages that the queue holds, and no other.

`recovery` puts every message of the file into `_durable_msgs`, and `remove`
takes only durable ones out again.  A record of another mode, which no insert
writes, stays there for good; nothing else gets in.
-/

/-- The messages that a queue holds, pending or waiting. -/
def held (queue : QueueMessage) : List MessagePtr :=
  queue.msgs ++ Dictionary.values queue.waitackMsgs

/-- The queue holds a durable message of the id. -/
def HoldsDurable (queue : QueueMessage) (id : Bytes) : Prop :=
  ∃ pointer ∈ queue.held, pointer.deliverMode = .durable ∧ pointer.id = id

/-- The ids of the pending messages that are not durable.  After `recovery`
these are the ids that `_durable_msgs` has for good. -/
def strays (queue : QueueMessage) : List Bytes :=
  (queue.msgs.filter (·.deliverMode ≠ .durable)).map (·.id)

/-- A message is inserted under an id that no container has. -/
def FreshId (site : Site) : Call → Prop
  | .insert properties uuid _ queueIsDurable =>
      let id := (composed properties uuid queueIsDurable).id
      id ∉ site.queue.held.map (·.id) ∧ id ∉ site.queue.durableMsgs
  | _ => True

/-- The containers and the counters agree. -/
structure Represented (strays : List Bytes) (site : Site) : Prop where
  /-- The waiting messages are found under their own ids. -/
  keyed : ∀ msgId pointer, site.queue.waitackMsgs.lookup msgId = some pointer → pointer.id = msgId
  apart : ∀ pointer ∈ site.queue.msgs, pointer.id ∉ site.queue.waitackMsgs
  stored : ∀ id, id ∈ site.queue.durableMsgs ↔ id ∈ strays ∨ site.queue.HoldsDurable id
  counted : Dictionary.size site.queue.durableMsgs ≤ site.queue.totalCount
  bounded : site.queue.totalCount ≤ 2000 + 2 * Dictionary.size site.queue.durableMsgs
  dead : site.queue.totalCount - Dictionary.size site.queue.durableMsgs ≤
    2000 + Dictionary.size site.queue.durableMsgs
  /-- What the test in `remove` divides by. -/
  divisor : ∀ msgId pointer, site.queue.waitackMsgs.lookup msgId = some pointer →
    pointer.deliverMode = .durable → site.queue.totalCount ≠ 0

/-- The invariant behind it. -/
structure Accounted (strays : List Bytes) (queue : QueueMessage) : Prop where
  keyed : ∀ msgId pointer, queue.waitackMsgs.lookup msgId = some pointer → pointer.id = msgId
  once : (queue.held.map (·.id)).Nodup
  foreign : ∀ id, queue.HoldsDurable id → id ∉ strays
  stored : ∀ id, id ∈ queue.durableMsgs ↔ id ∈ strays ∨ queue.HoldsDurable id
  counted : Dictionary.size queue.durableMsgs ≤ queue.totalCount
  bounded : queue.totalCount ≤ 2000 + 2 * Dictionary.size queue.durableMsgs

/-! ## What a call does to the counters -/

section Counters

/-- The queue after its first message was moved. -/
def moving (queue : QueueMessage) (pointer : MessagePtr) (rest : List MessagePtr) : QueueMessage :=
  { queue with
    msgs := rest
    waitackMsgs := Dictionary.insertNew pointer.id pointer queue.waitackMsgs }

variable {queue next : QueueMessage} {world after : World}

/-- A durable message that is inserted is counted and stored, another one is
neither. -/
theorem insert_counters {properties : Option BasecProperties} {uuid body : Bytes}
    {queueIsDurable accepted : Bool}
    (done : queue.insert properties uuid body queueIsDurable world = .ok (accepted, next) after) :
    next = queue ∨
    ∃ pointer : MessagePtr, pointer.id = (composed properties uuid queueIsDurable).id ∧
      ((pointer.deliverMode = .durable ∧ next = queue.storing pointer) ∨
        (pointer.deliverMode ≠ .durable ∧ next = queue.appending pointer)) := by
  rcases insert_ok done with ⟨_, same⟩ | ⟨_, pointer, _, properties, _, either⟩
  · exact Or.inl same
  · exact Or.inr ⟨pointer, congrArg BasecProperties.id properties, either⟩

end Counters

/-! ## The invariant -/

section Steps

variable {strays : List Bytes} {queue next : QueueMessage} {msgId : Bytes} {pointer : MessagePtr}

theorem mem_held : pointer ∈ queue.held ↔
    pointer ∈ queue.msgs ∨ ∃ key, queue.waitackMsgs.lookup key = some pointer := by
  rw [held, List.mem_append, Dictionary.mem_values]

/-- What is held, up to order, decides which durable messages are. -/
theorem HoldsDurable.congr (same : queue.held.Perm next.held) (id : Bytes) :
    queue.HoldsDurable id ↔ next.HoldsDurable id := by
  unfold HoldsDurable
  simp only [same.mem_iff]

/-- One more message is held. -/
theorem HoldsDurable.cons_iff (same : next.held.Perm (pointer :: queue.held)) (id : Bytes) :
    next.HoldsDurable id ↔
      (pointer.deliverMode = .durable ∧ pointer.id = id) ∨ queue.HoldsDurable id := by
  unfold HoldsDurable
  simp only [same.mem_iff, List.exists_mem_cons_iff]

/-- The id at the head of the pending list does not wait. -/
theorem Accounted.head_notMem (accounted : Accounted strays queue) {rest : List MessagePtr}
    (msgs : queue.msgs = pointer :: rest) : pointer.id ∉ queue.waitackMsgs := by
  intro present
  rcases Dictionary.mem_iff_lookup.mp present with ⟨waiting, found⟩
  have once := accounted.once
  rw [held, msgs, List.cons_append, List.map_cons, List.nodup_cons] at once
  refine once.1 (List.mem_map.mpr ⟨waiting, List.mem_append_right _ ?_, accounted.keyed _ _ found⟩)
  exact Dictionary.mem_values.mpr ⟨pointer.id, found⟩

theorem Accounted.apart (accounted : Accounted strays queue) (pending : pointer ∈ queue.msgs) :
    pointer.id ∉ queue.waitackMsgs := by
  intro present
  rcases Dictionary.mem_iff_lookup.mp present with ⟨waiting, found⟩
  have once := accounted.once
  rw [held, List.map_append, List.nodup_append] at once
  exact once.2.2 _ (List.mem_map_of_mem pending) _
    (List.mem_map_of_mem (Dictionary.mem_values.mpr ⟨pointer.id, found⟩))
    (accounted.keyed _ _ found).symm

theorem Accounted.represented (accounted : Accounted strays queue) (disk : Disk) :
    Represented strays ⟨queue, disk⟩ where
  keyed := accounted.keyed
  apart _ pending := accounted.apart pending
  stored := accounted.stored
  counted := accounted.counted
  bounded := accounted.bounded
  dead := by
    have bounded := accounted.bounded
    dsimp only
    omega
  divisor msgId pointer found durable := by
    have known : msgId ∈ queue.durableMsgs := (accounted.stored msgId).mpr
      (Or.inr ⟨pointer, mem_held.mpr (Or.inr ⟨msgId, found⟩), durable, accounted.keyed _ _ found⟩)
    rcases Dictionary.mem_iff_lookup.mp known with ⟨stored, lookup⟩
    have positive := Dictionary.size_erase_of_lookup lookup
    have counted := accounted.counted
    dsimp only
    omega

theorem held_appending (queue : QueueMessage) (pointer : MessagePtr) :
    (queue.appending pointer).held.Perm (pointer :: queue.held) := by
  rw [held, appending, List.append_assoc]
  exact List.perm_middle

theorem held_moving {rest : List MessagePtr} (msgs : queue.msgs = pointer :: rest)
    (absent : pointer.id ∉ queue.waitackMsgs) : queue.held.Perm (queue.moving pointer rest).held := by
  rw [held, held, moving, Dictionary.insertNew_of_notMem pointer absent,
    Dictionary.values_insert_of_notMem pointer absent, msgs]
  exact List.perm_middle.symm

theorem held_releasing (found : queue.waitackMsgs.lookup msgId = some pointer) :
    queue.held.Perm (pointer :: (queue.releasing msgId).held) := by
  refine ((Dictionary.values_perm_cons_erase found).append_left queue.msgs).trans ?_
  exact List.perm_middle

/-- A message that is not durable is appended. -/
theorem accounted_appending (accounted : Accounted strays queue)
    (unheld : pointer.id ∉ queue.held.map (·.id)) (transient : pointer.deliverMode ≠ .durable) :
    Accounted strays (queue.appending pointer) := by
  have appended := held_appending queue pointer
  have unchanged : ∀ id, (queue.appending pointer).HoldsDurable id ↔ queue.HoldsDurable id := by
    intro id
    rw [HoldsDurable.cons_iff appended]
    exact or_iff_right fun both => transient both.1
  refine ⟨accounted.keyed, ?_, ?_, ?_, accounted.counted, accounted.bounded⟩
  · exact (appended.map _).nodup_iff.mpr (List.nodup_cons.mpr ⟨unheld, accounted.once⟩)
  · exact fun id holds => accounted.foreign id ((unchanged id).mp holds)
  · exact fun id => (accounted.stored id).trans (or_congr_right (unchanged id).symm)

/-- A durable message is appended, stored and counted. -/
theorem accounted_storing (accounted : Accounted strays queue)
    (unheld : pointer.id ∉ queue.held.map (·.id)) (unstored : pointer.id ∉ queue.durableMsgs)
    (durable : pointer.deliverMode = .durable) : Accounted strays (queue.storing pointer) := by
  have appended : (queue.storing pointer).held.Perm (pointer :: queue.held) :=
    held_appending queue pointer
  have size : Dictionary.size (queue.storing pointer).durableMsgs =
      Dictionary.size queue.durableMsgs + 1 := by
    rw [storing, Dictionary.insertNew_of_notMem pointer unstored,
      Dictionary.size_insert_of_notMem pointer unstored]
  have total : (queue.storing pointer).totalCount = queue.totalCount + 1 := rfl
  refine ⟨accounted.keyed, ?_, ?_, ?_, ?_, ?_⟩
  · exact (appended.map _).nodup_iff.mpr (List.nodup_cons.mpr ⟨unheld, accounted.once⟩)
  · intro id holds stray
    rcases (HoldsDurable.cons_iff appended id).mp holds with ⟨_, rfl⟩ | old
    · exact unstored ((accounted.stored pointer.id).mpr (Or.inl stray))
    · exact accounted.foreign id old stray
  · intro id
    rw [HoldsDurable.cons_iff appended, storing, Dictionary.mem_insertNew, accounted.stored]
    constructor
    · rintro (rfl | stray | old)
      · exact Or.inr (Or.inl ⟨durable, rfl⟩)
      · exact Or.inl stray
      · exact Or.inr (Or.inr old)
    · rintro (stray | ⟨_, rfl⟩ | old)
      · exact Or.inr (Or.inl stray)
      · exact Or.inl rfl
      · exact Or.inr (Or.inr old)
  · rw [size, total]
    exact Nat.succ_le_succ accounted.counted
  · have bounded := accounted.bounded
    rw [size, total]
    omega

/-- The first pending message starts to wait. -/
theorem accounted_moving (accounted : Accounted strays queue) {rest : List MessagePtr}
    (msgs : queue.msgs = pointer :: rest) : Accounted strays (queue.moving pointer rest) := by
  have absent := accounted.head_notMem msgs
  have moved := held_moving msgs absent
  refine ⟨?_, (moved.map _).nodup_iff.mp accounted.once, ?_, ?_, accounted.counted,
    accounted.bounded⟩
  · intro msgId waiting found
    rw [moving, Dictionary.lookup_insertNew] at found
    by_cases same : msgId = pointer.id
    · rw [if_pos same, AList.lookup_eq_none.mpr absent, Option.getD_none] at found
      cases found
      exact same.symm
    · rw [if_neg same] at found
      exact accounted.keyed msgId waiting found
  · exact fun id holds => accounted.foreign id ((HoldsDurable.congr moved id).mpr holds)
  · exact fun id => (accounted.stored id).trans (or_congr_right (HoldsDurable.congr moved id))

theorem keyed_releasing (accounted : Accounted strays queue) :
    ∀ key waiting, (queue.releasing msgId).waitackMsgs.lookup key = some waiting →
      waiting.id = key := by
  intro key waiting found
  rw [releasing, Dictionary.lookup_erase] at found
  by_cases same : key = msgId
  · rw [if_pos same] at found
    cases found
  · rw [if_neg same] at found
    exact accounted.keyed key waiting found

theorem once_releasing (accounted : Accounted strays queue)
    (found : queue.waitackMsgs.lookup msgId = some pointer) :
    pointer.id ∉ (queue.releasing msgId).held.map (·.id) ∧
      ((queue.releasing msgId).held.map (·.id)).Nodup := by
  have once := ((held_releasing found).map MessagePtr.id).nodup_iff.mp accounted.once
  exact List.nodup_cons.mp once

/-- A message that is not durable is acknowledged. -/
theorem accounted_releasing (accounted : Accounted strays queue)
    (found : queue.waitackMsgs.lookup msgId = some pointer)
    (transient : pointer.deliverMode ≠ .durable) : Accounted strays (queue.releasing msgId) := by
  have unchanged : ∀ id, queue.HoldsDurable id ↔ (queue.releasing msgId).HoldsDurable id := by
    intro id
    rw [HoldsDurable.cons_iff (held_releasing found)]
    exact or_iff_right fun both => transient both.1
  refine ⟨keyed_releasing accounted, (once_releasing accounted found).2, ?_, ?_, accounted.counted,
    accounted.bounded⟩
  · exact fun id holds => accounted.foreign id ((unchanged id).mpr holds)
  · exact fun id => (accounted.stored id).trans (or_congr_right (unchanged id))

/-- After the test the records are again at most twice the live ones, if there
are more than 2000. -/
theorem le_of_not_collectionDue {totalCount durableCount : Nat}
    (content : ¬ CollectionDue totalCount durableCount) : totalCount ≤ 2000 + 2 * durableCount := by
  by_cases many : 2000 < totalCount
  · have share : 5 ≤ durableCount * 10 / totalCount :=
      Nat.le_of_not_lt fun few => content ⟨many, few⟩
    have half := (Nat.le_div_iff_mul_le (Nat.zero_lt_of_lt many)).mp share
    omega
  · omega

/-- A durable message is acknowledged. -/
theorem accounted_striking (accounted : Accounted strays queue)
    (found : queue.waitackMsgs.lookup msgId = some pointer)
    (durable : pointer.deliverMode = .durable) :
    Accounted strays (queue.striking msgId
      (if CollectionDue queue.totalCount (Dictionary.size (queue.durableMsgs.erase msgId)) then
        Dictionary.size (queue.durableMsgs.erase msgId)
      else queue.totalCount)) := by
  have released := held_releasing found
  have own := accounted.keyed msgId pointer found
  have gone := (once_releasing accounted found).1
  have unstray : msgId ∉ strays :=
    accounted.foreign msgId ((HoldsDurable.cons_iff released msgId).mpr (Or.inl ⟨durable, own⟩))
  have known : msgId ∈ queue.durableMsgs := (accounted.stored msgId).mpr
    (Or.inr ((HoldsDurable.cons_iff released msgId).mpr (Or.inl ⟨durable, own⟩)))
  rcases Dictionary.mem_iff_lookup.mp known with ⟨stored, lookup⟩
  have fewer := Dictionary.size_erase_of_lookup lookup
  refine ⟨keyed_releasing accounted, (once_releasing accounted found).2, ?_, ?_, ?_, ?_⟩
  · exact fun id holds => accounted.foreign id
      ((HoldsDurable.cons_iff released id).mpr (Or.inr holds))
  · intro id
    change id ∈ queue.durableMsgs.erase msgId ↔ id ∈ strays ∨ (queue.releasing msgId).HoldsDurable id
    rw [AList.mem_erase, accounted.stored, HoldsDurable.cons_iff released]
    constructor
    · rintro ⟨other, stray | ⟨_, same⟩ | still⟩
      · exact Or.inl stray
      · exact absurd (same.symm.trans own) other
      · exact Or.inr still
    · rintro (stray | ⟨still, holds, mode, same⟩)
      · exact ⟨fun equal => unstray (equal ▸ stray), Or.inl stray⟩
      · refine ⟨fun equal => gone ?_, Or.inr (Or.inr ⟨still, holds, mode, same⟩)⟩
        exact List.mem_map.mpr ⟨still, holds, same.trans (equal.trans own.symm)⟩
  · have counted := accounted.counted
    change Dictionary.size (queue.durableMsgs.erase msgId) ≤ ite _ _ _
    by_cases due : CollectionDue queue.totalCount (Dictionary.size (queue.durableMsgs.erase msgId))
    · rw [if_pos due]
    · rw [if_neg due]
      omega
  · change ite _ _ _ ≤ 2000 + 2 * Dictionary.size (queue.durableMsgs.erase msgId)
    by_cases due : CollectionDue queue.totalCount (Dictionary.size (queue.durableMsgs.erase msgId))
    · rw [if_pos due]
      omega
    · rw [if_neg due]
      exact le_of_not_collectionDue due

theorem accounted_step [Protobuf] {site after : Site} {call : Call}
    (accounted : Accounted strays site.queue) (fresh : FreshId site call)
    (stepped : perform site call = .ok after) : Accounted strays after.queue := by
  cases call with
  | insert properties uuid body queueIsDurable =>
      rcases except_map_eq_ok stepped with ⟨⟨⟨accepted, queue⟩, disk⟩, called, rfl⟩
      rcases calmly_eq_ok called with ⟨world, inserted, _⟩
      rcases insert_counters inserted with same | ⟨pointer, id, ⟨durable, same⟩ | ⟨transient, same⟩⟩
      all_goals
        change queue = _ at same
        subst same
      · exact accounted
      · exact accounted_storing accounted (id ▸ fresh.1) (id ▸ fresh.2) durable
      · exact accounted_appending accounted (id ▸ fresh.1) transient
  | front =>
      cases stepped
      change Accounted strays site.queue.front.2
      cases msgs : site.queue.msgs with
      | nil =>
          rw [front, msgs]
          exact accounted
      | cons pointer rest =>
          rw [front, msgs]
          exact accounted_moving accounted msgs
  | remove msgId =>
      rcases except_map_eq_ok stepped with ⟨⟨queue, disk⟩, called, rfl⟩
      rcases calmly_eq_ok called with ⟨world, removed, _⟩
      rcases remove_ok removed with ⟨pointer, found, ⟨transient, same⟩ | ⟨durable, same⟩⟩
      all_goals
        change queue = _ at same
        subst same
      · exact accounted_releasing accounted found transient
      · exact accounted_striking accounted found durable

end Steps

/-! ## After recovery -/

/-- The ids of the messages that were put into a dictionary one by one. -/
theorem mem_foldl_insertNew (pointers : List MessagePtr) (dictionary : Dictionary Bytes MessagePtr)
    (id : Bytes) :
    id ∈ pointers.foldl (fun stored pointer => Dictionary.insertNew pointer.id pointer stored)
        dictionary ↔ id ∈ dictionary ∨ ∃ pointer ∈ pointers, pointer.id = id := by
  induction pointers generalizing dictionary with
  | nil => simp
  | cons pointer rest inductionHypothesis =>
      rw [List.foldl_cons, inductionHypothesis, Dictionary.mem_insertNew, List.exists_mem_cons_iff]
      constructor
      · rintro ((same | old) | later)
        · exact Or.inr (Or.inl same.symm)
        · exact Or.inl old
        · exact Or.inr (Or.inr later)
      · rintro (old | same | later)
        · exact Or.inl (Or.inr old)
        · exact Or.inl (Or.inl same.symm)
        · exact Or.inr later

/-- A recovered queue has stored and counted its messages, and none waits. -/
structure Recovered (queue : QueueMessage) : Prop where
  idle : queue.waitackMsgs = ∅
  stored : queue.durableMsgs = queue.msgs.foldl
    (fun stored pointer => Dictionary.insertNew pointer.id pointer stored) ∅
  counted : queue.totalCount = Dictionary.size queue.durableMsgs

theorem restart_recovered [Protobuf] {qname basedir : Bytes} {disk after : Disk}
    {recovered : QueueMessage} (restarted : restart qname basedir disk = .ok (recovered, after)) :
    Recovered recovered := by
  rcases calmly_eq_ok restarted with ⟨world, completed, _⟩
  rcases bind_eq_ok completed with ⟨queue, middle, created, recovery⟩
  rcases bind_eq_ok created with ⟨mapper, first, _, rest⟩
  cases rest
  rcases bind_eq_ok recovery with ⟨messages, last, _, rest⟩
  cases rest
  exact ⟨rfl, rfl, rfl⟩

/-- A recovered queue is accounted for. -/
theorem Recovered.accounted {queue : QueueMessage} (recovered : Recovered queue)
    (distinct : (queue.msgs.map (·.id)).Nodup) : Accounted queue.strays queue := by
  have held : queue.held = queue.msgs := by
    rw [held, recovered.idle]
    exact List.append_nil queue.msgs
  have stray_iff : ∀ id, id ∈ queue.strays ↔
      ∃ pointer ∈ queue.msgs, pointer.deliverMode ≠ .durable ∧ pointer.id = id := by
    intro id
    simp only [strays, List.mem_map, List.mem_filter, decide_eq_true_eq, and_assoc]
  refine ⟨?_, ?_, ?_, ?_, ?_, ?_⟩
  · intro msgId pointer found
    rw [recovered.idle] at found
    cases found
  · rw [held]
    exact distinct
  · rintro id ⟨pointer, holds, durable, same⟩ stray
    rcases (stray_iff id).mp stray with ⟨other, member, transient, equal⟩
    rw [held] at holds
    have one := List.inj_on_of_nodup_map distinct holds member (same.trans equal.symm)
    exact transient (one ▸ durable)
  · intro id
    rw [recovered.stored, mem_foldl_insertNew, stray_iff, HoldsDurable, held]
    constructor
    · rintro (nothing | ⟨pointer, member, same⟩)
      · exact absurd nothing (AList.notMem_empty id)
      · by_cases durable : pointer.deliverMode = .durable
        · exact Or.inr ⟨pointer, member, durable, same⟩
        · exact Or.inl ⟨pointer, member, durable, same⟩
    · rintro (⟨pointer, member, _, same⟩ | ⟨pointer, member, _, same⟩)
      · exact Or.inr ⟨pointer, member, same⟩
      · exact Or.inr ⟨pointer, member, same⟩
  · exact Nat.le_of_eq recovered.counted.symm
  · rw [recovered.counted]
    omega

/-- A file with one live record, of a message that is not durable. -/
def foreignDisk : Disk :=
  onDisk (frame sizeOfSize
    (stamped { id := ascii "a", deliverMode := .undurable } (ascii "x")).serialize)

end QueueMessage

end ProtobufMq
