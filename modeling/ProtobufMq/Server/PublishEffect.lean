import ProtobufMq.Server.Publish

namespace ProtobufMq

open Foundation

/-!
# What a publish does to the queues

An insertion that is sure to succeed has one result, which depends on the
queue, its store and its data file alone.  Two such insertions into different
queues touch different objects.  Where they also touch different files they
commute, and the loop over the bindings comes to the same whatever order the map
is traversed in.  What became of one queue can then be read off its own
insertion.
-/

namespace QueueMessage

/-- The payload of an inserted message. -/
def payloadFor (properties : BasecProperties) (body : Bytes) : Payload :=
  if properties.deliverMode = .durable then
    { basecProperties := some properties, body := body, valid := validMark }
  else { basecProperties := some properties, body := body }

/-- An inserted message, with its place in a data file that had the given size. -/
def messageFor (properties : BasecProperties) (body : Bytes) (size : Nat) : Message :=
  if properties.deliverMode = .durable then
    MessageMapper.placedAt size { payload := payloadFor properties body }
  else { payload := payloadFor properties body }

/-- The queue after an insertion. -/
def entered (queue : QueueMessage) (properties : BasecProperties) (body : Bytes) (size : Nat) :
    QueueMessage :=
  let pointer : MessagePtr := ⟨queue.allocated, messageFor properties body size⟩
  { queue with
    totalCount :=
      if properties.deliverMode = .durable then queue.totalCount + 1 else queue.totalCount
    durableMsgs :=
      if properties.deliverMode = .durable then
        Dictionary.insertNew properties.id pointer queue.durableMsgs
      else queue.durableMsgs
    msgs := queue.msgs ++ [pointer]
    allocated := queue.allocated + 1 }

/-- The data file after an insertion. -/
def recorded (properties : BasecProperties) (body : Bytes) (content : Option Bytes) :
    Option Bytes :=
  if properties.deliverMode = .durable then
    content.map (· ++ frame sizeOfSize (payloadFor properties body).serialize)
  else content

@[simp] theorem payloadFor_properties (properties : BasecProperties) (body : Bytes) :
    (payloadFor properties body).properties = properties := by
  unfold payloadFor
  split <;> rfl

@[simp] theorem payloadFor_body (properties : BasecProperties) (body : Bytes) :
    (payloadFor properties body).body = body := by
  unfold payloadFor
  split <;> rfl

@[simp] theorem messageFor_payload (properties : BasecProperties) (body : Bytes) (size : Nat) :
    (messageFor properties body size).payload = payloadFor properties body := by
  unfold messageFor
  split <;> rfl

/-- An insertion with its file and its writes in order. -/
theorem insert_entered {queue : QueueMessage} {properties : Option BasecProperties}
    {uuid body : Bytes} {queueIsDurable : Bool} {disk : Disk} {script : List Outcome}
    (file : (composed properties uuid queueIsDurable).deliverMode = .durable →
      ∃ content, disk queue.mapper.datafile = some content)
    (calm : Undisturbed
      (if (composed properties uuid queueIsDurable).deliverMode = .durable then 2 else 0) script) :
    queue.insert properties uuid body queueIsDurable ⟨disk, script⟩ =
      .ok (true, queue.entered (composed properties uuid queueIsDurable) body
          ((disk queue.mapper.datafile).getD []).length)
        ⟨Function.update disk queue.mapper.datafile
          (recorded (composed properties uuid queueIsDurable) body (disk queue.mapper.datafile)),
          script.drop (if (composed properties uuid queueIsDurable).deliverMode = .durable
            then 2 else 0)⟩ := by
  by_cases durable : (composed properties uuid queueIsDurable).deliverMode = .durable
  · rcases file durable with ⟨content, stored⟩
    rw [if_pos durable] at calm ⊢
    have inserted := MessageMapper.insertInto_done stored
      { payload := payloadFor (composed properties uuid queueIsDurable) body } calm
    simp only [payloadFor, durable, if_true] at inserted
    simp only [insert, entered, recorded, messageFor, payloadFor, durable, if_true, stored,
      Option.getD_some, Option.map_some]
    exact bind_ok inserted
  · simp only [insert, entered, recorded, messageFor, payloadFor, durable, if_false,
      Function.update_eq_self, List.drop_zero]
    rfl

theorem recorded_transient {properties : BasecProperties}
    (transient : properties.deliverMode ≠ .durable) (body : Bytes) (content : Option Bytes) :
    recorded properties body content = content :=
  if_neg transient

@[simp] theorem entered_mapper (queue : QueueMessage) (properties : BasecProperties) (body : Bytes)
    (size : Nat) : (queue.entered properties body size).mapper = queue.mapper := rfl

/-- An insertion leaves a file that is there in place, and not shorter. -/
theorem recorded_grows (properties : BasecProperties) (body content : Bytes) :
    ∃ grown, recorded properties body (some content) = some grown ∧
      content.length + (if properties.deliverMode = .durable then
        (frame sizeOfSize (payloadFor properties body).serialize).length else 0) =
          grown.length := by
  unfold recorded
  by_cases durable : properties.deliverMode = .durable
  · rw [if_pos durable, if_pos durable]
    exact ⟨_, rfl, List.length_append.symm⟩
  · rw [if_neg durable, if_neg durable]
    exact ⟨_, rfl, rfl⟩

end QueueMessage

/-! ## One queue after another -/

namespace Channel.Publication

variable (publication : Publication) (qmptr : MsgQueueManager)

/-- What an insertion into a queue makes of the message stores and the disk. -/
def enter (state : MessageManager × Disk) (qname : Bytes) : MessageManager × Disk :=
  match qmptr.selectQueue qname, state.1.queueMsgs.find qname with
  | some queue, some reference =>
      match state.1.queueMsgs.object reference with
      | some store =>
          let properties := publication.propertiesIn qname queue
          let content := state.2 store.mapper.datafile
          let next := store.entered properties publication.body (content.getD []).length
          ({ state.1 with queueMsgs := state.1.queueMsgs.update reference next },
            Function.update state.2 store.mapper.datafile
              (QueueMessage.recorded properties publication.body content))
      | none => state
  | _, _ => state

/-- The message is durable in the queue of that name. -/
def Durably (qname : Bytes) : Prop :=
  ∃ queue, qmptr.selectQueue qname = some queue ∧
    (publication.propertiesIn qname queue).deliverMode = .durable

/-- No queue of the names in which the message is durable has its data file
together with another queue. -/
def Unshared (manager : MessageManager) (names : List Bytes) : Prop :=
  ∀ qname ∈ names, publication.Durably qmptr qname → ∀ other store otherStore, other ≠ qname →
    manager.queueMsgs.select qname = some store →
    manager.queueMsgs.select other = some otherStore →
    store.mapper.datafile ≠ otherStore.mapper.datafile

variable {publication qmptr} {state : MessageManager × Disk} {qname : Bytes}

theorem durableIn_iff {host : VirtualHost} :
    publication.durableIn host qname = true ↔ publication.Durably host.qmptr qname := by
  unfold durableIn Durably
  cases host.qmptr.selectQueue qname with
  | none =>
      constructor
      · intro impossible
        cases impossible
      · rintro ⟨queue, impossible, _⟩
        cases impossible
  | some queue =>
      simp only [decide_eq_true_eq, Option.some.injEq, exists_eq_left']

theorem enter_of_select {queue : MsgQueue} {reference : Nat} {store : QueueMessage}
    (selected : qmptr.selectQueue qname = some queue)
    (found : state.1.queueMsgs.find qname = some reference)
    (there : state.1.queueMsgs.object reference = some store) :
    publication.enter qmptr state qname =
      ({ state.1 with
          queueMsgs := state.1.queueMsgs.update reference
            (store.entered (publication.propertiesIn qname queue) publication.body
              ((state.2 store.mapper.datafile).getD []).length) },
        Function.update state.2 store.mapper.datafile
          (QueueMessage.recorded (publication.propertiesIn qname queue) publication.body
            (state.2 store.mapper.datafile))) := by
  simp only [enter, selected, found, there]

theorem enter_of_missing
    (missing : qmptr.selectQueue qname = none ∨ state.1.queueMsgs.find qname = none) :
    publication.enter qmptr state qname = state := by
  unfold enter
  rcases missing with noQueue | noStore
  · rw [noQueue]
  · rw [noStore]
    cases qmptr.selectQueue qname <;> rfl

/-- A queue is there and has a store, or an insertion does nothing. -/
theorem selected_cases (qmptr : MsgQueueManager) (state : MessageManager × Disk) (qname : Bytes) :
    (qmptr.selectQueue qname = none ∨ state.1.queueMsgs.find qname = none) ∨
    (∃ queue reference store, qmptr.selectQueue qname = some queue ∧
      state.1.queueMsgs.find qname = some reference ∧
      state.1.queueMsgs.object reference = some store) := by
  cases selected : qmptr.selectQueue qname with
  | none => exact Or.inl (Or.inl rfl)
  | some queue =>
      cases found : state.1.queueMsgs.find qname with
      | none => exact Or.inl (Or.inr rfl)
      | some reference =>
          rcases Registry.object_of_find found with ⟨store, there⟩
          exact Or.inr ⟨queue, reference, store, rfl, rfl, there⟩

/-- An insertion changes its own store, and its own file if the message is
durable there. -/
theorem enter_frame (publication : Publication) (qmptr : MsgQueueManager)
    (state : MessageManager × Disk) (qname : Bytes) :
    (∀ other, other ≠ qname → (publication.enter qmptr state qname).1.queueMsgs.select other =
        state.1.queueMsgs.select other) ∧
      ∀ file, (publication.Durably qmptr qname → ∀ store,
          state.1.queueMsgs.select qname = some store → file ≠ store.mapper.datafile) →
        (publication.enter qmptr state qname).2 file = state.2 file := by
  rcases selected_cases qmptr state qname with missing |
    ⟨queue, reference, store, selected, found, there⟩
  · rw [enter_of_missing missing]
    exact ⟨fun _ _ => rfl, fun _ _ => rfl⟩
  · rw [enter_of_select selected found there]
    refine ⟨fun other distinct => (Registry.select_update found _ other).trans (if_neg distinct),
      fun file distinct => ?_⟩
    by_cases durable : (publication.propertiesIn qname queue).deliverMode = .durable
    · exact Function.update_of_ne (distinct ⟨queue, selected, durable⟩ store
        ((Registry.select_of_find found).trans there)) _ _
    · rw [QueueMessage.recorded_transient durable, Function.update_eq_self]

/-- Every queue keeps its store, and every store its files. -/
theorem enter_mapper (publication : Publication) (qmptr : MsgQueueManager)
    (state : MessageManager × Disk) (qname other : Bytes) :
    (publication.enter qmptr state qname).1.queueMsgs.find other =
        state.1.queueMsgs.find other ∧
      ((publication.enter qmptr state qname).1.queueMsgs.select other).map (·.mapper) =
        (state.1.queueMsgs.select other).map (·.mapper) := by
  rcases selected_cases qmptr state qname with missing |
    ⟨queue, reference, store, selected, found, there⟩
  · rw [enter_of_missing missing]
    exact ⟨rfl, rfl⟩
  · rw [enter_of_select selected found there]
    refine ⟨rfl, ?_⟩
    by_cases same : other = qname
    · rw [same, Registry.select_update found, if_pos rfl, Registry.select_of_find found, there]
      rfl
    · rw [Registry.select_update found, if_neg same]

/-- So a store that is there afterwards was there before, with the same files. -/
theorem exists_before {manager : MessageManager} {store : QueueMessage}
    (mapper : (state.1.queueMsgs.select qname).map (·.mapper) =
      (manager.queueMsgs.select qname).map (·.mapper))
    (there : state.1.queueMsgs.select qname = some store) :
    ∃ before, manager.queueMsgs.select qname = some before ∧ before.mapper = store.mapper := by
  rw [there] at mapper
  exact Option.map_eq_some_iff.mp mapper.symm

theorem unshared_enter {names : List Bytes} (unshared : publication.Unshared qmptr state.1 names)
    (name : Bytes) : publication.Unshared qmptr (publication.enter qmptr state name).1 names := by
  intro qname member durable other store otherStore distinct there otherThere
  rcases exists_before (publication.enter_mapper qmptr state name qname).2 there with
    ⟨before, beforeThere, same⟩
  rcases exists_before (publication.enter_mapper qmptr state name other).2 otherThere with
    ⟨otherBefore, otherBeforeThere, otherSame⟩
  rw [← same, ← otherSame]
  exact unshared qname member durable other before otherBefore distinct beforeThere
    otherBeforeThere

theorem unshared_of_subset {manager : MessageManager} {names others : List Bytes}
    (unshared : publication.Unshared qmptr manager names) (subset : others ⊆ names) :
    publication.Unshared qmptr manager others :=
  fun qname member => unshared qname (subset member)

/-- Insertions into two queues may be made in either order, if the message is
durable in neither or their files are different. -/
theorem enter_comm (publication : Publication) (qmptr : MsgQueueManager)
    (state : MessageManager × Disk) {first second : Bytes} (distinct : first ≠ second)
    (unshared : publication.Unshared qmptr state.1 [first, second]) :
    publication.enter qmptr (publication.enter qmptr state first) second =
      publication.enter qmptr (publication.enter qmptr state second) first := by
  have nothing : ∀ qname other, (qmptr.selectQueue qname = none ∨
      state.1.queueMsgs.find qname = none) →
      publication.enter qmptr (publication.enter qmptr state other) qname =
        publication.enter qmptr state other := by
    intro qname other missing
    apply enter_of_missing
    rw [(publication.enter_mapper qmptr state other qname).1]
    exact missing
  rcases selected_cases qmptr state first with missing |
    ⟨queue, reference, store, selected, found, there⟩
  · rw [nothing first second missing, enter_of_missing missing]
  rcases selected_cases qmptr state second with missing |
    ⟨otherQueue, other, otherStore, otherSelected, otherFound, otherThere⟩
  · rw [nothing second first missing, enter_of_missing missing]
  have apart : reference ≠ other := by
    intro same
    exact distinct (state.1.queueMsgs.single first second reference found (same ▸ otherFound))
  have otherStays : ∀ value, (state.1.queueMsgs.update reference value).object other =
      some otherStore := by
    intro value
    rw [Registry.object_update, if_neg (Ne.symm apart), otherThere]
  have stays : ∀ value, (state.1.queueMsgs.update other value).object reference = some store := by
    intro value
    rw [Registry.object_update, if_neg apart, there]
  rw [enter_of_select selected found there, enter_of_select otherSelected otherFound otherThere,
    @enter_of_select publication qmptr
      ({ state.1 with queueMsgs := state.1.queueMsgs.update reference _ }, _) second otherQueue
      other otherStore otherSelected otherFound (otherStays _),
    @enter_of_select publication qmptr
      ({ state.1 with queueMsgs := state.1.queueMsgs.update other _ }, _) first queue
      reference store selected found (stays _)]
  by_cases shared : store.mapper.datafile = otherStore.mapper.datafile
  · -- neither insertion writes to the file
    have here := (Registry.select_of_find found).trans there
    have otherHere := (Registry.select_of_find otherFound).trans otherThere
    have transient : (publication.propertiesIn first queue).deliverMode ≠ .durable := fun durable =>
      unshared first List.mem_cons_self ⟨queue, selected, durable⟩ second store otherStore
        distinct.symm here otherHere shared
    have otherTransient : (publication.propertiesIn second otherQueue).deliverMode ≠ .durable :=
      fun durable => unshared second (List.mem_cons_of_mem _ List.mem_cons_self)
        ⟨otherQueue, otherSelected, durable⟩ first otherStore store distinct otherHere here
        shared.symm
    simp only [QueueMessage.recorded_transient transient,
      QueueMessage.recorded_transient otherTransient, Function.update_eq_self,
      Registry.update_comm _ apart]
  · simp only [Function.update_of_ne shared, Function.update_of_ne (Ne.symm shared),
      Registry.update_comm _ apart, Function.update_comm shared]

/-- What the loop comes to does not depend on the order of the queues, if no
file is shared. -/
theorem foldl_enter_perm (publication : Publication) (qmptr : MsgQueueManager)
    {names others : List Bytes} (perm : names.Perm others) (state : MessageManager × Disk)
    (unshared : publication.Unshared qmptr state.1 names) :
    names.foldl (publication.enter qmptr) state = others.foldl (publication.enter qmptr) state := by
  induction perm generalizing state with
  | nil => rfl
  | cons name perm inductionHypothesis =>
      rw [List.foldl_cons, List.foldl_cons]
      exact inductionHypothesis _
        (unshared_enter (unshared_of_subset unshared (List.subset_cons_self _ _)) name)
  | swap first second rest =>
      simp only [List.foldl_cons]
      by_cases same : second = first
      · rw [same]
      · have both : [second, first] ⊆ second :: first :: rest := by
          intro name member
          simp only [List.mem_cons, List.not_mem_nil, or_false] at member ⊢
          exact member.imp_right Or.inl
        rw [publication.enter_comm qmptr state same (unshared_of_subset unshared both)]
  | trans one two first second =>
      exact (first state unshared).trans
        (second state (unshared_of_subset unshared fun name member => one.mem_iff.mpr member))

/-- The loop leaves the queues that are not in it alone, and the files of others
than those in which the message is durable. -/
theorem foldl_enter_frame (publication : Publication) (qmptr : MsgQueueManager)
    (names : List Bytes) (state : MessageManager × Disk) :
    (∀ other, other ∉ names →
        (names.foldl (publication.enter qmptr) state).1.queueMsgs.select other =
          state.1.queueMsgs.select other) ∧
      ∀ file, (∀ qname ∈ names, publication.Durably qmptr qname → ∀ store,
          state.1.queueMsgs.select qname = some store → file ≠ store.mapper.datafile) →
        (names.foldl (publication.enter qmptr) state).2 file = state.2 file := by
  induction names generalizing state with
  | nil => exact ⟨fun _ _ => rfl, fun _ _ => rfl⟩
  | cons qname rest inductionHypothesis =>
      rw [List.foldl_cons]
      rcases publication.enter_frame qmptr state qname with ⟨stores, files⟩
      rcases inductionHypothesis (publication.enter qmptr state qname) with
        ⟨laterStores, laterFiles⟩
      refine ⟨fun other absent => ?_, fun file distinct => ?_⟩
      · rw [List.mem_cons, not_or] at absent
        exact (laterStores other absent.2).trans (stores other absent.1)
      · rw [List.forall_mem_cons] at distinct
        refine (laterFiles file fun name member durable store there => ?_).trans
          (files file distinct.1)
        rcases exists_before (publication.enter_mapper qmptr state qname name).2 there with
          ⟨before, beforeThere, same⟩
        rw [← same]
        exact distinct.2 name member durable before beforeThere

theorem unshared_foldl {others : List Bytes} (unshared : publication.Unshared qmptr state.1 others)
    (names : List Bytes) :
    publication.Unshared qmptr (names.foldl (publication.enter qmptr) state).1 others := by
  induction names generalizing state with
  | nil => exact unshared
  | cons name rest inductionHypothesis => exact inductionHypothesis (unshared_enter unshared name)

/-- A queue of the loop gets its own insertion; and if no file is shared, its
file gets what that insertion writes. -/
theorem foldl_enter_mem {names : List Bytes} (nodup : names.Nodup) (member : qname ∈ names)
    {queue : MsgQueue} {store : QueueMessage} (selected : qmptr.selectQueue qname = some queue)
    (there : state.1.queueMsgs.select qname = some store) :
    ∃ size, (names.foldl (publication.enter qmptr) state).1.queueMsgs.select qname =
        some (store.entered (publication.propertiesIn qname queue) publication.body size) ∧
      (publication.Unshared qmptr state.1 names →
        (names.foldl (publication.enter qmptr) state).2 store.mapper.datafile =
          QueueMessage.recorded (publication.propertiesIn qname queue) publication.body
            (state.2 store.mapper.datafile)) := by
  rcases List.append_of_mem member with ⟨earlier, later, rfl⟩
  have apart := List.nodup_middle.mp nodup
  rw [List.nodup_cons, List.mem_append, not_or] at apart
  rcases publication.foldl_enter_frame qmptr earlier state with ⟨stores, files⟩
  have stays := (stores qname apart.1.1).trans there
  rcases Registry.select_eq_some.mp stays with ⟨reference, found, object⟩
  have entering := @enter_of_select publication qmptr _ qname queue reference store selected found
    object
  rcases publication.foldl_enter_frame qmptr later
    (publication.enter qmptr (earlier.foldl (publication.enter qmptr) state) qname) with
    ⟨laterStores, laterFiles⟩
  have entered : (publication.enter qmptr (earlier.foldl (publication.enter qmptr) state)
      qname).1.queueMsgs.select qname = some (store.entered (publication.propertiesIn qname queue)
        publication.body (((earlier.foldl (publication.enter qmptr) state).2
          store.mapper.datafile).getD []).length) := by
    rw [entering]
    exact (Registry.select_update found _ qname).trans (if_pos rfl)
  rw [List.foldl_append, List.foldl_cons]
  refine ⟨_, (laterStores qname apart.1.2).trans entered, fun unshared => ?_⟩
  have before : (earlier.foldl (publication.enter qmptr) state).2 store.mapper.datafile =
      state.2 store.mapper.datafile := by
    refine files _ fun name listed durable other otherThere => Ne.symm ?_
    exact unshared name (List.mem_append_left _ listed) durable qname other store
      (fun same => apart.1.1 (same ▸ listed)) otherThere there
  have enteredMapper : (store.entered (publication.propertiesIn qname queue) publication.body
      (((earlier.foldl (publication.enter qmptr) state).2 store.mapper.datafile).getD
        []).length).mapper.datafile = store.mapper.datafile := rfl
  have written : (publication.enter qmptr (earlier.foldl (publication.enter qmptr) state)
      qname).2 store.mapper.datafile = QueueMessage.recorded
        (publication.propertiesIn qname queue) publication.body
        ((earlier.foldl (publication.enter qmptr) state).2 store.mapper.datafile) := by
    rw [entering]
    exact Function.update_self ..
  rw [laterFiles _ fun name listed durable other otherThere => Ne.symm ?_, written, before]
  rw [← enteredMapper]
  exact unshared_enter (unshared_foldl unshared earlier) qname name
    (List.mem_append_right _ (List.mem_cons_of_mem _ listed)) durable qname other _
    (fun same => apart.1.2 (same ▸ listed)) otherThere entered

/-- The bytes that the insertion into a queue puts into a file. -/
def adds (publication : Publication) (qmptr : MsgQueueManager) (manager : MessageManager)
    (file qname : Bytes) : Nat :=
  match qmptr.selectQueue qname, (manager.queueMsgs.select qname).map (·.mapper.datafile) with
  | some queue, some datafile =>
      let properties := publication.propertiesIn qname queue
      if datafile = file ∧ properties.deliverMode = .durable then
        (frame sizeOfSize (QueueMessage.payloadFor properties publication.body).serialize).length
      else 0
  | _, _ => 0

theorem adds_enter (file qname other : Bytes) :
    publication.adds qmptr (publication.enter qmptr state qname).1 file other =
      publication.adds qmptr state.1 file other := by
  have same := congrArg (Option.map MessageMapper.datafile)
    (publication.enter_mapper qmptr state qname other).2
  rw [Option.map_map, Option.map_map] at same
  unfold adds
  change (match qmptr.selectQueue other, Option.map (MessageMapper.datafile ∘ QueueMessage.mapper)
    ((publication.enter qmptr state qname).1.queueMsgs.select other) with
    | some queue, some datafile => _
    | _, _ => 0) = _
  rw [same]
  rfl

theorem enter_grows {file content : Bytes} (stored : state.2 file = some content) (qname : Bytes) :
    ∃ grown, (publication.enter qmptr state qname).2 file = some grown ∧
      content.length + publication.adds qmptr state.1 file qname = grown.length := by
  rcases selected_cases qmptr state qname with missing |
    ⟨queue, reference, store, selected, found, there⟩
  · have nothing : publication.adds qmptr state.1 file qname = 0 := by
      unfold adds
      rcases missing with noQueue | noStore
      · rw [noQueue]
      · rw [Registry.select_eq_none.mpr noStore]
        cases qmptr.selectQueue qname <;> rfl
    rw [enter_of_missing missing, nothing]
    exact ⟨content, stored, rfl⟩
  · have here := (Registry.select_of_find found).trans there
    rw [enter_of_select selected found there, adds, selected, here]
    by_cases own : store.mapper.datafile = file
    · subst own
      rcases QueueMessage.recorded_grows (publication.propertiesIn qname queue) publication.body
        content with ⟨grown, recorded, longer⟩
      refine ⟨grown, ?_, ?_⟩
      · rw [stored]
        exact (Function.update_self ..).trans recorded
      · simpa only [Option.map_some, true_and] using longer
    · refine ⟨content, (Function.update_of_ne (Ne.symm own) _ _).trans stored, ?_⟩
      simp only [Option.map_some, own, false_and, if_false, Nat.add_zero]

/-- A file grows by what all the insertions put into it. -/
theorem foldl_enter_grows (names : List Bytes) {file content : Bytes}
    (stored : state.2 file = some content) :
    ∃ grown, (names.foldl (publication.enter qmptr) state).2 file = some grown ∧
      content.length + (names.map (publication.adds qmptr state.1 file)).sum = grown.length := by
  induction names generalizing state content with
  | nil => exact ⟨content, stored, rfl⟩
  | cons name rest inductionHypothesis =>
      rcases @enter_grows publication qmptr state file content stored name with
        ⟨middle, middleStored, grew⟩
      rcases inductionHypothesis middleStored with ⟨grown, grownStored, total⟩
      refine ⟨grown, grownStored, ?_⟩
      rw [show publication.adds qmptr (publication.enter qmptr state name).1 file =
        publication.adds qmptr state.1 file from funext (adds_enter file name)] at total
      rw [List.map_cons, List.sum_cons, ← total, ← grew, Nat.add_assoc]

/-- The queues that the router selects, in the order of the bindings. -/
def selectedNames (publication : Publication) (mqbs : List (Bytes × Binding)) : List Bytes :=
  (mqbs.filter fun mqb => publication.selects mqb.2).map Prod.fst

/-- The number of writes that the insertions into the selected queues need. -/
def writes (publication : Publication) (host : VirtualHost) (mqbs : List (Bytes × Binding)) : Nat :=
  2 * mqbs.countP fun mqb => publication.selects mqb.2 && publication.durableIn host mqb.1

theorem writes_cons (host : VirtualHost) (mqb : Bytes × Binding) (rest : List (Bytes × Binding)) :
    publication.writes host (mqb :: rest) =
      (if publication.selects mqb.2 && publication.durableIn host mqb.1 then 2 else 0) +
        publication.writes host rest := by
  unfold writes
  rw [List.countP_cons, Nat.mul_add, Nat.add_comm]
  cases publication.selects mqb.2 && publication.durableIn host mqb.1 <;> rfl

/-- The managers and the disk when the message has entered the queues. -/
def enterAll (publication : Publication) (address : Nat) (shared : Shared) (disk : Disk)
    (names : List Bytes) : Shared × Disk :=
  let entered := names.foldl (publication.enter shared.host.qmptr) (shared.host.mmptr, disk)
  ({ shared with
    host := { shared.host with mmptr := entered.1 }
    pool := shared.pool ++ names.map fun qname => ⟨address, qname⟩ }, entered.2)

theorem mem_selectedNames {mqbs : List (Bytes × Binding)} :
    qname ∈ publication.selectedNames mqbs ↔
      ∃ binding, (qname, binding) ∈ mqbs ∧ publication.selects binding = true := by
  unfold selectedNames
  rw [List.mem_map]
  constructor
  · rintro ⟨⟨name, binding⟩, member, rfl⟩
    rw [List.mem_filter] at member
    exact ⟨binding, member⟩
  · rintro ⟨binding, member, accepted⟩
    exact ⟨(qname, binding), List.mem_filter.mpr ⟨member, accepted⟩, rfl⟩

theorem selectedNames_nodup {mqbs : List (Bytes × Binding)} (nodup : (mqbs.map Prod.fst).Nodup) :
    (publication.selectedNames mqbs).Nodup :=
  nodup.sublist (List.filter_sublist.map Prod.fst)

theorem selectedNames_cons (publication : Publication) (mqb : Bytes × Binding)
    (mqbs : List (Bytes × Binding)) :
    publication.selectedNames (mqb :: mqbs) =
      if publication.selects mqb.2 then mqb.1 :: publication.selectedNames mqbs
      else publication.selectedNames mqbs := by
  unfold selectedNames
  rw [List.filter_cons]
  cases publication.selects mqb.2 <;> rfl

theorem enterAll_nil (publication : Publication) (address : Nat) (shared : Shared) (disk : Disk) :
    publication.enterAll address shared disk [] = (shared, disk) := by
  simp only [enterAll, List.foldl_nil, List.map_nil, List.append_nil]

theorem enterAll_cons (publication : Publication) (address : Nat) (shared : Shared) (disk : Disk)
    (qname : Bytes) (names : List Bytes) :
    publication.enterAll address shared disk (qname :: names) =
      publication.enterAll address (publication.enterAll address shared disk [qname]).1
        (publication.enterAll address shared disk [qname]).2 names := by
  simp only [enterAll, List.foldl_cons, List.foldl_nil, List.map_cons, List.map_nil,
    List.append_assoc, List.singleton_append]

/-- Once the message has entered a queue, the others still have what they need. -/
theorem storable_enterAll {address : Nat} {shared : Shared} {disk : Disk} {other : Bytes}
    (storable : publication.Storable shared.host disk other) (qname : Bytes) :
    publication.Storable (publication.enterAll address shared disk [qname]).1.host
      (publication.enterAll address shared disk [qname]).2 other := by
  rcases storable with ⟨queue, store, selected, there, file⟩
  have mapper := (publication.enter_mapper shared.host.qmptr (shared.host.mmptr, disk) qname
    other).2
  rw [there] at mapper
  rcases Option.map_eq_some_iff.mp mapper with ⟨next, nextThere, same⟩
  refine ⟨queue, next, selected, nextThere, fun durable => ?_⟩
  rcases file durable with ⟨content, stored⟩
  rw [same]
  rcases @enter_grows publication shared.host.qmptr (shared.host.mmptr, disk) _ content stored qname
    with ⟨grown, grownStored, _⟩
  exact ⟨grown, grownStored⟩

end Channel.Publication

/-! ## The loop over the bindings -/

namespace Channel

open Publication

section Loop

variable {address : Nat} {publication : Publication} {shared : Shared} {disk : Disk}
  {script : List Outcome}

/-- The router has an answer for the key of a binding. -/
def Publication.Answered (publication : Publication) (binding : Binding) : Prop :=
  ∃ accepted, Router.route publication.type binding.bindingKey
    (rotingKeyOf publication.properties) = .ok accepted

/-- A key with a word gets an answer from the router. -/
theorem answered_of_word (publication : Publication) {binding : Binding}
    (word : Router.words binding.bindingKey ≠ []) : publication.Answered binding := by
  unfold Publication.Answered
  cases routed : Router.route publication.type binding.bindingKey
      (rotingKeyOf publication.properties) with
  | ok accepted => exact ⟨accepted, rfl⟩
  | error fault =>
      exact absurd ((Router.route_error_iff _ _ _ fault).mp routed).2.2.2.2 word

theorem publishTurn_skipped {mqb : Bytes × Binding} (answered : publication.Answered mqb.2)
    (skipped : publication.selects mqb.2 = false) (world : World) :
    publishTurn address publication shared mqb world = .ok shared world := by
  rcases answered with ⟨accepted, routed⟩
  rw [selects, routed] at skipped
  change accepted = false at skipped
  rw [publishTurn, insertTurn, routed, skipped]
  rfl

/-- A turn for a selected queue, with its file and its writes in order. -/
theorem publishTurn_entered {mqb : Bytes × Binding} (answered : publication.Answered mqb.2)
    (selected : publication.selects mqb.2 = true)
    (storable : publication.Storable shared.host disk mqb.1)
    (calm : Undisturbed (if publication.durableIn shared.host mqb.1 then 2 else 0) script) :
    publishTurn address publication shared mqb ⟨disk, script⟩ =
      .ok (publication.enterAll address shared disk [mqb.1]).1
        ⟨(publication.enterAll address shared disk [mqb.1]).2,
          script.drop (if publication.durableIn shared.host mqb.1 then 2 else 0)⟩ := by
  rcases answered with ⟨accepted, routed⟩
  rw [selects, routed] at selected
  change accepted = true at selected
  rcases storable with ⟨queue, store, known, there, file⟩
  rcases Registry.select_eq_some.mp there with ⟨reference, found, object⟩
  have count : (if publication.durableIn shared.host mqb.1 then 2 else 0) =
      if (publication.propertiesIn mqb.1 queue).deliverMode = .durable then 2 else 0 := by
    rw [durableIn, known]
    simp only [decide_eq_true_eq]
  rw [count] at calm ⊢
  have inserted := @QueueMessage.insert_entered store publication.properties
    (publication.uuid mqb.1) publication.body queue.durable disk script file calm
  have published : shared.host.basicPublish mqb.1 publication.properties (publication.uuid mqb.1)
      publication.body ⟨disk, script⟩ =
        .ok (true, (publication.enterAll address shared disk [mqb.1]).1.host)
          ⟨(publication.enterAll address shared disk [mqb.1]).2, script.drop
            (if (publication.propertiesIn mqb.1 queue).deliverMode = .durable then 2 else 0)⟩ := by
    unfold enterAll
    rw [List.foldl_cons, List.foldl_nil, enter_of_select known found object]
    simp only [VirtualHost.basicPublish, known, MessageManager.insert, found,
      MessageManager.onStore, object]
    rw [bind_assoc]
    exact (bind_ok inserted).trans rfl
  have inserts : insertTurn publication shared mqb ⟨disk, script⟩ =
      .ok (true, { shared with
        host := (publication.enterAll address shared disk [mqb.1]).1.host })
        ⟨(publication.enterAll address shared disk [mqb.1]).2, script.drop
          (if (publication.propertiesIn mqb.1 queue).deliverMode = .durable then 2 else 0)⟩ := by
    rw [insertTurn, routed, selected]
    exact (bind_ok published).trans rfl
  exact (bind_ok inserts).trans rfl

/-- The loop with every file and every write in order: the message enters the
selected queues one after another. -/
theorem publishLoop_entered {mqbs : List (Bytes × Binding)}
    (answered : ∀ mqb ∈ mqbs, publication.Answered mqb.2)
    (storable : ∀ mqb ∈ mqbs, publication.selects mqb.2 = true →
      publication.Storable shared.host disk mqb.1)
    (calm : Undisturbed (publication.writes shared.host mqbs) script) :
    mqbs.foldlM (publishTurn address publication) shared ⟨disk, script⟩ =
      .ok (publication.enterAll address shared disk (publication.selectedNames mqbs)).1
        ⟨(publication.enterAll address shared disk (publication.selectedNames mqbs)).2,
          script.drop (publication.writes shared.host mqbs)⟩ := by
  induction mqbs generalizing shared disk script with
  | nil =>
      rw [show publication.selectedNames [] = [] from rfl, enterAll_nil]
      rfl
  | cons mqb others inductionHypothesis =>
      rw [List.forall_mem_cons] at answered storable
      rw [Publication.writes_cons] at calm ⊢
      rw [List.foldlM_cons, selectedNames_cons]
      cases selected : publication.selects mqb.2 with
      | false =>
          rw [selected, Bool.false_and, if_neg Bool.false_ne_true, Nat.zero_add] at calm
          rw [Bool.false_and, if_neg Bool.false_ne_true, if_neg Bool.false_ne_true, Nat.zero_add,
            bind_ok (publishTurn_skipped answered.1 selected _)]
          exact inductionHypothesis answered.2 storable.2 calm
      | true =>
          rw [selected, Bool.true_and, undisturbed_add] at calm
          rw [if_pos rfl, Bool.true_and, enterAll_cons, ← List.drop_drop]
          have turned := @publishTurn_entered address publication shared disk script mqb
            answered.1 selected (storable.1 selected) calm.1
          rw [bind_ok turned]
          exact inductionHypothesis answered.2 (fun other member accepted =>
            Publication.storable_enterAll (storable.2 other member accepted) mqb.1) calm.2

end Loop

end Channel

/-! ## The request -/

namespace Server

open Channel

/-- The queue is bound to the exchange with a key that the router accepts. -/
def Routed (host : VirtualHost) (exchange : Exchange) (exchangeName : Bytes)
    (properties : Option BasecProperties) (qname : Bytes) : Prop :=
  ∃ binding, (host.exchangeBindings exchangeName).lookup qname = some binding ∧
    Router.route exchange.type binding.bindingKey (rotingKeyOf properties) = .ok true

/-- Every binding of the exchange is for a queue with a message store, and its
key has a word. -/
def WellBound (host : VirtualHost) (exchangeName : Bytes) : Prop :=
  ∀ qname binding, (host.exchangeBindings exchangeName).lookup qname = some binding →
    (∃ queue, host.qmptr.selectQueue qname = some queue) ∧
    (∃ store, host.mmptr.queueMsgs.select qname = some store) ∧
    Router.words binding.bindingKey ≠ []

/-- Every binding of the exchange is for a queue with a message store. -/
def StoresBound (host : VirtualHost) (exchangeName : Bytes) : Prop :=
  ∀ qname binding, (host.exchangeBindings exchangeName).lookup qname = some binding →
    (∃ queue, host.qmptr.selectQueue qname = some queue) ∧
      ∃ store, host.mmptr.queueMsgs.select qname = some store

theorem WellBound.storesBound {host : VirtualHost} {exchangeName : Bytes}
    (wellBound : WellBound host exchangeName) : StoresBound host exchangeName :=
  fun qname binding found =>
    ⟨(wellBound qname binding found).1, (wellBound qname binding found).2.1⟩

/-- The durable writes of a publish succeed: the files are there, and the
operations take effect. -/
def Writable (site : Site) (publication : Publication) (exchangeName : Bytes)
    (script : List Outcome) : Prop :=
  (∀ qname binding store, (site.server.shared.host.exchangeBindings exchangeName).lookup qname =
      some binding → publication.selects binding = true →
    publication.durableIn site.server.shared.host qname = true →
    site.server.shared.host.mmptr.queueMsgs.select qname = some store →
    ∃ content, site.disk store.mapper.datafile = some content) ∧
  Undisturbed (publication.writes site.server.shared.host
    (MsgQueueBindingMap.pairs (site.server.shared.host.exchangeBindings exchangeName))) script

section Effect

variable {site : Site} {exchange : Exchange} {exchangeName body : Bytes} {chance : Chance}
  {properties : Option BasecProperties} {given : BasecProperties} {script : List Outcome}

theorem selects_iff {binding : Binding} :
    (publication exchange chance properties body).selects binding = true ↔
      Router.route exchange.type binding.bindingKey (rotingKeyOf properties) = .ok true := by
  unfold Publication.selects
  change _ ↔ Router.route (publication exchange chance properties body).type binding.bindingKey
    (rotingKeyOf (publication exchange chance properties body).properties) = .ok true
  cases Router.route (publication exchange chance properties body).type binding.bindingKey
      (rotingKeyOf (publication exchange chance properties body).properties) with
  | ok accepted => exact ⟨fun same => congrArg Except.ok same, Except.ok.inj⟩
  | error fault =>
      constructor
      · intro impossible
        cases impossible
      · intro impossible
        cases impossible

/-- The selected queues are the routed ones, in any order of the bindings. -/
theorem mem_selectedNames_iff (host : VirtualHost) (qname : Bytes) :
    qname ∈ (publication exchange chance properties body).selectedNames
        (chance.traversal.order (MsgQueueBindingMap.pairs (host.exchangeBindings exchangeName))) ↔
      Routed host exchange exchangeName properties qname := by
  rw [Publication.mem_selectedNames]
  refine exists_congr fun binding => and_congr ?_ selects_iff
  rw [(chance.traversal.perm _).mem_iff]
  exact MsgQueueBindingMap.mem_pairs

/-- What each selected queue needs for its insertion is there. -/
theorem storable_of_writable {publication : Publication}
    (storesBound : StoresBound site.server.shared.host exchangeName)
    (writable : Writable site publication exchangeName script) {qname : Bytes} {binding : Binding}
    (found : (site.server.shared.host.exchangeBindings exchangeName).lookup qname = some binding)
    (accepted : publication.selects binding = true) :
    publication.Storable site.server.shared.host site.disk qname := by
  rcases storesBound qname binding found with ⟨⟨queue, selected⟩, ⟨store, there⟩⟩
  refine ⟨queue, store, selected, there, fun mode => ?_⟩
  refine writable.1 qname binding store found accepted ?_ there
  rw [Publication.durableIn, selected]
  exact decide_eq_true mode

/-- A publish is through when its loop is. -/
theorem handle_publish [Protobuf] {channel : Channel} {shared final : Shared} {world after : World}
    (selected : shared.host.selectExchange exchangeName = some exchange)
    (looped : (chance.traversal.order (MsgQueueBindingMap.pairs
        (shared.host.exchangeBindings exchangeName))).foldlM
      (publishTurn channel.address (publication exchange chance properties body)) shared world =
        .ok final after) :
    channel.handle shared chance (.basicPublish exchangeName properties body) world =
      .ok (true, channel, final) after := by
  have published : Channel.basicPublish channel.address shared chance exchangeName properties body
      world = .ok (true, final) after := by
    unfold Channel.basicPublish
    rw [selected]
    exact (bind_ok looped).trans rfl
  exact (bind_ok published).trans rfl

/-- What an open channel makes of a request is what the server replies. -/
theorem handle_request [Protobuf] {server : Server} {conn : Nat} {connection : Connection}
    {rid cid : Bytes} {channel : Channel} {request : Request} {result : Bool × Channel × Shared}
    {world after : World} (connected : server.connections.lookup conn = some connection)
    (opened : connection.channels.lookup cid = some channel)
    (handled : channel.handle server.shared chance request world = .ok result after) :
    server.handle conn chance (.request rid cid request) world =
      .ok (.response rid cid result.1, ⟨result.2.2, Dictionary.assign conn
        ⟨Dictionary.assign cid result.2.1 connection.channels⟩ server.connections⟩) after := by
  unfold handle
  simp only [connected, opened]
  exact (bind_ok handled).trans rfl

/-- A publish whose writes succeed enters the message into the selected queues. -/
theorem publish_entered [Protobuf] {conn : Nat} {rid cid : Bytes} {channel : Channel}
    (opened : site.server.channelAt conn cid = some channel)
    (selected : site.server.shared.host.selectExchange exchangeName = some exchange)
    (storesBound : StoresBound site.server.shared.host exchangeName)
    (answered : ∀ qname binding, (site.server.shared.host.exchangeBindings exchangeName).lookup
      qname = some binding → (publication exchange chance properties body).Answered binding)
    (writable : Writable site (publication exchange chance properties body) exchangeName script) :
    ∃ connections, performed (site.server.handle conn chance
        (.request rid cid (.basicPublish exchangeName properties body))) site.disk script =
      .ok ((.response rid cid true,
        ⟨((publication exchange chance properties body).enterAll channel.address site.server.shared
          site.disk ((publication exchange chance properties body).selectedNames
            (chance.traversal.order (MsgQueueBindingMap.pairs
              (site.server.shared.host.exchangeBindings exchangeName))))).1, connections⟩),
        ((publication exchange chance properties body).enterAll channel.address site.server.shared
          site.disk ((publication exchange chance properties body).selectedNames
            (chance.traversal.order (MsgQueueBindingMap.pairs
              (site.server.shared.host.exchangeBindings exchangeName))))).2) := by
  let bound := site.server.shared.host.exchangeBindings exchangeName
  have perm := chance.traversal.perm (MsgQueueBindingMap.pairs bound)
  have members : ∀ mqb, mqb ∈ chance.traversal.order (MsgQueueBindingMap.pairs bound) →
      bound.lookup mqb.1 = some mqb.2 :=
    fun mqb member => MsgQueueBindingMap.mem_pairs.mp (perm.mem_iff.mp member)
  have calm : Undisturbed ((publication exchange chance properties body).writes
      site.server.shared.host (chance.traversal.order (MsgQueueBindingMap.pairs bound)))
        script := by
    have undisturbed := writable.2
    rw [Publication.writes, ← perm.countP_eq] at undisturbed
    exact undisturbed
  have looped := @publishLoop_entered channel.address (publication exchange chance properties body)
    site.server.shared site.disk script _
    (fun mqb member => answered mqb.1 mqb.2 (members mqb member))
    (fun mqb member => storable_of_writable storesBound writable (members mqb member)) calm
  rcases Option.bind_eq_some_iff.mp opened with ⟨connection, connected, found⟩
  exact ⟨_, performed_ok (handle_request connected found (handle_publish selected looped))⟩

end Effect

/-- Each binding has its queue, its store, its file, and a word in its key. -/
def isWellBound (server : Server) (disk : Disk) : Bool :=
  let host := server.shared.host
  decide (∀ mqb ∈ MsgQueueBindingMap.pairs (host.exchangeBindings (ascii "e")),
    (host.qmptr.selectQueue mqb.1).isSome ∧ (host.mmptr.queueMsgs.select mqb.1).isSome ∧
      Router.words mqb.2.bindingKey ≠ [] ∧
      (host.mmptr.queueMsgs.select mqb.1).any fun store =>
        (disk store.mapper.datafile).isSome)

end Server

end ProtobufMq
