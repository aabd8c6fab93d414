import ProtobufMq.Server.Lifetime
import ProtobufMq.Server.Publish

namespace ProtobufMq

open Foundation

/-!
# Pending messages and the tasks that come for them

Nothing but a task takes a message from a pending list, and nothing but a
publish pushes a task.  A publish pushes one for each message that it has put
into a queue, so there are always enough of them for the published messages,
counting the one that the publish in hand is about to push.  The messages that a
recovery reads back from a data file have none: when every task has ended they
are still pending, whoever subscribes to the queue.
-/

namespace Phase

/-- The task has ended. -/
def isOver : Phase → Bool
  | .ended _ => true
  | _ => false

end Phase

namespace Loop

/-- The store that is about to be filled from its data file. -/
def filling : Loop → Option Nat
  | .recovering store _ _ => some store
  | _ => none

/-- The queue for which a task is about to be pushed. -/
def owing : Loop → Option Bytes
  | .pushing _ _ queueName _ => some queueName
  | _ => none

end Loop

namespace Machine

/-- The task has yet to take a message of the queue: it has not looked for the
store, or it has found this one. -/
def awaits (machine : Machine) (qname : Bytes) (reference index : Nat) : Bool :=
  match machine.server.shared.pool[index]? with
  | none => false
  | some task =>
      match machine.phase index with
      | .ready => task.queueName = qname
      | .looked store => store = reference
      | _ => false

/-- How many tasks have yet to take a message of the queue. -/
def awaiting (machine : Machine) (qname : Bytes) (reference : Nat) : Nat :=
  (List.range machine.server.shared.pool.length).countP (machine.awaits qname reference)

/-- The same with the task that is about to be pushed. -/
def coming (machine : Machine) (qname : Bytes) (reference : Nat) : Nat :=
  machine.awaiting qname reference + if machine.loop.owing = some qname then 1 else 0

/-- No task is queued or running. -/
def Resting (machine : Machine) : Prop :=
  ∀ index < machine.server.shared.pool.length, (machine.phase index).isOver = true

instance (machine : Machine) : Decidable machine.Resting :=
  inferInstanceAs (Decidable (∀ index < machine.server.shared.pool.length,
    (machine.phase index).isOver = true))

/-- When no task is queued or running, a queue with a consumer has no pending message. -/
def Drained (machine : Machine) : Prop :=
  machine.Resting → ∀ qname store,
    machine.server.shared.host.mmptr.queueMsgs.select qname = some store →
    machine.server.shared.cmptr.registered qname ≠ [] → store.msgs = []

/-- The same, but for the queue for which a task is about to be pushed. -/
def DrainedApart (machine : Machine) : Prop :=
  machine.Resting → ∀ qname store,
    machine.server.shared.host.mmptr.queueMsgs.select qname = some store →
    machine.server.shared.cmptr.registered qname ≠ [] →
    machine.loop.owing ≠ some qname → store.msgs = []

/-- The queue that a step subscribes to. -/
def subscribed (machine : Machine) : Move → Option Bytes
  | .packet conn _ (.request _ cid (.basicConsume _ queueName _)) =>
      if machine.isIdle && (machine.server.channelAt conn cid).isSome then some queueName else none
  | _ => none

/-- The store that a step fills from its data file. -/
def filled (machine : Machine) : Move → Option Nat
  | .proceed => machine.loop.filling
  | _ => none

/-- The queue that a step of a publish puts a message into. -/
def entered (machine : Machine) (move : Move) : Option Bytes :=
  match move, machine.loop with
  | .proceed, .publishing _ publication (mqb :: _) =>
      if publication.selects mqb.2 then some mqb.1 else none
  | _, _ => none

/-- The task that takes a step. -/
def Move.worker : Move → Option Nat
  | .work index => some index
  | _ => none

/-- The condition on a step: a queue gets a consumer, and one with a consumer gets
recovered messages, only while there are as many tasks that have yet to take a
message of the queue. -/
structure Provided [Protobuf] (machine : Machine) (event : Event) : Prop where
  subscribes : ∀ qname ∈ machine.subscribed event.move,
    ∀ reference ∈ machine.server.shared.host.mmptr.queueMsgs.find qname,
    ∀ store ∈ machine.server.shared.host.mmptr.queueMsgs.object reference,
    store.msgs.length ≤ machine.awaiting qname reference
  fills : ∀ reference ∈ machine.filled event.move,
    ∀ store ∈ machine.server.shared.host.mmptr.queueMsgs.object reference,
    ∀ qname ∈ machine.server.shared.host.mmptr.queueMsgs.names.keys,
    machine.server.shared.host.mmptr.queueMsgs.find qname = some reference →
    machine.server.shared.cmptr.registered qname ≠ [] →
    store.loadable ⟨machine.disk, event.script⟩ ≤ machine.awaiting qname reference

instance [Protobuf] (machine : Machine) (event : Event) : Decidable (machine.Provided event) :=
  decidable_of_iff (_ ∧ _) ⟨fun both => ⟨both.1, both.2⟩, fun both => ⟨both.1, both.2⟩⟩

/-- The condition on a step for the moment between putting a message into a queue
with a consumer and pushing the task for it: some other task is queued or running. -/
structure Accompanied (machine : Machine) (event : Event) : Prop where
  enters : ∀ qname ∈ machine.entered event.move,
    machine.server.shared.cmptr.registered qname ≠ [] → ¬ machine.Resting
  works : ∀ index ∈ event.move.worker, ∀ qname ∈ machine.loop.owing,
    machine.server.shared.cmptr.registered qname ≠ [] →
    ∃ other < machine.server.shared.pool.length,
      other ≠ index ∧ (machine.phase other).isOver = false

instance (machine : Machine) (event : Event) : Decidable (machine.Accompanied event) :=
  decidable_of_iff (_ ∧ _) ⟨fun both => ⟨both.1, both.2⟩, fun both => ⟨both.1, both.2⟩⟩

/-- There is a task for every pending message of some queues. -/
def Covers (machine : Machine) (attended : Bytes → Prop) : Prop :=
  ∀ qname reference store,
    machine.server.shared.host.mmptr.queueMsgs.find qname = some reference →
    machine.server.shared.host.mmptr.queueMsgs.object reference = some store →
    attended qname → store.msgs.length ≤ machine.coming qname reference

/-- There is a task for every pending message of a queue with a consumer. -/
def Covered (machine : Machine) : Prop :=
  machine.Covers fun qname => machine.server.shared.cmptr.registered qname ≠ []

/-- While a task is about to be pushed for a queue with a consumer, another one is
queued or running. -/
def Occupied (machine : Machine) : Prop :=
  ∀ qname, machine.loop.owing = some qname →
    machine.server.shared.cmptr.registered qname ≠ [] → ¬ machine.Resting

end Machine

/-! ## Who has a consumer -/

namespace ConsumerManager

variable {manager next : ConsumerManager} {qname : Bytes}

/-- Where nobody joins, a queue has a consumer only if it had one. -/
theorem Inherits.deserted (inherits : manager.Inherits (fun _ => False) next)
    (nobody : manager.registered qname = []) : next.registered qname = [] := by
  refine List.eq_nil_iff_forall_not_mem.mpr fun consumer member => ?_
  rcases mem_registered.mp member with ⟨later, selected, listed⟩
  rcases Registry.select_eq_some.mp selected with ⟨reference, found, there⟩
  rcases inherits.member there listed with ⟨unit, old, before⟩ | impossible
  · rcases inherits.names qname reference found with known | unknown
    · have still := mem_registered.mpr ⟨unit, (Registry.select_of_find known).trans old, before⟩
      rw [nobody] at still
      cases still
    · cases unknown.symm.trans old
  · exact impossible

/-- A consumer joins its own queue. -/
theorem deserted_create {consumer : Consumer} (other : consumer.qname ≠ qname)
    (nobody : manager.registered qname = []) :
    (manager.create consumer).2.registered qname = [] := by
  rcases manager.create_cases consumer with ⟨same, _⟩ | ⟨unit, created, _, same, units⟩
  · rw [same]
    exact nobody
  · rw [same, registered, units, if_neg (Ne.symm other)]
    exact nobody

end ConsumerManager

/-- A queue gets its first consumer from a request to subscribe to it. -/
theorem Channel.deserted_handle [Protobuf] {channel : Channel} {shared : Shared} {chance : Chance}
    {request : Request} {result : Bool × Channel × Shared} {world after : World} {qname : Bytes}
    (storeless : Shared.Storeless request)
    (other : ∀ tag autoAck, request ≠ .basicConsume tag qname autoAck)
    (completed : channel.handle shared chance request world = .ok result after)
    (nobody : shared.cmptr.registered qname = []) :
    result.2.2.cmptr.registered qname = [] := by
  cases request with
  | declareExchange exchange =>
      cases completed
      exact nobody
  | deleteExchange exchangeName =>
      cases completed
      exact nobody
  | declareQueue queue => cases storeless
  | deleteQueue queueName => cases storeless
  | queueBind exchangeName queueName bindingKey =>
      cases completed
      exact nobody
  | queueUnbind exchangeName queueName =>
      cases completed
      exact nobody
  | basicPublish exchangeName properties body => cases storeless
  | basicAck queueName messageId =>
      rcases bind_eq_ok completed with ⟨done, middle, called, rest⟩
      cases rest
      rcases bind_eq_ok called with ⟨host, last, acked, rest⟩
      cases rest
      exact nobody
  | basicConsume consumerTag queueName autoAck =>
      cases completed
      unfold basicConsume
      cases shared.host.existsQueue queueName with
      | false => exact nobody
      | true =>
          refine ConsumerManager.deserted_create (fun same => ?_) nobody
          exact other consumerTag autoAck (congrArg (Request.basicConsume _ · _) same)
  | basicCancel consumerTag queueName =>
      rcases bind_eq_ok completed with ⟨done, middle, called, rest⟩
      cases rest
      rcases basicCancel_ok (ofExcept_eq_ok called).1 with ⟨cmptr, removed, same⟩
      rw [same]
      exact (ConsumerManager.inherits_remove removed).deserted nobody

namespace Machine

section Attending

variable [Protobuf] {machine next : Machine} {world after : World} {qname : Bytes}

omit [Protobuf] in
/-- While a request is in hand, nobody subscribes. -/
theorem subscribed_of_inHand (busy : machine.isIdle = false) (move : Move) :
    machine.subscribed move = none := by
  unfold subscribed
  split
  · rw [busy]
    rfl
  · rfl

/-- A step of the event loop gives a queue its first consumer only by subscribing to it. -/
theorem deserted_moves {move : Move} (moves : machine.Moves world after move next)
    (unsubscribed : machine.subscribed move ≠ some qname)
    (nobody : machine.server.shared.cmptr.registered qname = []) :
    next.server.shared.cmptr.registered qname = [] := by
  cases moves with
  | stays => exact nobody
  | connects => exact nobody
  | disconnects idle connected => exact nobody
  | accepts idle accepts =>
      cases accepts with
      | handles storeless handled =>
          refine @Server.packet_keeps (fun shared => shared.cmptr.registered qname = []) _ _ _ _ _
            _ _ _ (fun _ held => held) (fun _ _ _ held destroyed =>
              (Channel.inherits_destroy destroyed).deserted held)
            (fun rid cid channel request result same opened handled =>
              Channel.deserted_handle (storeless rid cid channel request same opened)
                (fun tag autoAck consumes => ?_) handled nobody) nobody handled
          refine unsubscribed ?_
          rw [same, consumes, subscribed, idle, opened]
          rfl
      | refuses => exact nobody
      | publishes opened => exact nobody
      | recovers introduced => exact nobody
      | declares introduced => exact nobody
      | deletes onward => exact nobody
  | proceeds proceeds =>
      cases proceeds with
      | @declares sql queue inHand =>
          simp only [withShared, declare]
          cases (machine.server.shared.host.qmptr.declareQueue sql.queueTable queue).1 with
          | true => exact (ConsumerManager.inherits_initQueueConsumer _ _).deserted nobody
          | false => exact nobody
      | @deletes sql queueName inHand =>
          simp only [withShared, delete]
          cases (machine.server.shared.host.qmptr.deleteQueue sql.queueTable queueName).1 with
          | true => exact (ConsumerManager.inherits_destroyQueueConsumer _ _).deserted nobody
          | false => exact nobody
      | closes inHand destroyed => exact (Channel.inherits_destroy destroyed).deserted nobody
      | _ => exact nobody

/-- A step of a task gives no queue a consumer. -/
theorem deserted_works {index : Nat} {task : Task}
    (works : machine.Works index task world after next)
    (nobody : machine.server.shared.cmptr.registered qname = []) :
    next.server.shared.cmptr.registered qname = [] := by
  cases works with
  | refused asking nobody' => exact (ConsumerManager.inherits_chooseFrom _ _).deserted nobody
  | chooses asking somebody => exact (ConsumerManager.inherits_chooseFrom _ _).deserted nobody
  | _ => exact nobody

end Attending

/-! ## Counting the tasks -/

section Counting

variable {machine next : Machine}

/-- Tasks that await a message are not over. -/
theorem awaiting_of_resting (resting : machine.Resting) (qname : Bytes) (reference : Nat) :
    machine.awaiting qname reference = 0 := by
  refine List.countP_eq_zero.mpr fun index listed => ?_
  have ended := resting index (List.mem_range.mp listed)
  unfold awaits
  cases machine.server.shared.pool[index]? with
  | none => exact nofun
  | some task =>
      cases phase : machine.phase index with
      | ended outcome => exact nofun
      | _ =>
          rw [phase] at ended
          cases ended

/-- More tasks, and none that stops awaiting. -/
theorem awaiting_mono {qname : Bytes} {reference : Nat}
    (pool : machine.server.shared.pool <+: next.server.shared.pool)
    (stays : ∀ index, machine.awaits qname reference index = true →
      next.awaits qname reference index = true) :
    machine.awaiting qname reference ≤ next.awaiting qname reference := by
  have longer : List.range machine.server.shared.pool.length <+:
      List.range next.server.shared.pool.length := by
    rcases Nat.exists_eq_add_of_le pool.length_le with ⟨more, same⟩
    rw [same, List.range_add]
    exact List.prefix_append _ _
  calc machine.awaiting qname reference
      ≤ (List.range machine.server.shared.pool.length).countP (next.awaits qname reference) :=
        List.countP_mono_left fun index _ => stays index
    _ ≤ next.awaiting qname reference := longer.sublist.countP_le

theorem awaits_iff {qname : Bytes} {reference index : Nat} {task : Task}
    (listed : machine.server.shared.pool[index]? = some task) :
    machine.awaits qname reference index = true ↔
      (machine.phase index = .ready ∧ task.queueName = qname) ∨
        machine.phase index = .looked reference := by
  unfold awaits
  rw [listed]
  cases machine.phase index with
  | ready => simp
  | looked store => simp
  | _ => simp

/-- Whether a task awaits a message depends on the task and its phase. -/
theorem awaits_congr {qname : Bytes} {reference index : Nat}
    (task : next.server.shared.pool[index]? = machine.server.shared.pool[index]?)
    (phase : next.phase index = machine.phase index) :
    next.awaits qname reference index = machine.awaits qname reference index := by
  unfold awaits
  rw [task, phase]

/-- Pushing more tasks leaves the others awaiting. -/
theorem awaits_of_prefix {qname : Bytes} {reference index : Nat}
    (pool : machine.server.shared.pool <+: next.server.shared.pool)
    (phase : next.phase = machine.phase)
    (awaits : machine.awaits qname reference index = true) :
    next.awaits qname reference index = true := by
  have within : index < machine.server.shared.pool.length := by
    refine Nat.lt_of_not_le fun beyond => ?_
    rw [Machine.awaits, List.getElem?_eq_none beyond] at awaits
    cases awaits
  rcases pool with ⟨more, same⟩
  have task : next.server.shared.pool[index]? = machine.server.shared.pool[index]? := by
    rw [← same, List.getElem?_append_left within]
  exact (awaits_congr task (congrFun phase index)).trans awaits

/-- A pushed task awaits a message of its queue. -/
theorem awaiting_push {task : Task} {reference : Nat} (unborn : machine.Unborn)
    (phase : next.phase = machine.phase)
    (pool : next.server.shared.pool = machine.server.shared.pool ++ [task]) :
    machine.awaiting task.queueName reference + 1 ≤ next.awaiting task.queueName reference := by
  have grows : machine.server.shared.pool <+: next.server.shared.pool :=
    pool ▸ List.prefix_append _ _
  have last : next.awaits task.queueName reference machine.server.shared.pool.length = true := by
    unfold awaits
    rw [pool, List.getElem?_concat_length, phase, unborn _ (Nat.le_refl _)]
    exact decide_eq_true rfl
  unfold awaiting
  rw [pool, List.length_append, List.length_singleton, List.range_succ, List.countP_append,
    List.countP_singleton, if_pos last]
  exact Nat.add_le_add_right 
    (List.countP_mono_left fun _ _ => awaits_of_prefix grows phase) 1

/-- One task takes a message. -/
theorem awaiting_take {qname : Bytes} {reference index : Nat}
    (pool : next.server.shared.pool = machine.server.shared.pool)
    (within : index < machine.server.shared.pool.length)
    (others : ∀ other, other ≠ index → next.phase other = machine.phase other) :
    machine.awaiting qname reference ≤ next.awaiting qname reference + 1 := by
  have split := List.perm_cons_erase (List.mem_range.mpr within)
  have rest : ((List.range machine.server.shared.pool.length).erase index).countP
      (next.awaits qname reference) =
      ((List.range machine.server.shared.pool.length).erase index).countP
        (machine.awaits qname reference) := by
    refine List.countP_congr fun other listed => ?_
    have distinct := (List.nodup_range.mem_erase_iff.mp listed).1
    rw [awaits_congr (congrArg (·[other]?) pool) (others other distinct)]
  unfold awaiting
  rw [pool, split.countP_eq, split.countP_eq, List.countP_cons, List.countP_cons, rest]
  split <;> split <;> omega

/-- Where a task is about to be pushed for no queue, none is lost. -/
theorem coming_mono (resting : machine.loop.owing = none) {qname : Bytes} {reference : Nat}
    (awaiting : machine.awaiting qname reference ≤ next.awaiting qname reference) :
    machine.coming qname reference ≤ next.coming qname reference := by
  rw [coming, resting, if_neg (fun impossible => nomatch impossible)]
  exact Nat.le_trans awaiting (Nat.le_add_right _ _)

end Counting

/-! ## What every step keeps -/

section Keeping

variable [Protobuf] {machine next : Machine} {world after : World} {attended : Bytes → Prop}

omit [Protobuf] in
/-- Fewer queues have a consumer. -/
theorem Covers.mono {others : Bytes → Prop} (covers : machine.Covers attended)
    (fewer : ∀ qname, others qname → attended qname) : machine.Covers others :=
  fun qname reference store found there other =>
    covers qname reference store found there (fewer qname other)

omit [Protobuf] in
/-- Nothing is added to any store, and no task stops awaiting a message that is there. -/
theorem Covers.quiet (covers : machine.Covers attended)
    (quiet : machine.server.shared.host.mmptr.Quiet next.server.shared.host.mmptr)
    (coming : ∀ qname reference store,
      machine.server.shared.host.mmptr.queueMsgs.find qname = some reference →
      machine.server.shared.host.mmptr.queueMsgs.object reference = some store →
      store.msgs ≠ [] → machine.coming qname reference ≤ next.coming qname reference) :
    next.Covers attended := by
  intro qname reference later found there somebody
  rcases quiet.names qname reference found with old | unknown
  · rcases Registry.object_of_find old with ⟨store, stored⟩
    rcases quiet.stores.kept reference store stored with ⟨other, otherThere, still⟩
    cases otherThere.symm.trans there
    rcases still.msgs with same | empty
    · rw [same]
      by_cases nothing : store.msgs = []
      · rw [nothing]
        exact Nat.zero_le _
      · exact Nat.le_trans (covers qname reference store old stored somebody)
          (coming qname reference store old stored nothing)
    · rw [empty]
      exact Nat.zero_le _
  · rcases quiet.stores.new reference later there with ⟨store, stored⟩ | empty
    · rw [unknown] at stored
      cases stored
    · rw [empty]
      exact Nat.zero_le _

omit [Protobuf] in
/-- One store is changed, and there are enough tasks for it. -/
theorem Covers.update (covers : machine.Covers attended) {reference : Nat} {later : QueueMessage}
    (stores : next.server.shared.host.mmptr = { machine.server.shared.host.mmptr with
      queueMsgs := machine.server.shared.host.mmptr.queueMsgs.update reference later })
    (enough : ∀ qname, machine.server.shared.host.mmptr.queueMsgs.find qname = some reference →
      attended qname → later.msgs.length ≤ next.coming qname reference)
    (coming : ∀ qname other, other ≠ reference →
      machine.coming qname other ≤ next.coming qname other) : next.Covers attended := by
  intro qname other stored found there somebody
  rw [stores] at found there
  change machine.server.shared.host.mmptr.queueMsgs.find qname = some other at found
  change (machine.server.shared.host.mmptr.queueMsgs.update reference later).object other = _
    at there
  rw [Registry.object_update] at there
  by_cases same : other = reference
  · subst same
    rw [if_pos rfl] at there
    rcases Option.map_eq_some_iff.mp there with ⟨_, _, rfl⟩
    exact enough qname found somebody
  · rw [if_neg same] at there
    exact Nat.le_trans (covers qname other stored found there somebody) (coming qname other same)

/-- A task that was about to be pushed is pushed before anything else is done. -/
theorem coming_moves {move : Move} (unborn : machine.Unborn)
    (moves : machine.Moves world after move next) (qname : Bytes) (reference : Nat) :
    machine.coming qname reference ≤ next.coming qname reference := by
  have followed := moves.follows
  have awaiting : machine.awaiting qname reference ≤ next.awaiting qname reference :=
    awaiting_mono followed.shared.pool fun _ => awaits_of_prefix followed.shared.pool followed.phase
  have rests : machine.isIdle = true → machine.loop.owing = none := by
    intro idle
    rw [loop_of_isIdle idle]
    rfl
  cases moves with
  | stays => exact Nat.le_refl _
  | connects => exact Nat.le_refl _
  | disconnects idle connected => exact coming_mono (rests idle) awaiting
  | accepts idle accepts => exact coming_mono (rests idle) awaiting
  | proceeds proceeds =>
      cases proceeds with
      | rests idle => exact Nat.le_refl _
      | finishes inHand =>
          rcases inHand with ⟨address, publication, inHand⟩ | inHand
          all_goals exact coming_mono (by rw [inHand]; rfl) awaiting
      | @pushes address publication queueName rest inHand =>
          rw [coming, coming, inHand]
          change _ + (if some queueName = some qname then 1 else 0) ≤ _ + 0
          by_cases same : queueName = qname
          · subst same
            rw [if_pos rfl]
            exact @awaiting_push _ _ ⟨address, queueName⟩ _ unborn rfl rfl
          · rw [if_neg fun impossible => same (Option.some.inj impossible)]
            exact awaiting
      | skips inHand routed => exact coming_mono (by rw [inHand]; rfl) awaiting
      | inserts inHand routed called => exact coming_mono (by rw [inHand]; rfl) awaiting
      | recovers inHand recovered => exact coming_mono (by rw [inHand]; rfl) awaiting
      | declares inHand => exact coming_mono (by rw [inHand]; rfl) awaiting
      | clears inHand cleared => exact coming_mono (by rw [inHand]; rfl) awaiting
      | deletes inHand => exact coming_mono (by rw [inHand]; rfl) awaiting
      | closes inHand destroyed => exact coming_mono (by rw [inHand]; rfl) awaiting

/-- A step of the event loop. -/
theorem Covers.moves (covers : machine.Covers attended) (unborn : machine.Unborn) {move : Move}
    (filled : ∀ reference sql queue, machine.loop = .recovering reference sql queue →
      ∀ store, machine.server.shared.host.mmptr.queueMsgs.object reference = some store →
      ∀ qname, machine.server.shared.host.mmptr.queueMsgs.find qname = some reference →
        attended qname → store.loadable world ≤ machine.coming qname reference)
    (moves : machine.Moves world after move next) : next.Covers attended := by
  have mono := coming_moves unborn moves
  cases moves.supplies with
  | quiet stores pool =>
      exact covers.quiet stores fun qname reference _ _ _ _ => mono qname reference
  | @stored address publication mqb rest reference store message totalCount durableMsgs inHand
      afterwards found there stores pool =>
      refine covers.update stores (fun qname named somebody => ?_) fun qname other _ =>
        mono qname other
      cases machine.server.shared.host.mmptr.queueMsgs.single _ _ _ named found
      have before := covers mqb.1 reference store found there somebody
      have grows : machine.server.shared.pool <+: next.server.shared.pool :=
        pool ▸ List.prefix_rfl
      have awaiting : machine.awaiting mqb.1 reference ≤ next.awaiting mqb.1 reference :=
        awaiting_mono grows fun _ => awaits_of_prefix grows moves.follows.phase
      rw [coming, inHand] at before
      rw [coming, afterwards, Loop.owing, if_pos rfl]
      change (store.msgs ++ [_]).length ≤ _
      rw [List.length_append, List.length_singleton]
      exact Nat.add_le_add_right (Nat.le_trans before awaiting) 1
  | @recovered reference sql queue store messages inHand there length stores pool =>
      refine covers.update stores (fun qname named somebody => ?_) fun qname other _ =>
        mono qname other
      have shared : (QueueMessage.share store.allocated messages).length = messages.length := by
        rw [QueueMessage.share, List.length_map, List.length_zipIdx]
      change (QueueMessage.share store.allocated messages).length ≤ _
      rw [shared, length]
      exact Nat.le_trans (filled reference sql queue inHand store there qname named somebody)
        (mono qname reference)

/-- A step of a task. -/
theorem Covers.works (covers : machine.Covers attended) {index : Nat} {task : Task}
    (listed : machine.server.shared.pool[index]? = some task)
    (works : machine.Works index task world after next) : next.Covers attended := by
  have frame := works.frame
  have within := (List.getElem?_eq_some_iff.mp listed).1
  have grows : machine.server.shared.pool <+: next.server.shared.pool :=
    frame.1 ▸ List.prefix_rfl
  have loop : next.loop = machine.loop := by cases works <;> rfl
  have coming : ∀ {qname reference}, machine.awaiting qname reference ≤
      next.awaiting qname reference → machine.coming qname reference ≤ next.coming qname reference := by
    intro qname reference awaiting
    rw [Machine.coming, Machine.coming, loop]
    exact Nat.add_le_add_right awaiting _
  -- the other tasks await what they awaited
  have mono : ∀ {qname reference},
      (machine.awaits qname reference index = true → next.awaits qname reference index = true) →
      machine.coming qname reference ≤ next.coming qname reference := by
    intro qname reference own
    refine coming (awaiting_mono grows fun other awaits => ?_)
    by_cases same : other = index
    · exact same ▸ own (same ▸ awaits)
    · exact (awaits_congr (congrArg (·[other]?) frame.1) (frame.2 other same)).trans awaits
  have same := machine.server.shared.host.mmptr.quiet_refl
  -- a task that is past the store awaited nothing
  have past : ∀ {qname reference}, machine.phase index ≠ .ready →
      machine.phase index ≠ .looked reference →
      machine.coming qname reference ≤ next.coming qname reference := by
    intro qname reference started found
    refine mono fun awaits => ?_
    rcases (awaits_iff listed).mp awaits with ⟨ready, _⟩ | looked
    · exact absurd ready started
    · exact absurd looked found
  cases works with
  | missed ready opened unknown =>
      refine covers.quiet same fun qname reference store found there pending =>
        mono fun awaits => ?_
      rcases (awaits_iff listed).mp awaits with ⟨_, rfl⟩ | looked
      · exact nomatch unknown.symm.trans found
      · exact nomatch ready.symm.trans looked
  | @looks store ready opened found =>
      refine covers.quiet same fun qname reference _ named there pending => mono fun awaits => ?_
      rcases (awaits_iff listed).mp awaits with ⟨_, rfl⟩ | looked
      · cases found.symm.trans named
        exact (@awaits_iff (machine.withPhase index (.looked store)) task.queueName store index task
          listed).mpr (Or.inr (Function.update_self ..))
      · exact nomatch ready.symm.trans looked
  | @findsNothing reference looked nothing quiet =>
      refine covers.quiet quiet fun qname other store named there pending => past ?_ ?_
      · rw [looked]
        exact nofun
      · intro here
        cases looked.symm.trans here
        exact pending (nothing store there)
  | @takes reference store pointer rest looked there pending =>
      refine covers.update rfl (fun qname named somebody => ?_) fun qname other distinct =>
        past ?_ ?_
      · have before := covers qname reference store named there somebody
        rw [pending, List.length_cons] at before
        have taken := Nat.add_le_add_right
          (@awaiting_take machine _ qname reference index frame.1 within frame.2)
          (if machine.loop.owing = some qname then 1 else 0)
        rw [Nat.add_right_comm] at taken
        exact Nat.le_of_succ_le_succ (Nat.le_trans before taken)
      · rw [looked]
        exact nofun
      · intro here
        cases looked.symm.trans here
        exact distinct rfl
  | alone holds opened nobody =>
      exact covers.quiet same fun _ _ _ _ _ _ => past (by rw [holds]; nofun) (by rw [holds]; nofun)
  | asks holds found =>
      exact covers.quiet same fun _ _ _ _ _ _ => past (by rw [holds]; nofun) (by rw [holds]; nofun)
  | refused asking nobody =>
      exact covers.quiet same fun _ _ _ _ _ _ =>
        past (by rw [asking]; nofun) (by rw [asking]; nofun)
  | chooses asking somebody =>
      exact covers.quiet same fun _ _ _ _ _ _ =>
        past (by rw [asking]; nofun) (by rw [asking]; nofun)
  | delivers chosen opened =>
      exact covers.quiet same fun _ _ _ _ _ _ =>
        past (by rw [chosen]; nofun) (by rw [chosen]; nofun)
  | asksAck delivered =>
      exact covers.quiet same fun _ _ _ _ _ _ =>
        past (by rw [delivered]; nofun) (by rw [delivered]; nofun)
  | leaves delivered =>
      exact covers.quiet same fun _ _ _ _ _ _ =>
        past (by rw [delivered]; nofun) (by rw [delivered]; nofun)
  | acknowledges acking removed =>
      exact covers.quiet (MessageManager.quiet_removeFrom removed) fun _ _ _ _ _ _ =>
        past (by rw [acking]; nofun) (by rw [acking]; nofun)
  | rests ended => exact covers

/-- A step that meets the condition leaves enough tasks. -/
theorem covered_step {event : Event} (covered : machine.Covered) (unborn : machine.Unborn)
    (provided : machine.Provided event) (stepped : perform machine event = .ok next) :
    next.Covered := by
  rcases perform_cases stepped with ⟨result, after, same, moves |
    ⟨index, task, _, listed, completed⟩⟩
  all_goals
    rw [same]
    change result.Covered
  · have before : machine.Covers fun qname => result.server.shared.cmptr.registered qname ≠ [] := by
      intro qname reference store found there somebody
      by_cases nobody : machine.server.shared.cmptr.registered qname = []
      · have joined : machine.subscribed event.move = some qname :=
          Classical.byContradiction fun unsubscribed =>
            somebody (deserted_moves moves unsubscribed nobody)
        exact Nat.le_trans (provided.subscribes qname joined reference found store there)
          (Nat.le_add_right _ _)
      · exact covered qname reference store found there nobody
    by_cases proceeds : event.move = .proceed
    · refine before.moves unborn (fun reference sql queue inHand store there qname found
        somebody => ?_) moves
      have attended : machine.server.shared.cmptr.registered qname ≠ [] := by
        refine fun nobody => somebody (deserted_moves moves ?_ nobody)
        rw [subscribed_of_inHand (by rw [isIdle, inHand])]
        exact nofun
      refine Nat.le_trans (provided.fills reference ?_ store there qname
        (AList.mem_keys.mp (Dictionary.lookup_eq_some_mem found)) found attended)
        (Nat.le_add_right _ _)
      rw [proceeds, filled, inHand]
      rfl
    · exact before.quiet (moves.quiet proceeds).stores fun qname reference _ _ _ _ =>
        coming_moves unborn moves qname reference
  · refine (covered.works listed (consume_works completed)).mono fun qname somebody nobody => ?_
    exact somebody (deserted_works (consume_works completed) nobody)

/-- A queue for which a task is about to be pushed has just got a message. -/
theorem owing_moves {move : Move} {qname : Bytes} (moves : machine.Moves world after move next)
    (owes : next.loop.owing = some qname) :
    (machine.loop.owing = some qname ∧ next.server.shared = machine.server.shared) ∨
      (machine.isIdle = false ∧ machine.entered move = some qname ∧
        next.server.shared.pool = machine.server.shared.pool) := by
  cases moves with
  | stays => exact Or.inl ⟨owes, rfl⟩
  | connects => exact Or.inl ⟨owes, rfl⟩
  | disconnects idle connected => cases owes
  | accepts idle accepts =>
      have rests : machine.loop.owing ≠ some qname := by
        rw [loop_of_isIdle idle]
        exact nofun
      cases accepts with
      | handles storeless handled => exact absurd owes rests
      | refuses => exact absurd owes rests
      | publishes opened => cases owes
      | recovers introduced => cases owes
      | declares introduced => cases owes
      | deletes onward => rcases onward with rfl | ⟨store, rfl⟩ <;> cases owes
  | proceeds proceeds =>
      cases proceeds with
      | rests idle => exact Or.inl ⟨owes, rfl⟩
      | inserts inHand routed called =>
          refine Or.inr ⟨by rw [isIdle, inHand], ?_, rfl⟩
          simp only [entered, inHand, Channel.Publication.selects, routed, if_true]
          exact owes
      | _ => cases owes

theorem occupied_step {event : Event} (occupied : machine.Occupied)
    (accompanied : machine.Accompanied event) (stepped : perform machine event = .ok next) :
    next.Occupied := by
  rcases perform_cases stepped with ⟨result, after, same, moves |
    ⟨index, task, works, listed, completed⟩⟩
  all_goals
    rw [same]
    change result.Occupied
    intro qname owes somebody resting
  · rcases owing_moves moves owes with ⟨owed, stays⟩ | ⟨busy, enters, pool⟩
    · refine occupied qname owed (stays ▸ somebody) fun index within => ?_
      rw [← moves.follows.phase]
      exact resting index (stays ▸ within)
    · refine accompanied.enters qname enters (fun nobody => somebody ?_) fun index within => ?_
      · exact deserted_moves moves (by rw [subscribed_of_inHand busy]; exact nofun) nobody
      · rw [← moves.follows.phase]
        exact resting index (pool ▸ within)
  · have frame := (consume_works completed).frame
    have loop : result.loop = machine.loop := by cases consume_works completed <;> rfl
    rcases accompanied.works index (by rw [works]; rfl) qname (loop ▸ owes) fun nobody =>
      somebody (deserted_works (consume_works completed) nobody) with ⟨other, within, distinct, goes⟩
    have ended := resting other (frame.1 ▸ within)
    rw [frame.2 other distinct, goes] at ended
    cases ended

omit [Protobuf] in
/-- With a task for every message, nothing is pending when all tasks have ended, unless
one is about to be pushed. -/
theorem Covered.drainedApart (covered : machine.Covered) : machine.DrainedApart := by
  intro resting qname store selected somebody unowed
  rcases Registry.select_eq_some.mp selected with ⟨reference, found, there⟩
  have fewer := covered qname reference store found there somebody
  rw [coming, awaiting_of_resting resting, if_neg unowed] at fewer
  exact List.eq_nil_of_length_eq_zero (Nat.le_zero.mp fewer)

omit [Protobuf] in
theorem Covered.drained (covered : machine.Covered) (occupied : machine.Occupied) :
    machine.Drained := by
  intro resting qname store selected somebody
  by_cases owed : machine.loop.owing = some qname
  · exact absurd resting (occupied qname owed somebody)
  · exact covered.drainedApart resting qname store selected somebody owed

/-- A new server has no consumers. -/
theorem covered_new {database : Database} {basedir : Bytes} {server : Server}
    (started : Server.new database basedir world = .ok server after) (disk : Disk) :
    ({ server := server, disk := disk } : Machine).Covered := by
  rcases bind_eq_ok started with ⟨host, middle, made, rest⟩
  cases rest
  intro qname reference store _ _ somebody
  have vacant := @ConsumerManager.Vacant.initAll {} nofun host.qmptr.msgQueues.keys
  refine absurd (List.eq_nil_iff_forall_not_mem.mpr fun consumer member => ?_) somebody
  rcases ConsumerManager.mem_registered.mp member with ⟨unit, selected, listed⟩
  rcases Registry.select_eq_some.mp selected with ⟨place, _, there⟩
  rw [vacant place unit there] at listed
  cases listed

/-- In every interleaving from the start of a server, with whatever it has recovered, in
which a queue gets a consumer, and one with a consumer gets recovered messages, only
while there are enough tasks for what it has pending: whenever no task is queued or
running, a queue with a consumer has nothing pending, unless its task is about to be
pushed.  Nor does it then, if another task is queued or running in the meantime. -/
theorem drained_throughout {database : Database} {basedir : Bytes} {server : Server}
    (started : Server.new database basedir world = .ok server after) (disk : Disk)
    {events : List Event}
    (provided : Along perform Provided { server := server, disk := disk } events) :
    Throughout perform DrainedApart { server := server, disk := disk } events ∧
      (Along perform Accompanied { server := server, disk := disk } events →
        Throughout perform Drained { server := server, disk := disk } events) := by
  have start := covered_new started disk
  constructor
  · refine @throughout_of_along _ _ _ _ _ _ (fun machine => machine.Covered ∧ machine.Unborn)
      (fun _ kept => kept.1.drainedApart) ?_ _ _ ⟨start, fun _ _ => rfl⟩ provided
    intro machine event next kept provided stepped
    exact ⟨covered_step kept.1 kept.2 provided stepped, unborn_step kept.2 stepped⟩
  · intro accompanied
    refine @throughout_of_along _ _ _ _ _ _
      (fun machine => (machine.Covered ∧ machine.Unborn) ∧ machine.Occupied)
      (fun _ kept => kept.1.1.drained kept.2) ?_ _ _ ⟨⟨start, fun _ _ => rfl⟩, nofun⟩
      (provided.and accompanied)
    intro machine event next kept both stepped
    exact ⟨⟨covered_step kept.1.1 kept.1.2 both.1 stepped, unborn_step kept.1.2 stepped⟩,
      occupied_step kept.2 both.2 stepped⟩

end Keeping

/-! ## A restart -/

/-- A client subscribes to the queue. -/
def consuming : List Event :=
  [⟨.connect 0, []⟩, ⟨.packet 0 {} (.openChannel [] (ascii "c")), []⟩,
    ⟨.packet 0 {} (.request [] (ascii "c") (.basicConsume (ascii "t") (ascii "q") false)), []⟩]

/-- A client publishes a message. -/
def enqueuing : List Event :=
  [⟨.packet 0 {} (.request [] (ascii "c") (.basicPublish (ascii "e") none (ascii "m"))), []⟩,
    ⟨.proceed, []⟩, ⟨.proceed, []⟩, ⟨.proceed, []⟩]

/-- A message is published to a durable queue, and the server is started again. -/
def restarted : Except Fault (Server × Disk) := do
  let bound ← Server.boundDurably
  let published ← run (@perform wireFormat) bound enqueuing
  performed (@Server.new wireFormat published.server.shared.host.database []) published.disk []

/-- The client declares and binds another queue, publishes to both, subscribes to the
new one, and publishes again before the first tasks run. -/
def subscribingElsewhere : List Event :=
  [⟨.connect 0, []⟩, ⟨.packet 0 {} (.openChannel [] (ascii "c")), []⟩,
    ⟨.packet 0 {} (.request [] (ascii "c")
      (.declareQueue ⟨ascii "p", false, false, false, ∅⟩)), []⟩, ⟨.proceed, []⟩, ⟨.proceed, []⟩,
    ⟨.packet 0 {} (.request [] (ascii "c") (.queueBind (ascii "e") (ascii "p") [])), []⟩,
    ⟨.packet 0 {} (.request [] (ascii "c") (.basicPublish (ascii "e") none (ascii "m"))), []⟩] ++
  List.replicate 5 ⟨.proceed, []⟩ ++
  [⟨.packet 0 {} (.request [] (ascii "c") (.basicConsume (ascii "t") (ascii "p") false)), []⟩,
    ⟨.packet 0 {} (.request [] (ascii "c") (.basicPublish (ascii "e") none (ascii "n"))), []⟩] ++
  List.replicate 5 ⟨.proceed, []⟩ ++
  (List.range 4).flatMap fun index => List.replicate 6 ⟨.work index, []⟩

/-- The message that the next start recovers is for a queue without a consumer. -/
theorem drained_after_restart :
    ∃ server disk, restarted = .ok (server, disk) ∧
      Throughout (@perform wireFormat) DrainedApart { server := server, disk := disk }
        subscribingElsewhere ∧
      Throughout (@perform wireFormat) Drained { server := server, disk := disk }
        subscribingElsewhere := by
  have result : (do
      let found ← restarted
      return (decide (Along (@perform wireFormat) (@Provided wireFormat)
          { server := found.1, disk := found.2 } subscribingElsewhere),
        decide (Along (@perform wireFormat) Accompanied
          { server := found.1, disk := found.2 } subscribingElsewhere))) =
      (.ok (true, true) : Except Fault (Bool × Bool)) := by decide +kernel
  rcases except_bind_eq_ok result with ⟨⟨server, disk⟩, started, result⟩
  have flags := Prod.mk.inj (Except.ok.inj result)
  refine ⟨server, disk, started, ?_⟩
  rcases except_bind_eq_ok started with ⟨bound, _, started⟩
  rcases except_bind_eq_ok started with ⟨published, _, started⟩
  rcases performed_eq_ok started with ⟨world, new, _⟩
  have drains := @drained_throughout wireFormat _ world _ _ server new disk subscribingElsewhere
    (of_decide_eq_true flags.1)
  exact ⟨drains.1, drains.2 (of_decide_eq_true flags.2)⟩

/-- A message that the next start recovers stays pending, though the queue has a
consumer. -/
theorem recovered_message_stays :
    ¬ ∀ (database : Database) (world after : World) (server : Server) (disk : Disk)
      (events : List Event), @Server.new wireFormat database [] world = .ok server after →
      Throughout (@perform wireFormat) Drained { server := server, disk := disk } events := by
  intro always
  have result : (do
      let found ← restarted
      let final ← run (@perform wireFormat) { server := found.1, disk := found.2 } consuming
      return (final.server.shared.pool.length,
        (final.server.shared.cmptr.registered (ascii "q")).length,
        (final.server.shared.host.mmptr.queueMsgs.select (ascii "q")).map (·.msgs.length))) =
      (.ok (0, 1, some 1) : Except Fault (Nat × Nat × Option Nat)) := by decide +kernel
  rcases except_bind_eq_ok result with ⟨⟨server, disk⟩, started, result⟩
  rcases except_bind_eq_ok result with ⟨final, completed, result⟩
  rcases except_bind_eq_ok started with ⟨bound, _, started⟩
  rcases except_bind_eq_ok started with ⟨published, _, started⟩
  rcases performed_eq_ok started with ⟨world, new, _⟩
  rcases Prod.mk.inj (Except.ok.inj result) with ⟨nobody, counts⟩
  rcases Prod.mk.inj counts with ⟨registered, pending⟩
  rcases Option.map_eq_some_iff.mp pending with ⟨store, selected, length⟩
  have resting : final.Resting := fun index within => absurd (nobody ▸ within) (Nat.not_lt_zero _)
  have empty := (always _ _ world server disk consuming new).last completed resting (ascii "q") store
    selected fun none => by rw [none] at registered; cases registered
  rw [empty] at length
  cases length

end Machine

end ProtobufMq
