import ProtobufMq.Server.Stopping
import ProtobufMq.Server.Threads

namespace ProtobufMq

open Foundation

/-!
# Acknowledging an id that is not waiting

`QueueMessage::remove` looks the id up among the waiting messages.  When the
id is not there, a line is logged and the end iterator is used all the same,
which is not defined.  So acknowledging is safe exactly for the ids that are
waiting, in the store that the acknowledgement reaches, at the moment it gets
there.

Both kinds of acknowledgement arrive there: that of a client, whose queue and
id come from the network, and that of a task for a consumer with `auto_ack`,
which may come after the client's own, after another task's for a message of
the same id, or after the store was emptied or replaced.  Nothing else in the
server uses that iterator.
-/

/-- The code does not use the end iterator of `_waitack_msgs`. -/
abbrev Spares {α : Type} (code : FileM α) : Prop :=
  StopsBy (· ≠ Fault.waitackEnd) code

namespace MessageManager

/-- A remove of an id that is not waiting uses the end iterator. -/
theorem removeFrom_stops [Protobuf] {manager : MessageManager} {reference : Nat} {msgId : Bytes}
    {store : QueueMessage} (there : manager.queueMsgs.object reference = some store)
    (absent : msgId ∉ store.waitackMsgs) (world : World) :
    manager.removeFrom reference msgId world = .error .waitackEnd world :=
  bind_error (onStore_error there (bind_error (QueueMessage.remove_of_notMem absent world)))

end MessageManager

/-! ## The machine -/

namespace Machine

/-- The store and the id of the remove that a step makes, if it makes one. -/
def removal (machine : Machine) (event : Event) : Option (Nat × Bytes) :=
  match event.move with
  | .packet conn _ (.request _ cid (.basicAck queueName messageId)) =>
      if machine.isIdle && (machine.server.channelAt conn cid).isSome then
        (machine.server.shared.host.mmptr.queueMsgs.find queueName).map (·, messageId)
      else none
  | .work index => do
      let _ ← machine.server.shared.pool[index]?
      match machine.phase index with
      | .acking taken _ store => some (store, taken.pointer.id)
      | _ => none
  | _ => none

/-- Acknowledging does no harm in a step: the end iterator is not used, and a
remove of an id that is not waiting leaves the store and its data file as they
are. -/
structure AckSafe [Protobuf] (machine : Machine) (event : Event) : Prop where
  defined : perform machine event ≠ .error .waitackEnd
  unchanged : ∀ reference msgId store, machine.removal event = some (reference, msgId) →
    machine.server.shared.host.mmptr.queueMsgs.object reference = some store →
    msgId ∉ store.waitackMsgs →
    ∃ next, perform machine event = .ok next ∧
      next.server.shared.host.mmptr.queueMsgs.object reference = some store ∧
      next.disk store.mapper.datafile = machine.disk store.mapper.datafile

/-- The condition: the id of a remove is waiting. -/
def RemovesWaiting (machine : Machine) (event : Event) : Prop :=
  ∀ reference msgId store, machine.removal event = some (reference, msgId) →
    machine.server.shared.host.mmptr.queueMsgs.object reference = some store →
    msgId ∈ store.waitackMsgs

section Steps

variable [Protobuf] {machine : Machine}

theorem spares_proceed (machine : Machine) : Spares machine.proceed := by
  unfold proceed
  simp only
  cases machine.loop with
  | idle => exact stopsBy_pure _
  | publishing address publication rest =>
      cases rest with
      | nil => exact stopsBy_pure _
      | cons mqb rest =>
          exact stopsBy_bind (Channel.stopsBy_insertTurn ⟨nofun, nofun⟩ nofun _ _ _)
            fun _ => stopsBy_pure _
  | pushing address publication queueName rest => exact stopsBy_pure _
  | recovering store sql queue =>
      exact stopsBy_bind (MessageManager.stopsBy_recover ⟨nofun, nofun⟩ nofun _ _)
        fun _ => stopsBy_pure _
  | declaring sql queue => exact stopsBy_pure _
  | clearing store sql queueName =>
      exact stopsBy_bind (MessageManager.stopsBy_clearStore nofun _ _) fun _ => stopsBy_pure _
  | deleting sql queueName => exact stopsBy_pure _
  | closing rest =>
      cases rest with
      | nil => exact stopsBy_pure _
      | cons channel rest =>
          refine stopsBy_bind (stopsBy_ofExcept fun fault stopped => ?_) fun _ => stopsBy_pure _
          rw [Channel.destroy_eq_error stopped]
          exact nofun

/-- Of the first steps of requests, only that of `basicAck` removes something. -/
theorem spares_accept {conn : Nat} {chance : Chance} {packet : Packet} {script : List Outcome}
    (idle : machine.isIdle = true)
    (waiting : machine.RemovesWaiting ⟨.packet conn chance packet, script⟩) :
    Spares (machine.accept conn chance packet) := by
  have served : Spares (machine.server.handle conn chance packet) := by
    refine machine.server.stopsBy_handle conn chance ?_
      fun rid cid request channel same opened => ?_
    · intro rid cid connection _ _ fault stopped
      rw [Server.closeChannel_eq_error stopped]
      exact nofun
    · subst same
      refine channel.stopsBy_handle ⟨nofun, nofun⟩ nofun nofun machine.server.shared chance ?_ ?_
      · intro queueName messageId same
        subst same
        refine Channel.stopsBy_basicAck ⟨nofun, nofun⟩ nofun
          fun reference store found there => Or.inl ?_
        refine waiting reference messageId store ?_ there
        simp only [removal, idle, opened, Option.isSome_some, Bool.and_self, if_true, found]
        rfl
      · intro consumerTag queueName _ fault stopped
        rw [Channel.basicCancel_eq_error stopped]
        exact nofun
  have whole : Spares (do
      let done ← machine.server.handle conn chance packet
      return { machine with server := done.2 } : FileM Machine) :=
    stopsBy_bind served fun _ => stopsBy_pure _
  cases packet with
  | openChannel rid cid => exact whole
  | closeChannel rid cid => exact whole
  | request rid cid request =>
      unfold accept
      simp only
      cases machine.server.channelAt conn cid with
      | none => cases request <;> exact whole
      | some channel =>
          cases request with
          | basicPublish exchangeName properties body =>
              simp only
              cases machine.server.shared.host.selectExchange exchangeName <;> exact stopsBy_pure _
          | declareQueue queue =>
              exact stopsBy_bind (MessageManager.stopsBy_introduce nofun _ _)
                fun _ => stopsBy_pure _
          | deleteQueue queueName => exact stopsBy_pure _
          | declareExchange exchange => exact whole
          | deleteExchange exchangeName => exact whole
          | queueBind exchangeName queueName bindingKey => exact whole
          | queueUnbind exchangeName queueName => exact whole
          | basicAck queueName messageId => exact whole
          | basicConsume consumerTag queueName autoAck => exact whole
          | basicCancel consumerTag queueName => exact whole

/-- Of the steps of a task, only the last one of an automatic acknowledgement
removes something. -/
theorem spares_work {index : Nat} {script : List Outcome}
    (waiting : machine.RemovesWaiting ⟨.work index, script⟩) : Spares (machine.work index) := by
  unfold work
  cases listed : machine.server.shared.pool[index]? with
  | none => exact stopsBy_pure _
  | some task =>
      simp only [consume]
      cases phase : machine.phase index with
      | ready => exact stopsBy_ite (stopsBy_pure _) (stopsBy_throw nofun)
      | looked store => exact stopsBy_pure _
      | taken taken => exact stopsBy_ite (stopsBy_pure _) (stopsBy_throw nofun)
      | asking taken unit => exact stopsBy_pure _
      | chosen taken choice => exact stopsBy_ite (stopsBy_pure _) (stopsBy_throw nofun)
      | delivered taken choice =>
          exact stopsBy_ite (stopsBy_ite (stopsBy_pure _) (stopsBy_throw nofun)) (stopsBy_pure _)
      | acking taken choice store =>
          refine stopsBy_bind (MessageManager.stopsBy_removeFrom ⟨nofun, nofun⟩ nofun
            fun stored there => Or.inl ?_) fun _ => stopsBy_pure _
          refine waiting store taken.pointer.id stored ?_ there
          simp only [removal, listed, phase]
          rfl
      | ended outcome => exact stopsBy_pure _

theorem spares_step {event : Event} (waiting : machine.RemovesWaiting event) :
    Spares (machine.step event.move) := by
  rcases event with ⟨move, script⟩
  cases move with
  | connect conn => exact stopsBy_pure _
  | disconnect conn => exact stopsBy_pure _
  | packet conn chance packet =>
      simp only [step]
      cases idle : machine.isIdle with
      | false => exact stopsBy_pure _
      | true => exact spares_accept idle waiting
  | proceed => exact spares_proceed machine
  | work index => exact spares_work waiting

/-- A remove of an id that is not waiting stops the machine. -/
theorem perform_removal {event : Event} {reference : Nat} {msgId : Bytes} {store : QueueMessage}
    (removes : machine.removal event = some (reference, msgId))
    (there : machine.server.shared.host.mmptr.queueMsgs.object reference = some store)
    (absent : msgId ∉ store.waitackMsgs) : perform machine event = .error .waitackEnd := by
  suffices stopped : machine.step event.move ⟨machine.disk, event.script⟩ =
      .error .waitackEnd ⟨machine.disk, event.script⟩ by
    rw [perform, performed_error stopped]
    rfl
  have struck := MessageManager.removeFrom_stops there absent ⟨machine.disk, event.script⟩
  rcases event with ⟨move, script⟩
  match move, removes with
  | .packet conn chance (.request rid cid (.basicAck queueName messageId)), removes =>
      simp only [removal] at removes
      cases idle : machine.isIdle with
      | false => simp [idle] at removes
      | true =>
          cases opened : machine.server.channelAt conn cid with
          | none => simp [idle, opened] at removes
          | some channel =>
              simp only [idle, opened, Option.isSome_some, Bool.and_self, if_true] at removes
              rcases Option.map_eq_some_iff.mp removes with ⟨found, lookup, same⟩
              cases same
              have acknowledged : Channel.basicAck machine.server.shared queueName msgId
                  ⟨machine.disk, script⟩ = .error .waitackEnd ⟨machine.disk, script⟩ := by
                apply bind_error
                apply bind_error
                rw [MessageManager.ack, lookup]
                exact struck
              rcases Option.bind_eq_some_iff.mp opened with ⟨connection, connected, channelOpened⟩
              have served : machine.server.handle conn chance
                  (.request rid cid (.basicAck queueName msgId)) ⟨machine.disk, script⟩ =
                    .error .waitackEnd ⟨machine.disk, script⟩ := by
                simp only [Server.handle, connected, channelOpened]
                apply bind_error
                exact bind_error acknowledged
              simp only [step, idle, if_true, accept, opened]
              exact bind_error served
  | .work index, removes =>
      simp only [removal] at removes
      rcases Option.bind_eq_some_iff.mp removes with ⟨task, listed, inPhase⟩
      cases phase : machine.phase index with
      | acking taken choice found =>
          rw [phase] at inPhase
          cases inPhase
          simp only [step, work, listed, consume, phase]
          exact bind_error struck
      | _ =>
          rw [phase] at inPhase
          cases inPhase

/-- Acknowledging does no harm in exactly the steps whose remove finds its id
waiting. -/
theorem ackSafe_iff {event : Event} : machine.AckSafe event ↔ machine.RemovesWaiting event := by
  constructor
  · intro safe reference msgId store removes there
    by_contra absent
    exact safe.defined (perform_removal removes there absent)
  · intro waiting
    refine ⟨fun stopped => ?_, fun reference msgId store removes there absent =>
      absurd (waiting reference msgId store removes there) absent⟩
    rcases performed_eq_error (except_map_eq_error stopped) with ⟨world, ran⟩
    exact spares_step waiting _ _ _ ran rfl

/-- Acknowledging does no harm in any step of an interleaving if and only if the
id of every remove is waiting when the remove is made. -/
theorem ackSafe_along_iff (machine : Machine) (events : List Event) :
    Along perform AckSafe machine events ↔ Along perform RemovesWaiting machine events :=
  ⟨Along.mono fun _ _ => ackSafe_iff.mp, Along.mono fun _ _ => ackSafe_iff.mpr⟩

end Steps

/-- A client opens a channel and declares a queue. -/
def declaring : List Event :=
  [⟨.connect 0, []⟩, ⟨.packet 0 {} (.openChannel [] (ascii "c")), []⟩,
    ⟨.packet 0 {} (.request [] (ascii "c")
      (.declareQueue ⟨ascii "q", false, false, false, ∅⟩)), []⟩,
    ⟨.proceed, []⟩, ⟨.proceed, []⟩]

/-- The client acknowledges an id that was never issued. -/
theorem unknown_id_uses_the_end :
    ¬ ∀ events : List Event, Along (@perform wireFormat) (@AckSafe wireFormat)
      { server := Server.fresh [], disk := fun _ => none } events := by
  intro always
  have safe := (always (declaring ++ [⟨.packet 0 {} (.request [] (ascii "c")
    (.basicAck (ascii "q") (ascii "x"))), []⟩])).last rfl
  exact safe.defined rfl

end Machine

end ProtobufMq
