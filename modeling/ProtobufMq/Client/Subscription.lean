import ProtobufMq.Client.Responses

namespace ProtobufMq
namespace Client

open Foundation

/-!
# What is pushed around a subscription

The server pushes as soon as it has registered the consumer.  The client installs
its consumer later: the response has to go through the pool, wake the thread
inside `basicConsume`, and that thread has to run.  A message whose task is run
before that is dropped.

A pushed message is on the way, in the pool, or handed to the callback, as long
as every task that is run finds the consumer.
-/

/-- The message that a task consumes. -/
def Task.message : Task → Option Push
  | .putBasicResponse _ => none
  | .consume push => some push

@[simp] theorem Task.message_putBasicResponse (resp : Response) :
    (Task.putBasicResponse resp).message = none := rfl

@[simp] theorem Task.message_consume (push : Push) : (Task.consume push).message = some push := rfl

namespace Machine

/-- The pushed messages that no callback has been called with yet. -/
def undelivered (machine : Machine) : List Push :=
  machine.transit.filterMap (fun arrival => arrival.task.message) ++
    machine.unexecuted.filterMap Task.message

/-- Every message that the server has pushed is handed to the callback, or will be. -/
def Kept (machine : Machine) : Prop :=
  machine.pushed.Perm (machine.undelivered ++ machine.handed)

/-- A task that consumes a message is run when the consumer with its tag is installed. -/
def Installed (machine : Machine) : Event → Prop
  | .execute index _ => ∀ push rest,
      machine.workers[index]? = some ⟨.consume push :: rest, none⟩ →
        (machine.receiver push).isSome = true
  | _ => True

section Messages

variable {machine next : Machine}

/-- A step that loses no message keeps all of them. -/
theorem Kept.balanced (kept : machine.Kept)
    (balance : ∀ push, next.pushed.count push + (machine.undelivered ++ machine.handed).count push =
      machine.pushed.count push + (next.undelivered ++ next.handed).count push) : next.Kept := by
  refine List.perm_iff_count.mpr fun push => ?_
  have before := List.perm_iff_count.mp kept push
  have change := balance push
  omega

/-- A worker takes the next task of its batch, and what it consumes is in hand. -/
theorem Kept.executed (kept : machine.Kept) {index : Nat} {task : Task} {rest : List Task}
    {acking : Option Calling} (there : machine.workers[index]? = some ⟨task :: rest, none⟩)
    (pushed : next.pushed = machine.pushed) (transit : next.transit = machine.transit)
    (taskpool : next.taskpool = machine.taskpool)
    (workers : next.workers = machine.workers.set index ⟨rest, acking⟩)
    (handed : next.handed = machine.handed ++ task.message.toList) : next.Kept := by
  rcases split_at there with ⟨before, after, whole, set, _⟩
  refine kept.balanced fun push => ?_
  simp only [undelivered, unexecuted, pushed, transit, taskpool, workers, handed, set]
  rw [whole]
  cases task with
  | putBasicResponse resp =>
      simp only [Task.message_putBasicResponse, Option.toList_none, List.filterMap_append,
        List.flatMap_append, List.flatMap_cons, List.filterMap_cons, List.count_append,
        List.append_nil]
  | consume message =>
      simp only [Task.message_consume, Option.toList_some, List.filterMap_append,
        List.flatMap_append, List.flatMap_cons, List.cons_append, List.filterMap_cons,
        List.count_append, List.count_cons, List.count_nil]
      omega

/-- A task that finds its consumer loses no message. -/
theorem kept_turn {event : Event} (kept : machine.Kept) (installed : machine.Installed event)
    (turn : Turn machine event next) : next.Kept := by
  cases turn with
  | @pushed push known =>
      refine kept.balanced fun other => ?_
      simp only [undelivered, unexecuted, List.filterMap_append, List.count_append,
        List.filterMap_cons, Arrival.task, Task.message_consume, List.filterMap_nil]
      omega
  | @replied index ok packet there =>
      refine kept.balanced fun other => ?_
      simp only [undelivered, unexecuted, List.filterMap_append, List.filterMap_cons, Arrival.task,
        Task.message_putBasicResponse, List.filterMap_nil, List.append_nil]
  | @arrived index arrival there =>
      rcases split_at there with ⟨before, after, whole, _, erased⟩
      refine kept.balanced fun other => ?_
      simp only [undelivered, unexecuted, erased]
      rw [whole]
      simp only [List.filterMap_append, List.filterMap_cons, List.count_append]
      cases arrival.task with
      | putBasicResponse resp =>
          simp only [Task.message_putBasicResponse, List.filterMap_nil, List.count_nil]
          omega
      | consume push =>
          simp only [Task.message_consume, List.filterMap_nil, List.count_cons, List.count_nil]
          omega
  | @fetched index there =>
      rcases split_at there with ⟨before, after, whole, set, _⟩
      refine kept.balanced fun other => ?_
      simp only [undelivered, unexecuted, withWorker, set]
      rw [whole]
      simp only [List.filterMap_append, List.filterMap_nil, List.flatMap_append, List.flatMap_cons,
        List.count_append, List.count_nil]
      omega
  | put there found =>
      exact kept.executed there rfl rfl rfl rfl (List.append_nil _).symm
  | misput there missing =>
      exact kept.executed there rfl rfl rfl rfl (List.append_nil _).symm
  | @ignored index rid push rest there nobody =>
      rcases Option.isSome_iff_exists.mp (installed push rest there) with ⟨consumer, accepts⟩
      rcases Option.bind_eq_some_iff.mp accepts with ⟨channel, found, accepts⟩
      cases (nobody channel found).symm.trans accepts
  | handed there found accepts returns => exact kept.executed there rfl rfl rfl rfl rfl
  | acked there found accepts acknowledges fresh sent =>
      exact kept.executed there rfl rfl rfl rfl rfl
  | @resumed index rest calling resp channel there answered =>
      rcases split_at there with ⟨before, after, whole, set, _⟩
      refine kept.balanced fun other => ?_
      simp only [undelivered, unexecuted, withWorker, withChannel, set]
      rw [whole]
      simp only [List.flatMap_append, List.flatMap_cons]
  | _ => exact kept

/-- Without its consumer a message is dropped. -/
theorem execute_of_missing {index : Nat} {rid : Bytes} {push : Push} {rest : List Task}
    (there : machine.workers[index]? = some ⟨.consume push :: rest, none⟩)
    (missing : machine.receiver push = none) :
    machine.execute index rid = machine.withWorker index ⟨rest, none⟩ := by
  unfold receiver at missing
  unfold execute
  simp only [there]
  cases found : machine.channels.lookup push.cid with
  | none => rfl
  | some channel =>
      rw [found, Option.bind_some] at missing
      simp only [missing]

/-- A dropped message is not handed to anybody any more. -/
theorem Kept.not_dropped (kept : machine.Kept) {index : Nat} {push : Push} {rest : List Task}
    (there : machine.workers[index]? = some ⟨.consume push :: rest, none⟩) :
    ¬ (machine.withWorker index ⟨rest, none⟩).Kept := by
  intro after
  have same := kept.symm.trans after
  rcases split_at there with ⟨before, later, whole, set, _⟩
  have fewer := List.perm_iff_count.mp same push
  simp only [undelivered, unexecuted, withWorker, set] at fewer
  rw [whole] at fewer
  simp only [Task.message_consume, List.filterMap_append, List.flatMap_append, List.flatMap_cons,
    List.cons_append, List.filterMap_cons, List.count_append, List.count_cons, beq_self_eq_true,
    if_true] at fewer
  omega

end Messages

/-- Every message that is pushed for a registered tag is handed to the callback, or
still on its way to it, throughout a run exactly when every task that consumes a
message is run with the consumer installed. -/
theorem kept_throughout_iff (workers : Nat) (events : List Event) :
    Throughout perform Kept (start workers) events ↔
      Along perform Installed (start workers) events := by
  refine throughout_iff_along_of_stopping (fun _ kept => kept) ?_ ?_ ?_
  · intro machine event next kept installed stepped
    exact kept_turn kept installed (perform_turn stepped)
  · intro machine event kept onward
    cases event with
    | execute index rid =>
        intro push rest there
        refine Option.isSome_iff_ne_none.mpr fun missing => kept.not_dropped there ?_
        rw [← @execute_of_missing _ index rid push rest there missing]
        exact onward _ rfl
    | _ => trivial
  · unfold Kept undelivered unexecuted start
    simp

/-- The response and the first message arrive, a worker runs both tasks, and only then
the thread inside `basicConsume` goes on. -/
def early : List Event :=
  [.createChannel [1], .call [1] [2] (.basicConsume ⟨[3], [4], false, true⟩), .register 0,
    .reply 0 true, .push ⟨[1], [3], none, [5]⟩, .arrive 0, .arrive 0, .fetch 0, .execute 0 [],
    .execute 0 [], .wake 0, .finish 0]

/-- Not every message that is pushed for a registered tag is handed to the callback. -/
theorem early_message_is_dropped :
    ¬ ∀ workers events, Throughout perform Kept (start workers) events := by
  intro always
  have result : (run perform (start 5) early).map
      (fun final => decide (final.pushed.length =
        (final.undelivered ++ final.handed).length)) = .ok false := by decide +kernel
  rcases except_map_eq_ok result with ⟨final, completes, dropped⟩
  exact of_decide_eq_false dropped ((always 5 early).last completes).length_eq

end Machine

end Client
end ProtobufMq
