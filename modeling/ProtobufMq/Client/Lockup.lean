import ProtobufMq.Client.Responses

namespace ProtobufMq
namespace Client

open Foundation

/-!
# How the workers of the client lock themselves up

A callback that acknowledges blocks its worker until the response is in the map
of the channel, and only a worker puts it there.  Once every worker waits and
none of their responses is in a map, none ever gets there: the responses that
arrive stay in the pool.

That happens when a callback of that kind is called while every other worker
waits for a response that has not been put.  One worker is enough for it, and
so is any other number.
-/

namespace Machine

/-- Every worker waits, and what it waits for has been received and not put. -/
def Locked (machine : Machine) : Prop :=
  ∀ worker ∈ machine.workers, ∃ calling ∈ worker.acking,
    ∃ task ∈ machine.unexecuted, task.ids = some calling.ids

instance (machine : Machine) : Decidable machine.Locked :=
  inferInstanceAs (Decidable (∀ worker ∈ machine.workers, ∃ calling ∈ worker.acking,
    ∃ task ∈ machine.unexecuted, task.ids = some calling.ids))

/-- The worker does not wait, or its response is there to be taken. -/
def free (machine : Machine) (worker : Worker) : Bool :=
  worker.acking.all fun calling => (machine.response calling.ids).isSome

/-- The next task of the worker calls a callback that acknowledges. -/
def acknowledges (machine : Machine) (index : Nat) : Bool :=
  match machine.workers[index]? with
  | some ⟨.consume push :: _, none⟩ => (machine.receiver push).any Consumer.acknowledges
  | _ => false

/-- A callback that acknowledges is called only while another worker is free. -/
def Careful (machine : Machine) : Event → Prop
  | .execute index rid => machine.acknowledges index = true → rid ∉ machine.issued →
      ∃ worker ∈ machine.workers.eraseIdx index, machine.free worker = true
  | _ => True

instance (machine : Machine) : (event : Event) → Decidable (machine.Careful event)
  | .execute index rid => inferInstanceAs (Decidable (machine.acknowledges index = true →
      rid ∉ machine.issued → ∃ worker ∈ machine.workers.eraseIdx index,
        machine.free worker = true))
  | .createChannel _ | .call _ _ _ | .register _ | .deregister _ | .reply _ _ | .push _
  | .arrive _ | .fetch _ | .resume _ | .wake _ | .finish _ => .isTrue trivial

section Freedom

variable {machine next : Machine}

/-- A worker that is not free waits, and its response is not there. -/
theorem free_eq_false_iff {worker : Worker} :
    machine.free worker = false ↔
      ∃ calling, worker.acking = some calling ∧ machine.response calling.ids = none := by
  unfold free
  cases worker.acking with
  | none => exact ⟨nofun, nofun⟩
  | some calling =>
      rw [Option.all_some, Option.isSome_eq_false_iff, Option.isNone_iff_eq_none]
      exact ⟨fun missing => ⟨calling, rfl, missing⟩,
        fun ⟨_, same, missing⟩ => Option.some.inj same ▸ missing⟩

/-- A worker stays free as long as its response stays there. -/
theorem free_mono {worker : Worker} (freed : machine.free worker = true)
    (stays : ∀ calling, worker.acking = some calling →
      next.response calling.ids = machine.response calling.ids) : next.free worker = true := by
  cases waits : worker.acking with
  | none => rw [free, waits, Option.all_none]
  | some calling =>
      rw [free, waits, Option.all_some] at freed ⊢
      rw [stays calling waits]
      exact freed

/-- The task that calls such a callback. -/
theorem acknowledges_of_accepts {index : Nat} {push : Push} {rest : List Task} {channel : Channel}
    {consumer : Consumer}
    (there : machine.workers[index]? = some ⟨.consume push :: rest, none⟩)
    (found : machine.channels.lookup push.cid = some channel)
    (accepts : channel.consume push = some consumer) :
    machine.acknowledges index = consumer.acknowledges := by
  rw [acknowledges, there]
  simp only [receiver, found, Option.bind_some, accepts, Option.any_some]

/-- A worker and a caller do not wait for the same response. -/
theorem Accounted.apart (accounted : machine.Accounted) {worker : Worker} {caller calling : Calling}
    (calls : caller ∈ machine.callers) (works : worker ∈ machine.workers)
    (waits : worker.acking = some calling) : calling.ids ≠ caller.ids := by
  intro same
  have single := accounted.single
  rw [waiting, List.map_append, List.nodup_append] at single
  refine single.2.2 caller.ids.2 (List.mem_map_of_mem (List.mem_map_of_mem calls)) calling.ids.2
    ?_ (congrArg Prod.snd same.symm)
  exact List.mem_map_of_mem (List.mem_filterMap.mpr ⟨worker, works, by rw [waits]; rfl⟩)

/-- A careful step leaves a worker free. -/
theorem free_turn {event : Event} (accounted : machine.Accounted)
    (somebody : ∃ worker ∈ machine.workers, machine.free worker = true)
    (careful : machine.Careful event) (turn : Turn machine event next) :
    ∃ worker ∈ next.workers, next.free worker = true := by
  rcases somebody with ⟨worker, member, freed⟩
  -- the worker that has just run a task of its batch, or taken the batch, is free
  have runs : ∀ {index : Nat} {before after : Worker} {batch : List Task},
      machine.workers[index]? = some before → after = ⟨batch, none⟩ →
      after ∈ machine.workers.set index after := by
    intro index before after batch there _
    exact List.mem_set (List.getElem?_eq_some_iff.mp there).1 after
  cases turn with
  | @created cid absent =>
      refine ⟨worker, member, free_mono freed fun calling _ => ?_⟩
      unfold response
      rw [Dictionary.lookup_insert]
      by_cases same : calling.ids.1 = cid
      · rw [if_pos same, same, AList.lookup_eq_none.mpr absent]
        rfl
      · rw [if_neg same]
  | fetched there => exact ⟨_, runs there rfl, rfl⟩
  | put there found => exact ⟨_, runs there rfl, rfl⟩
  | misput there missing => exact ⟨_, runs there rfl, rfl⟩
  | ignored there nobody => exact ⟨_, runs there rfl, rfl⟩
  | handed there found accepts returns => exact ⟨_, runs there rfl, rfl⟩
  | resumed there answered => exact ⟨_, runs there rfl, rfl⟩
  | @acked index rid push rest channel consumer packet there found accepts acknowledges fresh sent =>
      rcases careful ((acknowledges_of_accepts there found accepts).trans acknowledges) fresh with
        ⟨other, otherMember, otherFree⟩
      rcases split_at there with ⟨before, after, whole, set, erased⟩
      refine ⟨other, ?_, otherFree⟩
      change other ∈ machine.workers.set index _
      rw [set]
      rw [erased] at otherMember
      rcases List.mem_append.mp otherMember with earlier | later
      · exact List.mem_append_left _ earlier
      · exact List.mem_append_right _ (List.mem_cons_of_mem _ later)
  | @woke index caller resp channel there answered =>
      refine ⟨worker, member, free_mono freed fun calling waits => ?_⟩
      exact ((answer_eq_some answered).2.2 calling.ids).trans
        (if_neg (accounted.apart (List.mem_of_getElem? there) member waits))
  | finished there done =>
      exact ⟨worker, member, free_mono freed fun calling _ => response_finish done calling.ids⟩
  | _ => exact ⟨worker, member, freed⟩

/-- Where a worker is free, the pool is not locked up. -/
theorem Accounted.not_locked (accounted : machine.Accounted)
    (somebody : ∃ worker ∈ machine.workers, machine.free worker = true) : ¬ machine.Locked := by
  intro locked
  rcases somebody with ⟨worker, member, freed⟩
  rcases locked worker member with ⟨calling, waits, task, unexecuted, own⟩
  rw [free, waits, Option.all_some, Option.isSome_iff_exists] at freed
  rcases freed with ⟨stored, there⟩
  apply accounted.rests calling.ids stored there
  apply List.mem_map_of_mem
  rcases List.mem_append.mp unexecuted with pooled | batched
  · exact List.mem_append_left _ (List.mem_append_right _
      (List.mem_filterMap.mpr ⟨task, pooled, own⟩))
  · rcases List.mem_flatMap.mp batched with ⟨other, works, held⟩
    exact List.mem_append_right _ (List.mem_flatMap.mpr
      ⟨other, works, List.mem_filterMap.mpr ⟨task, held, own⟩⟩)

end Freedom

/-! ## The condition is what it takes -/

section Careless

variable {machine next : Machine}

/-- The server may answer all requests. -/
theorem answers_all (machine : Machine) : ∃ events next,
    (∀ event ∈ events, event = .reply 0 true) ∧ run perform machine events = .ok next ∧
      next.requests = [] ∧ next.workers = machine.workers ∧
      next.channels = machine.channels := by
  rcases machine with ⟨channels, taskpool, workers, callers, woken, returned, requests, registered,
    transit, issued, pushed, handed⟩
  induction requests generalizing transit with
  | nil => exact ⟨[], _, nofun, rfl, rfl, rfl, rfl⟩
  | cons packet rest inductionHypothesis =>
      rcases inductionHypothesis (transit ++ [.response ⟨packet.rid, packet.cid, true⟩]) with
        ⟨events, next, replies, completes, none, same, table⟩
      exact ⟨.reply 0 true :: events, next, List.forall_mem_cons.mpr ⟨rfl, replies⟩, completes,
        none, same, table⟩

/-- What is on the way arrives, if its channel is in the table. -/
theorem perform_arrive {index : Nat} {arrival : Arrival}
    (there : machine.transit[index]? = some arrival) (found : arrival.cid ∈ machine.channels) :
    perform machine (.arrive index) = .ok { machine with
      transit := machine.transit.eraseIdx index
      taskpool := machine.taskpool ++ [arrival.task] } := by
  rcases Dictionary.mem_iff_lookup.mp found with ⟨channel, known⟩
  change machine.arrive index = _
  rw [arrive, there]
  simp only [known]

/-- All that is on the way may arrive. -/
theorem arrives_all (machine : Machine)
    (found : ∀ arrival ∈ machine.transit, arrival.cid ∈ machine.channels) : ∃ events next,
    (∀ event ∈ events, event = .arrive 0) ∧ run perform machine events = .ok next ∧
      next.transit = [] ∧ next.requests = machine.requests ∧ next.workers = machine.workers ∧
      next.channels = machine.channels := by
  rcases machine with ⟨channels, taskpool, workers, callers, woken, returned, requests, registered,
    transit, issued, pushed, handed⟩
  induction transit generalizing taskpool with
  | nil => exact ⟨[], _, nofun, rfl, rfl, rfl, rfl, rfl⟩
  | cons arrival rest inductionHypothesis =>
      rcases inductionHypothesis (taskpool ++ [arrival.task])
        (fun other member => found other (List.mem_cons_of_mem _ member)) with
        ⟨events, next, arrivals, completes, none, open', same, table⟩
      refine ⟨.arrive 0 :: events, next, List.forall_mem_cons.mpr ⟨rfl, arrivals⟩, ?_, none, open',
        same, table⟩
      exact (run_cons_ok (perform_arrive rfl (found arrival List.mem_cons_self))).trans completes

/-- Where no worker is free, the answers of the server lock the pool up. -/
theorem Tracked.locks (tracked : machine.Tracked)
    (nobody : ∀ worker ∈ machine.workers, machine.free worker = false) : ∃ events final,
    (∀ event ∈ events, event = .reply 0 true ∨ event = .arrive 0) ∧
      run perform machine events = .ok final ∧ final.Locked := by
  rcases answers_all machine with ⟨replies, middle, areReplies, first, none, workers, channels⟩
  have halfway : middle.Tracked := run_invariant tracked_step tracked
    (along_trivial perform machine replies) first
  rcases arrives_all middle halfway.delivered.found with
    ⟨arrivals, final, areArrivals, second, empty, requests, sameWorkers, sameChannels⟩
  have kept : final.Tracked := run_invariant tracked_step halfway
    (along_trivial perform middle arrivals) second
  refine ⟨replies ++ arrivals, final, ?_, (run_append first).trans second, ?_⟩
  · intro event member
    rcases List.mem_append.mp member with early | late
    · exact Or.inl (areReplies event early)
    · exact Or.inr (areArrivals event late)
  · intro worker member
    rw [sameWorkers, workers] at member
    rcases free_eq_false_iff.mp (nobody worker member) with ⟨calling, waits, missing⟩
    have same : final.response calling.ids = machine.response calling.ids := by
      rw [response, response, sameChannels, channels]
    have listed : calling.ids ∈ final.waiting := List.mem_append_right _
      (List.mem_filterMap.mpr ⟨worker, by rw [sameWorkers, workers]; exact member,
        by rw [waits]; rfl⟩)
    refine ⟨calling, waits, ?_⟩
    rcases (kept.1.awaited calling.ids).mp listed with moves | there
    · rw [moving, requests, none, empty, List.append_assoc] at moves
      change calling.ids ∈ final.taskpool.filterMap Task.ids ++
        final.workers.flatMap (fun worker => worker.batch.filterMap Task.ids) at moves
      rcases List.mem_append.mp moves with pooled | batched
      · rcases List.mem_filterMap.mp pooled with ⟨task, among, own⟩
        exact ⟨task, List.mem_append_left _ among, own⟩
      · rcases List.mem_flatMap.mp batched with ⟨other, works, held⟩
        rcases List.mem_filterMap.mp held with ⟨task, among, own⟩
        exact ⟨task, List.mem_append_right _ (List.mem_flatMap.mpr ⟨other, works, among⟩), own⟩
    · rw [same, missing] at there
      cases there

/-- What a worker does when its next task calls a callback that acknowledges. -/
theorem execute_of_acknowledges {index : Nat} {rid : Bytes}
    (acknowledges : machine.acknowledges index = true) (fresh : rid ∉ machine.issued) :
    ∃ push rest packet, machine.workers[index]? = some ⟨.consume push :: rest, none⟩ ∧
      machine.execute index rid = { machine.sending packet with
        workers := machine.workers.set index
          ⟨rest, some ⟨push.cid, rid, .basicAck push.messageId⟩⟩
        handed := machine.handed ++ [push] } := by
  unfold Machine.acknowledges at acknowledges
  split at acknowledges
  · rename_i push rest there
    rcases (Option.any_eq_true _ _).mp acknowledges with ⟨consumer, bound, returns⟩
    rcases Option.bind_eq_some_iff.mp bound with ⟨channel, found, accepts⟩
    have subscribed := (channel.consume_eq_some.mp accepts).1
    refine ⟨push, rest, channel.ask rid (.basicAck consumer.qname push.messageId), there, ?_⟩
    unfold execute
    simp only [there, found, accepts, callback, returns, if_true, Channel.basicAck, subscribed,
      Option.map_some, if_neg fresh]
    rfl
  · cases acknowledges

/-- After a careless step, the answers of the server lock the pool up. -/
theorem Tracked.locks_of_careless (tracked : machine.Tracked) {event : Event}
    (careless : ¬ machine.Careful event) (stepped : perform machine event = .ok next) :
    ∃ events final, (∀ event ∈ events, event = .reply 0 true ∨ event = .arrive 0) ∧
      run perform next events = .ok final ∧ final.Locked := by
  have onward := tracked_step machine event next tracked trivial stepped
  apply onward.locks
  cases event with
  | execute index rid =>
      cases stepped
      unfold Careful at careless
      push Not at careless
      rcases careless with ⟨acknowledges, fresh, nobody⟩
      rcases execute_of_acknowledges acknowledges fresh with ⟨push, rest, packet, there, same⟩
      rcases split_at there with ⟨before, after, whole, set, erased⟩
      rw [same]
      intro worker member
      change worker ∈ machine.workers.set index _ at member
      rw [set] at member
      rw [erased] at nobody
      rcases List.mem_append.mp member with earlier | later
      · exact Bool.eq_false_iff.mpr (nobody worker (List.mem_append_left _ earlier))
      · rcases List.mem_cons.mp later with rfl | other
        · refine free_eq_false_iff.mpr ⟨_, rfl, Option.eq_none_iff_forall_ne_some.mpr ?_⟩
          intro resp stored
          have awaited := (tracked.1.awaited (push.cid, rid)).mpr
            (Or.inr (Option.isSome_iff_exists.mpr ⟨resp, stored⟩))
          exact fresh (tracked.1.young _ awaited)
        · exact Bool.eq_false_iff.mpr (nobody worker (List.mem_append_right _ other))
  | _ => exact absurd trivial careless

end Careless

/-- A pool with a worker does not lock itself up in a run that calls a callback that
acknowledges only while another worker is free. -/
theorem unlocked_throughout {workers : Nat} (staffed : 0 < workers) {events : List Event}
    (careful : Along perform Careful (start workers) events) :
    Throughout perform (fun machine => ¬ machine.Locked) (start workers) events := by
  refine @throughout_of_along _ _ _ _ _ _
    (fun machine => machine.Tracked ∧ ∃ worker ∈ machine.workers, machine.free worker = true)
    (fun machine holds => holds.1.1.not_locked holds.2) ?_ _ _ ⟨tracked_start workers, ?_⟩ careful
  · intro machine event next holds conforms stepped
    exact ⟨tracked_step machine event next holds.1 trivial stepped,
      free_turn holds.1.1 holds.2 conforms (perform_turn stepped)⟩
  · exact ⟨{}, List.mem_replicate.mpr ⟨Nat.ne_of_gt staffed, rfl⟩, rfl⟩

/-- A channel that subscribes, with a callback that acknowledges. -/
def subscription : List Event :=
  [.createChannel [1], .call [1] [2] (.basicConsume ⟨[3], [4], false, true⟩), .register 0,
    .reply 0 true, .arrive 0, .fetch 0, .execute 0 [], .wake 0, .finish 0]

/-- A message is pushed and a worker of the pool runs the callback. -/
def delivery (worker : Nat) : List Event :=
  [.push ⟨[1], [3], none, [5]⟩, .arrive 0, .fetch worker,
    .execute worker [6, UInt8.ofNat worker]]

/-- Five workers, as many as the pool has by default, that take a message each. -/
def lockup : List Event :=
  subscription ++ (List.range 5).flatMap delivery ++ List.replicate 5 (.reply 0 true) ++
    List.replicate 5 (.arrive 0)

/-- Two workers, one of which takes a message and gets the response to its
acknowledgement from the other one. -/
theorem unlocked_with_two : 0 < 2 ∧
    Along perform Careful (start 2) (subscription ++ delivery 0 ++
      [.reply 0 true, .arrive 0, .fetch 1, .execute 1 [], .resume 0]) ∧
    Throughout perform (fun machine => ¬ machine.Locked) (start 2) (subscription ++ delivery 0 ++
      [.reply 0 true, .arrive 0, .fetch 1, .execute 1 [], .resume 0]) :=
  have careful : Along perform Careful (start 2) (subscription ++ delivery 0 ++
      [.reply 0 true, .arrive 0, .fetch 1, .execute 1 [], .resume 0]) := by decide +kernel
  ⟨by decide, careful, unlocked_throughout (by decide) careful⟩

/-- Whatever the number of workers is, the pool would not lock itself up: it does. -/
theorem five_workers_lock_up : ¬ ∀ (workers : Nat) (events : List Event), 0 < workers →
    Throughout perform (fun machine => ¬ machine.Locked) (start workers) events := by
  intro never
  have result : (run perform (start 5) lockup).map (fun final => decide final.Locked) = .ok true := by
    decide +kernel
  rcases except_map_eq_ok result with ⟨final, completes, locked⟩
  exact (never 5 lockup (by decide)).last completes (of_decide_eq_true locked)

end Machine

end Client
end ProtobufMq
